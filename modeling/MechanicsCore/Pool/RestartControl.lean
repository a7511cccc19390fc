import MechanicsCore.Library.Slots
import MechanicsCore.Pool.Ownership

/-! Restart control over whole runs of the pool machine: how many workers
`reconcile_workers` starts in a window, and what `restart_blocked` says when it
returns. -/
namespace MechanicsCore.Pool.Lifecycle
open MechanicsCore.Library

section Limiter

/-- The instant of the `spawn_worker` call of `reconcile_workers` that a step makes, if it makes one. -/
def restartCall (p p' : State) : List Nat :=
  match p.supervisor, p'.supervisor with
  | .restart _, .spawning .create _ => [p.clock]
  | _, _ => []

/-- The states of the runs from `p₀`, each with the instants of the restarts so far. -/
inductive RestartLog (p₀ : State) : List Nat → State → Prop
  | start (initial : machine.initial p₀) : RestartLog p₀ [] p₀
  | next (log : List Nat) (p : State) (a : Action) (p' : State) (before : RestartLog p₀ log p)
      (taken : step p a = some p') : RestartLog p₀ (log ++ restartCall p p') p'

theorem spawnStep_frame {p p' : State} {created : Bool} {pc : SpawnPc} {next : SpawnPc ⊕ Bool}
    (taken : spawnStep p created pc = some (p',next)) :
    p' = {p with nextWorkerId := p'.nextWorkerId, workers := p'.workers, threads := p'.threads,
                 restartBlocked := p'.restartBlocked} := by
  cases pc with
  | await id t =>
    simp only [spawnStep,bind,Option.bind_eq_some_iff] at taken
    obtain ⟨w,found,taken⟩ := taken
    split at taken
    · cases taken
      rfl
    · cases taken
      rfl
    · split at taken
      · cases taken
        rfl
      · contradiction
  | remove id t =>
    simp only [spawnStep] at taken
    split at taken
    · split at taken
      · cases taken
        rfl
      · cases taken
        rfl
    · contradiction
  | _ =>
    simp only [spawnStep] at taken
    split at taken <;> cases taken <;> rfl

theorem reapStep_frame {p p' : State} {pc pc' : ReapPc} (taken : reapStep p pc = some (p',pc')) :
    p' = {p with workers := p'.workers} := by
  cases pc with
  | join handles =>
    cases handles with
    | nil =>
      cases taken
      rfl
    | cons t rest =>
      simp only [reapStep] at taken
      split at taken <;> cases taken
      rfl
  | counted live => cases taken
  | _ =>
    simp only [reapStep] at taken
    split at taken <;> cases taken
    rfl

theorem supervisorStep_guard {p p' : State} {a : SupervisorAction} (taken : supervisorStep p a = some p') :
    p'.clock = p.clock ∧ (p'.guard = p.guard ∧ restartCall p p' = [] ∨
      ∃ allowed, p.guard.allowRestart p.clock = (allowed,p'.guard) ∧
        restartCall p p' = if allowed then [p.clock] else []) := by
  unfold supervisorStep at taken
  split at taken
  case h_1 here =>
    split at taken <;> cases taken
    exact ⟨rfl,.inl ⟨rfl,by simp [restartCall,here]⟩⟩
  case h_2 here =>
    split at taken <;> cases taken
    exact ⟨rfl,.inl ⟨rfl,by simp [restartCall,here]⟩⟩
  case h_3 here =>
    cases taken
    exact ⟨rfl,.inl ⟨rfl,by simp [restartCall,here]⟩⟩
  case h_4 event here =>
    split at taken
    · split at taken <;> cases taken <;> exact ⟨rfl,.inl ⟨rfl,by simp [restartCall,here]⟩⟩
    · contradiction
  case h_5 t here =>
    split at taken <;> cases taken
    exact ⟨rfl,.inl ⟨rfl,by simp [restartCall,here]⟩⟩
  case h_6 here =>
    cases taken
    exact ⟨rfl,.inl ⟨rfl,by simp [restartCall,here]⟩⟩
  case h_7 here =>
    cases taken
    exact ⟨rfl,.inl ⟨rfl,by simp [restartCall,here]⟩⟩
  case h_8 live here =>
    dsimp only at taken
    split at taken <;> cases taken <;> exact ⟨rfl,.inl ⟨rfl,by simp [restartCall,here]⟩⟩
  case h_9 pc _ here =>
    obtain ⟨⟨q,pc'⟩,reaped,rfl⟩ := Option.map_eq_some_iff.mp taken
    have frame := reapStep_frame reaped
    refine ⟨by rw [frame],.inl ⟨by rw [frame],?_⟩⟩
    simp [restartCall,here]
  case h_10 here =>
    cases taken
    exact ⟨rfl,.inl ⟨rfl,by simp [restartCall,here]⟩⟩
  case h_11 missing here =>
    split at taken
    · rename_i guard verdict
      cases taken
      exact ⟨rfl,.inr ⟨true,verdict,by simp [restartCall,here]⟩⟩
    · rename_i guard verdict
      cases taken
      exact ⟨rfl,.inr ⟨false,verdict,by simp [restartCall,here]⟩⟩
  case h_12 pc missing here =>
    split at taken
    · obtain ⟨⟨q,next⟩,spawned,moved⟩ := Option.map_eq_some_iff.mp taken
      have frame := spawnStep_frame spawned
      have call : restartCall p p' = [] := by simp [restartCall,here]
      cases next with
      | inl pc' =>
        cases moved
        exact ⟨by rw [frame],.inl ⟨by rw [frame],call⟩⟩
      | inr ok =>
        cases ok <;> cases moved <;> exact ⟨by rw [frame],.inl ⟨by rw [frame],call⟩⟩
    · contradiction
  case h_13 => contradiction

theorem ownerStep_guard {p p' : State} {a : OwnerAction} (taken : ownerStep p a = some p') :
    p'.clock = p.clock ∧ p'.guard = p.guard ∧ (p'.supervisor = p.supervisor ∨ p'.supervisor = .select) := by
  unfold ownerStep at taken
  split at taken
  case h_3 pc left here =>
    split at taken
    · obtain ⟨⟨q,next⟩,spawned,moved⟩ := Option.map_eq_some_iff.mp taken
      rw [spawnStep_frame spawned] at moved
      cases next with
      | inl pc' =>
        cases moved
        exact ⟨rfl,rfl,.inl rfl⟩
      | inr ok => cases ok <;> cases moved <;> exact ⟨rfl,rfl,.inl rfl⟩
    · contradiction
  case h_4 here =>
    cases taken
    exact ⟨rfl,rfl,.inr rfl⟩
  case h_10 built t todo here =>
    obtain ⟨q,requested,moved⟩ := Option.map_eq_some_iff.mp taken
    obtain ⟨w,_,⟨_,rfl⟩ | rfl⟩ := requestShutdown_cases requested <;> cases moved <;> exact ⟨rfl,rfl,.inl rfl⟩
  case h_17 => contradiction
  -- The other steps only move the owner, past a check of its own at most.
  all_goals
    first
    | cases taken
      exact ⟨rfl,rfl,.inl rfl⟩
    | split at taken <;> cases taken <;> exact ⟨rfl,rfl,.inl rfl⟩

/-- What the limiter sees of any step: time, and the verdicts the supervisor asks for. -/
theorem step_guard {p p' : State} {a : Action} (taken : step p a = some p') :
    p.clock ≤ p'.clock ∧ (p'.guard = p.guard ∧ restartCall p p' = [] ∨
      ∃ allowed, p.guard.allowRestart p.clock = (allowed,p'.guard) ∧
        restartCall p p' = if allowed then [p.clock] else []) := by
  have quiet (same : p'.supervisor = p.supervisor ∨ p'.supervisor = .select) : restartCall p p' = [] := by
    unfold restartCall
    split
    · rename_i missing left here there
      rcases same with same | same <;> simp [same,here] at there
    · rfl
  cases a with
  | supervisor a =>
    obtain ⟨still,guard⟩ := supervisorStep_guard taken
    exact ⟨still.ge,guard⟩
  | owner a =>
    obtain ⟨still,guard,same⟩ := ownerStep_guard taken
    exact ⟨still.ge,.inl ⟨guard,quiet same⟩⟩
  | worker t a =>
    obtain ⟨w,w',exits,queued,_,rfl,_⟩ := workerStep_cases taken
    exact ⟨le_rfl,.inl ⟨rfl,quiet (.inl rfl)⟩⟩
  | client i =>
    simp only [Lifecycle.step,bind,Option.bind_eq_some_iff] at taken
    obtain ⟨pc,_,⟨q,pc'⟩,reaped,moved⟩ := taken
    rw [reapStep_frame reaped] at moved
    cases moved
    exact ⟨le_rfl,.inl ⟨rfl,quiet (.inl rfl)⟩⟩
  | enterLiveWorkers =>
    simp only [Lifecycle.step] at taken
    split at taken <;> cases taken
    exact ⟨le_rfl,.inl ⟨rfl,quiet (.inl rfl)⟩⟩
  | submit =>
    simp only [Lifecycle.step] at taken
    split at taken <;> cases taken
    exact ⟨le_rfl,.inl ⟨rfl,quiet (.inl rfl)⟩⟩
  | elapse nanos =>
    cases taken
    exact ⟨Nat.le_add_right _ _,.inl ⟨rfl,quiet (.inl rfl)⟩⟩

theorem RestartLog.remembers {p₀ p : State} {log : List Nat} (run : RestartLog p₀ log p) :
    p.guard.Remembers log p.clock ∧ p.guard.window = p₀.guard.window ∧
      p.guard.maxRestarts = p₀.guard.maxRestarts := by
  induction run with
  | start initial =>
    obtain ⟨desired,capacity,window,maxRestarts,_,_,_,rfl⟩ := initial
    exact ⟨.new window maxRestarts 0,rfl,rfl⟩
  | next log p a p' before taken ih =>
    obtain ⟨known,window,limit⟩ := ih
    obtain ⟨later,⟨guard,call⟩ | ⟨allowed,verdict,call⟩⟩ := step_guard taken
    · rw [guard,call,List.append_nil]
      exact ⟨known.later later,window,limit⟩
    · have sameWindow := p.guard.allowRestart_window p.clock
      have sameLimit := p.guard.allowRestart_maxRestarts p.clock
      rw [verdict] at sameWindow sameLimit
      refine ⟨?_,sameWindow.trans window,sameLimit.trans limit⟩
      cases allowed with
      | true =>
        rw [call,if_pos rfl]
        exact (known.allow verdict).later later
      | false =>
        rw [call,if_neg Bool.false_ne_true,List.append_nil]
        exact (known.refuse verdict).later later

end Limiter

section Reconcile

/-- The thread that the spawn of a running `reconcile_workers` waits for. -/
def starting (p : State) : Option ThreadId :=
  match p.supervisor with
  | .spawning (.insert _ t) _ => some t
  | .spawning (.await _ t) _ => some t
  | .spawning (.remove _ t) _ => some t
  | .spawning (.join t) _ => some t
  | _ => none

/-- The spawn under way has failed, or will: its thread has not reported success. -/
def FailedStart (p : State) (t : ThreadId) : Prop :=
  starting p = some t ∧ ∀ w, p.threads[t]? = some w → w.ready ≠ some true

/-- A worker thread ends, other than by the failure of the spawn under way. -/
def WorkerExits (p : State) (a : Action) : Prop := ∃ t, a = .worker t .finish ∧ ¬ FailedStart p t

/-- The states a call of `reconcile_workers` on an open pool goes through, with any
steps of the other parties in between but worker exits; it returns at `select`. -/
inductive Reconciles (p : State) : State → Prop
  | enter (q : State) (here : p.supervisor = .reconcile) (isOpen : p.closed = false)
      (taken : step p (.supervisor .next) = some q) : Reconciles p q
  | next (q : State) (a : Action) (q' : State) (before : Reconciles p q) (inside : q.supervisor ≠ .select)
      (stays : ¬ WorkerExits q a) (taken : step q a = some q') : Reconciles p q'

/-- No entry of the map belongs to a finished thread. -/
def Live (threads : List Worker) (workers : List (WorkerId × ThreadId)) : Prop :=
  ∀ entry ∈ workers, ¬ Finished threads entry.2

def Starts (threads : List Worker) (t : ThreadId) : Prop :=
  ∀ w, threads[t]? = some w → w.ready = some true → w.phase ≠ .finished

/-- All workers but the one being spawned, and the spawns still to come, make up the desired count. -/
def Spare (p : State) (id : WorkerId) (missing : Nat) : Prop :=
  Live p.threads (p.removeHandles [id]).workers ∧
    (p.removeHandles [id]).workers.length + missing + 1 = p.desiredWorkerCount

/-- What a call of `reconcile_workers` knows of the worker map at each of its program counters. -/
def Tally (p : State) : SupervisorPc → Prop
  | .reap .collect => True
  | .reap (.remove ids) => ∀ entry ∈ p.workers, Finished p.threads entry.2 → entry.1 ∈ ids
  | .reap (.join _) => Live p.threads p.workers
  | .reap .count => Live p.threads p.workers
  | .reap (.counted live) => Live p.threads p.workers ∧ live = p.workers.length
  | .restart missing =>
    Live p.threads p.workers ∧ p.workers.length + missing = p.desiredWorkerCount ∧
      (missing = 0 → p.restartBlocked = false)
  | .spawning .create missing => Live p.threads p.workers ∧ p.workers.length + missing + 1 = p.desiredWorkerCount
  | .spawning (.insert id t) missing => Spare p id missing ∧ Starts p.threads t
  | .spawning (.await id t) missing =>
    Spare p id missing ∧ Starts p.threads t ∧ (¬ Finished p.threads t → (id,t) ∈ p.workers)
  | .spawning (.remove id _) missing => Spare p id missing
  | .spawning (.join t) missing =>
    Live p.threads p.workers ∧ p.workers.length + missing + 1 = p.desiredWorkerCount ∧ ∀ entry ∈ p.workers, entry.2 ≠ t
  | .select => p.restartBlocked = true ↔ p.workers.length < p.desiredWorkerCount
  | _ => False

/-- What a step of another party may do to a call: reap finished entries, and end
the thread of a failed spawn. -/
structure Undisturbed (p p' : State) : Prop where
  supervisor : p'.supervisor = p.supervisor
  desired : p'.desiredWorkerCount = p.desiredWorkerCount
  flag : p'.restartBlocked = p.restartBlocked
  reaped : ∃ keep, p'.workers = p.workers.filter keep ∧
    ∀ entry ∈ p.workers, ¬ Finished p.threads entry.2 → keep entry = true
  lasting : ∀ t, Finished p.threads t → Finished p'.threads t
  ended : ∀ t, Finished p'.threads t → Finished p.threads t ∨ FailedStart p t
  started : ∀ t, Starts p.threads t → Starts p'.threads t

theorem Undisturbed.untouched {p p' : State} (supervisor : p'.supervisor = p.supervisor)
    (desired : p'.desiredWorkerCount = p.desiredWorkerCount) (flag : p'.restartBlocked = p.restartBlocked)
    (workers : p'.workers = p.workers) (threads : p'.threads = p.threads) : Undisturbed p p' where
  supervisor := supervisor
  desired := desired
  flag := flag
  reaped := ⟨fun _ => true,by rw [workers,List.filter_true],fun _ _ _ => rfl⟩
  lasting := fun t => threads ▸ id
  ended := fun t finished => .inl (threads ▸ finished)
  started := fun t => threads ▸ id

theorem Spare.live {p : State} {id : WorkerId} {missing : Nat} {t : ThreadId} (spare : Spare p id missing)
    (named : Named p.threads id t) (names : ∀ id t, (id,t) ∈ p.workers → Named p.threads id t) :
    ∀ entry ∈ (p.removeHandles [id]).workers, ¬ Finished p.threads entry.2 ∧ entry.2 ≠ t := by
  rintro ⟨other,u⟩ member
  refine ⟨spare.1 _ member,fun same => ?_⟩
  obtain ⟨inMap,key⟩ := List.mem_filter.mp member
  obtain ⟨w,found,name⟩ := names other u inMap
  obtain ⟨v,found',name'⟩ := named
  subst same
  have equal : w = v := Option.some.inj (found.symm.trans found')
  rw [equal,name'] at name
  simp [name] at key

section Others
variable {p p' : State}

theorem Undisturbed.live (quiet : Undisturbed p p') (live : Live p.threads p.workers)
    (spared : ∀ t, FailedStart p t → ∀ entry ∈ p.workers, entry.2 ≠ t) :
    p'.workers = p.workers ∧ Live p'.threads p'.workers := by
  obtain ⟨keep,workers,kept⟩ := quiet.reaped
  have same : p'.workers = p.workers := by
    rw [workers,List.filter_eq_self]
    exact fun entry member => kept entry member (live entry member)
  refine ⟨same,fun entry member finished => ?_⟩
  rw [same] at member
  rcases quiet.ended entry.2 finished with before | failed
  · exact live entry member before
  · exact spared entry.2 failed entry member rfl

theorem Undisturbed.spare (quiet : Undisturbed p p') {id : WorkerId} {missing : Nat} {t : ThreadId}
    (spare : Spare p id missing) (named : Named p.threads id t) (here : starting p = some t)
    (names : ∀ id t, (id,t) ∈ p.workers → Named p.threads id t) : Spare p' id missing := by
  obtain ⟨keep,workers,kept⟩ := quiet.reaped
  have apart := spare.live named names
  have same : (p'.removeHandles [id]).workers = (p.removeHandles [id]).workers := by
    show p'.workers.filter _ = p.workers.filter _
    rw [workers,List.filter_filter]
    apply List.filter_congr
    intro entry member
    by_cases key : entry.1 = id
    · simp [key]
    · have inside : entry ∈ (p.removeHandles [id]).workers := List.mem_filter.mpr ⟨member,by simpa using key⟩
      simp [kept entry member (apart entry inside).1]
  refine ⟨fun entry member finished => ?_,by rw [same,quiet.desired]; exact spare.2⟩
  rw [same] at member
  rcases quiet.ended entry.2 finished with before | failed
  · exact (apart entry member).1 before
  · exact (apart entry member).2 (Option.some.inj (failed.1.symm.trans here))

theorem Undisturbed.tally (quiet : Undisturbed p p') (owned : Owned p) (inside : p.supervisor ≠ .select)
    (tally : Tally p p.supervisor) : Tally p' p'.supervisor := by
  have names := owned.books.named
  have facts := owned.supervisor
  have calm (idle : starting p = none) : ∀ t, FailedStart p t → ∀ entry ∈ p.workers, entry.2 ≠ t := by
    rintro t ⟨here,_⟩
    simp [idle] at here
  rw [quiet.supervisor]
  cases here : p.supervisor with
  | select => exact absurd here inside
  | reap pc =>
    rw [here] at tally
    have idle : starting p = none := by simp [starting,here]
    cases pc with
    | collect => trivial
    | remove ids =>
      obtain ⟨keep,workers,_⟩ := quiet.reaped
      intro entry member finished
      have before : entry ∈ p.workers := by
        rw [workers] at member
        exact (List.mem_filter.mp member).1
      rcases quiet.ended entry.2 finished with old | failed
      · exact tally entry before old
      · exact absurd rfl (calm idle entry.2 failed entry before)
    | join handles => exact (quiet.live tally (calm idle)).2
    | count => exact (quiet.live tally (calm idle)).2
    | counted live =>
      obtain ⟨same,alive⟩ := quiet.live tally.1 (calm idle)
      exact ⟨alive,by rw [same]; exact tally.2⟩
  | restart missing =>
    rw [here] at tally
    obtain ⟨live,count,clear⟩ := tally
    obtain ⟨same,alive⟩ := quiet.live live (calm (by simp [starting,here]))
    exact ⟨alive,by rw [same,quiet.desired]; exact count,by rw [quiet.flag]; exact clear⟩
  | spawning pc missing =>
    rw [here] at tally facts
    cases pc with
    | create =>
      obtain ⟨same,alive⟩ := quiet.live tally.1 (calm (by simp [starting,here]))
      exact ⟨alive,by rw [same,quiet.desired]; exact tally.2⟩
    | insert id t =>
      exact ⟨quiet.spare tally.1 facts (by simp [starting,here]) names,quiet.started t tally.2⟩
    | await id t =>
      obtain ⟨spare,starts,inMap⟩ := tally
      refine ⟨quiet.spare spare facts (by simp [starting,here]) names,quiet.started t starts,fun unfinished => ?_⟩
      obtain ⟨keep,workers,kept⟩ := quiet.reaped
      have before : ¬ Finished p.threads t := fun finished => unfinished (quiet.lasting t finished)
      rw [workers]
      exact List.mem_filter.mpr ⟨inMap before,kept _ (inMap before) before⟩
    | remove id t => exact quiet.spare tally facts.1 (by simp [starting,here]) names
    | join t =>
      obtain ⟨live,count,apart⟩ := tally
      have own : starting p = some t := by simp [starting,here]
      obtain ⟨same,alive⟩ := quiet.live live fun u failed =>
        Option.some.inj (own.symm.trans failed.1) ▸ apart
      exact ⟨alive,by rw [same,quiet.desired]; exact count,by rw [same]; exact apart⟩
  | _ =>
    rw [here] at tally
    exact tally

theorem finished_set {threads : List Worker} {t u : ThreadId} {w' : Worker}
    (finished : Finished (threads.set t w') u) : Finished threads u ∨ u = t ∧ w'.phase = .finished := by
  obtain ⟨v,at_u,past⟩ := finished
  rcases found_set at_u with ⟨rfl,rfl⟩ | ⟨_,old⟩
  · exact .inr ⟨rfl,by cases phase : v.phase <;> simp [phase,Phase.rank] at past ⊢⟩
  · exact .inl ⟨v,old,past⟩

theorem finished_same {threads : List Worker} {t u : ThreadId} {w : Worker} (found : threads[t]? = some w)
    (w' : Worker) (same : w'.phase = w.phase) (finished : Finished (threads.set t w') u) : Finished threads u := by
  rcases finished_set finished with before | ⟨rfl,done⟩
  · exact before
  · exact ⟨w,found,by simp [← same,done,Phase.rank]⟩

theorem finished_append {threads : List Worker} {u : ThreadId} {w : Worker} (unfinished : w.phase.rank < 5)
    (finished : Finished (threads ++ [w]) u) : Finished threads u := by
  obtain ⟨v,at_u,past⟩ := finished
  rw [List.getElem?_append] at at_u
  split at at_u
  · exact ⟨v,at_u,past⟩
  · have new : v = w := by simpa using List.mem_of_getElem? at_u
    subst new
    omega

theorem Tally.reapStep {pc pc' : ReapPc} (tally : Tally p (.reap pc)) (taken : reapStep p pc = some (p',pc')) :
    Tally p' (.reap pc') := by
  cases pc with
  | collect =>
    simp only [Lifecycle.reapStep] at taken
    split at taken
    · obtain ⟨rfl,rfl⟩ := Prod.mk.inj (Option.some.inj taken)
      have listed : ∀ entry ∈ p.workers, Finished p.threads entry.2 →
          entry.1 ∈ (p.workers.filter fun entry => p.isFinished entry.2).map Prod.fst := by
        intro entry member finished
        exact List.mem_map_of_mem (List.mem_filter.mpr ⟨member,(isFinished_iff p entry.2).mpr finished⟩)
      split
      · rename_i none
        intro entry member finished
        have := listed entry member finished
        simp [none] at this
      · exact listed
    · contradiction
  | remove ids =>
    simp only [Lifecycle.reapStep] at taken
    split at taken
    · obtain ⟨rfl,rfl⟩ := Prod.mk.inj (Option.some.inj taken)
      intro entry member finished
      obtain ⟨inMap,kept⟩ := List.mem_filter.mp member
      simp [tally entry inMap finished] at kept
    · contradiction
  | join handles =>
    cases handles with
    | nil =>
      obtain ⟨rfl,rfl⟩ := Prod.mk.inj (Option.some.inj taken)
      exact tally
    | cons t rest =>
      simp only [Lifecycle.reapStep] at taken
      split at taken
      · obtain ⟨rfl,rfl⟩ := Prod.mk.inj (Option.some.inj taken)
        exact tally
      · contradiction
  | count =>
    simp only [Lifecycle.reapStep] at taken
    split at taken
    · obtain ⟨rfl,rfl⟩ := Prod.mk.inj (Option.some.inj taken)
      exact ⟨tally,rfl⟩
    · contradiction
  | counted live => cases taken

theorem removeHandles_absent {p : State} {id : WorkerId} (absent : ∀ entry ∈ p.workers, entry.1 ≠ id) :
    (p.removeHandles [id]).workers = p.workers := by
  show p.workers.filter _ = _
  rw [List.filter_eq_self]
  intro entry member
  simpa using absent entry member

theorem removeHandles_length_eq {p : State} {id : WorkerId} {t : ThreadId}
    (keys : (p.workers.map Prod.fst).Nodup) (member : (id,t) ∈ p.workers) :
    (p.removeHandles [id]).workers.length + 1 = p.workers.length := by
  have once : (p.workers.map Prod.fst).count id = 1 :=
    List.count_eq_one_of_mem keys (List.mem_map_of_mem (f := Prod.fst) member)
  rw [List.count,List.countP_map] at once
  show (p.workers.filter _).length + 1 = _
  rw [← List.countP_eq_length_filter,p.workers.length_eq_countP_add_countP (fun entry => entry.1 == id),Nat.add_comm]
  congr 1
  · exact once.symm
  · apply List.countP_congr
    intro entry _
    simp

def TallyNext (p : State) (missing : Nat) : SpawnPc ⊕ Bool → Prop
  | .inl pc => Tally p (.spawning pc missing)
  | .inr true => Tally p (.restart missing)
  | .inr false => p.workers.length < p.desiredWorkerCount

theorem Tally.spawnStep {slots : Nat} {held : List ThreadId} (books : Books p slots held)
    {pc : SpawnPc} (facts : SpawnFacts p.threads pc) {missing : Nat} (tally : Tally p (.spawning pc missing))
    {created : Bool} {next : SpawnPc ⊕ Bool} (taken : spawnStep p created pc = some (p',next)) :
    TallyNext p' missing next := by
  cases pc with
  | create =>
    obtain ⟨alive,count⟩ := tally
    simp only [Lifecycle.spawnStep] at taken
    split at taken
    · cases taken
      have unused : ∀ entry ∈ p.workers, entry.1 ≠ p.nextWorkerId := by
        rintro ⟨id,t⟩ member same
        obtain ⟨w,found,name⟩ := books.named id t member
        have used := books.fresh w.workerId (List.mem_map_of_mem (List.mem_of_getElem? found))
        rw [name,show id = p.nextWorkerId from same] at used
        exact absurd used (Nat.lt_irrefl _)
      have same := removeHandles_absent unused
      refine ⟨⟨?_,?_⟩,?_⟩
      · intro entry member finished
        exact alive entry (same ▸ member) (finished_append (by simp [Phase.rank]) finished)
      · exact (congrArg (fun workers => workers.length + missing + 1) same).trans count
      · intro w found ready
        have new : w = ⟨p.nextWorkerId,.starting,none,.empty⟩ := by simpa using found.symm
        simp [new] at ready
    · cases taken
      show p.workers.length < p.desiredWorkerCount
      omega
  | insert id t =>
    obtain ⟨spare,starts⟩ := tally
    simp only [Lifecycle.spawnStep] at taken
    split at taken
    · cases taken
      have same : ((p.insertHandle id t).removeHandles [id]).workers = (p.removeHandles [id]).workers := by
        show List.filter _ (p.workers.filter _ ++ [(id,t)]) = p.workers.filter _
        rw [List.filter_append,List.filter_filter]
        have own : [(id,t)].filter (fun entry : WorkerId × ThreadId => !([id].contains entry.1)) = [] := by simp
        rw [own,List.append_nil]
        exact List.filter_congr fun entry _ => by by_cases key : entry.1 = id <;> simp [key]
      refine ⟨?_,starts,fun _ => by simp [State.insertHandle]⟩
      unfold Spare
      rw [same]
      exact spare
    · contradiction
  | await id t =>
    obtain ⟨spare,starts,inMap⟩ := tally
    simp only [Lifecycle.spawnStep,bind,Option.bind_eq_some_iff] at taken
    obtain ⟨w,found,taken⟩ := taken
    split at taken
    · rename_i ready
      cases taken
      have unfinished : ¬ Finished p.threads t := by
        rintro ⟨v,found',past⟩
        have value : v = w := Option.some.inj (found'.symm.trans found)
        subst value
        apply starts v found ready
        cases phase : v.phase <;> simp [phase,Phase.rank] at past ⊢
      have member := inMap unfinished
      refine ⟨fun entry inside finished => ?_,?_,fun _ => rfl⟩
      · have before : Finished p.threads entry.2 := finished_same found {w with ready := none} rfl finished
        by_cases key : entry.1 = id
        · have named := books.named entry.1 entry.2 inside
          rw [key] at named
          exact unfinished (Named.unique books.ordered named facts ▸ before)
        · exact spare.1 entry (List.mem_filter.mpr ⟨inside,by simpa using key⟩) before
      · have size := removeHandles_length_eq books.keys member
        have count := spare.2
        show p.workers.length + missing = p.desiredWorkerCount
        omega
    · cases taken
      exact ⟨fun entry inside finished => spare.1 entry inside (finished_same found {w with ready := none} rfl finished),spare.2⟩
    · split at taken <;> cases taken
      exact spare
  | remove id t =>
    simp only [Lifecycle.spawnStep] at taken
    split at taken
    · split at taken
      · rename_i u handle
        cases taken
        have apart := Spare.live tally (books.named id u (handle_mem handle)) books.named
        exact ⟨tally.1,tally.2,fun entry inside => (apart entry inside).2⟩
      · rename_i absent
        cases taken
        have unused : ∀ entry ∈ p.workers, entry.1 ≠ id := by
          intro entry inside same
          have := List.lookup_eq_none_iff.mp absent entry inside
          simp [same] at this
        have count := tally.2
        rw [removeHandles_absent unused] at count
        show p.workers.length < p.desiredWorkerCount
        omega
    · contradiction
  | join t =>
    simp only [Lifecycle.spawnStep] at taken
    split at taken <;> cases taken
    obtain ⟨alive,count,apart⟩ := tally
    show p.workers.length < p.desiredWorkerCount
    omega

/-- One step of the call itself: every program counter hands its tally to the next. -/
theorem Tally.supervisorStep (owned : Owned p) (inside : p.supervisor ≠ .select)
    (tally : Tally p p.supervisor) {a : SupervisorAction} (taken : supervisorStep p a = some p') :
    Tally p' p'.supervisor := by
  have facts := owned.supervisor
  unfold Lifecycle.supervisorStep at taken
  split at taken
  case h_1 here | h_2 here | h_3 here => exact absurd here inside
  case h_4 here | h_5 here | h_6 here | h_7 here =>
    rw [here] at tally
    exact absurd tally id
  case h_8 live here =>
    rw [here] at tally
    obtain ⟨alive,rfl⟩ := tally
    dsimp only at taken
    split at taken
    · cases taken
      show false = true ↔ p.workers.length < p.desiredWorkerCount
      simp only [Bool.false_eq_true,false_iff]
      omega
    · cases taken
      exact ⟨alive,by show p.workers.length + _ = p.desiredWorkerCount; omega,fun none => by contradiction⟩
  case h_9 pc _ here =>
    rw [here] at tally facts
    obtain ⟨⟨q,pc'⟩,reaped,rfl⟩ := Option.map_eq_some_iff.mp taken
    have after := Tally.reapStep tally reaped
    exact after
  case h_10 here =>
    rw [here] at tally
    cases taken
    obtain ⟨alive,count,clear⟩ := tally
    show p.restartBlocked = true ↔ p.workers.length < p.desiredWorkerCount
    simp only [clear rfl,Bool.false_eq_true,false_iff]
    omega
  case h_11 missing here =>
    rw [here] at tally
    obtain ⟨alive,count,clear⟩ := tally
    split at taken
    · cases taken
      exact ⟨alive,count⟩
    · cases taken
      show true = true ↔ p.workers.length < p.desiredWorkerCount
      simp only [true_iff]
      omega
  case h_12 pc missing here =>
    rw [here] at tally facts
    split at taken
    · obtain ⟨⟨q,next⟩,spawned,moved⟩ := Option.map_eq_some_iff.mp taken
      have after := Tally.spawnStep owned.books facts tally spawned
      cases next with
      | inl pc' =>
        cases moved
        exact after
      | inr ok =>
        cases ok with
        | true =>
          cases moved
          exact after
        | false =>
          cases moved
          exact ⟨fun _ => after,fun _ => rfl⟩
    · contradiction
  case h_13 => contradiction

theorem Undisturbed.thread {t : ThreadId} {w : Worker} (found : p.threads[t]? = some w) (w' : Worker)
    (later : w.phase.rank ≤ w'.phase.rank)
    (ended : w'.phase = .finished → w.phase = .finished ∨ FailedStart p t)
    (ready : w'.phase = .finished → w'.ready = w.ready) (exits : List WorkerExit) (queued : Nat) (owner : OwnerPc) :
    Undisturbed p {p with threads := p.threads.set t w', exits := exits, queued := queued, owner := owner} where
  supervisor := rfl
  desired := rfl
  flag := rfl
  reaped := ⟨fun _ => true,(List.filter_true _).symm,fun _ _ _ => rfl⟩
  lasting := by
    rintro u ⟨v,at_u,past⟩
    by_cases own : t = u
    · subst own
      have value : v = w := Option.some.inj (at_u.symm.trans found)
      have bound := (List.getElem?_eq_some_iff.mp found).1
      exact ⟨w',by simp [bound],past.trans (value ▸ later)⟩
    · exact ⟨v,by rw [← at_u]; exact List.getElem?_set_ne own,past⟩
  ended := by
    intro u finished
    rcases finished_set finished with before | ⟨rfl,done⟩
    · exact .inl before
    · rcases ended done with before | failed
      · exact .inl ⟨w,found,by simp [before,Phase.rank]⟩
      · exact .inr failed
  started := by
    intro u starts v at_u isReady done
    by_cases own : t = u
    · subst own
      have value : v = w' := by
        have bound := (List.getElem?_eq_some_iff.mp found).1
        simpa [bound] using at_u.symm
      subst value
      rw [ready done] at isReady
      rcases ended done with before | ⟨_,unready⟩
      · exact starts w found isReady before
      · exact unready w found isReady
    · exact starts v (by rw [← at_u]; exact (List.getElem?_set_ne own).symm) isReady done

theorem workerStep_undisturbed {t : ThreadId} {a : WorkerAction} (stays : ¬ WorkerExits p (.worker t a))
    (taken : workerStep p t a = some p') : Undisturbed p p' := by
  obtain ⟨w,w',exits,queued,found,rfl,_,later,_,_,_,ends⟩ := workerStep_cases taken
  refine .thread found w' later (fun done => .inr ?_) (fun done => (ends done).2) exits queued p.owner
  by_contra exit
  exact stays ⟨t,by rw [(ends done).1],exit⟩

theorem ownerStep_undisturbed (owned : Owned p) (active : ¬ Idle p.supervisor) {a : OwnerAction}
    (taken : ownerStep p a = some p') : Undisturbed p p' := by
  have facts := owned.owner
  unfold ownerStep at taken
  split at taken
  case h_3 here =>
    rw [here] at facts
    exact absurd (.inl facts.1) active
  case h_4 here =>
    rw [here] at facts
    exact absurd (.inl facts) active
  case h_10 built t todo here =>
    obtain ⟨q,requested,moved⟩ := Option.map_eq_some_iff.mp taken
    obtain ⟨w,found,⟨_,rfl⟩ | rfl⟩ := requestShutdown_cases requested
    · cases moved
      exact .untouched rfl rfl rfl rfl rfl
    · cases moved
      exact .thread found {w with shutdown := .pending} le_rfl .inl (fun _ => rfl) p.exits p.queued _
  case h_14 here =>
    rw [here] at facts
    exact absurd facts active
  case h_17 => contradiction
  all_goals
    first
    | cases taken
      exact .untouched rfl rfl rfl rfl rfl
    | split at taken <;> cases taken <;> exact .untouched rfl rfl rfl rfl rfl

/-- Other callers of `live_workers` remove finished entries only. -/
theorem reapStep_undisturbed (owned : Owned p) {pc pc' : ReapPc} (facts : ReapFacts p.threads pc)
    (taken : reapStep p pc = some (p',pc')) : Undisturbed p p' := by
  cases pc with
  | remove ids =>
    simp only [reapStep] at taken
    split at taken
    · cases taken
      refine ⟨rfl,rfl,rfl,⟨_,rfl,?_⟩,fun _ => id,fun _ => .inl,fun _ => id⟩
      rintro ⟨id,t⟩ member unfinished
      have kept : id ∉ ids := by
        intro reaped
        obtain ⟨u,named,finished⟩ := facts id reaped
        exact unfinished (Named.unique owned.books.ordered named (owned.books.named id t member) ▸ finished)
      simpa using kept
    · contradiction
  | join handles =>
    cases handles with
    | nil =>
      cases taken
      exact .untouched rfl rfl rfl rfl rfl
    | cons t rest =>
      simp only [reapStep] at taken
      split at taken <;> cases taken
      exact .untouched rfl rfl rfl rfl rfl
  | counted live => cases taken
  | _ =>
    simp only [reapStep] at taken
    split at taken <;> cases taken
    exact .untouched rfl rfl rfl rfl rfl

/-- Every step of the machine during a call keeps its tally. -/
theorem Tally.step (owned : Owned p) (inside : p.supervisor ≠ .select) (tally : Tally p p.supervisor)
    {a : Action} (stays : ¬ WorkerExits p a) (taken : step p a = some p') : Tally p' p'.supervisor := by
  have active : ¬ Idle p.supervisor := by
    rintro (off | off) <;> rw [off] at tally <;> exact tally
  cases a with
  | supervisor a => exact tally.supervisorStep owned inside taken
  | worker t a => exact (workerStep_undisturbed stays taken).tally owned inside tally
  | owner a => exact (ownerStep_undisturbed owned active taken).tally owned inside tally
  | client i =>
    simp only [Lifecycle.step,bind,Option.bind_eq_some_iff] at taken
    obtain ⟨pc,here,⟨q,pc'⟩,reaped,moved⟩ := taken
    have quiet := reapStep_undisturbed owned (owned.books.clients pc (List.mem_of_getElem? here)) reaped
    have after := quiet.tally owned inside tally
    cases moved
    exact after
  | enterLiveWorkers =>
    simp only [Lifecycle.step] at taken
    split at taken <;> cases taken
    exact tally
  | submit =>
    simp only [Lifecycle.step] at taken
    split at taken <;> cases taken
    exact tally
  | elapse nanos =>
    cases taken
    exact tally

end Others

theorem Reconciles.tally {p q : State} (call : Reconciles p q) (reached : machine.Reachable p) :
    machine.Reachable q ∧ Tally q q.supervisor := by
  induction call with
  | enter q here isOpen taken =>
    refine ⟨.next p (Action.supervisor .next) q reached trivial taken,?_⟩
    simp only [Lifecycle.step,supervisorStep,here,isOpen,Option.some.injEq] at taken
    subst taken
    trivial
  | next q a q' before inside stays taken ih =>
    exact ⟨.next q a q' ih.1 trivial taken,ih.2.step (reachable_owned ih.1) inside stays taken⟩

/-- In every run, no closed interval of the window's length has more restarts than
the configuration allows; and every `reconcile_workers` call on an open pool, unless
a worker exits meanwhile, returns with `restart_blocked` set exactly when workers
are still missing. -/
theorem restart_control :
    (∀ p₀ log p, RestartLog p₀ log p → ∀ start, RestartGuard.within log start p₀.guard.window ≤ p₀.guard.maxRestarts) ∧
    ∀ p q, machine.Reachable p → Reconciles p q → q.supervisor = .select →
      (q.restartBlocked = true ↔ q.workers.length < q.desiredWorkerCount) := by
  constructor
  · intro p₀ log p run start
    obtain ⟨known,window,limit⟩ := run.remembers
    rw [← window,← limit]
    exact known.bounded start
  · intro p q reached call returned
    have tally := (call.tally reached).2
    rwa [returned] at tally

def replayLog : List Nat → State → List Action → Option (List Nat × State)
  | log, p, [] => some (log,p)
  | log, p, a::rest => (step p a).bind fun p' => replayLog (log ++ restartCall p p') p' rest

theorem replayLog_run {p₀ : State} (actions : List Action) {log log' : List Nat} {p p' : State}
    (run : RestartLog p₀ log p) (ran : replayLog log p actions = some (log',p')) : RestartLog p₀ log' p' := by
  induction actions generalizing log p with
  | nil =>
    cases ran
    exact run
  | cons a rest ih =>
    obtain ⟨q,taken,after⟩ := Option.bind_eq_some_iff.mp ran
    exact ih (.next log p a q run taken) after

def insideCall (p : State) (a : Action) : Bool :=
  p.supervisor != .select && match a with
    | .worker t .finish => starting p == some t && p.threads[t]?.all fun w => w.ready != some true
    | _ => true

theorem insideCall_stays {p : State} {a : Action} (passed : insideCall p a = true) :
    p.supervisor ≠ .select ∧ ¬ WorkerExits p a := by
  unfold insideCall at passed
  simp only [Bool.and_eq_true,bne_iff_ne] at passed
  refine ⟨passed.1,?_⟩
  rintro ⟨t,rfl,exit⟩
  simp only [Bool.and_eq_true,beq_iff_eq] at passed
  refine exit ⟨passed.2.1,fun w found => ?_⟩
  simpa [found] using passed.2.2

theorem replayBy_reconciles {p : State} (actions : List Action) {q q' : State} (call : Reconciles p q)
    (ran : machine.replayBy insideCall q actions = some q') : Reconciles p q' := by
  induction actions generalizing q with
  | nil =>
    cases ran
    exact call
  | cons a rest ih =>
    simp only [Machine.replayBy] at ran
    split at ran
    · rename_i passed
      obtain ⟨middle,taken,after⟩ := Option.bind_eq_some_iff.mp ran
      obtain ⟨inside,stays⟩ := insideCall_stays passed
      exact ih (.next q a middle call inside stays taken) after
    · contradiction

def panicked : List Action := failedRestart.take 16

/-- The replacement fails to start and ends while the supervisor joins it. -/
def failedCall : List Action := failedRestart.drop 17 ++ [.worker 1 .sendExit,.worker 1 .finish,.supervisor .next]

private theorem failedCall_runs : ∃ p, machine.Reachable p ∧
    (p.supervisor == .reconcile && !p.closed &&
      ((step p (.supervisor .next)).bind fun q => machine.replayBy insideCall q failedCall).any fun q =>
        q.supervisor == .select && decide (q.workers.length < q.desiredWorkerCount)) = true :=
  machine.replay_witness panicked (.new 1 1 1000 1) _ ⟨1,1,1000,1,by decide,by decide,by decide,rfl⟩
    (by decide +kernel)

private theorem failedRestart_logs : ∃ p, RestartLog (.new 1 1 1000 1) [0] p := by
  have ran : (replayLog [] (.new 1 1 1000 1) failedRestart).any (fun run => run.1 == [0]) = true := by
    decide
  simp only [Option.any_eq_true,beq_iff_eq] at ran
  obtain ⟨⟨log,p⟩,replayed,rfl⟩ := ran
  exact ⟨p,replayLog_run failedRestart (.start ⟨1,1,1000,1,by decide,by decide,by decide,rfl⟩) replayed⟩

theorem restart_control_at_failedCall :
    (∃ p q, machine.Reachable p ∧ Reconciles p q ∧ q.supervisor = .select ∧ q.workers.length < q.desiredWorkerCount ∧
      q.restartBlocked = true) ∧
    ∃ p, RestartLog (.new 1 1 1000 1) [0] p ∧ ∀ start, RestartGuard.within [0] start 1000 ≤ 1 := by
  obtain ⟨limited,reported⟩ := restart_control
  constructor
  · obtain ⟨p,reached,passed⟩ := failedCall_runs
    simp only [Bool.and_eq_true,beq_iff_eq,Bool.not_eq_true',Option.any_eq_true,decide_eq_true_eq] at passed
    obtain ⟨⟨here,isOpen⟩,q,ran,returned,short⟩ := passed
    obtain ⟨entered,taken,replayed⟩ := Option.bind_eq_some_iff.mp ran
    have call := replayBy_reconciles failedCall (.enter entered here isOpen taken) replayed
    exact ⟨p,q,reached,call,returned,short,(reported p q reached call returned).mpr short⟩
  · obtain ⟨p,run⟩ := failedRestart_logs
    exact ⟨p,run,limited _ _ p run⟩

end Reconcile

end MechanicsCore.Pool.Lifecycle
