import MechanicsCore.Pool.Teardown
import MechanicsCore.Pool.WindDown

/-! A round of the supervisor ends. It joins threads that are on their way out, waits
for one that is starting, and takes locks that the drop holds while it sends its requests.
None of them waits for a worker that serves jobs, so a script that runs forever does not
keep the supervisor from restarting the other workers. -/
namespace MechanicsCore.Pool.Lifecycle
open MechanicsCore.Library

/-- The supervisor waits for a message, or is not there. -/
def SupervisorPc.atRest : SupervisorPc → Bool
  | .notStarted => true
  | .select => true
  | .finished => true
  | _ => false

/-- What a worker does in its loop. -/
def WorkerAction.inLoop : WorkerAction → Bool
  | .takeShutdown => true
  | .takeJob => true
  | .finishJob => true
  | .jobPanic => true
  | .loopPanic => true
  | _ => false

/-- The steps that a round is made of: the supervisor's, those of threads that start and
end, and those of a drop under way. -/
def Supervises : Action → Prop
  | .supervisor _ => True
  | .worker _ a => a.inLoop = false
  | .owner .next => True
  | _ => False

/-! ## What a thread owes -/

/-- The thread still has to report, and will do so first. -/
def Worker.Reports (w : Worker) : Prop := w.ready = none → w.phase = .starting ∨ w.phase = .panicking

/-- The thread whose report `spawn_worker` has not taken yet. -/
def SpawnPc.expects : SpawnPc → Option ThreadId
  | .insert _ t => some t
  | .await _ t => some t
  | _ => none

def SupervisorPc.expects : SupervisorPc → Option ThreadId
  | .spawning pc _ => pc.expects
  | _ => none

def Reporting (threads : List Worker) (pc : SupervisorPc) : Prop :=
  ∀ t, pc.expects = some t → ∃ w, threads[t]? = some w ∧ w.Reports

/-- Nobody has been told to stop before the owner comes to it. -/
def Untold (threads : List Worker) : OwnerPc → Prop
  | .requesting _ todo => todo.Nodup ∧ ∀ t ∈ todo, ∃ w, threads[t]? = some w ∧ w.shutdown = .empty
  | pc => pc.requested = false → ∀ w ∈ threads, w.shutdown = .empty

/-- A step that tells nobody to stop. -/
structure Tacit (before after : List Worker) : Prop where
  kept : ∀ (t : ThreadId) (w : Worker), before[t]? = some w →
    ∃ w', after[t]? = some w' ∧ (w.shutdown = .empty → w'.shutdown = .empty)
  all : (∀ w ∈ before, w.shutdown = .empty) → ∀ w ∈ after, w.shutdown = .empty

theorem Tacit.refl (threads : List Worker) : Tacit threads threads :=
  ⟨fun _ w found => ⟨w,found,fun empty => empty⟩,fun all => all⟩

theorem Tacit.append (threads : List Worker) {w : Worker} (empty : w.shutdown = .empty) :
    Tacit threads (threads ++ [w]) where
  kept t v found := ⟨v,by rw [List.getElem?_append_left (List.getElem?_eq_some_iff.mp found).1,found],fun none => none⟩
  all untold v member := by
    rcases List.mem_append.mp member with old | new
    · exact untold v old
    · exact List.mem_singleton.mp new ▸ empty

theorem Tacit.set {threads : List Worker} {t : ThreadId} {w w' : Worker} (found : threads[t]? = some w)
    (same : w.shutdown = .empty → w'.shutdown = .empty) : Tacit threads (threads.set t w') where
  kept u v known := by
    by_cases here : t = u
    · subst here
      cases found.symm.trans known
      exact ⟨w',by simp [(List.getElem?_eq_some_iff.mp found).1],same⟩
    · exact ⟨v,by rw [List.getElem?_set_ne here,known],fun none => none⟩
  all untold v member := by
    rcases List.mem_or_eq_of_mem_set member with old | rfl
    · exact untold v old
    · exact same (untold w (List.mem_of_getElem? found))

theorem Untold.tacit {before after : List Worker} {pc : OwnerPc} (untold : Untold before pc) (tacit : Tacit before after) :
    Untold after pc := by
  cases pc with
  | requesting built todo =>
    refine ⟨untold.1,fun t member => ?_⟩
    obtain ⟨w,found,empty⟩ := untold.2 t member
    obtain ⟨w',found',same⟩ := tacit.kept t w found
    exact ⟨w',found',same empty⟩
  | _ => exact fun early => tacit.all (untold early)

theorem ThreadStep.reports {w w' : Worker} {a : WorkerAction} (moved : ThreadStep w a w') (before : w.Reports) :
    w'.Reports := by
  cases moved with
  | startOk here | startErr here | sendPanicReady here => exact fun missing => by cases missing
  | startPanic here | loopPanic here => exact fun _ => .inr rfl
  | takeShutdown here | takeJob here | finishJob here | jobPanic here | sendExit reason here | finish here =>
    exact fun missing => by simpa [here] using before missing

theorem ThreadStep.untold {w w' : Worker} {a : WorkerAction} (moved : ThreadStep w a w') (empty : w.shutdown = .empty) :
    w'.shutdown = .empty := by
  cases moved with
  | takeShutdown here pending => cases empty.symm.trans pending
  | _ => exact empty

theorem Spawns.tacit {p p' : State} {pc : SpawnPc} {next : SpawnPc ⊕ Bool} (spawned : Spawns p pc p' next) :
    Tacit p.threads p'.threads := by
  cases spawned with
  | create => exact .append _ rfl
  | started id t w found ready => exact .set found fun empty => empty
  | failed id t w found ready => exact .set found fun empty => empty
  | _ => exact .refl _

theorem Reaps.threads {p p' : State} {pc pc' : ReapPc} (reaped : Reaps p pc p' pc') : p'.threads = p.threads := by
  cases reaped <;> rfl

theorem Supervised.tacit {p p' : State} (supervised : Supervised p p') : Tacit p.threads p'.threads := by
  cases supervised with
  | reap pc pc' q here reaped =>
    change Tacit p.threads q.threads
    rw [reaped.threads]
    exact .refl _
  | spawn pc pc' missing q here spawned => exact spawned.tacit
  | spawned pc missing q here spawned => exact spawned.tacit
  | unspawned pc missing q here spawned => exact spawned.tacit
  | _ => exact .refl _

/-- A worker that is created owes its report until the supervisor takes it. -/
theorem Reporting.supervised {p p' : State} (reporting : Reporting p.threads p.supervisor) (supervised : Supervised p p') :
    Reporting p'.threads p'.supervisor := by
  cases supervised with
  | checkClosed here | reconcile here =>
    change Reporting p.threads (if p.closed then _ else _)
    intro t expected
    split at expected <;> cases expected
  | spawn pc pc' missing q here spawned =>
    intro t expected
    rw [here] at reporting
    cases spawned with
    | create =>
      cases expected
      exact ⟨_,List.getElem?_concat_length,fun _ => .inl rfl⟩
    | insert id u free => exact reporting t expected
    | failed => cases expected
    | gone => cases expected
    | remove => cases expected
  | _ =>
    intro t expected
    cases expected

/-- The handles of the map are those of different threads. -/
theorem Books.nodup_threads {p : State} {slots : Nat} {held : List ThreadId} (books : Books p slots held) :
    (p.workers.map Prod.snd).Nodup := by
  have keys := books.keys
  have named := books.named
  rw [List.Nodup,List.pairwise_map] at keys ⊢
  refine keys.imp_of_mem fun {a b} first second distinct same => distinct ?_
  obtain ⟨w,found,name⟩ := named a.1 a.2 first
  obtain ⟨v,found',name'⟩ := named b.1 b.2 second
  rw [same,found'] at found
  cases found
  exact name.symm.trans name'

theorem Untold.early {threads : List Worker} {pc : OwnerPc} (untold : Untold threads pc) (before : pc.requested = false)
    (notYet : ∀ built todo, pc ≠ .requesting built todo) : ∀ w ∈ threads, w.shutdown = .empty := by
  cases pc with
  | requesting built todo => exact absurd rfl (notYet built todo)
  | _ => exact untold before

theorem Untold.ownerStep {p p' : State} {a : OwnerAction} (owned : Owned p) (untold : Untold p.threads p.owner)
    (owns : Owns p a p') : Untold p'.threads p'.owner := by
  cases owns with
  | spawn a pc pc' left q here spawned => exact fun _ => spawned.tacit.all (untold.early (by rw [here]; rfl) (by simp [here]))
  | spawned a pc left q here spawned => exact fun _ => spawned.tacit.all (untold.early (by rw [here]; rfl) (by simp [here]))
  | unspawned a pc left q here spawned => exact fun _ => spawned.tacit.all (untold.early (by rw [here]; rfl) (by simp [here]))
  | drain built here some => exact untold
  | request built here =>
    have empty := untold.early (by rw [here]; rfl) (by simp [here])
    refine ⟨owned.books.nodup_threads,fun t member => ?_⟩
    obtain ⟨⟨id,t⟩,entry,rfl⟩ := List.mem_map.mp member
    obtain ⟨w,found,_⟩ := owned.books.named id t entry
    exact ⟨w,found,empty w (List.mem_of_getElem? found)⟩
  | tell built t todo q here told =>
    rw [here] at untold
    obtain ⟨distinct,empty⟩ := untold
    obtain ⟨fresh,rest⟩ := List.nodup_cons.mp distinct
    refine ⟨rest,fun u member => ?_⟩
    obtain ⟨v,found,none⟩ := empty u (List.mem_cons_of_mem _ member)
    obtain ⟨w,known,⟨_,rfl⟩ | rfl⟩ := requestShutdown_cases told
    · exact ⟨v,found,none⟩
    · have apart : t ≠ u := fun same => fresh (same ▸ member)
      exact ⟨v,by rw [← found]; exact List.getElem?_set_ne apart,none⟩
  | toldAll built here => exact fun late => by cases late
  | signal built here => exact fun late => by cases late
  | joinSupervisor built here idle => exact fun late => by cases late
  | drainWorkers built here => exact fun late => by cases late
  | join built t rest here => exact fun late => by cases late
  | joined built here => exact fun late => by cases late
  | complete here | build left here | supervise here | unsupervised here | dropPool here | close built here
  | drained built here none => exact fun _ => untold.early (by rw [here]; rfl) (by simp [here])

/-- What the argument needs to know of the pool. -/
structure Orderly (p : State) : Prop where
  owned : Owned p
  wound : Wound p
  queued : p.queued ≤ p.queueCapacity
  untold : Untold p.threads p.owner
  reporting : Reporting p.threads p.supervisor

theorem Reporting.rest {threads : List Worker} {pc : SupervisorPc} (rest : pc.expects = none) : Reporting threads pc := by
  intro t expected
  rw [rest] at expected
  cases expected

theorem Reporting.set {threads : List Worker} {pc : SupervisorPc} {t : ThreadId} {w w' : Worker}
    (reporting : Reporting threads pc) (known : threads[t]? = some w) (reports : w.Reports → w'.Reports) :
    Reporting (threads.set t w') pc := by
  intro u expected
  obtain ⟨v,found,before⟩ := reporting u expected
  by_cases same : t = u
  · subst same
    cases known.symm.trans found
    exact ⟨w',by simp [(List.getElem?_eq_some_iff.mp known).1],reports before⟩
  · exact ⟨v,by rw [List.getElem?_set_ne same,found],before⟩

/-- The owner builds only while there is no supervisor, and otherwise leaves reports alone. -/
theorem Reporting.ownerStep {p p' : State} {a : OwnerAction} (owned : Owned p) (reporting : Reporting p.threads p.supervisor)
    (owns : Owns p a p') : Reporting p'.threads p'.supervisor := by
  have facts := owned.owner
  cases owns with
  | spawn a pc pc' left q here spawned | spawned a pc left q here spawned | unspawned a pc left q here spawned =>
    rw [here] at facts
    have same : q.supervisor = p.supervisor := by cases spawned <;> rfl
    refine .rest ?_
    change q.supervisor.expects = none
    rw [same,facts.1]
    rfl
  | supervise here => exact .rest rfl
  | tell built t todo q here told =>
    obtain ⟨w,known,⟨_,rfl⟩ | rfl⟩ := requestShutdown_cases told
    · exact reporting
    · exact reporting.set known fun reports => reports
  | _ => exact reporting

theorem Reporting.workerStep {p p' : State} {t : ThreadId} {a : WorkerAction} {pc : SupervisorPc}
    (reporting : Reporting p.threads pc) (taken : workerStep p t a = some p') : Reporting p'.threads pc := by
  obtain ⟨w,w',exits,queued,known,moved,rfl,_⟩ := workerStep_thread taken
  exact reporting.set known moved.reports

theorem Supervised.sizes {p p' : State} (supervised : Supervised p p') :
    p'.queueCapacity = p.queueCapacity ∧ p'.desiredWorkerCount = p.desiredWorkerCount := by
  cases supervised with
  | reap pc pc' q here reaped => cases reaped <;> exact ⟨rfl,rfl⟩
  | spawn pc pc' missing q here spawned | spawned pc missing q here spawned | unspawned pc missing q here spawned =>
    cases spawned <;> exact ⟨rfl,rfl⟩
  | _ => exact ⟨rfl,rfl⟩

theorem Owns.sizes {p p' : State} {a : OwnerAction} (owns : Owns p a p') :
    p'.queueCapacity = p.queueCapacity ∧ p'.desiredWorkerCount = p.desiredWorkerCount ∧ p'.queued ≤ p.queued := by
  cases owns with
  | spawn a pc pc' left q here spawned | spawned a pc left q here spawned | unspawned a pc left q here spawned =>
    cases spawned <;> exact ⟨rfl,rfl,Nat.le_refl _⟩
  | tell built t todo q here told =>
    obtain ⟨w,found,⟨_,rfl⟩ | rfl⟩ := requestShutdown_cases told
    · exact ⟨rfl,rfl,Nat.le_refl _⟩
    · exact ⟨rfl,rfl,Nat.le_refl _⟩
  | drain built here some => exact ⟨rfl,rfl,Nat.sub_le _ _⟩
  | _ => exact ⟨rfl,rfl,Nat.le_refl _⟩

theorem Orderly.step {p p' : State} {a : Action} (orderly : Orderly p) (taken : step p a = some p') : Orderly p' := by
  have owned := orderly.owned.step taken
  have wound := orderly.wound.step orderly.owned taken
  have queued := orderly.queued
  cases a with
  | worker t a =>
    have reporting := orderly.reporting.workerStep taken
    obtain ⟨w,w',exits,queued',known,moved,rfl,fewer⟩ := workerStep_thread taken
    refine ⟨owned,wound,?_,orderly.untold.tacit (.set known moved.untold),reporting⟩
    change queued' ≤ p.queueCapacity
    omega
  | supervisor a =>
    have supervised := supervisorStep_supervised taken
    have beside := supervisorStep_beside taken
    refine ⟨owned,wound,?_,?_,orderly.reporting.supervised supervised⟩
    · rw [beside.queued,supervised.sizes.1]
      exact queued
    · rw [beside.owner]
      exact orderly.untold.tacit supervised.tacit
  | client i =>
    simp only [Lifecycle.step,bind,Option.bind_eq_some_iff] at taken
    obtain ⟨pc,found,⟨q,pc'⟩,reaped,moved⟩ := taken
    cases moved
    have reaps := reapStep_reaps reaped
    cases reaps <;> exact ⟨owned,wound,queued,orderly.untold,orderly.reporting⟩
  | enterLiveWorkers =>
    simp only [Lifecycle.step] at taken
    split at taken
    · cases taken
      exact ⟨owned,wound,queued,orderly.untold,orderly.reporting⟩
    · contradiction
  | submit =>
    simp only [Lifecycle.step] at taken
    split at taken
    · rename_i room
      cases taken
      exact ⟨owned,wound,room.2,orderly.untold,orderly.reporting⟩
    · contradiction
  | owner a =>
    have owns := ownerStep_owns taken
    obtain ⟨capacity,_,fewer⟩ := owns.sizes
    exact ⟨owned,wound,by omega,orderly.untold.ownerStep orderly.owned owns,
      orderly.reporting.ownerStep orderly.owned owns⟩
  | elapse nanos =>
    cases taken
    exact ⟨owned,wound,queued,orderly.untold,orderly.reporting⟩

theorem reachable_orderly {p : State} (reached : machine.Reachable p) : Orderly p := by
  refine reached.invariant Orderly ?_ fun _ _ _ orderly taken => orderly.step taken
  intro p start
  have owned : Owned p := .initial start
  have wound := reachable_wound (.start p start)
  obtain ⟨desired,capacity,window,maxRestarts,_,_,_,rfl⟩ := start
  exact ⟨owned,wound,Nat.zero_le _,by simp [State.new,Untold],.rest rfl⟩

/-! ## The rest of a round -/

def SpawnPc.toGo : SpawnPc → Nat
  | .create => 10
  | .insert _ _ => 4
  | .await _ _ => 3
  | .remove _ _ => 2
  | .join _ => 1

/-- Steps the supervisor still has to take in its round, the threads it creates included. -/
def SupervisorPc.toGo (desired : Nat) : SupervisorPc → Nat
  | .removeExited _ => 13 * desired + 10
  | .joinExited _ => 13 * desired + 9
  | .checkClosed => 13 * desired + 8
  | .reconcile => 13 * desired + 7
  | .reap .collect => 13 * desired + 6
  | .reap (.remove _) => 13 * desired + 5
  | .reap (.join handles) => 12 * desired + handles.length + 4
  | .reap .count => 12 * desired + 3
  | .reap (.counted _) => 12 * desired + 2
  | .restart missing => 12 * missing + 1
  | .spawning pc missing => 12 * missing + 1 + pc.toGo
  | _ => 0

/-- Steps a drop can take until it waits for the supervisor. -/
def OwnerPc.toGo (desired capacity queued : Nat) : OwnerPc → Nat
  | .inUse => capacity + desired + 6
  | .markClosed _ => queued + desired + 6
  | .drainQueue _ => queued + desired + 5
  | .request _ => desired + 4
  | .requesting _ todo => todo.length + 3
  | .signalSupervisor _ => 2
  | .joinSupervisor _ => 1
  | _ => 0

def State.toGo (p : State) : Nat :=
  p.supervisor.toGo p.desiredWorkerCount + remaining p.threads + p.owner.toGo p.desiredWorkerCount p.queueCapacity p.queued

theorem remaining_append (threads : List Worker) (w : Worker) :
    remaining (threads ++ [w]) = remaining threads + (5 - w.phase.rank) := by
  simp [remaining]

theorem remaining_set_same {threads : List Worker} {t : ThreadId} {w w' : Worker} (found : threads[t]? = some w)
    (same : w'.phase = w.phase) : remaining (threads.set t w') = remaining threads := by
  have changed := remaining_set w' found
  rw [same] at changed
  exact Nat.add_right_cancel changed

theorem Spawns.lowers {p p' : State} {pc : SpawnPc} {next : SpawnPc ⊕ Bool} (spawned : Spawns p pc p' next) :
    (match next with
      | .inl pc' => pc'.toGo
      | .inr _ => 0) + remaining p'.threads < pc.toGo + remaining p.threads := by
  cases spawned with
  | create =>
    simp only [SpawnPc.toGo,remaining_append,Phase.rank]
    omega
  | started id t w found ready | failed id t w found ready =>
    have same : remaining (p.threads.set t {w with ready := none}) = remaining p.threads := remaining_set_same found rfl
    simp only [SpawnPc.toGo,State.setThread,same]
    omega
  | insert | gone | remove | createFails | removed | join =>
    simp only [SpawnPc.toGo,State.insertHandle,State.removeHandles]
    omega

/-- Within a round every step of the supervisor brings its end nearer. -/
theorem Supervised.lowers {p p' : State} (budget : p.workers.length ≤ p.desiredWorkerCount)
    (busy : p.supervisor.atRest = false) (supervised : Supervised p p') :
    p'.supervisor.toGo p.desiredWorkerCount + remaining p'.threads <
      p.supervisor.toGo p.desiredWorkerCount + remaining p.threads := by
  cases supervised with
  | shutdown here | exit _ _ here | tick here =>
    rw [here] at busy
    cases busy
  | removeExited event t here handle =>
    simp only [here,SupervisorPc.toGo,State.removeHandles]
    omega
  | checkClosed here | reconcile here =>
    simp only [here]
    split <;> simp only [SupervisorPc.toGo] <;> omega
  | reap pc pc' q here reaped =>
    rw [here]
    cases reaped with
    | collect ids =>
      dsimp only
      split <;> simp only [SupervisorPc.toGo] <;> omega
    | remove ids free =>
      have fewer := List.length_filter_le (fun entry : WorkerId × ThreadId => ids.contains entry.1) p.workers
      simp only [SupervisorPc.toGo,State.removeHandles,List.length_map]
      omega
    | joined | join | count =>
      simp only [SupervisorPc.toGo,List.length_cons,List.length_nil]
      omega
  | spawn pc pc' missing q here spawned | spawned pc missing q here spawned | unspawned pc missing q here spawned =>
    have fewer := spawned.lowers
    simp only [here,SupervisorPc.toGo] at fewer ⊢
    omega
  | forgotten _ here | joinExited _ here | enough _ here | short _ here | restarted here | allowed _ _ here
  | denied _ _ here =>
    simp only [here,SupervisorPc.toGo,SpawnPc.toGo]
    omega

/-- So does every step of a drop, up to where it waits for the supervisor. -/
theorem Owns.lowers {p p' : State} {a : OwnerAction} (orderly : Orderly p) (busy : p.supervisor.atRest = false)
    (owns : Owns p a p') : p'.supervisor = p.supervisor ∧ p'.toGo ≤ p.toGo ∧ (a = .next → p'.toGo < p.toGo) := by
  have active : ¬ Idle p.supervisor := by
    rintro (here | here) <;> rw [here] at busy <;> cases busy
  have budget : p.workers.length ≤ p.desiredWorkerCount := Nat.le_of_add_right_le orderly.owned.books.budget
  have queued := orderly.queued
  have facts := orderly.owned.owner
  have emptied := orderly.wound.emptied
  cases owns with
  | complete here | build left here | supervise here | unsupervised here =>
    rw [here] at facts
    exact absurd (.inl facts) active
  | spawn _ pc pc' left q here spawned | spawned _ pc left q here spawned | unspawned _ pc left q here spawned =>
    rw [here] at facts
    exact absurd (.inl facts.1) active
  | joinSupervisor built here idle => exact absurd idle active
  | drainWorkers built here =>
    rw [here] at facts
    exact absurd facts active
  | join built t rest here | joined built here => exact absurd (emptied (by rw [here]; rfl)).1 active
  | tell built t todo q here told =>
    obtain ⟨w,found,⟨_,rfl⟩ | rfl⟩ := requestShutdown_cases told
    · refine ⟨rfl,?_⟩
      simp only [State.toGo,here,OwnerPc.toGo,List.length_cons]
      omega
    · have same : remaining (p.threads.set t {w with shutdown := .pending}) = remaining p.threads :=
        remaining_set_same found rfl
      refine ⟨rfl,?_⟩
      simp only [State.toGo,here,OwnerPc.toGo,List.length_cons,same]
      omega
  | dropPool here =>
    refine ⟨rfl,?_,by simp⟩
    simp only [State.toGo,here,OwnerPc.toGo]
    omega
  | close built here | drain built here some | drained built here none | request built here | toldAll built here
  | signal built here =>
    refine ⟨rfl,?_⟩
    simp only [State.toGo,here,OwnerPc.toGo,List.length_map,List.length_nil]
    omega

theorem PhaseStep.later {a : WorkerAction} {phase phase' : Phase} (moved : PhaseStep a phase phase') :
    phase.rank ≤ phase'.rank ∧ (a.inLoop = false → phase.rank < phase'.rank) := by
  cases moved <;> first | contradiction | simp [Phase.rank,WorkerAction.inLoop]

theorem OwnerPc.toGo_mono (pc : OwnerPc) (desired capacity : Nat) {fewer queued : Nat} (less : fewer ≤ queued) :
    pc.toGo desired capacity fewer ≤ pc.toGo desired capacity queued := by
  cases pc <;> simp only [OwnerPc.toGo] <;> omega

/-- And every step of a thread outside its loop. -/
theorem workerStep_toGo {p p' : State} {t : ThreadId} {a : WorkerAction} (taken : workerStep p t a = some p') :
    p'.supervisor = p.supervisor ∧ p'.toGo ≤ p.toGo ∧ (a.inLoop = false → p'.toGo < p.toGo) := by
  obtain ⟨w,w',exits,queued,found,moved,rfl,count⟩ := workerStep_phase taken
  obtain ⟨later,strictly⟩ := moved.later
  have changed := remaining_set w' found
  have last := w'.phase.rank_le
  have less : queued ≤ p.queued := by omega
  have fewer := p.owner.toGo_mono p.desiredWorkerCount p.queueCapacity less
  refine ⟨rfl,?_,fun outside => ?_⟩
  · simp only [State.toGo]
    omega
  · have further := strictly outside
    simp only [State.toGo]
    omega

/-! ## Nobody waits for a script -/

/-- Some step of a round can be taken. -/
def GoesOn (p : State) : Prop := ∃ a p', Supervises a ∧ step p a = some p'

section Waits
variable {p : State}

theorem GoesOn.next (enabled : ∃ p', supervisorStep p .next = some p') : GoesOn p := by
  obtain ⟨p',taken⟩ := enabled
  exact ⟨.supervisor .next,p',trivial,taken⟩

theorem GoesOn.thread {t : ThreadId} {a : WorkerAction} (outside : a.inLoop = false)
    (enabled : ∃ p', workerStep p t a = some p') : GoesOn p := by
  obtain ⟨p',taken⟩ := enabled
  exact ⟨.worker t a,p',outside,taken⟩

theorem Orderly.joins_nothing (orderly : Orderly p) (busy : p.supervisor.atRest = false) (built : Bool)
    (handles : List ThreadId) : p.owner ≠ .joining built handles := by
  intro here
  have idle := (orderly.wound.emptied (by rw [here]; rfl)).1
  rcases idle with same | same <;> rw [same] at busy <;> cases busy

theorem Orderly.readable (orderly : Orderly p) (busy : p.supervisor.atRest = false) : p.readable = true := by
  cases here : p.owner with
  | joining built handles => exact absurd here (orderly.joins_nothing busy built handles)
  | _ => simp [State.readable,here]

/-- No shutdown request finds its channel full. -/
theorem Orderly.requests (orderly : Orderly p) {built : Bool} {todo : List ThreadId}
    (here : p.owner = .requesting built todo) : ∃ p', ownerStep p .next = some p' := by
  have untold := orderly.untold
  cases todo with
  | nil => simp [ownerStep,here]
  | cons t todo =>
    rw [here] at untold
    obtain ⟨w,found,empty⟩ := untold.2 t List.mem_cons_self
    by_cases finished : w.phase = .finished
    · simp [ownerStep,requestShutdown,here,found,finished]
    · simp [ownerStep,requestShutdown,here,found,finished,empty]

/-- The supervisor gets the write lock, or the drop that has the read lock can go on. -/
theorem Orderly.writable (orderly : Orderly p) (busy : p.supervisor.atRest = false) : p.writable = true ∨ GoesOn p := by
  cases here : p.owner with
  | joining built handles => exact absurd here (orderly.joins_nothing busy built handles)
  | requesting built todo =>
    obtain ⟨p',taken⟩ := orderly.requests here
    exact .inr ⟨.owner .next,p',trivial,taken⟩
  | _ => exact .inl (by simp [State.writable,here])

/-- A thread that has left its loop has ended, or it can take its next step. -/
theorem finished_or_goes_on {t : ThreadId} (left : LeftBody p.threads t) : p.isFinished t = true ∨ GoesOn p := by
  obtain ⟨w,found,late⟩ := left
  cases here : w.phase with
  | finished => exact .inl (by simp [State.isFinished,found,here])
  | leaving reason => exact .inr (.thread (t := t) (a := .sendExit) rfl (by simp [workerStep,found,here]))
  | exited => exact .inr (.thread (t := t) (a := .finish) rfl (by simp [workerStep,found,here]))
  | _ => simp [here,Phase.rank] at late

/-- What `spawn_worker` waits for comes without a worker in its loop. -/
theorem Orderly.spawn_goes_on (orderly : Orderly p) {pc : SpawnPc} {missing : Nat}
    (here : p.supervisor = .spawning pc missing) : GoesOn p := by
  have busy : p.supervisor.atRest = false := by rw [here]; rfl
  have facts := orderly.owned.supervisor
  have reporting := orderly.reporting
  rw [here] at facts reporting
  have enough (spawned : ∃ next, spawnStep p true pc = some next) : GoesOn p := by
    obtain ⟨⟨q,next⟩,spawned⟩ := spawned
    refine .next ?_
    rcases next with pc' | _ | _ <;> simp [supervisorStep,here,spawned]
  cases pc with
  | create => exact enough (by simp [spawnStep])
  | insert id t =>
    rcases orderly.writable busy with free | goes
    · exact enough (by simp [spawnStep,free])
    · exact goes
  | await id t =>
    obtain ⟨w,found,reports⟩ := reporting t rfl
    cases ready : w.ready with
    | some ok => cases ok <;> exact enough (by simp [spawnStep,found,ready])
    | none =>
      rcases reports ready with starting | panicking
      · exact .thread (t := t) (a := .startOk) rfl (by simp [workerStep,found,starting])
      · exact .thread (t := t) (a := .sendPanicReady) rfl (by simp [workerStep,found,panicking,ready])
  | remove id t =>
    rcases orderly.writable busy with free | goes
    · cases handle : p.handle id <;> exact enough (by simp [spawnStep,free,handle])
    · exact goes
  | join t =>
    rcases finished_or_goes_on facts with finished | goes
    · exact enough (by simp [spawnStep,finished])
    · exact goes

theorem Orderly.goes_on (orderly : Orderly p) (busy : p.supervisor.atRest = false) : GoesOn p := by
  have facts := orderly.owned.supervisor
  have readable := orderly.readable busy
  cases here : p.supervisor with
  | notStarted | select | finished =>
    rw [here] at busy
    cases busy
  | removeExited event =>
    rcases orderly.writable busy with free | goes
    · cases handle : p.handle event.workerId <;> exact .next (by simp [supervisorStep,here,free,handle])
    · exact goes
  | joinExited t =>
    rw [here] at facts
    rcases finished_or_goes_on (facts.weaken (by decide)) with finished | goes
    · exact .next (by simp [supervisorStep,here,finished])
    · exact goes
  | checkClosed => exact .next (by simp [supervisorStep,here])
  | reconcile => exact .next (by simp [supervisorStep,here])
  | reap pc =>
    rw [here] at facts
    cases pc with
    | collect => exact .next (by simp [supervisorStep,here,reapStep,readable])
    | remove ids =>
      rcases orderly.writable busy with free | goes
      · exact .next (by simp [supervisorStep,here,reapStep,free])
      · exact goes
    | join handles =>
      cases handles with
      | nil => exact .next (by simp [supervisorStep,here,reapStep])
      | cons t rest =>
        have finished := (isFinished_iff p t).mpr (facts.1 t List.mem_cons_self)
        exact .next (by simp [supervisorStep,here,reapStep,finished])
    | count => exact .next (by simp [supervisorStep,here,reapStep,readable])
    | counted live =>
      by_cases enough : p.desiredWorkerCount - live = 0 <;> exact .next (by simp [supervisorStep,here,enough])
  | restart missing =>
    cases missing with
    | zero => exact .next (by simp [supervisorStep,here])
    | succ missing =>
      rcases asked : p.guard.allowRestart p.clock with ⟨_ | _,guard⟩ <;>
        exact .next (by simp [supervisorStep,here,asked])
  | spawning pc missing => exact orderly.spawn_goes_on here

end Waits

theorem Orderly.works {p p' : State} {a : Action} (orderly : Orderly p) (busy : p.supervisor.atRest = false)
    (works : Supervises a) (taken : Lifecycle.step p a = some p') : p'.toGo < p.toGo := by
  cases a with
  | supervisor a =>
    have supervised := supervisorStep_supervised taken
    have beside := supervisorStep_beside taken
    obtain ⟨capacity,desired⟩ := supervised.sizes
    have less := supervised.lowers (Nat.le_of_add_right_le orderly.owned.books.budget) busy
    simp only [State.toGo,capacity,desired,beside.owner,beside.queued]
    omega
  | worker t a => exact (workerStep_toGo taken).2.2 works
  | owner a =>
    cases a with
    | next => exact ((ownerStep_owns taken).lowers orderly busy).2.2 rfl
    | _ => exact works.elim
  | _ => exact works.elim

/-- Nobody else changes the round. -/
theorem Orderly.idle {p p' : State} {a : Action} (orderly : Orderly p) (idle : ¬ Supervises a)
    (taken : Lifecycle.step p a = some p') :
    p'.supervisor = p.supervisor ∧ (p.supervisor.atRest = false → p'.toGo ≤ p.toGo) := by
  cases a with
  | supervisor a => exact absurd trivial idle
  | worker t a =>
    obtain ⟨same,below,_⟩ := workerStep_toGo taken
    exact ⟨same,fun _ => below⟩
  | client i =>
    simp only [Lifecycle.step,bind,Option.bind_eq_some_iff] at taken
    obtain ⟨pc,found,⟨q,pc'⟩,reaped,moved⟩ := taken
    cases moved
    cases reapStep_reaps reaped <;> exact ⟨rfl,fun _ => Nat.le_refl _⟩
  | enterLiveWorkers =>
    simp only [Lifecycle.step] at taken
    split at taken
    · cases taken
      exact ⟨rfl,fun _ => Nat.le_refl _⟩
    · contradiction
  | submit =>
    simp only [Lifecycle.step] at taken
    split at taken
    · rename_i room
      cases taken
      refine ⟨rfl,fun _ => ?_⟩
      simp only [State.toGo,room.1,OwnerPc.toGo,Nat.le_refl]
    · contradiction
  | owner a =>
    have owns := ownerStep_owns taken
    refine ⟨?_,fun busy => (owns.lowers orderly busy).2.1⟩
    cases owns with
    | spawn _ pc pc' left q here spawned | spawned _ pc left q here spawned | unspawned _ pc left q here spawned =>
      cases spawned <;> rfl
    | dropPool here => rfl
    | unsupervised here => rfl
    | _ => exact absurd trivial idle
  | elapse nanos =>
    cases taken
    exact ⟨rfl,fun _ => Nat.le_refl _⟩

/-- Steps until the supervisor is at rest. -/
def State.toRest (p : State) : Nat := if p.supervisor.atRest then 0 else p.toGo

theorem State.toRest_le (p : State) : p.toRest ≤ p.toGo := by
  unfold State.toRest
  split
  · exact Nat.zero_le _
  · exact Nat.le_refl _

/-- However scripts, calls and clients go on, a round of the supervisor can always be
continued without them, and it comes to its end. -/
theorem supervision_round_ends {p : State} (reached : machine.Reachable p) :
    machine.Inevitable Supervises (fun p => p.supervisor.atRest = true) p := by
  refine Machine.inevitable_of_measure Orderly State.toRest (fun _ _ _ orderly taken => orderly.step taken) ?_ ?_ ?_
    (reachable_orderly reached)
  · intro p orderly notYet
    exact orderly.goes_on (by simpa using notYet)
  · intro p a p' orderly notYet works taken
    have busy : p.supervisor.atRest = false := by simpa using notYet
    have less := orderly.works busy works taken
    calc p'.toRest ≤ p'.toGo := p'.toRest_le
      _ < p.toGo := less
      _ = p.toRest := by simp [State.toRest,busy]
  · intro p a p' orderly idle taken
    obtain ⟨same,below⟩ := orderly.idle idle taken
    refine ⟨?_,fun rests => by rwa [same] at rests⟩
    cases busy : p.supervisor.atRest with
    | true => simp [State.toRest,same,busy]
    | false => simpa [State.toRest,same,busy] using below busy

/-- Of two workers one runs a script; the other has crashed, and the supervisor waits for its
successor. -/
def restarting : List Action :=
  [.owner .next,.owner .next,.owner .next,.worker 0 .startOk,.owner .next,.owner .next,.owner .next,.owner .next,
    .worker 1 .startOk,.owner .next,.owner .next,.owner .next,.submit,.worker 0 .takeJob,.submit,.worker 1 .takeJob,
    .worker 1 .jobPanic,.worker 1 .sendExit,.worker 1 .finish,.supervisor .recvExit,.supervisor .next,.supervisor .next,
    .supervisor .next,.supervisor .next,.supervisor .next,.supervisor .next,.supervisor .next,.supervisor .next,
    .supervisor .next,.supervisor .next]

theorem supervision_round_ends_beside_a_script : ∃ p, machine.Reachable p ∧ p.supervisor = .spawning (.await 2 2) 0 ∧
    p.threads.map (·.phase) = [.running,.finished,.starting] ∧
    machine.Inevitable Supervises (fun p => p.supervisor.atRest = true) p := by
  obtain ⟨p,reached,checked⟩ := machine.replay_witness restarting (.new 2 1 1000 1)
    (fun p => p.supervisor == .spawning (.await 2 2) 0 && p.threads.map (·.phase) == [.running,.finished,.starting])
    ⟨2,1,1000,1,by decide,by decide,by decide,rfl⟩ (by decide +kernel)
  simp only [Bool.and_eq_true,beq_iff_eq] at checked
  exact ⟨p,reached,checked.1,checked.2,supervision_round_ends reached⟩

end MechanicsCore.Pool.Lifecycle
