import MechanicsCore.Pool.Ownership

/-! Dropping the pool. Drop asks every worker it finds in the map to stop, joins
the supervisor and only then joins the workers, so a worker that the supervisor
inserts between the two passes is joined without ever having been asked. -/
namespace MechanicsCore.Pool.Lifecycle
open MechanicsCore.Library

/-- A shutdown message was put on the worker's channel, delivered or still pending. -/
def Told (threads : List Worker) (t : ThreadId) : Prop :=
  ∃ w, threads[t]? = some w ∧ w.shutdown ≠ .empty

def Released (threads : List Worker) (t : ThreadId) : Prop := Finished threads t ∨ Told threads t

theorem Released.mono {before after : List Worker} (advances : Advances before after) {t : ThreadId}
    (released : Released before t) : Released after t := by
  rcases released with finished | ⟨w,found,told⟩
  · exact .inl (finished.mono advances)
  · obtain ⟨w',found',_,_,keeps⟩ := advances t w found
    exact .inr ⟨w',found',keeps told⟩

/-- The owner has walked the map with its shutdown requests. -/
def OwnerPc.requested : OwnerPc → Bool
  | .signalSupervisor _ => true
  | .joinSupervisor _ => true
  | .drainWorkers _ => true
  | .joining _ _ => true
  | .dropped _ => true
  | _ => false

def SupervisorPc.inserts : SupervisorPc → Bool
  | .spawning (.insert _ _) _ => true
  | _ => false

/-- The supervisor does not insert a worker once the owner has walked the map. -/
def InsertsInTime (p : State) (a : Action) : Prop :=
  ∀ id t missing choice, p.supervisor = .spawning (.insert id t) missing → a = .supervisor choice →
    p.owner.requested = false

theorem spawnStep_effect {p p' : State} {created : Bool} {pc : SpawnPc} {next : SpawnPc ⊕ Bool}
    (taken : spawnStep p created pc = some (p',next)) :
    Advances p.threads p'.threads ∧ p'.owner = p.owner ∧
      ∀ entry ∈ p'.workers, entry ∈ p.workers ∨ ∃ id t, pc = .insert id t ∧ p.writable = true := by
  cases pc with
  | create =>
    simp only [spawnStep] at taken
    split at taken
    · cases taken
      exact ⟨.append _ _,rfl,fun _ member => .inl member⟩
    · cases taken
      exact ⟨.refl _,rfl,fun _ member => .inl member⟩
  | insert id t =>
    simp only [spawnStep] at taken
    split at taken
    · rename_i writable
      cases taken
      exact ⟨.refl _,rfl,fun _ _ => .inr ⟨id,t,rfl,writable⟩⟩
    · contradiction
  | await id t =>
    simp only [spawnStep,bind,Option.bind_eq_some_iff] at taken
    obtain ⟨w,found,taken⟩ := taken
    have advances : Advances p.threads (p.threads.set t {w with ready := none}) :=
      .set found rfl le_rfl fun told => told
    split at taken
    · cases taken
      exact ⟨advances,rfl,fun _ member => .inl member⟩
    · cases taken
      exact ⟨advances,rfl,fun _ member => .inl member⟩
    · split at taken
      · cases taken
        exact ⟨.refl _,rfl,fun _ member => .inl member⟩
      · contradiction
  | remove id t =>
    simp only [spawnStep] at taken
    split at taken
    · split at taken
      · cases taken
        exact ⟨.refl _,rfl,fun _ member => .inl (List.mem_filter.mp member).1⟩
      · cases taken
        exact ⟨.refl _,rfl,fun _ member => .inl member⟩
    · contradiction
  | join t =>
    simp only [spawnStep] at taken
    split at taken
    · cases taken
      exact ⟨.refl _,rfl,fun _ member => .inl member⟩
    · contradiction

theorem reapStep_effect {p p' : State} {pc pc' : ReapPc} (taken : reapStep p pc = some (p',pc')) :
    p'.threads = p.threads ∧ p'.owner = p.owner ∧ ∀ entry ∈ p'.workers, entry ∈ p.workers := by
  unfold reapStep at taken
  split at taken
  case h_2 ids =>
    split at taken
    · cases taken
      exact ⟨rfl,rfl,fun _ member => (List.mem_filter.mp member).1⟩
    · contradiction
  case h_3 =>
    cases taken
    exact ⟨rfl,rfl,fun _ member => member⟩
  case h_6 => contradiction
  all_goals
    split at taken
    · cases taken
      exact ⟨rfl,rfl,fun _ member => member⟩
    · contradiction

theorem supervisorStep_effect {p p' : State} {a : SupervisorAction} (taken : supervisorStep p a = some p') :
    Advances p.threads p'.threads ∧ p'.owner = p.owner ∧
      ∀ entry ∈ p'.workers, entry ∈ p.workers ∨
        ∃ id t missing, p.supervisor = .spawning (.insert id t) missing ∧ p.writable = true := by
  unfold supervisorStep at taken
  split at taken
  case h_4 =>
    split at taken
    · split at taken
      · cases taken
        exact ⟨.refl _,rfl,fun _ member => .inl (List.mem_filter.mp member).1⟩
      · cases taken
        exact ⟨.refl _,rfl,fun _ member => .inl member⟩
    · contradiction
  case h_9 =>
    obtain ⟨⟨q,pc'⟩,reaped,rfl⟩ := Option.map_eq_some_iff.mp taken
    obtain ⟨threads,owner,workers⟩ := reapStep_effect reaped
    exact ⟨threads ▸ .refl _,owner,fun entry member => .inl (workers entry member)⟩
  case h_12 pc missing here =>
    split at taken
    · obtain ⟨⟨q,next⟩,spawned,moved⟩ := Option.map_eq_some_iff.mp taken
      obtain ⟨advances,owner,workers⟩ := spawnStep_effect spawned
      have lifted : ∀ entry ∈ q.workers, entry ∈ p.workers ∨
          ∃ id t missing, p.supervisor = .spawning (.insert id t) missing ∧ p.writable = true := by
        intro entry member
        rcases workers entry member with old | ⟨id,t,same,writable⟩
        · exact .inl old
        · exact .inr ⟨id,t,missing,same ▸ here,writable⟩
      rcases next with pc' | ok
      · cases moved
        exact ⟨advances,owner,lifted⟩
      · cases ok <;> cases moved <;> exact ⟨advances,owner,lifted⟩
    · contradiction
  case h_8 =>
    dsimp only at taken
    split at taken <;> cases taken <;> exact ⟨.refl _,rfl,fun _ member => .inl member⟩
  case h_13 => contradiction
  case h_3 | h_6 | h_7 | h_10 =>
    cases taken
    exact ⟨.refl _,rfl,fun _ member => .inl member⟩
  all_goals
    split at taken <;> cases taken <;> exact ⟨.refl _,rfl,fun _ member => .inl member⟩

/-- Whom the owner has asked to stop, at each point of the shutdown sequence. -/
def Informed (threads : List Worker) (workers : List (WorkerId × ThreadId)) : OwnerPc → Prop
  | .requesting _ todo => ∀ entry ∈ workers, entry.2 ∈ todo ∨ Released threads entry.2
  | .signalSupervisor _ => ∀ entry ∈ workers, Released threads entry.2
  | .joinSupervisor _ => ∀ entry ∈ workers, Released threads entry.2
  | .drainWorkers _ => ∀ entry ∈ workers, Released threads entry.2
  | .joining _ handles => ∀ t ∈ handles, Released threads t
  | _ => True

theorem Informed.mono {before after : List Worker} {workers workers' : List (WorkerId × ThreadId)}
    {pc : OwnerPc} (informed : Informed before workers pc) (advances : Advances before after)
    (fewer : ∀ entry ∈ workers', entry ∈ workers) : Informed after workers' pc := by
  cases pc with
  | requesting built todo =>
    exact fun entry member => (informed entry (fewer entry member)).imp id (.mono advances)
  | signalSupervisor built => exact fun entry member => (informed entry (fewer entry member)).mono advances
  | joinSupervisor built => exact fun entry member => (informed entry (fewer entry member)).mono advances
  | drainWorkers built => exact fun entry member => (informed entry (fewer entry member)).mono advances
  | joining built handles => exact fun t member => (informed t member).mono advances
  | _ => trivial

theorem Informed.ownerStep {p p' : State} (informed : Informed p.threads p.workers p.owner) {a : OwnerAction}
    (taken : ownerStep p a = some p') : Informed p'.threads p'.workers p'.owner := by
  unfold Lifecycle.ownerStep at taken
  split at taken
  case h_3 pc left here =>
    split at taken
    · obtain ⟨⟨q,next⟩,_,moved⟩ := Option.map_eq_some_iff.mp taken
      rcases next with pc' | ok
      · cases moved
        trivial
      · cases ok <;> cases moved <;> trivial
    · contradiction
  case h_8 built here =>
    split at taken
    · cases taken
      trivial
    · cases taken
      show Informed p.threads p.workers p.owner
      exact informed
  case h_9 built here =>
    cases taken
    exact fun entry member => .inl (List.mem_map_of_mem member)
  case h_10 built t todo here =>
    obtain ⟨q,sent,rfl⟩ := Option.map_eq_some_iff.mp taken
    rw [here] at informed
    -- The request settles its own thread; the others keep what they had.
    have own : Released q.threads t ∧ Advances p.threads q.threads ∧ q.workers = p.workers := by
      obtain ⟨w,found,⟨finished,rfl⟩ | rfl⟩ := requestShutdown_cases sent
      · exact ⟨.inl ⟨w,found,by simp [finished,Phase.rank]⟩,.refl _,rfl⟩
      · have bound := (List.getElem?_eq_some_iff.mp found).1
        exact ⟨.inr ⟨{w with shutdown := .pending},by simp [bound],by simp⟩,
          .set found rfl le_rfl (by simp),rfl⟩
    obtain ⟨told,advances,workers⟩ := own
    intro entry member
    rcases informed entry (workers ▸ member) with waiting | released
    · rcases List.mem_cons.mp waiting with same | later
      · exact .inr (same ▸ told)
      · exact .inl later
    · exact .inr (released.mono advances)
  case h_11 built here =>
    cases taken
    rw [here] at informed
    exact fun entry member => (informed entry member).resolve_left (by simp)
  case h_12 built here =>
    cases taken
    rw [here] at informed
    exact informed
  case h_13 built here =>
    split at taken
    · cases taken
      rw [here] at informed
      exact informed
    · contradiction
  case h_14 built here =>
    cases taken
    rw [here] at informed
    intro t member
    obtain ⟨entry,inside,rfl⟩ := List.mem_map.mp member
    exact informed entry inside
  case h_15 built t rest here =>
    split at taken
    · cases taken
      rw [here] at informed
      exact fun u member => informed u (List.mem_cons_of_mem _ member)
    · contradiction
  case h_6 =>
    split at taken
    · cases taken
      trivial
    · contradiction
  case h_17 => contradiction
  all_goals
    cases taken
    trivial

theorem Informed.step {p p' : State} (informed : Informed p.threads p.workers p.owner) {a : Action}
    (timely : InsertsInTime p a) (taken : step p a = some p') :
    Informed p'.threads p'.workers p'.owner := by
  cases a with
  | worker t a =>
    obtain ⟨w,w',exits,queued,found,rfl,sameId,later,told,_⟩ := workerStep_cases taken
    exact informed.mono (.set found sameId later told) fun _ member => member
  | supervisor a =>
    obtain ⟨advances,owner,workers⟩ := supervisorStep_effect taken
    rw [owner]
    by_cases inserting : ∃ id t missing, p.supervisor = .spawning (.insert id t) missing ∧ p.writable = true
    · obtain ⟨id,t,missing,here,writable⟩ := inserting
      have early := timely id t missing a here rfl
      unfold State.writable at writable
      cases pc : p.owner <;> simp_all [OwnerPc.requested,Informed]
    · exact informed.mono advances fun entry member => (workers entry member).resolve_right inserting
  | owner a => exact informed.ownerStep taken
  | client i =>
    simp only [Lifecycle.step,bind,Option.bind_eq_some_iff] at taken
    obtain ⟨pc,_,⟨q,pc'⟩,reaped,moved⟩ := taken
    obtain ⟨threads,owner,workers⟩ := reapStep_effect reaped
    cases moved
    show Informed q.threads q.workers q.owner
    rw [owner,threads]
    exact informed.mono (.refl _) workers
  | enterLiveWorkers =>
    simp only [Lifecycle.step] at taken
    split at taken
    · cases taken
      exact informed
    · contradiction
  | submit =>
    simp only [Lifecycle.step] at taken
    split at taken
    · cases taken
      exact informed
    · contradiction
  | elapse nanos =>
    cases taken
    exact informed

/-- Along every run in which no worker is inserted after drop has walked the map,
whoever drop joins has finished or was told to stop. -/
theorem drop_joins_only_released {p : State} (reached : machine.ReachableBy InsertsInTime p)
    (built : Bool) (handles : List ThreadId) (joining : p.owner = .joining built handles) :
    ∀ t ∈ handles, Released p.threads t := by
  have informed : Informed p.threads p.workers p.owner :=
    reached.invariant (fun p => Informed p.threads p.workers p.owner)
      (fun p start => by
        obtain ⟨desired,capacity,window,maxRestarts,_,_,_,rfl⟩ := start
        trivial)
      (fun _ _ _ informed timely taken => informed.step timely taken)
  rw [joining] at informed
  exact informed

/-- The one worker of a pool panics, and the supervisor has started the thread of
another but not yet inserted its handle. -/
def halfRestarted : List Action :=
  [.owner .next,.owner .next,.owner .next,.worker 0 .startOk,.owner .next,.owner .next,.owner .next,
    .submit,.worker 0 .takeJob,.worker 0 .jobPanic,.worker 0 .sendExit,.worker 0 .finish,
    .supervisor .recvExit,.supervisor .next,.supervisor .next,.supervisor .next,.supervisor .next,
    .supervisor .next,.supervisor .next,.supervisor .next,.supervisor .next,.supervisor .next]

/-- The pool is dropped, and the handle is inserted just before drop walks the map. -/
def timelyInsert : List Action :=
  halfRestarted ++
    [.owner .dropPool,.owner .next,.owner .next,.supervisor .next,.owner .next,.owner .next,.owner .next,.owner .next,
      .worker 1 .startOk,.supervisor .next,.supervisor .next,.supervisor .recvShutdown,.owner .next,.owner .next]

theorem drop_joins_only_released_at_timelyInsert : ∃ p, machine.ReachableBy InsertsInTime p ∧
    p.owner = .joining true [1] ∧ p.threads[1]? = some ⟨1,.select,none,.pending⟩ ∧ Released p.threads 1 := by
  obtain ⟨p,reached,passed⟩ := machine.replay_witness_by InsertsInTime
    (fun p _ => !(p.supervisor.inserts && p.owner.requested))
    (fun p a timely id t missing choice here _ => by simpa [here,SupervisorPc.inserts] using timely)
    timelyInsert (.new 1 1 1000 1)
    (fun p => p.owner == .joining true [1] && p.threads[1]? == some ⟨1,.select,none,.pending⟩)
    ⟨1,1,1000,1,by decide,by decide,by decide,rfl⟩ (by decide)
  obtain ⟨joining,told⟩ : p.owner = .joining true [1] ∧ p.threads[1]? = some ⟨1,.select,none,.pending⟩ := by
    simpa using passed
  exact ⟨p,reached,joining,told,drop_joins_only_released reached true [1] joining 1 (by simp)⟩

/-- The pool is dropped, and the handle is inserted only after drop has walked the map. -/
def lateInsert : List Action :=
  halfRestarted ++
    [.owner .dropPool,.owner .next,.owner .next,.owner .next,.owner .next,.owner .next,
      .supervisor .next,.worker 1 .startOk,.supervisor .next,.supervisor .next,.supervisor .recvShutdown,
      .owner .next,.owner .next]

/-- Where that run ends: drop joins a worker that idles in `select!`. -/
def hungPool : State :=
  {State.new 1 1 1000 1 with
    closed := true
    nextWorkerId := 2
    threads := [⟨0,.finished,none,.empty⟩,⟨1,.select,none,.empty⟩]
    guard := ⟨1000,1,[0]⟩
    owner := .joining true [1]
    supervisor := .finished}

theorem hungPool_stuck (a : Action) (waits : ∀ nanos, a ≠ .elapse nanos) : step hungPool a = none := by
  cases a with
  | worker t a =>
    rcases t with _ | _ | t
    · cases a <;> rfl
    · cases a <;> rfl
    · rfl
  | supervisor a => cases a <;> rfl
  | owner a => cases a <;> rfl
  | client i => rfl
  | enterLiveWorkers => rfl
  | submit => rfl
  | elapse nanos => exact absurd rfl (waits nanos)

/-- Drop reaches the join of a worker that idles in `select!`, was never told to
stop, and whose sender drop itself holds; from there on only time passes. -/
theorem drop_joins_untold_worker : machine.Reachable hungPool ∧ hungPool.owner = .joining true [1] ∧
    hungPool.threads[1]? = some ⟨1,.select,none,.empty⟩ ∧ 1 ∈ hungPool.owner.held ∧ hungPool.queued = 0 ∧
    ¬ Released hungPool.threads 1 ∧ ∀ a, (∀ nanos, a ≠ .elapse nanos) → step hungPool a = none := by
  refine ⟨machine.replayBy_reachable _ (fun _ _ => true) (fun _ _ _ => trivial) lateInsert _ _
    (.start (.new 1 1 1000 1) ?_) (by decide),rfl,rfl,by decide,rfl,?_,
    hungPool_stuck⟩
  · exact ⟨1,1,1000,1,by decide,by decide,by decide,rfl⟩
  · rintro (⟨w,found,finished⟩ | ⟨w,found,told⟩)
    · cases found
      simp [Phase.rank] at finished
    · cases found
      exact told rfl

end MechanicsCore.Pool.Lifecycle
