import MechanicsCore.Pool.Supervision

/-! When a drop ends. A drop that closes the pool while the supervisor is restarting a
worker may wait for that worker forever. Otherwise it comes to its end: the supervisor
finds the pool closed and leaves, every worker has its shutdown request, and
nobody waits but for jobs that are running. -/
namespace MechanicsCore.Pool.Lifecycle
open MechanicsCore.Library

/-- Where the supervisor is when it is not about to count or restart workers. -/
def SupervisorPc.calm : SupervisorPc → Bool
  | .select => true
  | .removeExited _ => true
  | .joinExited _ => true
  | .checkClosed => true
  | .finished => true
  | _ => false

/-- Everybody's steps but those of calls and of the clock. -/
def Drops : Action → Prop
  | .worker _ _ => True
  | .supervisor _ => True
  | .owner .next => True
  | _ => False

/-- Some of these steps can be taken. -/
def Proceeds (p : State) : Prop := ∃ a p', Drops a ∧ step p a = some p'

theorem Supervises.drops {a : Action} (works : Supervises a) : Drops a := by
  cases a with
  | worker t a => trivial
  | supervisor a => trivial
  | owner a =>
    cases a with
    | next => trivial
    | _ => exact works.elim
  | _ => exact works.elim

/-! ## Threads that have reported -/

structure Worker.Sound (w : Worker) : Prop where
  starting : w.phase = .starting → w.ready = none
  delivered : w.shutdown = .delivered → 3 ≤ w.phase.rank

/-- The report of the thread has been taken. -/
structure Worker.Settled (w : Worker) : Prop where
  started : w.phase ≠ .starting
  taken : w.phase.rank ≤ 2 → w.ready = none

def Settles (threads : List Worker) (expected : ThreadId → Prop) : Prop :=
  ∀ (t : ThreadId) (w : Worker), threads[t]? = some w → w.Sound ∧ (expected t ∨ w.Settled)

def OwnerPc.expects : OwnerPc → Option ThreadId
  | .spawning pc _ => pc.expects
  | _ => none

/-- Whose report is still to be taken is one that a spawn is waiting for. -/
def State.Reported (p : State) : Prop :=
  Settles p.threads fun t => p.supervisor.expects = some t ∨ p.owner.expects = some t

theorem Settles.set {threads : List Worker} {expected expected' : ThreadId → Prop} {t : ThreadId} {w' : Worker}
    (settles : Settles threads expected) (bound : t < threads.length) (own : w'.Sound ∧ (expected' t ∨ w'.Settled))
    (others : ∀ u ≠ t, expected u → expected' u) : Settles (threads.set t w') expected' := by
  intro u w found
  by_cases same : t = u
  · subst same
    rw [List.getElem?_set_self bound] at found
    cases found
    exact own
  · rw [List.getElem?_set_ne same] at found
    obtain ⟨sound,held⟩ := settles u w found
    exact ⟨sound,held.imp_left (others u fun eq => same eq.symm)⟩

theorem Settles.imp {threads : List Worker} {expected expected' : ThreadId → Prop} (settles : Settles threads expected)
    (weaker : ∀ t, expected t → expected' t) : Settles threads expected' := by
  intro t w found
  obtain ⟨sound,held⟩ := settles t w found
  exact ⟨sound,held.imp_left (weaker t)⟩

theorem ThreadStep.sound {w w' : Worker} {a : WorkerAction} (moved : ThreadStep w a w') (before : w.Sound) : w'.Sound := by
  have later := moved.phase.later.1
  cases moved with
  | takeShutdown here pending => exact ⟨by simp,fun _ => Nat.le_refl 3⟩
  | _ => exact ⟨by simp,fun told => Nat.le_trans (before.delivered told) later⟩

theorem ThreadStep.settled {w w' : Worker} {a : WorkerAction} (moved : ThreadStep w a w') (before : w.Settled) :
    w'.Settled := by
  have taken := before.taken
  cases moved with
  | startOk here | startErr here | startPanic here => exact absurd here before.started
  | takeJob here | finishJob here | loopPanic here =>
    rw [here] at taken
    exact ⟨by simp,fun _ => taken (by simp [Phase.rank])⟩
  | takeShutdown here | jobPanic here | sendPanicReady here | sendExit reason here | finish here =>
    exact ⟨by simp,by simp [Phase.rank]⟩

/-- `spawn_worker` leaves only threads behind whose report it has taken. -/
theorem Spawns.settles {p p' : State} {pc : SpawnPc} {next : SpawnPc ⊕ Bool} (spawned : Spawns p pc p' next)
    {others : ThreadId → Prop} (settles : Settles p.threads fun t => pc.expects = some t ∨ others t) :
    Settles p'.threads fun t => next.elim SpawnPc.expects (fun _ => none) = some t ∨ others t := by
  -- a thread whose report has just been taken
  have reported {t : ThreadId} {w : Worker} {ok : Bool} (found : p.threads[t]? = some w) (ready : w.ready = some ok) :
      ({w with ready := none} : Worker).Sound ∧ ({w with ready := none} : Worker).Settled := by
    have sound := (settles t w found).1
    have started : w.phase ≠ .starting := fun here => by cases ready.symm.trans (sound.starting here)
    exact ⟨⟨fun _ => rfl,sound.delivered⟩,started,fun _ => rfl⟩
  cases spawned with
  | create =>
    intro t w found
    rcases Nat.lt_or_ge t p.threads.length with old | new
    · rw [List.getElem?_append_left old] at found
      obtain ⟨sound,held⟩ := settles t w found
      exact ⟨sound,held.imp_left fun expected => expected.imp_left (by simp [SpawnPc.expects])⟩
    · have bound := (List.getElem?_eq_some_iff.mp found).1
      simp only [List.length_append,List.length_singleton] at bound
      have last : t = p.threads.length := Nat.le_antisymm (Nat.le_of_lt_succ bound) new
      subst last
      rw [List.getElem?_concat_length] at found
      cases found
      exact ⟨⟨fun _ => rfl,by simp⟩,.inl (.inl rfl)⟩
  | started id t w found ready | failed id t w found ready =>
    have bound := (List.getElem?_eq_some_iff.mp found).1
    obtain ⟨sound,settled⟩ := reported found ready
    refine Settles.set settles bound ⟨sound,.inr settled⟩ fun u apart expected => ?_
    exact expected.imp_left fun same => absurd (Option.some.inj same).symm apart
  | gone id t w found finished =>
    intro u v known
    obtain ⟨sound,held⟩ := settles u v known
    refine ⟨sound,?_⟩
    rcases held with (same | other) | settled
    · cases same
      cases found.symm.trans known
      exact .inr ⟨by simp [finished],by simp [finished,Phase.rank]⟩
    · exact .inl (.inr other)
    · exact .inr settled
  | insert => exact settles
  | createFails => exact settles.imp fun t => Or.imp_left (by simp [SpawnPc.expects])
  | remove => exact settles.imp fun t => Or.imp_left (by simp [SpawnPc.expects])
  | removed => exact settles.imp fun t => Or.imp_left (by simp [SpawnPc.expects])
  | join => exact settles.imp fun t => Or.imp_left (by simp [SpawnPc.expects])

theorem State.Reported.supervised {p p' : State} (settles : p.Reported) (owner : p'.owner = p.owner)
    (supervised : Supervised p p') :
    p'.Reported := by
  unfold State.Reported at settles ⊢
  rw [owner]
  cases supervised with
  | reap pc pc' q here reaped =>
    change Settles q.threads _
    rw [reaped.threads]
    exact settles.imp fun t => Or.imp_left (by simp [here,SupervisorPc.expects])
  | spawn pc pc' missing q here spawned =>
    rw [here] at settles
    exact spawned.settles settles
  | spawned pc missing q here spawned =>
    rw [here] at settles
    exact spawned.settles settles
  | unspawned pc missing q here spawned =>
    rw [here] at settles
    exact spawned.settles settles
  | shutdown here | exit _ _ here | tick here | removeExited _ _ here | forgotten _ here | joinExited _ here
  | checkClosed here | reconcile here | enough _ here | short _ here | restarted here | allowed _ _ here
  | denied _ _ here => exact settles.imp fun t => Or.imp_left (by simp [here,SupervisorPc.expects])

theorem State.Reported.owns {p p' : State} {a : OwnerAction} (owned : Owned p) (settles : p.Reported)
    (owns : Owns p a p') : p'.Reported := by
  have swapped : Settles p.threads fun t => p.owner.expects = some t ∨ p.supervisor.expects = some t :=
    settles.imp fun _ => Or.symm
  unfold State.Reported at settles ⊢
  cases owns with
  | spawn a pc pc' left q here spawned | spawned a pc left q here spawned | unspawned a pc left q here spawned =>
    have same : q.supervisor = p.supervisor := by cases spawned <;> rfl
    rw [here] at swapped
    change Settles q.threads _
    rw [same]
    exact (spawned.settles swapped).imp fun _ => Or.symm
  | tell built t todo q here told =>
    obtain ⟨w,found,⟨_,rfl⟩ | rfl⟩ := requestShutdown_cases told
    · exact settles.imp fun t => Or.imp_right (by simp [here,OwnerPc.expects])
    · obtain ⟨sound,held⟩ := settles t w found
      have bound := (List.getElem?_eq_some_iff.mp found).1
      refine Settles.set settles bound ⟨⟨sound.starting,by simp⟩,?_⟩ fun u _ => Or.imp_right (by simp [here,OwnerPc.expects])
      refine held.imp (Or.imp_right (by simp [here,OwnerPc.expects])) fun settled => ⟨settled.started,settled.taken⟩
  | supervise here =>
    have facts := owned.owner
    rw [here] at facts
    have none : p.supervisor = .notStarted := facts
    exact settles.imp fun t => by simp [here,none,OwnerPc.expects,SupervisorPc.expects]
  | drain built here some => exact settles
  | complete here | build _ here | unsupervised here | dropPool here | close _ here | drained _ here | request _ here
  | toldAll _ here | signal _ here | joinSupervisor _ here | drainWorkers _ here | join _ _ _ here | joined _ here =>
    exact settles.imp fun t => Or.imp_right (by simp [here,OwnerPc.expects])

theorem State.Reported.step {p p' : State} {a : Action} (owned : Owned p) (settles : p.Reported)
    (taken : Lifecycle.step p a = some p') : p'.Reported := by
  cases a with
  | worker t a =>
    obtain ⟨w,w',exits,queued,known,moved,rfl,_⟩ := workerStep_thread taken
    obtain ⟨sound,held⟩ := settles t w known
    exact Settles.set settles (List.getElem?_eq_some_iff.mp known).1 ⟨moved.sound sound,held.imp_right moved.settled⟩
      fun _ _ expected => expected
  | supervisor a => exact settles.supervised (supervisorStep_beside taken).owner (supervisorStep_supervised taken)
  | client i =>
    simp only [Lifecycle.step,bind,Option.bind_eq_some_iff] at taken
    obtain ⟨pc,found,⟨q,pc'⟩,reaped,moved⟩ := taken
    cases moved
    cases reapStep_reaps reaped <;> exact settles
  | enterLiveWorkers =>
    simp only [Lifecycle.step] at taken
    split at taken
    · cases taken
      exact settles
    · contradiction
  | submit =>
    simp only [Lifecycle.step] at taken
    split at taken
    · cases taken
      exact settles
    · contradiction
  | owner a => exact settles.owns owned (ownerStep_owns taken)
  | elapse nanos =>
    cases taken
    exact settles

theorem reachable_settles {p : State} (reached : machine.Reachable p) : p.Reported := by
  have both : Owned p ∧ p.Reported := by
    refine reached.invariant (fun p => Owned p ∧ p.Reported) ?_ fun _ _ _ before taken =>
      ⟨before.1.step taken,before.2.step before.1 taken⟩
    intro p start
    refine ⟨.initial start,?_⟩
    obtain ⟨desired,capacity,window,maxRestarts,_,_,_,rfl⟩ := start
    intro t w found
    simp [State.new] at found
  exact both.2

/-! ## A drop under way -/

/-- From the draining to the end. -/
def OwnerPc.closing : OwnerPc → Bool
  | .drainQueue built => built
  | .request built => built
  | .requesting built _ => built
  | .signalSupervisor built => built
  | .joinSupervisor built => built
  | .drainWorkers built => built
  | .joining built _ => built
  | .dropped built => built
  | _ => false

theorem Supervised.calm {p p' : State} (supervised : Supervised p p') (closed : p.closed = true)
    (calm : p.supervisor.calm = true) : p'.supervisor.calm = true := by
  cases supervised with
  | checkClosed here => simp [closed,SupervisorPc.calm]
  | shutdown here | exit _ _ here | tick here | removeExited _ _ here | forgotten _ here | joinExited _ here => rfl
  | reconcile here | enough _ here | short _ here | reap _ _ _ here | restarted here | allowed _ _ here | denied _ _ here
  | spawn _ _ _ _ here | spawned _ _ _ here | unspawned _ _ _ here =>
    rw [here] at calm
    cases calm

/-- The request to leave stays until the supervisor follows it. -/
theorem Supervised.signaled {p p' : State} (supervised : Supervised p p') (signaled : p.supervisorShutdown = true) :
    p'.supervisorShutdown = true ∨ p'.supervisor = .finished := by
  cases supervised with
  | shutdown here => exact .inr rfl
  | reap pc pc' q here reaped => cases reaped <;> exact .inl signaled
  | spawn _ _ _ _ here spawned | spawned _ _ _ here spawned | unspawned _ _ _ here spawned =>
    cases spawned <;> exact .inl signaled
  | _ => exact .inl signaled

theorem Owns.closing {p p' : State} {a : OwnerAction} (owns : Owns p a p') (closing : p.owner.closing = true) :
    a = .next ∧ p'.owner.closing = true ∧ p'.closed = p.closed ∧ p'.supervisor = p.supervisor ∧
      (p'.owner = .joinSupervisor true → p'.supervisorShutdown = true) := by
  cases owns with
  | complete here | build _ here | spawn _ _ _ _ _ here | spawned _ _ _ _ here | unspawned _ _ _ _ here | supervise here
  | unsupervised here | dropPool here | close _ here =>
    rw [here] at closing
    cases closing
  | tell built t todo q here told =>
    rw [here] at closing
    obtain ⟨w,found,⟨_,rfl⟩ | rfl⟩ := requestShutdown_cases told
    · exact ⟨rfl,closing,rfl,rfl,by simp⟩
    · exact ⟨rfl,closing,rfl,rfl,by simp⟩
  | drain built here some => exact ⟨rfl,closing,rfl,rfl,by simp [here]⟩
  | signal built here =>
    rw [here] at closing
    exact ⟨rfl,closing,rfl,rfl,fun same => by cases same; rfl⟩
  | drained _ here | request _ here | toldAll _ here | joinSupervisor _ here | drainWorkers _ here | join _ _ _ here
  | joined _ here =>
    rw [here] at closing
    exact ⟨rfl,closing,rfl,rfl,by simp⟩

/-- A drop of a pool whose supervisor restarts nobody. -/
structure Closing (p : State) : Prop where
  orderly : Orderly p
  settles : p.Reported
  closed : p.closed = true
  calm : p.supervisor.calm = true
  closing : p.owner.closing = true
  informed : Informed p.threads p.workers p.owner
  signaled : p.owner = .joinSupervisor true → p.supervisorShutdown = true ∨ p.supervisor = .finished

theorem Closing.unused {p : State} (drop : Closing p) : p.owner ≠ .inUse := by
  intro here
  have closing := drop.closing
  rw [here] at closing
  cases closing

theorem Closing.step {p p' : State} {a : Action} (drop : Closing p) (taken : step p a = some p') : Closing p' := by
  have orderly := drop.orderly.step taken
  have settles := drop.settles.step drop.orderly.owned taken
  have timely : InsertsInTime p a := by
    intro id t missing choice here
    have calm := drop.calm
    rw [here] at calm
    cases calm
  have informed := drop.informed.step timely taken
  cases a with
  | worker t a =>
    obtain ⟨w,w',exits,queued,known,moved,rfl,_⟩ := workerStep_thread taken
    exact ⟨orderly,settles,drop.closed,drop.calm,drop.closing,informed,drop.signaled⟩
  | supervisor a =>
    have supervised := supervisorStep_supervised taken
    have beside := supervisorStep_beside taken
    refine ⟨orderly,settles,beside.closed.trans drop.closed,supervised.calm drop.closed drop.calm,
      beside.owner ▸ drop.closing,informed,fun here => ?_⟩
    rcases drop.signaled (beside.owner ▸ here) with signaled | gone
    · exact supervised.signaled signaled
    · exact absurd ((idle_stuck (.inr gone) a).symm.trans taken) (by simp)
  | client i =>
    simp only [Lifecycle.step,bind,Option.bind_eq_some_iff] at taken
    obtain ⟨pc,found,⟨q,pc'⟩,reaped,moved⟩ := taken
    cases moved
    cases reapStep_reaps reaped <;>
      exact ⟨orderly,settles,drop.closed,drop.calm,drop.closing,informed,drop.signaled⟩
  | enterLiveWorkers =>
    simp only [Lifecycle.step,drop.unused,if_false] at taken
    contradiction
  | submit =>
    simp only [Lifecycle.step,drop.unused,false_and,if_false] at taken
    contradiction
  | owner a =>
    obtain ⟨rfl,closing,closed,supervisor,signaled⟩ := (ownerStep_owns taken).closing drop.closing
    exact ⟨orderly,settles,closed.trans drop.closed,supervisor ▸ drop.calm,closing,informed,fun here => .inl (signaled here)⟩
  | elapse nanos =>
    cases taken
    exact ⟨orderly,settles,drop.closed,drop.calm,drop.closing,informed,drop.signaled⟩

/-! ## The way to the end -/

/-- Steps to the end of a thread. A job that is taken is paid for by the queue. -/
def Phase.toEnd : Phase → Nat
  | .starting => 7
  | .running => 6
  | .select => 5
  | .panicking => 3
  | .leaving _ => 2
  | .exited => 1
  | .finished => 0

def SupervisorPc.toLeave : SupervisorPc → Nat
  | .select => 4
  | .removeExited _ => 3
  | .joinExited _ => 2
  | .checkClosed => 1
  | _ => 0

def State.toDrop (p : State) : Nat :=
  p.owner.steps p.workers.length + p.supervisor.toLeave + (p.threads.map fun w => w.phase.toEnd).sum + 2 * p.queued

theorem OwnerPc.steps_mono (pc : OwnerPc) {fewer rows : Nat} (less : fewer ≤ rows) : pc.steps fewer ≤ pc.steps rows := by
  unfold OwnerPc.steps
  split <;> omega

theorem PhaseStep.nearer {a : WorkerAction} {phase phase' : Phase} (moved : PhaseStep a phase phase') :
    phase'.toEnd < phase.toEnd ∨ a = .takeJob ∧ phase'.toEnd = phase.toEnd + 1 := by
  cases moved <;> simp [Phase.toEnd]

theorem workerStep_toDrop {p p' : State} {t : ThreadId} {a : WorkerAction} (taken : workerStep p t a = some p') :
    p'.toDrop < p.toDrop := by
  obtain ⟨w,w',exits,queued,found,moved,rfl,count⟩ := workerStep_phase taken
  have changed := sum_map_set (fun w : Worker => w.phase.toEnd) w' found
  simp only [State.toDrop]
  rcases moved.nearer with less | ⟨rfl,more⟩
  · rcases count with ⟨_,count⟩ | ⟨_,count⟩ <;> omega
  · rcases count with ⟨_,count⟩ | ⟨other,_⟩
    · omega
    · exact absurd rfl other

theorem Supervised.toDrop {p p' : State} (supervised : Supervised p p') (closed : p.closed = true)
    (calm : p.supervisor.calm = true) : p'.toDrop < p.toDrop := by
  cases supervised with
  | checkClosed here =>
    simp only [State.toDrop,here,closed,if_true,SupervisorPc.toLeave]
    omega
  | removeExited event t here handle =>
    have fewer := p.owner.steps_mono (removeHandles_length_le p [event.workerId])
    simp only [State.toDrop,here,SupervisorPc.toLeave,State.removeHandles] at fewer ⊢
    omega
  | shutdown here | exit _ _ here | tick here | forgotten _ here | joinExited _ here =>
    simp only [State.toDrop,here,SupervisorPc.toLeave]
    omega
  | reconcile here | enough _ here | short _ here | reap _ _ _ here | restarted here | allowed _ _ here | denied _ _ here
  | spawn _ _ _ _ here | spawned _ _ _ here | unspawned _ _ _ here =>
    rw [here] at calm
    cases calm

theorem Owns.toDrop {p p' : State} {a : OwnerAction} (owns : Owns p a p') (closing : p.owner.closing = true) :
    p'.toDrop < p.toDrop := by
  cases owns with
  | complete here | build _ here | spawn _ _ _ _ _ here | spawned _ _ _ _ here | unspawned _ _ _ _ here | supervise here
  | unsupervised here | dropPool here | close _ here =>
    rw [here] at closing
    cases closing
  | tell built t todo q here told =>
    obtain ⟨w,found,⟨_,rfl⟩ | rfl⟩ := requestShutdown_cases told
    · simp only [State.toDrop,here,OwnerPc.steps,List.length_cons]
      omega
    · have changed := sum_map_set (fun w : Worker => w.phase.toEnd) {w with shutdown := .pending} found
      have same : ((p.threads.set t {w with shutdown := .pending}).map fun w => w.phase.toEnd).sum =
          (p.threads.map fun w => w.phase.toEnd).sum := Nat.add_right_cancel changed
      simp only [State.toDrop,here,OwnerPc.steps,List.length_cons,same]
      omega
  | drain built here some | drained built here none | request built here | toldAll built here | signal built here
  | joinSupervisor built here idle | drainWorkers built here | join built t rest here | joined built here =>
    simp only [State.toDrop,here,OwnerPc.steps,List.length_map,List.length_cons,List.length_nil]
    omega

/-- A thread that was told to stop, or has ended, can go on until it ends. -/
theorem Closing.released_moves {p : State} (drop : Closing p) {t : ThreadId} (released : Released p.threads t)
    (unexpected : p.owner.expects = none) : p.isFinished t = true ∨ ∃ a p', workerStep p t a = some p' := by
  rcases released with finished | ⟨w,found,told⟩
  · exact .inl ((isFinished_iff p t).mpr finished)
  · obtain ⟨sound,held⟩ := drop.settles t w found
    have settled : w.Settled := by
      rcases held with (restarted | building) | settled
      · have calm := drop.calm
        cases here : p.supervisor <;> simp_all [SupervisorPc.expects,SupervisorPc.calm]
      · cases unexpected.symm.trans building
      · exact settled
    cases here : w.phase with
    | starting => exact absurd here settled.started
    | select =>
      have pending : w.shutdown = .pending := by
        cases was : w.shutdown with
        | empty => exact absurd was told
        | pending => rfl
        | delivered =>
          have late := sound.delivered was
          simp [here,Phase.rank] at late
      exact .inr ⟨.takeShutdown,by simp [workerStep,found,here,pending]⟩
    | running => exact .inr ⟨.finishJob,by simp [workerStep,found,here]⟩
    | panicking =>
      have empty := settled.taken (by simp [here,Phase.rank])
      exact .inr ⟨.sendPanicReady,by simp [workerStep,found,here,empty]⟩
    | leaving reason => exact .inr ⟨.sendExit,by simp [workerStep,found,here]⟩
    | exited => exact .inr ⟨.finish,by simp [workerStep,found,here]⟩
    | finished => exact .inl (by simp [State.isFinished,found,here])

/-- A calm supervisor that was told to leave does so. -/
theorem Closing.supervisor_moves {p : State} (drop : Closing p) (here : p.owner = .joinSupervisor true) :
    p.supervisor = .finished ∨ Proceeds p := by
  have calm := drop.calm
  have facts := drop.orderly.owned.supervisor
  have free : p.writable = true := by simp [State.writable,here]
  have go (a : SupervisorAction) (enabled : ∃ p', supervisorStep p a = some p') : Proceeds p := by
    obtain ⟨p',taken⟩ := enabled
    exact ⟨.supervisor a,p',trivial,taken⟩
  cases at_ : p.supervisor with
  | finished => exact .inl rfl
  | select =>
    rcases drop.signaled here with signaled | gone
    · exact .inr (go .recvShutdown (by simp [supervisorStep,at_,signaled]))
    · exact .inl (at_.symm.trans gone)
  | removeExited event =>
    cases handle : p.handle event.workerId <;>
      exact .inr (go .next (by simp [supervisorStep,at_,free,handle]))
  | joinExited t =>
    rw [at_] at facts
    rcases finished_or_goes_on (facts.weaken (by decide)) with finished | ⟨a,p',works,taken⟩
    · exact .inr (go .next (by simp [supervisorStep,at_,finished]))
    · exact .inr ⟨a,p',works.drops,taken⟩
  | checkClosed => exact .inr (go .next (by simp [supervisorStep,at_]))
  | _ =>
    rw [at_] at calm
    cases calm

theorem Closing.enabled {p : State} (drop : Closing p) (notYet : p.owner ≠ .dropped true) :
    Proceeds p := by
  have closing := drop.closing
  have informed := drop.informed
  have go (enabled : ∃ p', ownerStep p .next = some p') : Proceeds p := by
    obtain ⟨p',taken⟩ := enabled
    exact ⟨.owner .next,p',trivial,taken⟩
  cases here : p.owner with
  | drainQueue built =>
    by_cases none : p.queued = 0 <;> exact go (by simp [ownerStep,here,none])
  | request built => exact go (by simp [ownerStep,here])
  | requesting built todo => exact go (drop.orderly.requests here)
  | signalSupervisor built => exact go (by simp [ownerStep,here])
  | joinSupervisor built =>
    rw [here] at closing
    cases closing
    rcases drop.supervisor_moves here with gone | moves
    · exact go (by simp [ownerStep,here,gone])
    · exact moves
  | drainWorkers built => exact go (by simp [ownerStep,here])
  | joining built handles =>
    cases handles with
    | nil => exact go (by simp [ownerStep,here])
    | cons t rest =>
      rw [here] at informed
      rcases drop.released_moves (informed t List.mem_cons_self) (by rw [here]; rfl) with finished | ⟨a,p',taken⟩
      · exact go (by simp [ownerStep,here,finished])
      · exact ⟨.worker t a,p',trivial,taken⟩
  | dropped built =>
    rw [here] at closing
    cases closing
    exact absurd here notYet
  | _ =>
    rw [here] at closing
    cases closing

theorem Closing.lowers {p p' : State} {a : Action} (drop : Closing p) (works : Drops a)
    (taken : Lifecycle.step p a = some p') : p'.toDrop < p.toDrop := by
  cases a with
  | worker t a => exact workerStep_toDrop taken
  | supervisor a => exact (supervisorStep_supervised taken).toDrop drop.closed drop.calm
  | owner a => exact (ownerStep_owns taken).toDrop drop.closing
  | _ => exact works.elim

theorem Closing.idles {p p' : State} {a : Action} (drop : Closing p) (idle : ¬ Drops a)
    (taken : Lifecycle.step p a = some p') : p'.toDrop ≤ p.toDrop ∧ p'.owner = p.owner := by
  cases a with
  | worker t a => exact absurd trivial idle
  | supervisor a => exact absurd trivial idle
  | owner a =>
    obtain ⟨rfl,_⟩ := (ownerStep_owns taken).closing drop.closing
    exact absurd trivial idle
  | client i =>
    simp only [Lifecycle.step,bind,Option.bind_eq_some_iff] at taken
    obtain ⟨pc,found,⟨q,pc'⟩,reaped,moved⟩ := taken
    cases moved
    cases reapStep_reaps reaped with
    | remove ids free =>
      have fewer := p.owner.steps_mono (removeHandles_length_le p ids)
      refine ⟨?_,rfl⟩
      simp only [State.toDrop,State.removeHandles] at fewer ⊢
      omega
    | _ => exact ⟨Nat.le_refl _,rfl⟩
  | enterLiveWorkers =>
    simp only [Lifecycle.step,drop.unused,if_false] at taken
    contradiction
  | submit =>
    simp only [Lifecycle.step,drop.unused,false_and,if_false] at taken
    contradiction
  | elapse nanos =>
    cases taken
    exact ⟨Nat.le_refl _,rfl⟩

/-- A drop that has closed the pool ends as soon as the running jobs do, if the supervisor is
not counting or restarting workers then. -/
theorem calm_drop_ends {p : State} (reached : machine.Reachable p) (closed : p.owner = .drainQueue true)
    (calm : p.supervisor.calm = true) : machine.Inevitable Drops (fun p => p.owner = .dropped true) p := by
  have start : Closing p := {
    orderly := reachable_orderly reached
    settles := reachable_settles reached
    closed := (reachable_wound reached).closed (by rw [closed]; rfl)
    calm := calm
    closing := by rw [closed]; rfl
    informed := by rw [closed]; trivial
    signaled := by simp [closed]}
  refine Machine.inevitable_of_measure Closing State.toDrop (fun _ _ _ drop taken => drop.step taken) ?_ ?_ ?_ start
  · intro p drop notYet
    exact drop.enabled notYet
  · intro p a p' drop _ works taken
    exact drop.lowers works taken
  · intro p a p' drop idle taken
    obtain ⟨below,same⟩ := drop.idles idle taken
    exact ⟨below,fun ended => same.symm.trans ended⟩

/-- The pool is closed while its one worker runs a job and another job waits. -/
def closedBusy : List Action :=
  [.owner .next,.owner .next,.owner .next,.worker 0 .startOk,.owner .next,.owner .next,.owner .next,.submit,
    .worker 0 .takeJob,.submit,.owner .dropPool,.owner .next]

theorem calm_drop_ends_at_closedBusy : ∃ p, machine.Reachable p ∧ p.owner = .drainQueue true ∧ p.queued = 1 ∧
    p.threads.map (·.phase) = [.running] ∧ machine.Inevitable Drops (fun p => p.owner = .dropped true) p := by
  obtain ⟨p,reached,checked⟩ := machine.replay_witness closedBusy (.new 1 1 1000 1)
    (fun p => p.owner == .drainQueue true && p.queued == 1 && p.threads.map (·.phase) == [.running] &&
      p.supervisor.calm)
    ⟨1,1,1000,1,by decide,by decide,by decide,rfl⟩ (by decide)
  simp only [Bool.and_eq_true,beq_iff_eq] at checked
  obtain ⟨⟨⟨owner,queued⟩,threads⟩,calm⟩ := checked
  exact ⟨p,reached,owner,queued,threads,calm_drop_ends reached owner calm⟩

end MechanicsCore.Pool.Lifecycle
