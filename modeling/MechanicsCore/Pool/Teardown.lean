import Mathlib.Algebra.Order.Ring.Nat
import MechanicsCore.Library.Slots
import MechanicsCore.Pool.Construction

/-! A construction that has failed comes to its end: what the owner waits for can
always go on, and every step of a worker or of the owner brings the end nearer. -/
namespace MechanicsCore.Pool.Lifecycle
open MechanicsCore.Library Construction

/-- Steps the owner still has to take, with so many entries in the map. -/
def OwnerPc.steps (rows : Nat) : OwnerPc → Nat
  | .dropped _ => 0
  | .joining _ handles => handles.length + 1
  | .drainWorkers _ => rows + 2
  | .joinSupervisor _ => rows + 3
  | .signalSupervisor _ => rows + 4
  | .requesting _ todo => rows + todo.length + 5
  | .request _ => 2 * rows + 6
  | .drainQueue _ => 2 * rows + 7
  | .markClosed _ => 2 * rows + 8
  | .spawning (.join _) _ => 2 * rows + 9
  | _ => 2 * rows + 10

/-- Steps the threads still have to take. -/
def remaining (threads : List Worker) : Nat := (threads.map fun w => 5 - w.phase.rank).sum

def State.work (p : State) : Nat := p.owner.steps p.workers.length + remaining p.threads

theorem Phase.rank_le (phase : Phase) : phase.rank ≤ 5 := by
  cases phase <;> simp [Phase.rank]

theorem remaining_set {threads : List Worker} {t : ThreadId} {w : Worker} (w' : Worker) (found : threads[t]? = some w) :
    remaining (threads.set t w') + (5 - w.phase.rank) = remaining threads + (5 - w'.phase.rank) :=
  sum_map_set _ w' found

section Lowers
variable {p p' : State} {l l' : Ledger}

theorem Unwinds.failing (moved : Unwinds p l p.owner p' l') : p'.owner.failing = true := by
  generalize p.owner = pc at moved
  cases moved <;> rfl

theorem Unwinds.lowers (moved : Unwinds p l p.owner p' l') : p'.work < p.work := by
  unfold State.work
  generalize p.owner = pc at moved
  cases moved with
  | remove id t left =>
    have fewer := removeHandles_length_le p [id]
    change OwnerPc.steps (p.removeHandles [id]).workers.length (.spawning (.join t) left) + remaining p.threads < _
    simp only [OwnerPc.steps]
    omega
  | tell t todo q sent =>
    -- The request leaves the map and the phases as they are.
    have same : q.workers = p.workers ∧ remaining q.threads = remaining p.threads := by
      obtain ⟨w,found,⟨_,rfl⟩ | rfl⟩ := requestShutdown_cases sent
      · exact ⟨rfl,rfl⟩
      · have changed := remaining_set {w with shutdown := .pending} found
        exact ⟨rfl,Nat.add_right_cancel changed⟩
    simp only [OwnerPc.steps,same,List.length_cons]
    omega
  | _ =>
    simp only [OwnerPc.steps,List.length_map,List.length_cons,List.length_nil]
    omega

theorem workerStep_lowers (building : Building p l) {t : ThreadId} {a : WorkerAction}
    (taken : workerStep p t a = some p') : p'.work < p.work := by
  cases found : p.threads[t]? with
  | none => simp [workerStep,found] at taken
  | some w =>
    obtain ⟨w',exits,rfl,later,_⟩ :=
      workerStep_quiet building.queued found (building.role found).resting taken
    have changed := remaining_set w' found
    have last := w'.phase.rank_le
    simp only [State.work]
    omega

end Lowers

/-- A thread that is on its way out can take its next step. -/
theorem outgoing_moves {p : State} {t : ThreadId} {w : Worker} (found : p.threads[t]? = some w) (outgoing : Outgoing w)
    (unfinished : w.phase ≠ .finished) : ∃ a p', workerStep p t a = some p' := by
  rcases outgoing with ⟨select,pending⟩ | gone
  · exact ⟨.takeShutdown,by simp [workerStep,found,select,pending]⟩
  · cases phase : w.phase with
    | leaving reason => exact ⟨.sendExit,by simp [workerStep,found,phase]⟩
    | exited => exact ⟨.finish,by simp [workerStep,found,phase]⟩
    | finished => exact absurd phase unfinished
    | _ => simp [phase,Phase.rank] at gone

theorem OwnerPc.building_of_failing {pc : OwnerPc} (failing : pc.failing = true) : pc.building = true := by
  cases pc with
  | constructing left => rfl
  | spawning pc left => rfl
  | startSupervisor => rfl
  | _ => exact failing

namespace Building
variable {p : State} {l : Ledger}

/-- Whoever waits for a thread on its way out finds it finished, or the thread can move. -/
theorem finished_or_moves {t : ThreadId} {w : Worker} (found : p.threads[t]? = some w) (outgoing : Outgoing w) :
    p.isFinished t = true ∨ ∃ a p', Works a ∧ Construction.step p a = some p' := by
  by_cases finished : w.phase = .finished
  · exact .inl (by simp [State.isFinished,found,finished])
  · obtain ⟨a,p',taken⟩ := outgoing_moves found outgoing finished
    exact .inr ⟨.pool (.worker t a),p',trivial,taken⟩

theorem outgoing (building : Building p l) {t : ThreadId} (bound : t < p.threads.length)
    (told : t ∈ l.told ∨ l.started.length ≤ t ∧ p.owner.awaits = false) (mine : t ∈ l.told → t < l.started.length) :
    ∃ w, p.threads[t]? = some w ∧ Outgoing w := by
  have found : p.threads[t]? = some p.threads[t] := List.getElem?_eq_getElem bound
  have role := building.role found
  refine ⟨_,found,?_⟩
  rcases told with asked | ⟨newest,quiet⟩
  · rwa [Role,if_pos (mine asked),if_pos asked] at role
  · rw [Role,if_neg (not_lt.mpr newest),quiet,if_neg Bool.false_ne_true] at role
    exact .inr role

theorem enabled (building : Building p l) (failing : p.owner.failing = true) (notYet : p.owner ≠ .dropped false) :
    ∃ a p', Works a ∧ Construction.step p a = some p' := by
  have place := building.place
  have go : (∃ p', Lifecycle.ownerStep p .next = some p') → ∃ a p', Works a ∧ Construction.step p a = some p' :=
    fun ⟨p',taken⟩ => ⟨.pool (.owner .next),p',trivial,taken⟩
  have quiet : p.owner.awaits = false := by
    cases here : p.owner with
    | spawning pc left => cases pc <;> simp_all [OwnerPc.failing,OwnerPc.awaits]
    | _ => rfl
  cases here : p.owner with
  | constructing left => simp [here,OwnerPc.failing] at failing
  | startSupervisor => simp [here,OwnerPc.failing] at failing
  | inUse => simp [here,OwnerPc.failing,OwnerPc.building] at failing
  | spawning pc left =>
    rw [here] at place
    cases pc with
    | create => simp [here,OwnerPc.failing] at failing
    | insert id t => simp [here,OwnerPc.failing] at failing
    | await id t => simp [here,OwnerPc.failing] at failing
    | remove id t =>
      apply go
      simp [Lifecycle.ownerStep,Lifecycle.spawnStep,here,State.writable,(handle_newest place.1).1]
    | join t =>
      obtain ⟨_,untouched,size,newest⟩ := place
      obtain ⟨w,found,outgoing⟩ := building.outgoing (t := t) (by rw [size,newest]; exact Nat.lt_succ_self _)
        (.inr ⟨newest.ge,quiet⟩) (by simp [untouched.told])
      rcases finished_or_moves found outgoing with finished | moves
      · apply go
        simp [Lifecycle.ownerStep,Lifecycle.spawnStep,here,finished]
      · exact moves
  | markClosed built =>
    apply go
    simp [Lifecycle.ownerStep,here]
  | drainQueue built =>
    apply go
    simp [Lifecycle.ownerStep,here,building.queued]
  | request built =>
    apply go
    simp [Lifecycle.ownerStep,here]
  | requesting built todo =>
    cases todo with
    | nil =>
      apply go
      simp [Lifecycle.ownerStep,here]
    | cons t todo =>
      obtain ⟨mine,untold⟩ := building.asked here
      obtain ⟨w,found⟩ : ∃ w, p.threads[t]? = some w := ⟨_,List.getElem?_eq_getElem (mine.trans_le building.size)⟩
      obtain ⟨empty,_⟩ := building.waiting found mine untold
      apply go
      by_cases finished : w.phase = .finished
      · simp [Lifecycle.ownerStep,Lifecycle.requestShutdown,here,found,finished]
      · simp [Lifecycle.ownerStep,Lifecycle.requestShutdown,here,found,finished,empty]
  | signalSupervisor built =>
    apply go
    simp [Lifecycle.ownerStep,here]
  | joinSupervisor built =>
    apply go
    simp [Lifecycle.ownerStep,here,building.supervisor]
  | drainWorkers built =>
    apply go
    simp [Lifecycle.ownerStep,here]
  | joining built handles =>
    cases handles with
    | nil =>
      apply go
      simp [Lifecycle.ownerStep,here]
    | cons t rest =>
      rw [here] at place
      obtain ⟨_,told,mine,_⟩ := place
      have started := mine t List.mem_cons_self
      have inside : t < l.started.length := List.mem_range.mp (building.started ▸ started)
      obtain ⟨w,found,outgoing⟩ := building.outgoing (t := t) (inside.trans_le building.size)
        (.inl (told ▸ started)) fun _ => inside
      rcases finished_or_moves found outgoing with finished | moves
      · apply go
        simp [Lifecycle.ownerStep,here,finished]
      · exact moves
  | dropped built =>
    cases built with
    | true => simp [here,OwnerPc.failing,OwnerPc.building] at failing
    | false => exact absurd here notYet

theorem failing_step (building : Building p l) (failing : p.owner.failing = true) {p' : State} {a : ConstructionAction}
    (taken : Construction.step p a = some p') : p'.owner.failing = true := by
  by_cases mine : ∃ choice, a = .pool (.owner choice)
  · obtain ⟨choice,rfl⟩ := mine
    exact (building.unwinds failing taken).failing
  · rwa [step_owner taken fun choice same => mine ⟨choice,same⟩]

theorem lowers (building : Building p l) (failing : p.owner.failing = true) {p' : State} {a : ConstructionAction}
    (works : Works a) (taken : Construction.step p a = some p') : p'.work < p.work := by
  rcases building.parties (OwnerPc.building_of_failing failing) taken with
    ⟨t,rfl⟩ | ⟨t,choice,rfl⟩ | ⟨choice,rfl⟩ | ⟨nanos,rfl⟩
  · exact works.elim
  · exact workerStep_lowers building taken
  · exact (building.unwinds failing taken).lowers
  · exact works.elim

theorem idles (building : Building p l) (failing : p.owner.failing = true) {p' : State} {a : ConstructionAction}
    (idle : ¬ Works a) (taken : Construction.step p a = some p') : p'.work ≤ p.work ∧ p'.owner = p.owner := by
  rcases building.parties (OwnerPc.building_of_failing failing) taken with
    ⟨t,rfl⟩ | ⟨t,choice,rfl⟩ | ⟨choice,rfl⟩ | ⟨nanos,rfl⟩
  · obtain ⟨w,found,rfl⟩ := Option.map_eq_some_iff.mp taken
    have changed : remaining (p.threads.set t {w with phase := .finished}) + (5 - w.phase.rank) =
        remaining p.threads := remaining_set {w with phase := .finished} found
    refine ⟨?_,rfl⟩
    change p.owner.steps p.workers.length + remaining (p.threads.set t {w with phase := .finished}) ≤ p.work
    unfold State.work
    omega
  · exact absurd trivial idle
  · exact absurd trivial idle
  · cases taken
    exact ⟨le_rfl,rfl⟩

end Building

/-- A construction that has failed ends. -/
theorem failed_inevitable {s : State × Ledger} (reached : Construction.machine.Reachable s)
    (failing : s.1.owner.failing = true) :
    Construction.machine.Inevitable Works (fun s => s.1.owner = .dropped false) s := by
  have building := reachable_building reached (OwnerPc.building_of_failing failing)
  refine Machine.inevitable_of_measure (fun s => s.1.owner.failing = true ∧ Building s.1 s.2) (fun s => s.1.work)
    ?_ ?_ ?_ ?_ ⟨failing,building⟩
  · rintro ⟨p,l⟩ a s' ⟨failing,building⟩ taken
    obtain ⟨p',moved,rfl⟩ := Option.map_eq_some_iff.mp taken
    have still := building.failing_step failing moved
    exact ⟨still,building.step (OwnerPc.building_of_failing failing) moved (OwnerPc.building_of_failing still)⟩
  · rintro ⟨p,l⟩ ⟨failing,building⟩ notYet
    obtain ⟨a,p',works,taken⟩ := building.enabled failing notYet
    exact ⟨a,_,works,Option.map_eq_some_iff.mpr ⟨p',taken,rfl⟩⟩
  · rintro ⟨p,l⟩ a s' ⟨failing,building⟩ _ works taken
    obtain ⟨p',moved,rfl⟩ := Option.map_eq_some_iff.mp taken
    exact building.lowers failing works moved
  · rintro ⟨p,l⟩ a s' ⟨failing,building⟩ idle taken
    obtain ⟨p',moved,rfl⟩ := Option.map_eq_some_iff.mp taken
    obtain ⟨below,same⟩ := building.idles failing idle moved
    exact ⟨below,fun there => same.symm.trans there⟩

/-- Learning of a failure, the owner turns to the teardown. -/
theorem Construction.Fails.failing {p p' : State} {a : OwnerAction} (fails : Fails p a)
    (taken : ownerStep p a = some p') : p'.owner.failing = true := by
  unfold Fails at fails
  split at fails
  · rename_i left here
    subst fails
    simp only [ownerStep,spawnStep,here] at taken
    cases taken
    rfl
  · rename_i id t left here
    simp only [ownerStep,here] at taken
    split at taken
    case isFalse => contradiction
    obtain ⟨⟨q,next⟩,spawned,moved⟩ := Option.map_eq_some_iff.mp taken
    simp only [spawnStep,bind,Option.bind_eq_some_iff] at spawned
    obtain ⟨w,found,spawned⟩ := spawned
    rw [reported,found,Option.bind_some] at fails
    split at spawned
    · rename_i ready
      exact absurd ready fails
    · cases spawned
      cases moved
      rfl
    · split at spawned
      · cases spawned
        cases moved
        rfl
      · contradiction
  · rename_i here
    subst fails
    simp only [ownerStep,here] at taken
    cases taken
    rfl
  · exact fails.elim

/-- However a worker or the supervisor fails to start, `new` returns an error, and then
the map is empty, every worker that had started was told to stop, and every thread, the
one that failed included, has ended and was joined. When nothing fails `new` returns the
pool with all its workers in the map, none told to stop and none joined. -/
theorem failed_construction_leaves_nothing {p : State} {l : Ledger}
    (reached : Construction.machine.Reachable (p,l)) :
    (∀ a s, Fails p a → Construction.machine.step (p,l) (.pool (.owner a)) = some s →
      Construction.machine.Inevitable Works (fun s => s.1.owner = .dropped false) s) ∧
    (p.owner = .dropped false → p.workers = [] ∧ (∀ t ∈ l.started, t ∈ l.told) ∧
      ∀ t < p.threads.length, t ∈ l.joined ∧ p.isFinished t = true) ∧
    ∀ s, p.owner = .startSupervisor → Construction.machine.step (p,l) (.pool (.owner .next)) = some s →
      s.1.owner = .inUse ∧ s.1.workers.length = s.1.desiredWorkerCount ∧ s.1.workers.map Prod.snd = s.2.started ∧
        s.2.told = [] ∧ s.2.joined = [] := by
  refine ⟨fun a s fails taken => ?_,fun here => ?_,fun s here taken => ?_⟩
  · have after : Construction.machine.Reachable s := .next _ _ _ reached trivial taken
    obtain ⟨p',moved,rfl⟩ := Option.map_eq_some_iff.mp taken
    exact failed_inevitable after (fails.failing moved)
  · have building := reachable_building reached (by rw [here]; rfl)
    have place := building.place
    rw [here] at place
    obtain ⟨empty,told,cover⟩ := place
    refine ⟨empty,fun t member => told ▸ member,fun t bound => ?_⟩
    have joined := cover t bound
    exact ⟨joined,(isFinished_iff p t).mpr (building.joined t joined)⟩
  · have building := reachable_building reached (by rw [here]; rfl)
    have place := building.place
    rw [here] at place
    obtain ⟨rows,untouched,_,count⟩ := place
    have size : p.workers.length = p.desiredWorkerCount := by
      rw [← count,← rows,List.length_map]
    obtain ⟨p',moved,rfl⟩ := Option.map_eq_some_iff.mp taken
    simp only [Construction.step,Lifecycle.step,ownerStep,here] at moved
    cases moved
    simp only [note,here]
    exact ⟨trivial,size,rows,untouched.told,untouched.joined⟩

/-- Of two workers the first starts and the second reports an error. -/
def secondFails : List Action :=
  [.owner .next,.owner .next,.owner .next,.worker 0 .startOk,.owner .next,.owner .next,.owner .next,.owner .next,
    .worker 1 .startErr,.owner .next,.owner .next,.worker 1 .sendExit,.worker 1 .finish,.owner .next,.owner .next,
    .owner .next,.owner .next,.owner .next,.owner .next,.owner .next,.owner .next,.owner .next,
    .worker 0 .takeShutdown,.worker 0 .sendExit,.worker 0 .finish,.owner .next,.owner .next]

private theorem secondFails_reached : ∃ s, Construction.machine.Reachable s ∧ s.1.owner = .dropped false ∧
    s.1.threads.length = 2 ∧ s.2.started = [0] := by
  obtain ⟨s,reached,passed⟩ := Construction.machine.replay_witness (secondFails.map .pool) (.new 2 1 1000 1,⟨[],[],[]⟩)
    (fun s => s.1.owner == .dropped false && s.1.threads.length == 2 && s.2.started == [0])
    ⟨⟨2,1,1000,1,by decide,by decide,by decide,rfl⟩,rfl⟩ (by decide)
  simp only [Bool.and_eq_true,beq_iff_eq] at passed
  exact ⟨s,reached,passed.1.1,passed.1.2,passed.2⟩

theorem failed_construction_leaves_nothing_at_secondFails : ∃ s, Construction.machine.Reachable s ∧
    s.1.owner = .dropped false ∧ s.1.workers = [] ∧ 0 ∈ s.2.told ∧ 0 ∈ s.2.joined ∧ 1 ∈ s.2.joined := by
  obtain ⟨⟨p,l⟩,reached,here,size,started⟩ := secondFails_reached
  obtain ⟨_,ended,_⟩ := failed_construction_leaves_nothing reached
  obtain ⟨empty,told,joined⟩ := ended here
  exact ⟨(p,l),reached,here,empty,told 0 (started ▸ List.mem_singleton_self 0),
    (joined 0 (size ▸ Nat.zero_lt_two)).1,(joined 1 (size ▸ Nat.one_lt_two)).1⟩

end MechanicsCore.Pool.Lifecycle
