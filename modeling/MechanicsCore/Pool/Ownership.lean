import MechanicsCore.Pool.Lifecycle
import Mathlib.Data.List.Perm.Subperm
import Mathlib.Data.List.Nodup
import Mathlib.Order.Nat

/-! Who owns which worker handle. One inductive invariant over the pool machine
ties worker ids, threads, map entries, exit events and program counters together;
the worker-count and join-safety results are read off it. -/
namespace MechanicsCore.Pool.Lifecycle
open MechanicsCore.Library

/-- How far a thread has come; a worker never goes back past a rank. -/
def Phase.rank : Phase → Nat
  | .starting => 0
  | .select => 1
  | .running => 1
  | .panicking => 2
  | .leaving _ => 3
  | .exited => 4
  | .finished => 5

def Named (threads : List Worker) (id : WorkerId) (t : ThreadId) : Prop :=
  ∃ w, threads[t]? = some w ∧ w.workerId = id

/-- The thread exists and has come at least as far as the given rank. -/
def Past (threads : List Worker) (rank : Nat) (t : ThreadId) : Prop :=
  ∃ w, threads[t]? = some w ∧ rank ≤ w.phase.rank

abbrev LeftBody (threads : List Worker) : ThreadId → Prop := Past threads 3
abbrev SentExit (threads : List Worker) : ThreadId → Prop := Past threads 4
abbrev Finished (threads : List Worker) : ThreadId → Prop := Past threads 5

theorem isFinished_iff (p : State) (t : ThreadId) : p.isFinished t = true ↔ Finished p.threads t := by
  unfold State.isFinished Finished Past
  cases p.threads[t]? with
  | none => simp
  | some w => cases phase : w.phase <;> simp [phase,Phase.rank]

/-- Nothing a step does to the threads undoes what is known of one of them. -/
def Advances (before after : List Worker) : Prop :=
  ∀ (t : ThreadId) (w : Worker), before[t]? = some w → ∃ w' : Worker, after[t]? = some w' ∧
    w'.workerId = w.workerId ∧ w.phase.rank ≤ w'.phase.rank ∧ (w.shutdown ≠ .empty → w'.shutdown ≠ .empty)

theorem Advances.refl (threads : List Worker) : Advances threads threads :=
  fun _ w found => ⟨w,found,rfl,le_rfl,id⟩

theorem Advances.append (threads more : List Worker) : Advances threads (threads ++ more) := by
  intro t w found
  have bound := (List.getElem?_eq_some_iff.mp found).1
  exact ⟨w,by rw [List.getElem?_append_left bound,found],rfl,le_rfl,id⟩

theorem Advances.set {threads : List Worker} {t : ThreadId} {w w' : Worker}
    (found : threads[t]? = some w) (sameId : w'.workerId = w.workerId)
    (later : w.phase.rank ≤ w'.phase.rank)
    (told : w.shutdown ≠ .empty → w'.shutdown ≠ .empty) : Advances threads (threads.set t w') := by
  intro u v at_u
  by_cases same : t = u
  · subst same
    have value : v = w := Option.some.inj (at_u.symm.trans found)
    have bound := (List.getElem?_eq_some_iff.mp found).1
    subst value
    exact ⟨w',by simp [bound],sameId,later,told⟩
  · exact ⟨v,by rw [List.getElem?_set_ne same,at_u],rfl,le_rfl,id⟩

theorem Named.mono {before after : List Worker} (advances : Advances before after)
    {id : WorkerId} {t : ThreadId} (named : Named before id t) : Named after id t := by
  obtain ⟨w,found,rfl⟩ := named
  obtain ⟨w',found',sameId,_⟩ := advances t w found
  exact ⟨w',found',sameId⟩

theorem Past.mono {before after : List Worker} (advances : Advances before after)
    {rank : Nat} {t : ThreadId} (past : Past before rank t) : Past after rank t := by
  obtain ⟨w,found,bound⟩ := past
  obtain ⟨w',found',_,later,_⟩ := advances t w found
  exact ⟨w',found',bound.trans later⟩

theorem Past.weaken {threads : List Worker} {high low : Nat} (le : low ≤ high) {t : ThreadId}
    (past : Past threads high t) : Past threads low t := by
  obtain ⟨w,found,bound⟩ := past
  exact ⟨w,found,le.trans bound⟩

def Ordered (threads : List Worker) : Prop := (threads.map Worker.workerId).Pairwise (· < ·)

theorem Named.unique {threads : List Worker} (ordered : Ordered threads) {id : WorkerId}
    {t u : ThreadId} (first : Named threads id t) (second : Named threads id u) : t = u := by
  obtain ⟨w,foundW,idW⟩ := first
  obtain ⟨v,foundV,idV⟩ := second
  have distinct : (threads.map Worker.workerId).Nodup := ordered.imp fun less => ne_of_lt less
  have atT : (threads.map Worker.workerId)[t]? = some id := by simp [foundW,idW]
  have atU : (threads.map Worker.workerId)[u]? = some id := by simp [foundV,idV]
  have bound := (List.getElem?_eq_some_iff.mp atT).1
  exact (List.getElem?_inj bound distinct).mp (atT.trans atU.symm)

/-! What a party knows of the threads at each of its program counters. -/

def SpawnFacts (threads : List Worker) : SpawnPc → Prop
  | .create => True
  | .insert id t => Named threads id t
  | .await id t => Named threads id t
  | .remove id t => Named threads id t ∧ LeftBody threads t
  | .join t => LeftBody threads t

def ReapFacts (threads : List Worker) : ReapPc → Prop
  | .remove ids => ∀ id ∈ ids, ∃ t, Named threads id t ∧ Finished threads t
  | .join handles => ∀ t ∈ handles, Finished threads t
  | _ => True

def SupervisorFacts (threads : List Worker) (known : Nat) : SupervisorPc → Prop
  | .removeExited event => ∃ t, Named threads event.workerId t ∧ SentExit threads t
  | .joinExited t => SentExit threads t
  | .reap pc => ReapFacts threads pc ∧ ∀ live, pc = .counted live → known ≤ live
  | .spawning pc _ => SpawnFacts threads pc
  | _ => True

def Idle (supervisor : SupervisorPc) : Prop := supervisor = .notStarted ∨ supervisor = .finished

def OwnerFacts (threads : List Worker) (supervisor : SupervisorPc) : OwnerPc → Prop
  | .constructing _ => supervisor = .notStarted
  | .spawning pc _ => supervisor = .notStarted ∧ SpawnFacts threads pc
  | .startSupervisor => supervisor = .notStarted
  | .drainWorkers _ => Idle supervisor
  | .joining _ _ => Idle supervisor
  | _ => True

/-- Threads a party has taken out of the map, or not yet put in, and not joined. -/
def SpawnPc.held : SpawnPc → List ThreadId
  | .insert _ t => [t]
  | .join t => [t]
  | _ => []

def SupervisorPc.held : SupervisorPc → List ThreadId
  | .joinExited t => [t]
  | .spawning pc _ => pc.held
  | _ => []

def OwnerPc.held : OwnerPc → List ThreadId
  | .spawning pc _ => pc.held
  | .joining _ handles => handles
  | _ => []

/-- Worker slots a party has claimed beyond the entries of the map. -/
def SpawnPc.slots : SpawnPc → Nat
  | .create => 1
  | .insert _ _ => 1
  | .join _ => 1
  | _ => 0

def SupervisorPc.slots : SupervisorPc → Nat
  | .joinExited _ => 1
  | .restart missing => missing
  | .spawning pc missing => missing + pc.slots
  | _ => 0

def OwnerPc.slots : OwnerPc → Nat
  | .constructing left => left
  | .spawning pc left => left + pc.slots
  | .joining _ handles => handles.length
  | _ => 0

theorem SpawnPc.held_le_slots (pc : SpawnPc) : pc.held.length ≤ pc.slots := by
  cases pc <;> simp [SpawnPc.held,SpawnPc.slots]

theorem SupervisorPc.held_le_slots (pc : SupervisorPc) : pc.held.length ≤ pc.slots := by
  cases pc with
  | spawning pc missing => exact pc.held_le_slots.trans (Nat.le_add_left _ _)
  | _ => simp [SupervisorPc.held,SupervisorPc.slots]

theorem OwnerPc.held_le_slots (pc : OwnerPc) : pc.held.length ≤ pc.slots := by
  cases pc with
  | spawning pc left => exact pc.held_le_slots.trans (Nat.le_add_left _ _)
  | _ => simp [OwnerPc.held,OwnerPc.slots]

/-- Every thread that may still run is behind a map entry or held by one party. -/
def Covered (threads : List Worker) (workers : List (WorkerId × ThreadId)) (held : List ThreadId) : Prop :=
  ∀ t < threads.length, ¬ Finished threads t → t ∈ workers.map Prod.snd ∨ t ∈ held

/-- What holds of the shared state while the parties claim `slots` further worker
slots and hold the threads `held`. -/
structure Books (p : State) (slots : Nat) (held : List ThreadId) : Prop where
  ordered : Ordered p.threads
  fresh : ∀ id ∈ p.threads.map Worker.workerId, id < p.nextWorkerId
  keys : (p.workers.map Prod.fst).Nodup
  named : ∀ id t, (id,t) ∈ p.workers → Named p.threads id t
  reported : ∀ w ∈ p.threads, w.ready = some false → 3 ≤ w.phase.rank
  exits : ∀ event ∈ p.exits, ∃ t, Named p.threads event.workerId t ∧ SentExit p.threads t
  clients : ∀ pc ∈ p.clients, ReapFacts p.threads pc
  budget : p.workers.length + slots ≤ p.desiredWorkerCount
  covered : Covered p.threads p.workers held

structure Owned (p : State) : Prop where
  books : Books p (p.supervisor.slots + p.owner.slots) (p.supervisor.held ++ p.owner.held)
  supervisor : SupervisorFacts p.threads p.workers.length p.supervisor
  owner : OwnerFacts p.threads p.supervisor p.owner

theorem SpawnFacts.mono {before after : List Worker} (advances : Advances before after)
    {pc : SpawnPc} (facts : SpawnFacts before pc) : SpawnFacts after pc := by
  cases pc with
  | create => trivial
  | insert id t => exact Named.mono advances facts
  | await id t => exact Named.mono advances facts
  | remove id t => exact ⟨facts.1.mono advances,facts.2.mono advances⟩
  | join t => exact Past.mono advances facts

theorem ReapFacts.mono {before after : List Worker} (advances : Advances before after)
    {pc : ReapPc} (facts : ReapFacts before pc) : ReapFacts after pc := by
  cases pc with
  | remove ids =>
    intro id member
    obtain ⟨t,named,finished⟩ := facts id member
    exact ⟨t,named.mono advances,finished.mono advances⟩
  | join handles => exact fun t member => (facts t member).mono advances
  | _ => trivial

theorem SupervisorFacts.mono {before after : List Worker} (advances : Advances before after)
    {known known' : Nat} (fewer : known' ≤ known) {pc : SupervisorPc}
    (facts : SupervisorFacts before known pc) : SupervisorFacts after known' pc := by
  cases pc with
  | removeExited event =>
    obtain ⟨t,named,sent⟩ := facts
    exact ⟨t,named.mono advances,sent.mono advances⟩
  | joinExited t => exact Past.mono advances facts
  | reap pc => exact ⟨facts.1.mono advances,fun live counted => fewer.trans (facts.2 live counted)⟩
  | spawning pc missing => exact SpawnFacts.mono advances facts
  | _ => trivial

theorem OwnerFacts.mono {before after : List Worker} (advances : Advances before after)
    {supervisor : SupervisorPc} {pc : OwnerPc} (facts : OwnerFacts before supervisor pc) :
    OwnerFacts after supervisor pc := by
  cases pc with
  | spawning pc left => exact ⟨facts.1,facts.2.mono advances⟩
  | _ => exact facts

theorem OwnerFacts.active {threads : List Worker} {supervisor : SupervisorPc} {pc : OwnerPc}
    (facts : OwnerFacts threads supervisor pc) (active : ¬ Idle supervisor) (supervisor' : SupervisorPc) :
    OwnerFacts threads supervisor' pc ∧ pc.slots = 0 ∧ pc.held = [] := by
  have started : supervisor ≠ .notStarted := fun same => active (.inl same)
  cases pc with
  | constructing left => exact absurd facts started
  | spawning pc left => exact absurd facts.1 started
  | startSupervisor => exact absurd facts started
  | drainWorkers built => exact absurd facts active
  | joining built handles => exact absurd facts active
  | _ => exact ⟨trivial,rfl,rfl⟩

theorem Covered.mono {before after : List Worker} {workers : List (WorkerId × ThreadId)}
    {held : List ThreadId} (advances : Advances before after) (size : after.length = before.length)
    (covered : Covered before workers held) : Covered after workers held := by
  intro t bound unfinished
  exact covered t (size ▸ bound) fun finished => unfinished (finished.mono advances)

/-- A change of the threads that advances them keeps the books, new exit events included. -/
theorem Books.threads {p : State} {slots : Nat} {held : List ThreadId} (books : Books p slots held)
    {threads : List Worker} (exits : List WorkerExit) (queued : Nat) (blocked : Bool)
    (advances : Advances p.threads threads)
    (ids : threads.map Worker.workerId = p.threads.map Worker.workerId)
    (reported : ∀ w ∈ threads, w.ready = some false → 3 ≤ w.phase.rank)
    (sent : ∀ event ∈ exits, event ∈ p.exits ∨ ∃ t, Named threads event.workerId t ∧ SentExit threads t) :
    Books {p with threads := threads, exits := exits, queued := queued, restartBlocked := blocked}
      slots held where
  ordered := by
    show (threads.map Worker.workerId).Pairwise (· < ·)
    rw [ids]
    exact books.ordered
  fresh := by
    intro id member
    exact books.fresh id (ids ▸ member)
  keys := books.keys
  named := fun id t member => (books.named id t member).mono advances
  reported := reported
  exits := by
    intro event member
    rcases sent event member with old | new
    · obtain ⟨t,named,past⟩ := books.exits event old
      exact ⟨t,named.mono advances,past.mono advances⟩
    · exact new
  clients := fun pc member => (books.clients pc member).mono advances
  budget := books.budget
  covered := by
    have size : threads.length = p.threads.length := by simpa using congrArg List.length ids
    exact books.covered.mono advances size

/-- Everything a worker step can do: replace its own record by a later one, take
a job, and, once only, send the exit event of that worker. -/
theorem workerStep_cases {p p' : State} {t : ThreadId} {a : WorkerAction}
    (taken : workerStep p t a = some p') :
    ∃ w w' exits queued, p.threads[t]? = some w ∧
      p' = {p with threads := p.threads.set t w', exits := exits, queued := queued} ∧
      w'.workerId = w.workerId ∧ w.phase.rank ≤ w'.phase.rank ∧
      (w.shutdown ≠ .empty → w'.shutdown ≠ .empty) ∧
      (w'.ready = w.ready ∨ 3 ≤ w'.phase.rank ∨ w'.ready = some true) ∧
      (exits = p.exits ∨ ∃ reason, exits = p.exits ++ [⟨w.workerId,reason⟩] ∧ w'.phase = .exited) ∧
      (w'.phase = .finished → a = .finish ∧ w'.ready = w.ready) := by
  unfold workerStep at taken
  cases found : p.threads[t]? with
  | none => simp [found] at taken
  | some w =>
    simp only [found,bind,Option.bind] at taken
    split at taken
    case h_4 | h_5 | h_9 =>
      rename_i phase
      split at taken
      · have same := Option.some.inj taken
        exact ⟨w,_,_,_,rfl,same.symm,rfl,by simp [phase,Phase.rank],by simp,by simp [Phase.rank],.inl rfl,by simp⟩
      · contradiction
    case h_10 reason phase =>
      have same := Option.some.inj taken
      exact ⟨w,_,_,_,rfl,same.symm,rfl,by simp [phase,Phase.rank],by simp,by simp,.inr ⟨reason,rfl,rfl⟩,by simp⟩
    case h_12 => contradiction
    all_goals
      rename_i phase
      have same := Option.some.inj taken
      exact ⟨w,_,_,_,rfl,same.symm,rfl,by simp [phase,Phase.rank],by simp,by simp [Phase.rank],.inl rfl,by simp⟩

private theorem set_ids {threads : List Worker} {t : ThreadId} {w w' : Worker}
    (found : threads[t]? = some w) (sameId : w'.workerId = w.workerId) :
    (threads.set t w').map Worker.workerId = threads.map Worker.workerId := by
  have bound := (List.getElem?_eq_some_iff.mp found).1
  apply List.ext_getElem?
  intro u
  by_cases same : t = u
  · subst same
    have value := (List.getElem?_eq_some_iff.mp found).2
    simp [bound,value,sameId]
  · simp [List.getElem?_set_ne same]

private theorem set_reported {threads : List Worker} {t : ThreadId} {w' : Worker}
    (reported : ∀ w ∈ threads, w.ready = some false → 3 ≤ w.phase.rank)
    (own : w'.ready = some false → 3 ≤ w'.phase.rank) :
    ∀ w ∈ threads.set t w', w.ready = some false → 3 ≤ w.phase.rank := by
  intro v member
  rcases List.mem_or_eq_of_mem_set member with old | new
  · exact reported v old
  · subst new
    exact own

theorem Owned.workerStep {p p' : State} (owned : Owned p) {t : ThreadId} {a : WorkerAction}
    (taken : workerStep p t a = some p') : Owned p' := by
  obtain ⟨w,w',exits,queued,found,rfl,sameId,later,told,ready,sent,_⟩ := workerStep_cases taken
  have advances := Advances.set found sameId later told
  have bound := (List.getElem?_eq_some_iff.mp found).1
  have own : w'.ready = some false → 3 ≤ w'.phase.rank := by
    intro failed
    rcases ready with same | past | ok
    · exact (owned.books.reported w (List.mem_of_getElem? found) (same ▸ failed)).trans later
    · exact past
    · simp [ok] at failed
  have books := owned.books.threads exits queued p.restartBlocked advances (set_ids found sameId)
    (set_reported owned.books.reported own) ?_
  · exact ⟨books,owned.supervisor.mono advances le_rfl,owned.owner.mono advances⟩
  · intro event member
    rcases sent with rfl | ⟨reason,rfl,phase⟩
    · exact .inl member
    · rcases List.mem_append.mp member with old | new
      · exact .inl old
      · rw [List.mem_singleton.mp new]
        exact .inr ⟨t,⟨w',by simp [bound],sameId⟩,⟨w',by simp [bound],by simp [phase,Phase.rank]⟩⟩

/-- Removing map entries frees their slots; the removed threads must be held or finished. -/
theorem Books.remove {p : State} {slots slots' : Nat} {held held' : List ThreadId}
    (books : Books p slots held) (ids : List WorkerId)
    (budget : (p.removeHandles ids).workers.length + slots' ≤ p.desiredWorkerCount)
    (kept : ∀ t ∈ held, ¬ Finished p.threads t → t ∈ held')
    (taken : ∀ id t, (id,t) ∈ p.workers → id ∈ ids → ¬ Finished p.threads t → t ∈ held') :
    Books (p.removeHandles ids) slots' held' where
  ordered := books.ordered
  fresh := books.fresh
  keys := books.keys.sublist (List.filter_sublist.map Prod.fst)
  named := fun id t member => books.named id t (List.mem_filter.mp member).1
  reported := books.reported
  exits := books.exits
  clients := books.clients
  budget := budget
  covered := by
    intro t bound unfinished
    rcases books.covered t bound unfinished with inMap | inHeld
    · obtain ⟨⟨id,u⟩,member,rfl⟩ := List.mem_map.mp inMap
      by_cases removed : id ∈ ids
      · exact .inr (taken id u member removed unfinished)
      · exact .inl (List.mem_map.mpr ⟨(id,u),List.mem_filter.mpr ⟨member,by simpa using removed⟩,rfl⟩)
    · exact .inr (kept t inHeld unfinished)

theorem removeHandles_length_le (p : State) (ids : List WorkerId) :
    (p.removeHandles ids).workers.length ≤ p.workers.length := List.length_filter_le _ _

theorem handle_mem {p : State} {id : WorkerId} {t : ThreadId} (found : p.handle id = some t) :
    (id,t) ∈ p.workers := by
  unfold State.handle at found
  generalize p.workers = entries at *
  induction entries with
  | nil => simp at found
  | cons entry rest ih =>
    obtain ⟨key,value⟩ := entry
    by_cases same : id = key
    · subst same
      simp only [List.lookup_cons_self,Option.some.injEq] at found
      simp [found]
    · rw [List.lookup_cons,beq_false_of_ne same] at found
      exact List.mem_cons_of_mem _ (ih found)

theorem removeHandles_length_lt {p : State} {id : WorkerId} {t : ThreadId}
    (found : p.handle id = some t) : (p.removeHandles [id]).workers.length + 1 ≤ p.workers.length := by
  have member := handle_mem found
  show (p.workers.filter _).length < _
  apply List.length_filter_lt_length_iff_exists.mpr
  exact ⟨(id,t),member,by simp⟩

/-- Whoever takes the handle of a worker out of the map holds that worker's thread. -/
theorem Books.takeHandle {p : State} {slots : Nat} {held : List ThreadId} (books : Books p slots held)
    {id : WorkerId} {t u : ThreadId} (named : Named p.threads id t) (handle : p.handle id = some u) :
    u = t ∧ Books (p.removeHandles [id]) (slots + 1) (u::held) := by
  have same : u = t := Named.unique books.ordered (books.named id u (handle_mem handle)) named
  refine ⟨same,books.remove [id] ?_ (fun v member _ => List.mem_cons_of_mem _ member) ?_⟩
  · have budget := books.budget
    have shrink := removeHandles_length_lt handle
    omega
  · intro key v member removed _
    have sameKey : key = id := by simpa using removed
    have sameThread : v = t := Named.unique books.ordered (sameKey ▸ books.named key v member) named
    simp [same,sameThread]

/-- One `live_workers` step only removes entries of finished threads, and counts the rest. -/
theorem Books.reapStep {p p' : State} {slots : Nat} {held : List ThreadId} (books : Books p slots held)
    {pc pc' : ReapPc} (facts : ReapFacts p.threads pc) (taken : reapStep p pc = some (p',pc')) :
    Books p' slots held ∧ ReapFacts p.threads pc' ∧ p'.workers.length ≤ p.workers.length ∧
      (∀ live, pc' = .counted live → p'.workers.length ≤ live) ∧ p' = {p with workers := p'.workers} := by
  have shrink := books.budget
  cases pc with
  | collect =>
    simp only [Lifecycle.reapStep] at taken
    split at taken
    · obtain ⟨rfl,rfl⟩ := Prod.mk.inj (Option.some.inj taken)
      refine ⟨books,?_,le_rfl,(by intro live counted; split at counted <;> cases counted),rfl⟩
      split
      · trivial
      · intro id member
        obtain ⟨⟨id,t⟩,inside,rfl⟩ := List.mem_map.mp member
        obtain ⟨inMap,finished⟩ := List.mem_filter.mp inside
        exact ⟨t,books.named id t inMap,(isFinished_iff p t).mp finished⟩
    · contradiction
  | remove ids =>
    simp only [Lifecycle.reapStep] at taken
    split at taken
    · obtain ⟨rfl,rfl⟩ := Prod.mk.inj (Option.some.inj taken)
      have gone (id : WorkerId) (t : ThreadId) (member : (id,t) ∈ p.workers) (reaped : id ∈ ids) :
          Finished p.threads t := by
        obtain ⟨u,named,finished⟩ := facts id reaped
        rwa [Named.unique books.ordered (books.named id t member) named]
      refine ⟨books.remove ids ?_ (fun t member _ => member)
        (fun id t member reaped unfinished => absurd (gone id t member reaped) unfinished),?_,
        removeHandles_length_le p ids,by simp,rfl⟩
      · have := removeHandles_length_le p ids
        omega
      · intro t member
        obtain ⟨⟨id,t⟩,inside,rfl⟩ := List.mem_map.mp member
        obtain ⟨inMap,reaped⟩ := List.mem_filter.mp inside
        exact gone id t inMap (by simpa using reaped)
    · contradiction
  | join handles =>
    cases handles with
    | nil =>
      obtain ⟨rfl,rfl⟩ := Prod.mk.inj (Option.some.inj taken)
      exact ⟨books,trivial,le_rfl,by simp,rfl⟩
    | cons t rest =>
      simp only [Lifecycle.reapStep] at taken
      split at taken
      · obtain ⟨rfl,rfl⟩ := Prod.mk.inj (Option.some.inj taken)
        exact ⟨books,fun u member => facts u (List.mem_cons_of_mem _ member),le_rfl,by simp,rfl⟩
      · contradiction
  | count =>
    simp only [Lifecycle.reapStep] at taken
    split at taken
    · obtain ⟨rfl,rfl⟩ := Prod.mk.inj (Option.some.inj taken)
      exact ⟨books,trivial,le_rfl,fun live counted => by cases counted; exact le_rfl,rfl⟩
    · contradiction
  | counted live => cases taken

theorem Books.weaken {p : State} {slots slots' : Nat} {held held' : List ThreadId}
    (books : Books p slots held) (fewer : slots' ≤ slots)
    (kept : ∀ t ∈ held, ¬ Finished p.threads t → t ∈ held') : Books p slots' held' :=
  {books with
    budget := (Nat.add_le_add_left fewer _).trans books.budget
    covered := fun t bound unfinished =>
      (books.covered t bound unfinished).imp id fun member => kept t member unfinished}

theorem Books.joined {p : State} {slots slots' : Nat} {held held' : List ThreadId} (books : Books p slots held)
    (fewer : slots' ≤ slots) {t : ThreadId} (finished : p.isFinished t = true)
    (kept : ∀ u ∈ held, u = t ∨ u ∈ held') : Books p slots' held' := by
  refine books.weaken fewer fun u member unfinished => ?_
  rcases kept u member with own | other
  · exact absurd ((isFinished_iff p u).mp (own ▸ finished)) unfinished
  · exact other

theorem Books.create {p : State} {slots : Nat} {held : List ThreadId} (books : Books p slots held) :
    Books {p with nextWorkerId := p.nextWorkerId + 1,
                  threads := p.threads ++ [⟨p.nextWorkerId,.starting,none,.empty⟩]}
      slots (p.threads.length::held) where
  ordered := by
    show ((p.threads ++ [_]).map Worker.workerId).Pairwise (· < ·)
    rw [List.map_append,List.pairwise_append]
    exact ⟨books.ordered,by simp,fun id member last isLast => by
      rw [List.map_singleton,List.mem_singleton] at isLast
      exact isLast ▸ books.fresh id member⟩
  fresh := by
    intro id member
    rcases List.mem_append.mp (by simpa only [List.map_append] using member) with old | new
    · exact (books.fresh id old).trans (Nat.lt_succ_self _)
    · rw [List.map_singleton,List.mem_singleton] at new
      exact new ▸ Nat.lt_succ_self _
  keys := books.keys
  named := fun id t member => (books.named id t member).mono (.append _ _)
  reported := by
    intro w member failed
    rcases List.mem_append.mp member with old | new
    · exact books.reported w old failed
    · rw [List.mem_singleton.mp new] at failed
      cases failed
  exits := by
    intro event member
    obtain ⟨t,named,sent⟩ := books.exits event member
    exact ⟨t,named.mono (.append _ _),sent.mono (.append _ _)⟩
  clients := fun pc member => (books.clients pc member).mono (.append _ _)
  budget := books.budget
  covered := by
    intro t bound unfinished
    by_cases last : t = p.threads.length
    · exact .inr (by simp [last])
    · have old : t < p.threads.length := by simp only [List.length_append,List.length_singleton] at bound; omega
      exact (books.covered t old fun finished => unfinished (finished.mono (.append _ _))).imp id
        (List.mem_cons_of_mem _)

theorem Books.insert {p : State} {slots : Nat} {held : List ThreadId} {id : WorkerId} {t : ThreadId}
    (books : Books p (slots + 1) (t::held)) (named : Named p.threads id t) :
    Books (p.insertHandle id t) slots held where
  ordered := books.ordered
  fresh := books.fresh
  keys := by
    show ((p.workers.filter _ ++ [(id,t)]).map Prod.fst).Nodup
    rw [List.map_append,List.nodup_append]
    refine ⟨books.keys.sublist (List.filter_sublist.map Prod.fst),by simp,?_⟩
    intro key member last isLast
    obtain ⟨entry,inside,rfl⟩ := List.mem_map.mp member
    rw [List.map_singleton,List.mem_singleton] at isLast
    simpa [isLast] using (List.mem_filter.mp inside).2
  named := by
    intro key u member
    rcases List.mem_append.mp member with old | new
    · exact books.named key u (List.mem_filter.mp old).1
    · obtain ⟨rfl,rfl⟩ := Prod.mk.inj (List.mem_singleton.mp new)
      exact named
  reported := books.reported
  exits := books.exits
  clients := books.clients
  budget := by
    have budget := books.budget
    have length := List.length_filter_le (fun entry => entry.1 != id) p.workers
    show (p.workers.filter _ ++ [(id,t)]).length + slots ≤ p.desiredWorkerCount
    rw [List.length_append,List.length_singleton]
    omega
  covered := by
    intro u bound unfinished
    show u ∈ (p.workers.filter _ ++ [(id,t)]).map Prod.snd ∨ _
    by_cases own : u = t
    · exact .inl (by simp [own])
    · rcases books.covered u bound unfinished with inMap | inHeld
      · obtain ⟨⟨key,v⟩,member,rfl⟩ := List.mem_map.mp inMap
        have other : key ≠ id := fun same =>
          own (Named.unique books.ordered (same ▸ books.named key v member) named)
        exact .inl (by simpa [other] using .inl ⟨key,member,other⟩)
      · exact .inr ((List.mem_cons.mp inHeld).resolve_left own)

def nextSlots : SpawnPc ⊕ Bool → Nat
  | .inl pc => pc.slots
  | .inr _ => 0

def nextHeld : SpawnPc ⊕ Bool → List ThreadId
  | .inl pc => pc.held
  | .inr _ => []

def NextFacts (threads : List Worker) : SpawnPc ⊕ Bool → Prop
  | .inl pc => SpawnFacts threads pc
  | .inr _ => True

/-- Every step of `spawn_worker`, by whichever thread, keeps the books: a slot is
claimed until the handle is in the map, and again while a failed worker is joined. -/
theorem Books.spawnStep {p p' : State} {slots : Nat} {held : List ThreadId} {pc : SpawnPc} {created : Bool}
    {next : SpawnPc ⊕ Bool} (books : Books p (slots + pc.slots) (pc.held ++ held))
    (facts : SpawnFacts p.threads pc) (taken : spawnStep p created pc = some (p',next)) :
    Books p' (slots + nextSlots next) (nextHeld next ++ held) ∧ NextFacts p'.threads next ∧
      Advances p.threads p'.threads ∧
      p' = {p with nextWorkerId := p'.nextWorkerId, workers := p'.workers, threads := p'.threads,
                   restartBlocked := p'.restartBlocked} := by
  cases pc with
  | create =>
    simp only [Lifecycle.spawnStep] at taken
    split at taken
    · obtain ⟨rfl,rfl⟩ := Prod.mk.inj (Option.some.inj taken)
      exact ⟨books.create,⟨⟨p.nextWorkerId,.starting,none,.empty⟩,by simp,rfl⟩,.append _ _,rfl⟩
    · obtain ⟨rfl,rfl⟩ := Prod.mk.inj (Option.some.inj taken)
      have fewer := books.weaken (Nat.le_add_right slots _) fun t member _ => member
      exact ⟨{fewer with fresh := fun id member => (fewer.fresh id member).trans (Nat.lt_succ_self _)},
        trivial,.refl _,rfl⟩
  | insert id t =>
    simp only [Lifecycle.spawnStep] at taken
    split at taken
    · obtain ⟨rfl,rfl⟩ := Prod.mk.inj (Option.some.inj taken)
      exact ⟨books.insert facts,facts,.refl _,rfl⟩
    · contradiction
  | await id t =>
    obtain ⟨w,found,sameId⟩ := facts
    simp only [Lifecycle.spawnStep,found,bind,Option.bind] at taken
    have advances : Advances p.threads (p.threads.set t {w with ready := none}) :=
      .set found rfl le_rfl fun told => told
    have cleared (blocked : Bool) := books.threads p.exits p.queued blocked advances
      (set_ids found rfl) (set_reported books.reported (by simp)) (fun _ member => .inl member)
    split at taken
    · obtain ⟨rfl,rfl⟩ := Prod.mk.inj (Option.some.inj taken)
      exact ⟨cleared false,trivial,advances,rfl⟩
    · rename_i failed
      obtain ⟨rfl,rfl⟩ := Prod.mk.inj (Option.some.inj taken)
      have left : LeftBody p.threads t :=
        ⟨w,found,books.reported w (List.mem_of_getElem? found) failed⟩
      exact ⟨cleared p.restartBlocked,⟨Named.mono advances ⟨w,found,sameId⟩,left.mono advances⟩,advances,rfl⟩
    · split at taken
      · rename_i finished
        obtain ⟨rfl,rfl⟩ := Prod.mk.inj (Option.some.inj taken)
        exact ⟨books,⟨⟨w,found,sameId⟩,w,found,by simp [finished,Phase.rank]⟩,.refl _,rfl⟩
      · contradiction
  | remove id t =>
    simp only [Lifecycle.spawnStep] at taken
    split at taken
    · split at taken
      · rename_i u handle
        obtain ⟨rfl,rfl⟩ := Prod.mk.inj (Option.some.inj taken)
        obtain ⟨same,removed⟩ := books.takeHandle facts.1 handle
        exact ⟨removed,same ▸ facts.2,.refl _,rfl⟩
      · obtain ⟨rfl,rfl⟩ := Prod.mk.inj (Option.some.inj taken)
        exact ⟨books,trivial,.refl _,rfl⟩
    · contradiction
  | join t =>
    simp only [Lifecycle.spawnStep] at taken
    split at taken
    · rename_i finished
      obtain ⟨rfl,rfl⟩ := Prod.mk.inj (Option.some.inj taken)
      have released := books.joined (Nat.le_add_right slots _) finished fun u member => List.mem_cons.mp member
      exact ⟨released,trivial,.refl _,rfl⟩
    · contradiction

theorem Owned.supervising {p : State} {pc : SupervisorPc} (owned : Owned p) (here : p.supervisor = pc)
    (active : ¬ Idle pc) :
    Books p pc.slots pc.held ∧ SupervisorFacts p.threads p.workers.length pc ∧
      ∀ pc', OwnerFacts p.threads pc' p.owner ∧ p.owner.slots = 0 ∧ p.owner.held = [] := by
  subst here
  have owner := owned.owner.active active
  obtain ⟨_,noSlots,noHeld⟩ := owner p.supervisor
  have books := owned.books
  rw [noSlots,noHeld,Nat.add_zero,List.append_nil] at books
  exact ⟨books,owned.supervisor,owner⟩

theorem Owned.resume {p : State} (books : Books p p.supervisor.slots p.supervisor.held)
    (facts : SupervisorFacts p.threads p.workers.length p.supervisor)
    (owner : OwnerFacts p.threads p.supervisor p.owner ∧ p.owner.slots = 0 ∧ p.owner.held = []) :
    Owned p := by
  obtain ⟨owner,noSlots,noHeld⟩ := owner
  refine ⟨?_,facts,owner⟩
  rwa [noSlots,noHeld,Nat.add_zero,List.append_nil]

theorem Owned.supervisorStep {p p' : State} (owned : Owned p) {a : SupervisorAction}
    (taken : supervisorStep p a = some p') : Owned p' := by
  unfold Lifecycle.supervisorStep at taken
  split at taken
  case h_1 here =>
    obtain ⟨books,_,owner⟩ := owned.supervising here (by simp [Idle])
    split at taken
    · cases taken
      exact .resume {books with} trivial (owner _)
    · contradiction
  case h_2 here =>
    obtain ⟨books,_,owner⟩ := owned.supervising here (by simp [Idle])
    split at taken
    · contradiction
    · rename_i event rest exits
      cases taken
      have sent := books.exits event (by simp [exits])
      have tail : ∀ e ∈ rest, ∃ t, Named p.threads e.workerId t ∧ SentExit p.threads t :=
        fun e member => books.exits e (by simp [exits,member])
      exact .resume {books with exits := tail} sent (owner _)
  case h_3 here =>
    obtain ⟨books,_,owner⟩ := owned.supervising here (by simp [Idle])
    cases taken
    exact .resume {books with} trivial (owner _)
  case h_4 event here =>
    obtain ⟨books,⟨t,named,sent⟩,owner⟩ := owned.supervising here (by simp [Idle])
    split at taken
    · split at taken
      · rename_i u handle
        cases taken
        obtain ⟨same,removed⟩ := books.takeHandle named handle
        exact .resume {removed with} (same ▸ sent) (owner _)
      · cases taken
        exact .resume {books with} trivial (owner _)
    · contradiction
  case h_5 t here =>
    obtain ⟨books,sent,owner⟩ := owned.supervising here (by simp [Idle])
    split at taken
    · rename_i finished
      cases taken
      have released : Books p 0 [] :=
        books.joined (Nat.zero_le _) finished fun u member => .inl (List.mem_singleton.mp member)
      exact .resume {released with} trivial (owner _)
    · contradiction
  case h_6 here =>
    obtain ⟨books,_,owner⟩ := owned.supervising here (by simp [Idle])
    cases taken
    cases p.closed
    · exact .resume {books with} trivial (owner _)
    · exact .resume {books with} trivial (owner _)
  case h_7 here =>
    obtain ⟨books,_,owner⟩ := owned.supervising here (by simp [Idle])
    cases taken
    cases p.closed
    · exact .resume {books with} ⟨trivial,by simp⟩ (owner _)
    · exact .resume {books with} trivial (owner _)
  case h_8 live here =>
    obtain ⟨books,⟨_,known⟩,owner⟩ := owned.supervising here (by simp [Idle])
    have counted := known live rfl
    dsimp only at taken
    split at taken
    · cases taken
      exact .resume {books with} trivial (owner _)
    · cases taken
      have budget := books.budget
      have claimed : p.workers.length + (p.desiredWorkerCount - live) ≤ p.desiredWorkerCount := by omega
      exact .resume {books with budget := claimed} trivial (owner _)
  case h_9 pc _ here =>
    obtain ⟨books,⟨facts,_⟩,owner⟩ := owned.supervising here (by simp [Idle])
    obtain ⟨⟨q,pc'⟩,reaped,rfl⟩ := Option.map_eq_some_iff.mp taken
    obtain ⟨books',facts',_,counted,frame⟩ := books.reapStep facts reaped
    rw [frame] at books' counted ⊢
    exact .resume {books' with} ⟨facts',counted⟩ (owner _)
  case h_10 here =>
    obtain ⟨books,_,owner⟩ := owned.supervising here (by simp [Idle])
    cases taken
    exact .resume {books with} trivial (owner _)
  case h_11 missing here =>
    obtain ⟨books,_,owner⟩ := owned.supervising here (by simp [Idle])
    split at taken
    · cases taken
      exact .resume {books with} trivial (owner _)
    · cases taken
      have released := books.weaken (Nat.zero_le _) fun t member _ => member
      exact .resume {released with} trivial (owner _)
  case h_12 pc missing here =>
    obtain ⟨books,facts,owner⟩ := owned.supervising here (by simp [Idle])
    split at taken
    · obtain ⟨⟨q,next⟩,spawned,moved⟩ := Option.map_eq_some_iff.mp taken
      have held : Books p (missing + pc.slots) (pc.held ++ []) := by
        rw [List.append_nil]
        exact books
      obtain ⟨books',facts',advances,frame⟩ := held.spawnStep facts spawned
      rw [List.append_nil] at books'
      have owner' (pc' : SupervisorPc) : OwnerFacts q.threads pc' q.owner ∧ q.owner.slots = 0 ∧ q.owner.held = [] := by
        rw [frame]
        exact ⟨(owner pc').1.mono advances,(owner pc').2⟩
      cases next with
      | inl pc' =>
        cases moved
        exact .resume {books' with} facts' (owner' _)
      | inr ok =>
        cases ok
        · cases moved
          have released := books'.weaken (Nat.zero_le _) fun t member _ => member
          exact .resume {released with} trivial (owner' _)
        · cases moved
          exact .resume {books' with} trivial (owner' _)
    · contradiction
  case h_13 => contradiction

theorem Owned.proceed {p : State} (owned : Owned p) (pc : OwnerPc) (closed : Bool) (queued : Nat)
    (signal : Bool) (slots : pc.slots ≤ p.owner.slots) (held : pc.held = p.owner.held)
    (facts : OwnerFacts p.threads p.supervisor pc) :
    Owned {p with closed := closed, queued := queued, supervisorShutdown := signal, owner := pc} := by
  have books := owned.books.weaken (Nat.add_le_add_left slots p.supervisor.slots) fun t member _ => member
  refine ⟨?_,owned.supervisor,facts⟩
  show Books _ (p.supervisor.slots + pc.slots) (p.supervisor.held ++ pc.held)
  rw [held]
  exact {books with}

theorem Idle.slots {pc : SupervisorPc} (idle : Idle pc) : pc.slots = 0 ∧ pc.held = [] := by
  rcases idle with rfl | rfl <;> exact ⟨rfl,rfl⟩

theorem requestShutdown_cases {p p' : State} {t : ThreadId} (taken : requestShutdown p t = some p') :
    ∃ w, p.threads[t]? = some w ∧ (w.phase = .finished ∧ p' = p ∨
      p' = {p with threads := p.threads.set t {w with shutdown := .pending}}) := by
  unfold requestShutdown at taken
  cases found : p.threads[t]? with
  | none => simp [found] at taken
  | some w =>
    simp only [found,bind,Option.bind] at taken
    split at taken
    · rename_i finished
      exact ⟨w,rfl,.inl ⟨finished,(Option.some.inj taken).symm⟩⟩
    · split at taken
      · contradiction
      · exact ⟨w,rfl,.inr (Option.some.inj taken).symm⟩

theorem Owned.requestShutdown {p p' : State} (owned : Owned p) {t : ThreadId}
    (taken : requestShutdown p t = some p') : Owned p' := by
  obtain ⟨w,found,⟨_,rfl⟩ | rfl⟩ := requestShutdown_cases taken
  · exact owned
  · have advances : Advances p.threads (p.threads.set t {w with shutdown := .pending}) :=
      .set found rfl le_rfl (by simp)
    have books := owned.books.threads p.exits p.queued p.restartBlocked advances (set_ids found rfl)
      (set_reported owned.books.reported (owned.books.reported w (List.mem_of_getElem? found)))
      (fun _ member => .inl member)
    exact ⟨books,owned.supervisor.mono advances le_rfl,owned.owner.mono advances⟩

theorem Owned.ownerStep {p p' : State} (owned : Owned p) {a : OwnerAction}
    (taken : ownerStep p a = some p') : Owned p' := by
  have facts := owned.owner
  unfold Lifecycle.ownerStep at taken
  split at taken
  case h_1 here =>
    cases taken
    rw [here] at facts
    exact owned.proceed .startSupervisor p.closed p.queued p.supervisorShutdown
      (Nat.zero_le _) (by simp [here,OwnerPc.held]) facts
  case h_2 left here =>
    cases taken
    rw [here] at facts
    exact owned.proceed (.spawning .create left) p.closed p.queued p.supervisorShutdown
      (by simp [here,OwnerPc.slots,SpawnPc.slots]) (by simp [here,OwnerPc.held,SpawnPc.held]) ⟨facts,trivial⟩
  case h_3 pc left here =>
    split at taken
    · obtain ⟨⟨q,next⟩,spawned,moved⟩ := Option.map_eq_some_iff.mp taken
      rw [here] at facts
      obtain ⟨unstarted,facts⟩ := facts
      have books : Books p (left + pc.slots) (pc.held ++ []) := by
        simpa [here,unstarted,SupervisorPc.slots,SupervisorPc.held,OwnerPc.slots,OwnerPc.held] using owned.books
      obtain ⟨books',facts',_,frame⟩ := books.spawnStep facts spawned
      have unstarted' : q.supervisor = .notStarted := by rw [frame]; exact unstarted
      have nothing : q.supervisor.slots = 0 ∧ q.supervisor.held = [] := Idle.slots (.inl unstarted')
      have party (pc' : OwnerPc) (slots : pc'.slots ≤ left + nextSlots next) (held : pc'.held = nextHeld next)
          (facts : OwnerFacts q.threads .notStarted pc') : Owned {q with owner := pc'} := by
        refine ⟨?_,?_,?_⟩
        · show Books _ (q.supervisor.slots + pc'.slots) (q.supervisor.held ++ pc'.held)
          rw [nothing.1,nothing.2,held,Nat.zero_add,List.nil_append]
          rw [List.append_nil] at books'
          exact {books'.weaken slots fun t member _ => member with}
        · show SupervisorFacts q.threads q.workers.length q.supervisor
          rw [unstarted']
          trivial
        · show OwnerFacts q.threads q.supervisor pc'
          rwa [unstarted']
      cases next with
      | inl pc' =>
        cases moved
        exact party (.spawning pc' left) le_rfl rfl ⟨rfl,facts'⟩
      | inr ok =>
        cases ok
        · cases moved
          exact party (.markClosed false) (Nat.zero_le _) rfl trivial
        · cases moved
          exact party (.constructing left) le_rfl rfl rfl
    · contradiction
  case h_4 here =>
    cases taken
    rw [here] at facts
    have books := owned.books
    rw [here,show p.supervisor = .notStarted from facts] at books
    exact ⟨{books with},trivial,trivial⟩
  case h_5 here =>
    cases taken
    exact owned.proceed (.markClosed false) p.closed p.queued p.supervisorShutdown
      (Nat.zero_le _) (by simp [here,OwnerPc.held]) trivial
  case h_6 here =>
    split at taken
    · cases taken
      exact owned.proceed (.markClosed true) p.closed p.queued p.supervisorShutdown
        (Nat.zero_le _) (by simp [here,OwnerPc.held]) trivial
    · contradiction
  case h_7 built here =>
    cases taken
    exact owned.proceed (.drainQueue built) true p.queued p.supervisorShutdown
      (Nat.zero_le _) (by simp [here,OwnerPc.held]) trivial
  case h_8 built here =>
    split at taken
    · cases taken
      exact owned.proceed (.request built) p.closed p.queued p.supervisorShutdown
        (Nat.zero_le _) (by simp [here,OwnerPc.held]) trivial
    · cases taken
      have drained := owned.proceed (.drainQueue built) p.closed (p.queued - 1) p.supervisorShutdown
        (Nat.zero_le _) (by simp [here,OwnerPc.held]) trivial
      rwa [← here] at drained
  case h_9 built here =>
    cases taken
    exact owned.proceed (.requesting built _) p.closed p.queued p.supervisorShutdown
      (Nat.zero_le _) (by simp [here,OwnerPc.held]) trivial
  case h_10 built t todo here =>
    obtain ⟨q,sent,rfl⟩ := Option.map_eq_some_iff.mp taken
    have owner : q.owner = .requesting built (t::todo) := by
      obtain ⟨w,_,⟨_,rfl⟩ | rfl⟩ := requestShutdown_cases sent <;> exact here
    exact (owned.requestShutdown sent).proceed (.requesting built todo) q.closed q.queued q.supervisorShutdown
      (Nat.zero_le _) (by simp [owner,OwnerPc.held]) trivial
  case h_11 built here =>
    cases taken
    exact owned.proceed (.signalSupervisor built) p.closed p.queued p.supervisorShutdown
      (Nat.zero_le _) (by simp [here,OwnerPc.held]) trivial
  case h_12 built here =>
    cases taken
    exact owned.proceed (.joinSupervisor built) p.closed p.queued _
      (Nat.zero_le _) (by simp [here,OwnerPc.held]) trivial
  case h_13 built here =>
    split at taken
    · rename_i idle
      cases taken
      exact owned.proceed (.drainWorkers built) p.closed p.queued p.supervisorShutdown
        (Nat.zero_le _) (by simp [here,OwnerPc.held]) idle
    · contradiction
  case h_14 built here =>
    cases taken
    rw [here] at facts
    have idle : Idle p.supervisor := facts
    have books := owned.books
    rw [here,idle.slots.1,idle.slots.2] at books
    refine ⟨⟨books.ordered,books.fresh,by simp,by simp,books.reported,books.exits,books.clients,?_,?_⟩,?_,idle⟩
    · have budget := books.budget
      simp only [idle.slots.1,OwnerPc.slots,List.length_nil,List.length_map] at budget ⊢
      omega
    · intro t bound unfinished
      rcases books.covered t bound unfinished with inMap | inHeld
      · exact .inr (by simpa [idle.slots.2,OwnerPc.held] using inMap)
      · simp [OwnerPc.held] at inHeld
    · rcases idle with off | off <;> simp [off,SupervisorFacts]
  case h_15 built t rest here =>
    split at taken
    · rename_i finished
      cases taken
      rw [here] at facts
      have books := owned.books
      rw [here] at books
      have fewer : p.supervisor.slots + (OwnerPc.joining built rest).slots ≤
          p.supervisor.slots + (OwnerPc.joining built (t::rest)).slots := by simp [OwnerPc.slots]
      have released : Books p (p.supervisor.slots + (OwnerPc.joining built rest).slots)
          (p.supervisor.held ++ (OwnerPc.joining built rest).held) := by
        refine books.joined fewer finished fun u member => ?_
        have inside : u ∈ p.supervisor.held ∨ u = t ∨ u ∈ rest := by simpa [OwnerPc.held] using member
        rcases inside with inSupervisor | own | inRest
        · exact .inr (List.mem_append_left _ inSupervisor)
        · exact .inl own
        · exact .inr (List.mem_append_right _ inRest)
      exact ⟨{released with},owned.supervisor,facts⟩
    · contradiction
  case h_16 built here =>
    cases taken
    exact owned.proceed (.dropped built) p.closed p.queued p.supervisorShutdown
      (Nat.zero_le _) (by simp [here,OwnerPc.held]) trivial
  case h_17 => contradiction

theorem Owned.initial {p : State} (start : machine.initial p) : Owned p := by
  obtain ⟨desired,capacity,window,maxRestarts,_,_,_,rfl⟩ := start
  refine ⟨⟨.nil,by simp [State.new],by simp [State.new],by simp [State.new],by simp [State.new],
    by simp [State.new],by simp [State.new],?_,?_⟩,trivial,rfl⟩
  · simp [State.new,SupervisorPc.slots,OwnerPc.slots]
  · intro t bound
    simp [State.new] at bound

theorem Owned.step {p p' : State} (owned : Owned p) {a : Action} (taken : step p a = some p') : Owned p' := by
  cases a with
  | worker t a => exact owned.workerStep taken
  | supervisor a => exact owned.supervisorStep taken
  | owner a => exact owned.ownerStep taken
  | client i =>
    simp only [Lifecycle.step,bind,Option.bind_eq_some_iff] at taken
    obtain ⟨pc,here,⟨q,pc'⟩,reaped,moved⟩ := taken
    obtain ⟨books,facts,fewer,_,frame⟩ := owned.books.reapStep
      (owned.books.clients pc (List.mem_of_getElem? here)) reaped
    cases moved
    rw [frame] at books fewer ⊢
    refine ⟨{books with clients := ?_},owned.supervisor.mono (.refl _) fewer,owned.owner⟩
    intro other member
    rcases List.mem_or_eq_of_mem_set member with old | new
    · exact owned.books.clients other old
    · rw [new]
      exact facts
  | enterLiveWorkers =>
    simp only [Lifecycle.step] at taken
    split at taken
    · cases taken
      refine ⟨{owned.books with clients := ?_},owned.supervisor,owned.owner⟩
      intro pc member
      rcases List.mem_append.mp member with old | new
      · exact owned.books.clients pc old
      · rw [List.mem_singleton.mp new]
        trivial
    · contradiction
  | submit =>
    simp only [Lifecycle.step] at taken
    split at taken
    · cases taken
      exact ⟨{owned.books with},owned.supervisor,owned.owner⟩
    · contradiction
  | elapse nanos =>
    cases taken
    exact ⟨{owned.books with},owned.supervisor,owned.owner⟩

theorem reachable_owned {p : State} (reached : machine.Reachable p) : Owned p :=
  reached.invariant Owned (fun _ start => .initial start) (fun _ _ _ owned taken => owned.step taken)

/-- Threads that are starting, serving, or on their way out. -/
def State.unfinished (p : State) : List ThreadId :=
  (List.range p.threads.length).filter fun t => !p.isFinished t

theorem Owned.unfinished_le {p : State} (owned : Owned p) : p.unfinished.length ≤ p.desiredWorkerCount := by
  have inside : p.unfinished ⊆ p.workers.map Prod.snd ++ (p.supervisor.held ++ p.owner.held) := by
    intro t member
    obtain ⟨bound,running⟩ := List.mem_filter.mp member
    have open_ : ¬ Finished p.threads t := by
      rw [← isFinished_iff]
      simpa using running
    exact List.mem_append.mpr (owned.books.covered t (List.mem_range.mp bound) open_)
  have distinct : p.unfinished.Nodup := List.nodup_range.filter _
  have counted := (List.subperm_of_subset distinct inside).length_le
  have supervisor := p.supervisor.held_le_slots
  have owner := p.owner.held_le_slots
  have budget := owned.books.budget
  simp only [List.length_append,List.length_map] at counted
  omega

def JoinsFailedSpawn (p : State) (t : ThreadId) : Prop :=
  (∃ missing, p.supervisor = .spawning (.join t) missing) ∨ ∃ left, p.owner = .spawning (.join t) left

def JoinsOutsideDrop (p : State) (t : ThreadId) : Prop :=
  p.supervisor = .joinExited t ∨ (∃ rest, p.supervisor = .reap (.join (t::rest))) ∨
    (∃ rest, ReapPc.join (t::rest) ∈ p.clients) ∨ JoinsFailedSpawn p t

theorem Owned.joins {p : State} (owned : Owned p) {t : ThreadId} (joins : JoinsOutsideDrop p t) :
    Finished p.threads t ∨ SentExit p.threads t ∨ JoinsFailedSpawn p t ∧ LeftBody p.threads t := by
  have supervisor := owned.supervisor
  have owner := owned.owner
  rcases joins with here | ⟨rest,here⟩ | ⟨rest,here⟩ | failed
  · rw [here] at supervisor
    exact .inr (.inl supervisor)
  · rw [here] at supervisor
    exact .inl (supervisor.1 t (by simp))
  · exact .inl (owned.books.clients _ here t (by simp))
  · refine .inr (.inr ⟨failed,?_⟩)
    rcases failed with ⟨missing,here⟩ | ⟨left,here⟩
    · rw [here] at supervisor
      exact supervisor
    · rw [here] at owner
      exact owner.2

theorem removeExited_removes {p p' : State} {event : WorkerExit} (here : p.supervisor = .removeExited event)
    {a : SupervisorAction} (taken : supervisorStep p a = some p') (entry : WorkerId × ThreadId)
    (before : entry ∈ p.workers) (after : entry ∉ p'.workers) : entry.1 = event.workerId := by
  unfold supervisorStep at taken
  rw [here] at taken
  cases a with
  | next =>
    dsimp only at taken
    split at taken
    · split at taken
      · cases taken
        by_contra other
        exact after (List.mem_filter.mpr ⟨before,by simpa using other⟩)
      · cases taken
        exact absurd before after
    · contradiction
  | _ => contradiction

/-- In every reachable state the map has at most the desired number of entries
and no more threads are unfinished; handling an exit event removes no entry but
that of the one thread bearing the event's id, which has sent its exit event; and
whoever joins a handle outside drop joins a thread that is finished, has sent its
exit event, or is the spawner's own worker that reported a failed startup. -/
theorem worker_count_and_ownership {p : State} (reached : machine.Reachable p) :
    p.workers.length ≤ p.desiredWorkerCount ∧ p.unfinished.length ≤ p.desiredWorkerCount ∧
    (∀ event a p', p.supervisor = .removeExited event → supervisorStep p a = some p' →
      ∀ entry ∈ p.workers, entry ∉ p'.workers → entry.1 = event.workerId ∧ SentExit p.threads entry.2 ∧
        ∀ t, Named p.threads event.workerId t → t = entry.2) ∧
    ∀ t, JoinsOutsideDrop p t →
      Finished p.threads t ∨ SentExit p.threads t ∨ JoinsFailedSpawn p t ∧ LeftBody p.threads t := by
  have owned := reachable_owned reached
  refine ⟨?_,owned.unfinished_le,?_,fun t joins => owned.joins joins⟩
  · have budget := owned.books.budget
    omega
  · intro event a p' here taken entry before after
    obtain ⟨id,u⟩ := entry
    have sameId : id = event.workerId := removeExited_removes here taken (id,u) before after
    have supervisor := owned.supervisor
    rw [here] at supervisor
    obtain ⟨t,named,sent⟩ := supervisor
    have unique (v : ThreadId) (bears : Named p.threads event.workerId v) : v = u :=
      Named.unique owned.books.ordered bears (sameId ▸ owned.books.named id u before)
    exact ⟨sameId,unique t named ▸ sent,unique⟩

/-- One worker panics, the supervisor restarts it, and the replacement reports a
failed startup: the supervisor is about to join a thread that has sent nothing else. -/
def failedRestart : List Action :=
  [.owner .next,.owner .next,.owner .next,.worker 0 .startOk,.owner .next,.owner .next,.owner .next,
    .submit,.worker 0 .takeJob,.worker 0 .jobPanic,.worker 0 .sendExit,.worker 0 .finish,
    .supervisor .recvExit,.supervisor .next,.supervisor .next,.supervisor .next,.supervisor .next,
    .supervisor .next,.supervisor .next,.supervisor .next,.supervisor .next,.supervisor .next,
    .supervisor .next,.worker 1 .startErr,.supervisor .next,.supervisor .next]

private theorem failedRestart_reached : ∃ p, machine.Reachable p ∧
    (p.owner == .inUse && p.supervisor == .spawning (.join 1) 0 &&
      p.threads[1]?.any fun w => w.phase == .leaving .other) = true :=
  machine.replay_witness failedRestart (.new 1 1 1000 1) _ ⟨1,1,1000,1,by decide,by decide,by decide,rfl⟩
    (by decide)

private theorem failedRestart_joins : ∃ p, machine.Reachable p ∧ p.owner = .inUse ∧
    JoinsFailedSpawn p 1 ∧ ¬ SentExit p.threads 1 := by
  obtain ⟨p,reached,passed⟩ := failedRestart_reached
  simp only [Bool.and_eq_true,beq_iff_eq,Option.any_eq_true] at passed
  obtain ⟨⟨inUse,joining⟩,w,found,leaving⟩ := passed
  refine ⟨p,reached,inUse,.inl ⟨0,joining⟩,?_⟩
  rintro ⟨v,found',late⟩
  have same : v = w := Option.some.inj (found'.symm.trans found)
  rw [same,leaving] at late
  simp [Phase.rank] at late

theorem worker_count_and_ownership_at_failedRestart : ∃ p, machine.Reachable p ∧ JoinsFailedSpawn p 1 ∧
    p.workers.length ≤ p.desiredWorkerCount ∧ p.unfinished.length ≤ p.desiredWorkerCount ∧
    LeftBody p.threads 1 := by
  obtain ⟨p,reached,_,joins,_⟩ := failedRestart_joins
  obtain ⟨entries,running,_,safe⟩ := worker_count_and_ownership reached
  refine ⟨p,reached,joins,entries,running,?_⟩
  rcases safe 1 (.inr (.inr (.inr joins))) with finished | sent | ⟨_,left⟩
  · exact finished.weaken (by decide)
  · exact sent.weaken (by decide)
  · exact left

/-- A failed spawn joins its worker before the worker has sent its exit event. -/
theorem joins_before_exit_event : ∃ p, machine.Reachable p ∧ p.owner = .inUse ∧ JoinsOutsideDrop p 1 ∧
    ¬ (Finished p.threads 1 ∨ SentExit p.threads 1) := by
  obtain ⟨p,reached,inUse,joins,unsent⟩ := failedRestart_joins
  refine ⟨p,reached,inUse,.inr (.inr (.inr joins)),?_⟩
  rintro (finished | sent)
  · exact unsent (finished.weaken (by decide))
  · exact unsent sent

end MechanicsCore.Pool.Lifecycle
