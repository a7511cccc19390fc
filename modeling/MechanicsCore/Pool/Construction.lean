import MechanicsCore.Pool.Shutdown

/-! Building the pool. `MechanicsPool::new` starts the workers one after the other
and then the supervisor; when one of these fails, the constructor's guard tears
down what was started. The runs are those of the pool machine in which a worker
thread may besides end at any point without a word, and a ledger is kept of what
the owner did to the threads. -/
namespace MechanicsCore.Pool.Lifecycle
open MechanicsCore.Library

/-- Threads for which `spawn_worker` returned `Ok`, on which `request_shutdown` was
called, and whose `join` returned. -/
structure Ledger where
  started : List ThreadId
  told : List ThreadId
  joined : List ThreadId
  deriving DecidableEq,Repr

inductive ConstructionAction
  | pool (a : Action)
  | vanish (t : ThreadId)
  deriving DecidableEq,Repr

namespace Construction

def reported (p : State) (t : ThreadId) : Option Bool := p.threads[t]?.bind Worker.ready

def step (p : State) : ConstructionAction → Option State
  | .pool a => Lifecycle.step p a
  | .vanish t => p.threads[t]?.map fun w => p.setThread t {w with phase := .finished}

/-- What the step of the owner adds to the ledger. -/
def note (p : State) (a : ConstructionAction) (l : Ledger) : Ledger :=
  match a, p.owner with
  | .pool (.owner _), .spawning (.await _ t) _ =>
    if reported p t = some true then {l with started := l.started ++ [t]} else l
  | .pool (.owner _), .spawning (.join t) _ => {l with joined := l.joined ++ [t]}
  | .pool (.owner _), .requesting _ (t::_) => {l with told := l.told ++ [t]}
  | .pool (.owner _), .joining _ (t::_) => {l with joined := l.joined ++ [t]}
  | _, _ => l

def machine : Machine (State × Ledger) ConstructionAction :=
  Machine.recording ⟨Lifecycle.machine.initial,step⟩ ⟨[],[],[]⟩ note

/-- Time passing and threads that vanish are no work. -/
def Works : ConstructionAction → Prop
  | .pool (.elapse _) => False
  | .pool _ => True
  | .vanish _ => False

/-- The step in which `new` learns of a failure: a thread was not created, a worker
reported an error or a panic, or ended before it reported. -/
def Fails (p : State) (a : OwnerAction) : Prop :=
  match p.owner with
  | .spawning .create _ => a = .createFails
  | .spawning (.await _ t) _ => reported p t ≠ some true
  | .startSupervisor => a = .createFails
  | _ => False

end Construction

open Construction

/-- `new` has not returned yet, or has returned an error. -/
def OwnerPc.building : OwnerPc → Bool
  | .constructing _ => true
  | .spawning _ _ => true
  | .startSupervisor => true
  | .inUse => false
  | .markClosed built => !built
  | .drainQueue built => !built
  | .request built => !built
  | .requesting built _ => !built
  | .signalSupervisor built => !built
  | .joinSupervisor built => !built
  | .drainWorkers built => !built
  | .joining built _ => !built
  | .dropped built => !built

def OwnerPc.failing : OwnerPc → Bool
  | .constructing _ => false
  | .spawning (.remove _ _) _ => true
  | .spawning (.join _) _ => true
  | .spawning _ _ => false
  | .startSupervisor => false
  | pc => pc.building

/-- The newest thread has not reported to the owner yet. -/
def OwnerPc.awaits : OwnerPc → Bool
  | .spawning (.insert _ _) _ => true
  | .spawning (.await _ _) _ => true
  | _ => false

/-! What a thread can be while the pool is built: not reported yet, waiting in
`select!`, or on its way out. No job is in the queue, so none runs. -/

def Begun (w : Worker) : Prop :=
  w.shutdown = .empty ∧ match w.phase with
    | .starting => w.ready = none
    | .select => w.ready = some true
    | .running => False
    | .panicking => w.ready = none
    | .leaving _ => w.ready = some false
    | .exited => w.ready = some false
    | .finished => True

def Waiting (w : Worker) : Prop := w.shutdown = .empty ∧ (w.phase = .select ∨ w.phase = .finished)

def Outgoing (w : Worker) : Prop := w.phase = .select ∧ w.shutdown = .pending ∨ 3 ≤ w.phase.rank

def Role (l : Ledger) (awaits : Bool) (t : ThreadId) (w : Worker) : Prop :=
  if t < l.started.length then if t ∈ l.told then Outgoing w else Waiting w
  else if awaits then Begun w else 3 ≤ w.phase.rank

theorem Begun.resting {w : Worker} (begun : Begun w) : w.phase ≠ .running := by
  intro running
  simp [Begun,running] at begun

theorem Waiting.resting {w : Worker} (waiting : Waiting w) : w.phase ≠ .running := by
  rcases waiting.2 with phase | phase <;> simp [phase]

theorem Outgoing.resting {w : Worker} (outgoing : Outgoing w) : w.phase ≠ .running := by
  rintro running
  simp [Outgoing,running,Phase.rank] at outgoing

theorem Role.resting {l : Ledger} {awaits : Bool} {t : ThreadId} {w : Worker} (role : Role l awaits t w) :
    w.phase ≠ .running := by
  unfold Role at role
  split at role
  · split at role
    · exact role.resting
    · exact role.resting
  · split at role
    · exact role.resting
    · exact Outgoing.resting (.inr role)

theorem Role.imp {l : Ledger} {awaits : Bool} {t : ThreadId} {w w' : Worker} (role : Role l awaits t w)
    (later : w.phase.rank ≤ w'.phase.rank) (begun : Begun w → Begun w') (waiting : Waiting w → Waiting w')
    (outgoing : Outgoing w → Outgoing w') : Role l awaits t w' := by
  by_cases old : t < l.started.length
  · by_cases told : t ∈ l.told
    · rw [Role,if_pos old,if_pos told] at role ⊢
      exact outgoing role
    · rw [Role,if_pos old,if_neg told] at role ⊢
      exact waiting role
  · cases awaits with
    | true =>
      rw [Role,if_neg old,if_pos rfl] at role ⊢
      exact begun role
    | false =>
      rw [Role,if_neg old,if_neg Bool.false_ne_true] at role ⊢
      exact role.trans later

/-- With no job in the queue a step of a worker takes its thread on, and within its role. -/
theorem workerStep_quiet {p p' : State} {t : ThreadId} {a : WorkerAction} {w : Worker} (empty : p.queued = 0)
    (found : p.threads[t]? = some w) (resting : w.phase ≠ .running) (taken : workerStep p t a = some p') :
    ∃ w' exits, p' = {p with threads := p.threads.set t w', exits := exits} ∧ w.phase.rank < w'.phase.rank ∧
      (Begun w → Begun w') ∧ (Waiting w → Waiting w') ∧ (Outgoing w → Outgoing w') := by
  unfold workerStep at taken
  simp only [found,bind,Option.bind] at taken
  split at taken
  case h_5 =>
    rw [empty] at taken
    contradiction
  case h_6 | h_7 | h_8 =>
    rename_i phase
    exact absurd phase resting
  case h_4 | h_9 =>
    rename_i phase
    split at taken
    · have same := Option.some.inj taken
      refine ⟨_,_,same.symm,?_⟩
      simp_all [Begun,Waiting,Outgoing,Phase.rank]
    · contradiction
  case h_12 => contradiction
  all_goals
    rename_i phase
    have same := Option.some.inj taken
    refine ⟨_,_,same.symm,?_⟩
    simp_all [Begun,Waiting,Outgoing,Phase.rank]

theorem Past.set {threads : List Worker} {rank : Nat} {t u : ThreadId} {w w' : Worker} (past : Past threads rank u)
    (found : threads[t]? = some w) (later : w.phase.rank ≤ w'.phase.rank) : Past (threads.set t w') rank u := by
  obtain ⟨v,at_u,bound⟩ := past
  by_cases same : t = u
  · subst same
    have inside := (List.getElem?_eq_some_iff.mp found).1
    have value : v = w := Option.some.inj (at_u.symm.trans found)
    exact ⟨w',by simp [inside],bound.trans (value ▸ later)⟩
  · exact ⟨v,by rw [List.getElem?_set_ne same,at_u],bound⟩

theorem set_cases {threads : List Worker} {t u : ThreadId} {w w' v : Worker} (found : threads[t]? = some w)
    (at_u : (threads.set t w')[u]? = some v) : t = u ∧ v = w' ∨ t ≠ u ∧ threads[u]? = some v := by
  by_cases same : t = u
  · subst same
    have bound := (List.getElem?_eq_some_iff.mp found).1
    exact .inl ⟨rfl,by simpa [bound] using at_u.symm⟩
  · exact .inr ⟨same,by simpa [List.getElem?_set_ne same] using at_u⟩

/-! What the owner has got to, at each of its program counters. -/

/-- The map holds the started workers and no other. -/
def Rows (p : State) (l : Ledger) : Prop := p.workers.map Prod.snd = l.started

/-- The newest entry of the map is that of the thread awaited. -/
def Newest (p : State) (l : Ledger) (id : WorkerId) (t : ThreadId) : Prop :=
  ∃ rest, p.workers = rest ++ [(id,t)] ∧ rest.map Prod.snd = l.started ∧ ∀ entry ∈ rest, entry.1 < id

structure Untouched (l : Ledger) : Prop where
  told : l.told = []
  joined : l.joined = []

/-- No thread is left but the started ones and those joined. -/
def Settled (p : State) (l : Ledger) : Prop := ∀ t < p.threads.length, t < l.started.length ∨ t ∈ l.joined

def Place (p : State) (l : Ledger) : OwnerPc → Prop
  | .constructing left => Rows p l ∧ Untouched l ∧ p.threads.length = l.started.length ∧
      l.started.length + left = p.desiredWorkerCount
  | .spawning .create left => Rows p l ∧ Untouched l ∧ p.threads.length = l.started.length ∧
      l.started.length + left + 1 = p.desiredWorkerCount
  | .spawning (.insert id t) left => Rows p l ∧ Untouched l ∧ p.threads.length = l.started.length + 1 ∧
      t = l.started.length ∧ (∀ entry ∈ p.workers, entry.1 < id) ∧ id < p.nextWorkerId ∧
      l.started.length + left + 1 = p.desiredWorkerCount
  | .spawning (.await id t) left => Newest p l id t ∧ Untouched l ∧ p.threads.length = l.started.length + 1 ∧
      t = l.started.length ∧ l.started.length + left + 1 = p.desiredWorkerCount
  | .spawning (.remove id t) _ => Newest p l id t ∧ Untouched l ∧ p.threads.length = l.started.length + 1 ∧
      t = l.started.length
  | .spawning (.join t) _ => Rows p l ∧ Untouched l ∧ p.threads.length = l.started.length + 1 ∧ t = l.started.length
  | .startSupervisor => Rows p l ∧ Untouched l ∧ p.threads.length = l.started.length ∧
      l.started.length = p.desiredWorkerCount
  | .markClosed _ => Rows p l ∧ l.told = [] ∧ Settled p l
  | .drainQueue _ => Rows p l ∧ l.told = [] ∧ Settled p l
  | .request _ => Rows p l ∧ l.told = [] ∧ Settled p l
  | .requesting _ todo => Rows p l ∧ l.told ++ todo = l.started ∧ Settled p l
  | .signalSupervisor _ => Rows p l ∧ l.told = l.started ∧ Settled p l
  | .joinSupervisor _ => Rows p l ∧ l.told = l.started ∧ Settled p l
  | .drainWorkers _ => Rows p l ∧ l.told = l.started ∧ Settled p l
  | .joining _ handles => p.workers = [] ∧ l.told = l.started ∧ (∀ t ∈ handles, t ∈ l.started) ∧
      ∀ t < p.threads.length, t ∈ handles ∨ t ∈ l.joined
  | .dropped _ => p.workers = [] ∧ l.told = l.started ∧ ∀ t < p.threads.length, t ∈ l.joined
  | .inUse => True

theorem Place.congr {p p' : State} {l : Ledger} {pc : OwnerPc} (workers : p'.workers = p.workers)
    (size : p'.threads.length = p.threads.length) (desired : p'.desiredWorkerCount = p.desiredWorkerCount)
    (issued : p'.nextWorkerId = p.nextWorkerId) (place : Place p l pc) : Place p' l pc := by
  unfold Place Rows Newest Settled at *
  rw [workers,size,desired,issued]
  exact place

structure Building (p : State) (l : Ledger) : Prop where
  supervisor : p.supervisor = .notStarted
  clients : p.clients = []
  queued : p.queued = 0
  started : l.started = List.range l.started.length
  size : l.started.length ≤ p.threads.length
  keys : ∀ entry ∈ p.workers, entry.1 < p.nextWorkerId
  roles : ∀ t w, p.threads[t]? = some w → Role l p.owner.awaits t w
  joined : ∀ t ∈ l.joined, Finished p.threads t
  place : Place p l p.owner

namespace Building
variable {p p' : State} {l : Ledger}

theorem initial {s : State × Ledger} (start : Construction.machine.initial s) : Building s.1 s.2 := by
  obtain ⟨p,l⟩ := s
  obtain ⟨⟨desired,capacity,window,maxRestarts,_,_,_,same⟩,blank⟩ := start
  cases same
  cases blank
  exact ⟨rfl,rfl,rfl,rfl,le_refl 0,by simp,by simp,by simp,
    ⟨rfl,⟨rfl,rfl⟩,rfl,Nat.zero_add desired⟩⟩

/-- The owner moves on and leaves the threads and the map as they are. -/
theorem proceed (building : Building p l) {was : OwnerPc} (here : p.owner = was) (pc : OwnerPc)
    (closed : Bool) (same : pc.awaits = was.awaits) (place : Place p l pc) :
    Building {p with closed := closed, owner := pc} l where
  supervisor := building.supervisor
  clients := building.clients
  queued := building.queued
  started := building.started
  size := building.size
  keys := building.keys
  roles t w found := by
    change Role l pc.awaits t w
    rw [same,← here]
    exact building.roles t w found
  joined := building.joined
  place := place

/-- One thread goes on within its role. -/
theorem setThread (building : Building p l) {t : ThreadId} {w w' : Worker} (found : p.threads[t]? = some w)
    (exits : List WorkerExit) (later : w.phase.rank ≤ w'.phase.rank) (role : Role l p.owner.awaits t w') :
    Building {p with threads := p.threads.set t w', exits := exits} l where
  supervisor := building.supervisor
  clients := building.clients
  queued := building.queued
  started := building.started
  size := building.size.trans_eq List.length_set.symm
  keys := building.keys
  roles u v at_u := by
    rcases set_cases found at_u with ⟨rfl,rfl⟩ | ⟨_,old⟩
    · exact role
    · exact building.roles u v old
  joined u member := (building.joined u member).set found later
  place := Place.congr (p := p) rfl List.length_set rfl rfl building.place

theorem role (building : Building p l) {t : ThreadId} {w : Worker} (found : p.threads[t]? = some w) :
    Role l p.owner.awaits t w := building.roles t w found

theorem workerStep (building : Building p l) {t : ThreadId} {a : WorkerAction}
    (taken : workerStep p t a = some p') : Building p' l := by
  cases found : p.threads[t]? with
  | none => simp [Lifecycle.workerStep,found] at taken
  | some w =>
    have role := building.role found
    obtain ⟨w',exits,rfl,later,begun,waiting,outgoing⟩ := workerStep_quiet building.queued found role.resting taken
    exact building.setThread found exits later.le (role.imp later.le begun waiting outgoing)

theorem vanish (building : Building p l) {t : ThreadId} {w : Worker} (found : p.threads[t]? = some w) :
    Building (p.setThread t {w with phase := .finished}) l := by
  have last : w.phase.rank ≤ Phase.finished.rank := by cases w.phase <;> simp [Phase.rank]
  refine building.setThread found p.exits last ((building.role found).imp last ?_ ?_ ?_)
  · exact fun begun => ⟨begun.1,trivial⟩
  · exact fun waiting => ⟨waiting.1,.inr rfl⟩
  · exact fun _ => .inr (by simp [Phase.rank])

/-! One lemma for each step of `spawn_worker`. -/

section Spawn
variable {left : Nat}

theorem create (building : Building p l) (here : p.owner = .spawning .create left) :
    Building {p with
      nextWorkerId := p.nextWorkerId + 1
      threads := p.threads ++ [⟨p.nextWorkerId,.starting,none,.empty⟩]
      owner := .spawning (.insert p.nextWorkerId p.threads.length) left} l := by
  have place := building.place
  rw [here] at place
  obtain ⟨rows,untouched,size,count⟩ := place
  refine ⟨building.supervisor,building.clients,building.queued,building.started,?_,?_,?_,?_,?_⟩
  · simp [size]
  · exact fun entry member => Nat.lt_succ_of_lt (building.keys entry member)
  · intro t w found
    by_cases old : t < p.threads.length
    · have role := building.roles t w (by simpa [List.getElem?_append_left old] using found)
      rw [size] at old
      rw [Role,if_pos old] at role ⊢
      exact role
    · have fresh : w = ⟨p.nextWorkerId,.starting,none,.empty⟩ := by
        simp only [List.getElem?_append_right (not_lt.mp old)] at found
        exact List.mem_singleton.mp (List.mem_of_getElem? found)
      rw [size] at old
      rw [Role,if_neg old,fresh]
      exact ⟨rfl,rfl⟩
  · exact fun t member => (building.joined t member).mono (.append _ _)
  · exact ⟨rows,untouched,by simp [size],size,building.keys,Nat.lt_succ_self _,count⟩

/-- The thread was not created. -/
theorem uncreated (building : Building p l) (here : p.owner = .spawning .create left) :
    Building {p with nextWorkerId := p.nextWorkerId + 1, owner := .markClosed false} l := by
  have place := building.place
  rw [here] at place
  obtain ⟨rows,untouched,size,_⟩ := place
  have roles := building.roles
  rw [here] at roles
  exact ⟨building.supervisor,building.clients,building.queued,building.started,building.size,
    fun entry member => Nat.lt_succ_of_lt (building.keys entry member),roles,building.joined,
    rows,untouched.told,fun t bound => .inl (size ▸ bound)⟩

theorem insert (building : Building p l) {id : WorkerId} {t : ThreadId}
    (here : p.owner = .spawning (.insert id t) left) :
    Building {p.insertHandle id t with owner := .spawning (.await id t) left} l := by
  have place := building.place
  rw [here] at place
  obtain ⟨rows,untouched,size,newest,below,issued,count⟩ := place
  have roles := building.roles
  rw [here] at roles
  have kept : p.workers.filter (fun entry => entry.1 != id) = p.workers :=
    List.filter_eq_self.mpr fun entry member => bne_iff_ne.mpr (below entry member).ne
  refine ⟨building.supervisor,building.clients,building.queued,building.started,building.size,?_,roles,
    building.joined,⟨p.workers,?_,rows,below⟩,untouched,size,newest,count⟩
  · intro entry member
    change entry ∈ p.workers.filter (fun entry => entry.1 != id) ++ [(id,t)] at member
    rw [kept] at member
    rcases List.mem_append.mp member with old | new
    · exact building.keys entry old
    · rw [List.mem_singleton.mp new]
      exact issued
  · change p.workers.filter (fun entry => entry.1 != id) ++ [(id,t)] = _
    rw [kept]

/-- The threads other than the newest are started workers. -/
theorem older {t u : ThreadId} {v : Worker} (size : p.threads.length = l.started.length + 1)
    (newest : t = l.started.length) (found : p.threads[u]? = some v) (other : t ≠ u) : u < l.started.length := by
  have inside := (List.getElem?_eq_some_iff.mp found).1
  rw [size] at inside
  exact lt_of_le_of_ne (Nat.lt_succ_iff.mp inside) fun same => other (newest.trans same.symm)

/-- What the awaited thread is known to be. -/
theorem begun (building : Building p l) {id : WorkerId} {t : ThreadId} {w : Worker}
    (here : p.owner = .spawning (.await id t) left) (found : p.threads[t]? = some w) : Begun w := by
  have place := building.place
  rw [here] at place
  obtain ⟨_,_,_,newest,_⟩ := place
  have role := building.role found
  rw [here,Role,if_neg (newest ▸ lt_irrefl _)] at role
  exact role

theorem ready (building : Building p l) {id : WorkerId} {t : ThreadId} {w : Worker}
    (here : p.owner = .spawning (.await id t) left) (found : p.threads[t]? = some w) (reported : w.ready = some true) :
    Building {p with
      restartBlocked := false
      threads := p.threads.set t {w with ready := none}
      owner := .constructing left} {l with started := l.started ++ [t]} := by
  have waiting : Waiting {w with ready := none} := by
    obtain ⟨empty,phase⟩ := building.begun here found
    refine ⟨empty,?_⟩
    cases at_phase : w.phase <;> simp_all
  have place := building.place
  rw [here] at place
  obtain ⟨⟨rest,workers,rows,_⟩,untouched,size,newest,count⟩ := place
  refine ⟨building.supervisor,building.clients,building.queued,?_,?_,building.keys,?_,?_,?_,?_,?_,?_⟩
  · rw [List.length_append,List.length_singleton,List.range_succ,← building.started,newest]
  · simp [size]
  · intro u v at_u
    rcases set_cases found at_u with ⟨rfl,rfl⟩ | ⟨other,old⟩
    · have inside : t < (l.started ++ [t]).length := by simp [newest]
      rw [Role,if_pos inside,if_neg (by simp [untouched.told])]
      exact waiting
    · have mine := older size newest old other
      have inside : u < (l.started ++ [t]).length := by
        rw [List.length_append]
        exact Nat.lt_add_right _ mine
      have role := building.role old
      rw [Role,if_pos mine] at role
      rw [Role,if_pos inside]
      exact role
  · exact fun u member => (building.joined u member).set found le_rfl
  · change p.workers.map Prod.snd = l.started ++ [t]
    rw [workers,List.map_append,rows]
    rfl
  · exact ⟨untouched.told,untouched.joined⟩
  · simp [size]
  · rw [List.length_append,List.length_singleton]
    change l.started.length + 1 + left = p.desiredWorkerCount
    omega

/-- The thread reported an error, or ended before it reported. -/
theorem unready (building : Building p l) {id : WorkerId} {t : ThreadId} {w : Worker}
    (here : p.owner = .spawning (.await id t) left) (found : p.threads[t]? = some w)
    (failed : w.ready = some false ∨ w.phase = .finished) :
    Building {p with
      threads := p.threads.set t {w with ready := none}
      owner := .spawning (.remove id t) left} l := by
  have gone : 3 ≤ w.phase.rank := by
    obtain ⟨_,phase⟩ := building.begun here found
    rcases failed with reported | finished
    · cases at_phase : w.phase <;> simp_all [Phase.rank]
    · simp [finished,Phase.rank]
  have place := building.place
  rw [here] at place
  obtain ⟨last,untouched,size,newest,_⟩ := place
  refine ⟨building.supervisor,building.clients,building.queued,building.started,?_,building.keys,?_,?_,
    last,untouched,?_,newest⟩
  · exact building.size.trans_eq List.length_set.symm
  · intro u v at_u
    rcases set_cases found at_u with ⟨rfl,rfl⟩ | ⟨other,old⟩
    · rw [Role,if_neg (newest ▸ lt_irrefl _)]
      exact gone
    · have mine := older size newest old other
      have role := building.role old
      rw [Role,if_pos mine] at role ⊢
      exact role
  · exact fun u member => (building.joined u member).set found le_rfl
  · rw [← size]
    exact List.length_set

theorem handle_newest {id : WorkerId} {t : ThreadId} (newest : Newest p l id t) :
    p.handle id = some t ∧ (p.removeHandles [id]).workers.map Prod.snd = l.started := by
  obtain ⟨rest,workers,rows,below⟩ := newest
  constructor
  · have absent : rest.lookup id = none := by
      rw [List.lookup_eq_none_iff]
      exact fun entry member => bne_iff_ne.mpr (below entry member).ne'
    rw [State.handle,workers,List.lookup_append,absent]
    simp
  · have kept : rest.filter (fun entry => !([id] : List WorkerId).contains entry.1) = rest := by
      rw [List.filter_eq_self]
      intro entry member
      simpa using (below entry member).ne
    change (p.workers.filter fun entry => !([id] : List WorkerId).contains entry.1).map Prod.snd = _
    rw [workers,List.filter_append,kept]
    simpa using rows

theorem remove (building : Building p l) {id : WorkerId} {t : ThreadId}
    (here : p.owner = .spawning (.remove id t) left) :
    Building {p.removeHandles [id] with owner := .spawning (.join t) left} l := by
  have place := building.place
  rw [here] at place
  obtain ⟨newest,untouched,size,last⟩ := place
  have roles := building.roles
  rw [here] at roles
  exact ⟨building.supervisor,building.clients,building.queued,building.started,building.size,
    fun entry member => building.keys entry (List.mem_filter.mp member).1,roles,building.joined,
    (handle_newest newest).2,untouched,size,last⟩

theorem join (building : Building p l) {t : ThreadId} (here : p.owner = .spawning (.join t) left)
    (finished : Finished p.threads t) :
    Building {p with owner := .markClosed false} {l with joined := l.joined ++ [t]} := by
  have place := building.place
  rw [here] at place
  obtain ⟨rows,untouched,size,last⟩ := place
  have roles := building.roles
  rw [here] at roles
  refine ⟨building.supervisor,building.clients,building.queued,building.started,building.size,building.keys,roles,
    ?_,rows,untouched.told,?_⟩
  · intro u member
    rcases List.mem_append.mp member with old | new
    · exact building.joined u old
    · rw [List.mem_singleton.mp new]
      exact finished
  · intro u bound
    by_cases old : u < l.started.length
    · exact .inl old
    · have same : t = u := by
        by_contra other
        exact old (older size last (List.getElem?_eq_getElem bound) other)
      exact .inr (by simp [same])

end Spawn

/-- The steps of `spawn_worker` as long as nothing has failed. -/
theorem spawnStep (building : Building p l) {pc : SpawnPc} {left : Nat} (here : p.owner = .spawning pc left)
    (going : p.owner.failing = false) {a : OwnerAction} (taken : ownerStep p a = some p') :
    Building p' (note p (.pool (.owner a)) l) := by
  simp only [Lifecycle.ownerStep,here] at taken
  split at taken
  case isFalse => contradiction
  obtain ⟨⟨q,next⟩,spawned,moved⟩ := Option.map_eq_some_iff.mp taken
  cases pc with
  | create =>
    simp only [note,here]
    simp only [Lifecycle.spawnStep] at spawned
    split at spawned
    · cases spawned
      cases moved
      exact building.create here
    · cases spawned
      cases moved
      exact building.uncreated here
  | insert id t =>
    simp only [note,here]
    simp only [Lifecycle.spawnStep] at spawned
    split at spawned
    · cases spawned
      cases moved
      exact building.insert here
    · contradiction
  | await id t =>
    simp only [Lifecycle.spawnStep,bind,Option.bind_eq_some_iff] at spawned
    obtain ⟨w,found,spawned⟩ := spawned
    have said : reported p t = w.ready := by rw [reported,found,Option.bind_some]
    simp only [note,here,said]
    split at spawned
    · rename_i ready
      cases spawned
      cases moved
      rw [if_pos ready]
      exact building.ready here found ready
    · rename_i ready
      cases spawned
      cases moved
      rw [if_neg (by simp [ready])]
      exact building.unready here found (.inl ready)
    · rename_i silent
      split at spawned
      · rename_i finished
        cases spawned
        cases moved
        rw [if_neg (by simp [silent])]
        have unchanged : p.threads.set t {w with ready := none} = p.threads := by
          have same : {w with ready := none} = w := by
            cases w
            cases silent
            rfl
          obtain ⟨bound,value⟩ := List.getElem?_eq_some_iff.mp found
          rw [same,← value,List.set_getElem_self]
        have after := building.unready here found (.inr finished)
        rwa [unchanged] at after
      · contradiction
  | remove id t => simp [here,OwnerPc.failing] at going
  | join t => simp [here,OwnerPc.failing] at going

section Teardown

/-- The worker asked next is a started one that was not asked before. -/
theorem asked (building : Building p l) {built : Bool} {t : ThreadId} {todo : List ThreadId}
    (here : p.owner = .requesting built (t::todo)) : t < l.started.length ∧ t ∉ l.told := by
  have place := building.place
  rw [here] at place
  obtain ⟨_,parts,_⟩ := place
  constructor
  · have member : t ∈ l.started := by simp [← parts]
    rw [building.started] at member
    exact List.mem_range.mp member
  · have distinct : (l.told ++ t::todo).Nodup := by
      rw [parts,building.started]
      exact List.nodup_range
    exact fun member => (List.nodup_append.mp distinct).2.2 t member t List.mem_cons_self rfl

theorem waiting (building : Building p l) {t : ThreadId} {w : Worker} (found : p.threads[t]? = some w)
    (mine : t < l.started.length) (untold : t ∉ l.told) : Waiting w := by
  have role := building.role found
  rwa [Role,if_pos mine,if_neg untold] at role

theorem requestShutdown (building : Building p l) {q : State} {t : ThreadId} {todo : List ThreadId}
    (here : p.owner = .requesting false (t::todo)) (sent : requestShutdown p t = some q) :
    Building {q with owner := .requesting false todo} {l with told := l.told ++ [t]} := by
  have place := building.place
  rw [here] at place
  obtain ⟨rows,parts,settled⟩ := place
  have parts' : (l.told ++ [t]) ++ todo = l.started := by
    rw [List.append_assoc]
    exact parts
  have roles := building.roles
  rw [here] at roles
  obtain ⟨w,found,how⟩ := requestShutdown_cases sent
  obtain ⟨mine,untold⟩ := building.asked here
  have waiting := building.waiting found mine untold
  -- Whoever is asked later than this thread keeps the role it had.
  have others : ∀ u v, t ≠ u → p.threads[u]? = some v → Role {l with told := l.told ++ [t]} false u v := by
    intro u v other at_u
    have role := roles u v at_u
    have same : u ∈ l.told ++ [t] ↔ u ∈ l.told := by simp [Ne.symm other]
    simp only [Role,same]
    exact role
  rcases how with ⟨finished,rfl⟩ | rfl
  · refine ⟨building.supervisor,building.clients,building.queued,building.started,building.size,building.keys,?_,
      building.joined,rows,parts',settled⟩
    intro u v at_u
    by_cases same : t = u
    · subst same
      have value : v = w := Option.some.inj (at_u.symm.trans found)
      rw [Role,if_pos mine,if_pos (by simp),value]
      exact .inr (by simp [finished,Phase.rank])
    · exact others u v same at_u
  · refine ⟨building.supervisor,building.clients,building.queued,building.started,?_,building.keys,?_,?_,rows,parts',?_⟩
    · exact building.size.trans_eq List.length_set.symm
    · intro u v at_u
      rcases set_cases found at_u with ⟨rfl,rfl⟩ | ⟨other,old⟩
      · rw [Role,if_pos mine,if_pos (by simp)]
        rcases waiting.2 with select | finished
        · exact .inl ⟨select,rfl⟩
        · exact .inr (by simp [finished,Phase.rank])
      · exact others u v other old
    · exact fun u member => (building.joined u member).set found le_rfl
    · intro u below
      exact settled u (by simpa using below)

theorem drain (building : Building p l) (here : p.owner = .drainWorkers false) :
    Building {p with workers := [], owner := .joining false (p.workers.map Prod.snd)} l := by
  have place := building.place
  rw [here] at place
  obtain ⟨rows,told,settled⟩ := place
  have roles := building.roles
  rw [here] at roles
  refine ⟨building.supervisor,building.clients,building.queued,building.started,building.size,by simp,roles,
    building.joined,rfl,told,?_,?_⟩
  · exact fun t member => rows ▸ member
  · intro t bound
    rcases settled t bound with mine | old
    · refine .inl ?_
      rw [rows,building.started]
      exact List.mem_range.mpr mine
    · exact .inr old

theorem joining (building : Building p l) {t : ThreadId} {rest : List ThreadId}
    (here : p.owner = .joining false (t::rest)) (finished : Finished p.threads t) :
    Building {p with owner := .joining false rest} {l with joined := l.joined ++ [t]} := by
  have place := building.place
  rw [here] at place
  obtain ⟨empty,told,mine,cover⟩ := place
  have roles := building.roles
  rw [here] at roles
  refine ⟨building.supervisor,building.clients,building.queued,building.started,building.size,building.keys,roles,
    ?_,empty,told,fun u member => mine u (List.mem_cons_of_mem _ member),?_⟩
  · intro u member
    rcases List.mem_append.mp member with old | new
    · exact building.joined u old
    · rw [List.mem_singleton.mp new]
      exact finished
  · intro u bound
    rcases cover u bound with waiting | old
    · rcases List.mem_cons.mp waiting with same | later
      · exact .inr (by simp [same])
      · exact .inl later
    · exact .inr (List.mem_append_left _ old)

end Teardown

end Building

/-- The steps of the owner once something has failed, with what they add to the ledger. -/
inductive Unwinds (p : State) (l : Ledger) : OwnerPc → State → Ledger → Prop
  | remove (id : WorkerId) (t : ThreadId) (left : Nat) :
      Unwinds p l (.spawning (.remove id t) left) {p.removeHandles [id] with owner := .spawning (.join t) left} l
  | join (t : ThreadId) (left : Nat) (finished : Finished p.threads t) :
      Unwinds p l (.spawning (.join t) left) {p with owner := .markClosed false} {l with joined := l.joined ++ [t]}
  | close : Unwinds p l (.markClosed false) {p with closed := true, owner := .drainQueue false} l
  | drained : Unwinds p l (.drainQueue false) {p with owner := .request false} l
  | walk : Unwinds p l (.request false) {p with owner := .requesting false (p.workers.map Prod.snd)} l
  | tell (t : ThreadId) (todo : List ThreadId) (q : State) (sent : requestShutdown p t = some q) :
      Unwinds p l (.requesting false (t::todo)) {q with owner := .requesting false todo} {l with told := l.told ++ [t]}
  | walked : Unwinds p l (.requesting false []) {p with owner := .signalSupervisor false} l
  | signal : Unwinds p l (.signalSupervisor false) {p with owner := .joinSupervisor false} l
  | unsupervised : Unwinds p l (.joinSupervisor false) {p with owner := .drainWorkers false} l
  | takeAll :
      Unwinds p l (.drainWorkers false) {p with workers := [], owner := .joining false (p.workers.map Prod.snd)} l
  | joinNext (t : ThreadId) (rest : List ThreadId) (finished : Finished p.threads t) :
      Unwinds p l (.joining false (t::rest)) {p with owner := .joining false rest} {l with joined := l.joined ++ [t]}
  | joinedAll : Unwinds p l (.joining false []) {p with owner := .dropped false} l

/-- Construction never begins again. -/
theorem ownerStep_building {p p' : State} {a : OwnerAction} (taken : ownerStep p a = some p')
    (still : p'.owner.building = true) : p.owner.building = true := by
  unfold ownerStep at taken
  split at taken
  case h_3 pc left here => rw [here]; rfl
  case h_6 here =>
    split at taken
    · cases taken
      contradiction
    · contradiction
  case h_8 built here =>
    split at taken
    · cases taken
      rw [here]
      exact still
    · cases taken
      exact still
  case h_10 built t todo here =>
    obtain ⟨q,sent,rfl⟩ := Option.map_eq_some_iff.mp taken
    rw [here]
    exact still
  case h_17 => contradiction
  case h_13 | h_15 =>
    rename_i here
    split at taken
    · cases taken
      rw [here]
      exact still
    · contradiction
  all_goals
    rename_i here
    cases taken
    rw [here]
    first | rfl | exact still

namespace Building
variable {p p' : State} {l : Ledger}

theorem unwinds (building : Building p l) (failing : p.owner.failing = true) {a : OwnerAction}
    (taken : Lifecycle.ownerStep p a = some p') : Unwinds p l p.owner p' (note p (.pool (.owner a)) l) := by
  have place := building.place
  unfold Lifecycle.ownerStep at taken
  split at taken
  case h_1 | h_2 | h_4 | h_5 | h_6 =>
    rename_i here
    simp [here,OwnerPc.failing,OwnerPc.building] at failing
  case h_17 => contradiction
  case h_3 pc left here =>
    rw [here] at failing place ⊢
    split at taken
    case isFalse => contradiction
    obtain ⟨⟨q,next⟩,spawned,moved⟩ := Option.map_eq_some_iff.mp taken
    cases pc with
    | remove id t =>
      simp only [Lifecycle.spawnStep,(handle_newest place.1).1] at spawned
      split at spawned
      · cases spawned
        cases moved
        simp only [note,here]
        exact .remove id t left
      · contradiction
    | join t =>
      simp only [Lifecycle.spawnStep] at spawned
      split at spawned
      · rename_i finished
        cases spawned
        cases moved
        simp only [note,here]
        exact .join t left ((isFinished_iff p t).mp finished)
      · contradiction
    | create => contradiction
    | insert id t => contradiction
    | await id t => contradiction
  case h_8 built here =>
    cases built with
    | true => simp [here,OwnerPc.failing,OwnerPc.building] at failing
    | false =>
      rw [if_pos building.queued] at taken
      cases taken
      simp only [note,here]
      exact .drained
  case h_10 built t todo here =>
    cases built with
    | true => simp [here,OwnerPc.failing,OwnerPc.building] at failing
    | false =>
      obtain ⟨q,sent,rfl⟩ := Option.map_eq_some_iff.mp taken
      simp only [note,here]
      exact .tell t todo q sent
  case h_13 built here =>
    cases built with
    | true => simp [here,OwnerPc.failing,OwnerPc.building] at failing
    | false =>
      rw [if_pos (.inl building.supervisor)] at taken
      cases taken
      simp only [note,here]
      exact .unsupervised
  case h_15 built t rest here =>
    cases built with
    | true => simp [here,OwnerPc.failing,OwnerPc.building] at failing
    | false =>
      split at taken
      · rename_i finished
        cases taken
        simp only [note,here]
        exact .joinNext t rest ((isFinished_iff p t).mp finished)
      · contradiction
  all_goals
    rename_i built here
    cases built with
    | true => simp [here,OwnerPc.failing,OwnerPc.building] at failing
    | false =>
      cases taken
      simp only [note,here]
      constructor

theorem unwind (building : Building p l) {l' : Ledger} (moved : Unwinds p l p.owner p' l') : Building p' l' := by
  have place := building.place
  generalize here : p.owner = pc at moved place
  cases moved with
  | remove id t left => exact building.remove here
  | join t left finished => exact building.join here finished
  | close => exact building.proceed here (.drainQueue false) true rfl place
  | drained => exact building.proceed here (.request false) p.closed rfl place
  | walk =>
    obtain ⟨rows,told,settled⟩ := place
    exact building.proceed here (.requesting false _) p.closed rfl
      ⟨rows,by rw [told,rows,List.nil_append],settled⟩
  | tell t todo q sent => exact building.requestShutdown here sent
  | walked =>
    obtain ⟨rows,told,settled⟩ := place
    exact building.proceed here (.signalSupervisor false) p.closed rfl
      ⟨rows,by rw [← told,List.append_nil],settled⟩
  | signal => exact building.proceed here (.joinSupervisor false) p.closed rfl place
  | unsupervised =>
    exact building.proceed here (.drainWorkers false) p.closed rfl place
  | takeAll => exact building.drain here
  | joinNext t rest finished => exact building.joining here finished
  | joinedAll =>
    obtain ⟨empty,told,_,cover⟩ := place
    exact building.proceed here (.dropped false) p.closed rfl
      ⟨empty,told,fun t bound => (cover t bound).resolve_left List.not_mem_nil⟩

theorem ownerStep (building : Building p l) (was : p.owner.building = true) {a : OwnerAction}
    (taken : Lifecycle.ownerStep p a = some p') (still : p'.owner.building = true) :
    Building p' (note p (.pool (.owner a)) l) := by
  cases going : p.owner.failing with
  | true => exact building.unwind (building.unwinds going taken)
  | false =>
    have place := building.place
    cases here : p.owner with
    | spawning pc left => exact building.spawnStep here going taken
    | constructing left =>
      rw [here] at place
      simp only [note,here]
      cases a <;> cases left <;> simp only [Lifecycle.ownerStep,here] at taken
      case next.zero =>
        cases taken
        exact building.proceed here .startSupervisor p.closed rfl place
      case next.succ left =>
        cases taken
        exact building.proceed here (.spawning .create left) p.closed rfl place
      all_goals contradiction
    | startSupervisor =>
      rw [here] at place
      obtain ⟨rows,untouched,size,count⟩ := place
      simp only [note,here]
      cases a <;> simp only [Lifecycle.ownerStep,here] at taken
      case next =>
        cases taken
        contradiction
      case createFails =>
        cases taken
        exact building.proceed here (.markClosed false) p.closed rfl
          ⟨rows,untouched.told,fun t bound => .inl (size ▸ bound)⟩
      case dropPool => contradiction
    | inUse => simp [here,OwnerPc.building] at was
    | _ => simp_all [OwnerPc.failing,OwnerPc.building]

/-- While the pool is built only its owner, the workers and the clock move. -/
theorem parties (building : Building p l) (was : p.owner.building = true) {a : ConstructionAction}
    (taken : Construction.step p a = some p') :
    (∃ t, a = .vanish t) ∨ (∃ t choice, a = .pool (.worker t choice)) ∨ (∃ choice, a = .pool (.owner choice)) ∨
      ∃ nanos, a = .pool (.elapse nanos) := by
  have outside : p.owner ≠ .inUse := fun here => by simp [here,OwnerPc.building] at was
  cases a with
  | vanish t => exact .inl ⟨t,rfl⟩
  | pool a =>
    cases a with
    | worker t choice => exact .inr (.inl ⟨t,choice,rfl⟩)
    | owner choice => exact .inr (.inr (.inl ⟨choice,rfl⟩))
    | elapse nanos => exact .inr (.inr (.inr ⟨nanos,rfl⟩))
    | supervisor choice =>
      have idle : Lifecycle.supervisorStep p choice = none := by
        unfold Lifecycle.supervisorStep
        rw [building.supervisor]
      exact absurd (idle.symm.trans taken) nofun
    | client i => simp [Construction.step,Lifecycle.step,building.clients] at taken
    | enterLiveWorkers => simp [Construction.step,Lifecycle.step,outside] at taken
    | submit => simp [Construction.step,Lifecycle.step,outside] at taken

theorem step (building : Building p l) (was : p.owner.building = true) {a : ConstructionAction}
    (taken : Construction.step p a = some p') (still : p'.owner.building = true) : Building p' (note p a l) := by
  rcases building.parties was taken with ⟨t,rfl⟩ | ⟨t,choice,rfl⟩ | ⟨choice,rfl⟩ | ⟨nanos,rfl⟩
  · obtain ⟨w,found,rfl⟩ := Option.map_eq_some_iff.mp taken
    exact building.vanish found
  · exact building.workerStep taken
  · exact building.ownerStep was taken still
  · cases taken
    exact ⟨building.supervisor,building.clients,building.queued,building.started,building.size,building.keys,
      building.roles,building.joined,building.place⟩

end Building

/-- Only the owner itself moves on. -/
theorem step_owner {p p' : State} {a : ConstructionAction} (taken : Construction.step p a = some p')
    (other : ∀ choice, a ≠ .pool (.owner choice)) : p'.owner = p.owner := by
  cases a with
  | vanish t =>
    obtain ⟨w,_,rfl⟩ := Option.map_eq_some_iff.mp taken
    rfl
  | pool a =>
    cases a with
    | owner choice => exact absurd rfl (other choice)
    | worker t a =>
      obtain ⟨w,w',exits,queued,_,rfl,_⟩ := workerStep_cases taken
      rfl
    | supervisor a => exact (supervisorStep_effect taken).2.1
    | client i =>
      simp only [Construction.step,Lifecycle.step,bind,Option.bind_eq_some_iff] at taken
      obtain ⟨pc,_,⟨q,pc'⟩,reaped,moved⟩ := taken
      cases moved
      exact (reapStep_effect reaped).2.1
    | enterLiveWorkers =>
      simp only [Construction.step,Lifecycle.step] at taken
      split at taken
      · cases taken
        rfl
      · contradiction
    | submit =>
      simp only [Construction.step,Lifecycle.step] at taken
      split at taken
      · cases taken
        rfl
      · contradiction
    | elapse nanos =>
      cases taken
      rfl

theorem step_building {p p' : State} {a : ConstructionAction} (taken : Construction.step p a = some p')
    (still : p'.owner.building = true) : p.owner.building = true := by
  by_cases mine : ∃ choice, a = .pool (.owner choice)
  · obtain ⟨choice,rfl⟩ := mine
    exact ownerStep_building taken still
  · rwa [step_owner taken fun choice same => mine ⟨choice,same⟩] at still

theorem reachable_building {s : State × Ledger} (reached : Construction.machine.Reachable s)
    (now : s.1.owner.building = true) : Building s.1 s.2 := by
  refine reached.invariant (fun s => s.1.owner.building = true → Building s.1 s.2) ?_ ?_ now
  · exact fun s start _ => Building.initial start
  · intro s a s' before taken still
    obtain ⟨p',moved,rfl⟩ := Option.map_eq_some_iff.mp taken
    have was := step_building moved still
    exact (before was).step was moved still

end MechanicsCore.Pool.Lifecycle
