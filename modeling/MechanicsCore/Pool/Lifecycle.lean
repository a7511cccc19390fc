import MechanicsCore.Library.Machine
import MechanicsCore.Pool.RestartGuard

/-! Worker threads, supervisor, reaping clients and the owner that builds and
drops the pool, as one machine. Every lock section, channel operation, atomic
access and thread join of the pool code is one step of the party that makes it.
Metrics are left out; the job channel is a count of waiting jobs. -/
namespace MechanicsCore.Pool.Lifecycle
open MechanicsCore.Library

abbrev WorkerId := Nat
abbrev ThreadId := Nat

inductive RestartReason
  | other
  | panic
  deriving DecidableEq,Repr

structure WorkerExit where
  workerId : WorkerId
  restartReason : RestartReason
  deriving DecidableEq,Repr

/-- Where a worker thread is: before its runtime exists, blocked in `select!`,
serving a job, unwound past the loop, out of the loop with its exit event still
to send, past that send, or finished. -/
inductive Phase
  | starting
  | select
  | running
  | panicking
  | leaving (reason : RestartReason)
  | exited
  | finished
  deriving DecidableEq,Repr

inductive Shutdown
  | empty
  | pending
  | delivered
  deriving DecidableEq,Repr

/-- A spawned thread with the two one-slot channels made for it: `ready` holds
`some true` for `Ok(())` and `some false` for an error, `shutdown` the request. -/
structure Worker where
  workerId : WorkerId
  phase : Phase
  ready : Option Bool
  shutdown : Shutdown
  deriving DecidableEq,Repr

/-- Program counter of `spawn_worker`. -/
inductive SpawnPc
  | create
  | insert (id : WorkerId) (t : ThreadId)
  | await (id : WorkerId) (t : ThreadId)
  | remove (id : WorkerId) (t : ThreadId)
  | join (t : ThreadId)
  deriving DecidableEq,Repr

/-- Program counter of `live_workers`, which reaps before it counts. -/
inductive ReapPc
  | collect
  | remove (ids : List WorkerId)
  | join (handles : List ThreadId)
  | count
  | counted (live : Nat)
  deriving DecidableEq,Repr

inductive SupervisorPc
  | notStarted
  | select
  | removeExited (event : WorkerExit)
  | joinExited (t : ThreadId)
  | checkClosed
  | reconcile
  | reap (pc : ReapPc)
  | restart (missing : Nat)
  | spawning (pc : SpawnPc) (missing : Nat)
  | finished
  deriving DecidableEq,Repr

/-- Program counter of the owning thread: `MechanicsPool::new`, use, and the
shutdown sequence shared by both drops; `built` is false when the pool
constructor tears a partial construction down. -/
inductive OwnerPc
  | constructing (left : Nat)
  | spawning (pc : SpawnPc) (left : Nat)
  | startSupervisor
  | inUse
  | markClosed (built : Bool)
  | drainQueue (built : Bool)
  | request (built : Bool)
  | requesting (built : Bool) (todo : List ThreadId)
  | signalSupervisor (built : Bool)
  | joinSupervisor (built : Bool)
  | drainWorkers (built : Bool)
  | joining (built : Bool) (handles : List ThreadId)
  | dropped (built : Bool)
  deriving DecidableEq,Repr

structure State where
  desiredWorkerCount : Nat
  queueCapacity : Nat
  closed : Bool
  restartBlocked : Bool
  nextWorkerId : WorkerId
  workers : List (WorkerId × ThreadId)
  threads : List Worker
  exits : List WorkerExit
  guard : RestartGuard
  queued : Nat
  clock : Nat
  supervisorShutdown : Bool
  owner : OwnerPc
  supervisor : SupervisorPc
  clients : List ReapPc
  deriving DecidableEq,Repr

def State.new (desired capacity window maxRestarts : Nat) : State where
  desiredWorkerCount := desired
  queueCapacity := capacity
  closed := false
  restartBlocked := false
  nextWorkerId := 0
  workers := []
  threads := []
  exits := []
  guard := .new window maxRestarts
  queued := 0
  clock := 0
  supervisorShutdown := false
  owner := .constructing desired
  supervisor := .notStarted
  clients := []

namespace State

/-- The final joins hold the write lock of the worker map. -/
def readable (p : State) : Bool :=
  match p.owner with
  | .joining _ _ => false
  | _ => true

/-- The shutdown requests are sent under the read lock, the final joins under the write lock. -/
def writable (p : State) : Bool :=
  match p.owner with
  | .requesting _ _ => false
  | .joining _ _ => false
  | _ => true

def isFinished (p : State) (t : ThreadId) : Bool :=
  p.threads[t]?.any fun w => w.phase == .finished

def handle (p : State) (id : WorkerId) : Option ThreadId := p.workers.lookup id

def insertHandle (p : State) (id : WorkerId) (t : ThreadId) : State :=
  {p with workers := p.workers.filter (fun entry => entry.1 != id) ++ [(id,t)]}

def removeHandles (p : State) (ids : List WorkerId) : State :=
  {p with workers := p.workers.filter fun entry => !ids.contains entry.1}

def setThread (p : State) (t : ThreadId) (w : Worker) : State :=
  {p with threads := p.threads.set t w}

end State

inductive WorkerAction
  | startOk
  | startErr
  | startPanic
  | takeShutdown
  | takeJob
  | finishJob
  | jobPanic
  | loopPanic
  | sendPanicReady
  | sendExit
  | finish
  deriving DecidableEq,Repr

def workerStep (p : State) (t : ThreadId) (a : WorkerAction) : Option State := do
  let w ← p.threads[t]?
  match a, w.phase with
  | .startOk, .starting => some (p.setThread t {w with phase := .select, ready := some true})
  | .startErr, .starting => some (p.setThread t {w with phase := .leaving .other, ready := some false})
  | .startPanic, .starting => some (p.setThread t {w with phase := .panicking})
  | .takeShutdown, .select =>
    if w.shutdown = .pending then
      some (p.setThread t {w with phase := .leaving .other, shutdown := .delivered}) else none
  | .takeJob, .select =>
    if 0 < p.queued then
      some ({p with queued := p.queued - 1}.setThread t {w with phase := .running}) else none
  | .finishJob, .running => some (p.setThread t {w with phase := .select})
  -- The inner unwind guard catches the script; what unwinds past it reaches the outer one.
  | .jobPanic, .running => some (p.setThread t {w with phase := .leaving .panic})
  | .loopPanic, .running => some (p.setThread t {w with phase := .panicking})
  | .sendPanicReady, .panicking =>
    if w.ready = none then
      some (p.setThread t {w with phase := .leaving .panic, ready := some false}) else none
  | .sendExit, .leaving reason =>
    some ({p with exits := p.exits ++ [WorkerExit.mk w.workerId reason]}.setThread t {w with phase := .exited})
  | .finish, .exited => some (p.setThread t {w with phase := .finished})
  | _, _ => none

/-- One step of `spawn_worker`: the next program counter, or its result. Thread
creation may fail; `ready_rx.recv()` blocks until a message or a finished thread. -/
def spawnStep (p : State) (created : Bool) : SpawnPc → Option (State × (SpawnPc ⊕ Bool))
  | .create =>
    let id := p.nextWorkerId
    let p := {p with nextWorkerId := id + 1}
    if created then
      some ({p with threads := p.threads ++ [⟨id,.starting,none,.empty⟩]},.inl (.insert id p.threads.length))
    else some (p,.inr false)
  | .insert id t =>
    if p.writable then some (p.insertHandle id t,.inl (.await id t)) else none
  | .await id t => do
    let w ← p.threads[t]?
    match w.ready with
    | some true => some ({p with restartBlocked := false}.setThread t {w with ready := none},.inr true)
    | some false => some (p.setThread t {w with ready := none},.inl (.remove id t))
    | none => if w.phase = .finished then some (p,.inl (.remove id t)) else none
  | .remove id _ =>
    if p.writable then
      match p.handle id with
      | some t => some (p.removeHandles [id],.inl (.join t))
      | none => some (p,.inr false)
    else none
  | .join t => if p.isFinished t then some (p,.inr false) else none

def reapStep (p : State) : ReapPc → Option (State × ReapPc)
  | .collect =>
    if p.readable then
      let ids := (p.workers.filter fun entry => p.isFinished entry.2).map Prod.fst
      some (p,if ids = [] then .count else .remove ids)
    else none
  | .remove ids =>
    if p.writable then
      some (p.removeHandles ids,.join ((p.workers.filter fun entry => ids.contains entry.1).map Prod.snd))
    else none
  | .join [] => some (p,.count)
  | .join (t::rest) => if p.isFinished t then some (p,.join rest) else none
  | .count => if p.readable then some (p,.counted p.workers.length) else none
  | .counted _ => none

inductive SupervisorAction
  | recvShutdown
  | recvExit
  | tick
  | next
  | createFails
  deriving DecidableEq,Repr

def supervisorStep (p : State) (a : SupervisorAction) : Option State :=
  match p.supervisor, a with
  | .select, .recvShutdown =>
    if p.supervisorShutdown then some {p with supervisorShutdown := false, supervisor := .finished} else none
  | .select, .recvExit =>
    match p.exits with
    | [] => none
    | event::rest => some {p with exits := rest, supervisor := .removeExited event}
  | .select, .tick => some {p with supervisor := .checkClosed}
  | .removeExited event, .next =>
    if p.writable then
      match p.handle event.workerId with
      | some t => some {p.removeHandles [event.workerId] with supervisor := .joinExited t}
      | none => some {p with supervisor := .checkClosed}
    else none
  | .joinExited t, .next => if p.isFinished t then some {p with supervisor := .checkClosed} else none
  | .checkClosed, .next => some {p with supervisor := if p.closed then .finished else .reconcile}
  | .reconcile, .next => some {p with supervisor := if p.closed then .select else .reap .collect}
  | .reap (.counted live), .next =>
    let missing := p.desiredWorkerCount - live
    if missing = 0 then some {p with restartBlocked := false, supervisor := .select}
    else some {p with supervisor := .restart missing}
  | .reap pc, .next => (reapStep p pc).map fun (p,pc) => {p with supervisor := .reap pc}
  | .restart 0, .next => some {p with supervisor := .select}
  | .restart (missing + 1), .next =>
    match p.guard.allowRestart p.clock with
    | (true,guard) => some {p with guard := guard, supervisor := .spawning .create missing}
    | (false,guard) => some {p with guard := guard, restartBlocked := true, supervisor := .select}
  | .spawning pc missing, a =>
    if a = .next ∨ a = .createFails then
      (spawnStep p (a == .next) pc).map fun
        | (p,.inl pc) => {p with supervisor := .spawning pc missing}
        | (p,.inr true) => {p with supervisor := .restart missing}
        | (p,.inr false) => {p with restartBlocked := true, supervisor := .select}
    else none
  | _, _ => none

inductive OwnerAction
  | next
  | createFails
  | dropPool
  deriving DecidableEq,Repr

/-- `shutdown_tx.send(())`: refused by a finished thread, whose receiver is gone. -/
def requestShutdown (p : State) (t : ThreadId) : Option State := do
  let w ← p.threads[t]?
  if w.phase = .finished then some p
  else if w.shutdown = .pending then none
  else some (p.setThread t {w with shutdown := .pending})

def ownerStep (p : State) (a : OwnerAction) : Option State :=
  match p.owner, a with
  | .constructing 0, .next => some {p with owner := .startSupervisor}
  | .constructing (left + 1), .next => some {p with owner := .spawning .create left}
  | .spawning pc left, a =>
    if a = .next ∨ a = .createFails then
      (spawnStep p (a == .next) pc).map fun
        | (p,.inl pc) => {p with owner := .spawning pc left}
        | (p,.inr true) => {p with owner := .constructing left}
        | (p,.inr false) => {p with owner := .markClosed false}
    else none
  | .startSupervisor, .next => some {p with supervisor := .select, owner := .inUse}
  | .startSupervisor, .createFails => some {p with owner := .markClosed false}
  -- Dropping needs the pool exclusively, so every borrowing call has returned.
  | .inUse, .dropPool =>
    if p.clients.all fun pc => pc matches .counted _ then some {p with owner := .markClosed true} else none
  | .markClosed built, .next => some {p with closed := true, owner := .drainQueue built}
  | .drainQueue built, .next =>
    if p.queued = 0 then some {p with owner := .request built} else some {p with queued := p.queued - 1}
  | .request built, .next => some {p with owner := .requesting built (p.workers.map Prod.snd)}
  | .requesting built (t::todo), .next =>
    (requestShutdown p t).map fun p => {p with owner := .requesting built todo}
  | .requesting built [], .next => some {p with owner := .signalSupervisor built}
  | .signalSupervisor built, .next =>
    some {p with supervisorShutdown := built || p.supervisorShutdown, owner := .joinSupervisor built}
  | .joinSupervisor built, .next =>
    if p.supervisor = .notStarted ∨ p.supervisor = .finished then some {p with owner := .drainWorkers built}
    else none
  | .drainWorkers built, .next =>
    some {p with workers := [], owner := .joining built (p.workers.map Prod.snd)}
  | .joining built (t::rest), .next => if p.isFinished t then some {p with owner := .joining built rest} else none
  | .joining built [], .next => some {p with owner := .dropped built}
  | _, _ => none

inductive Action
  | worker (t : ThreadId) (a : WorkerAction)
  | supervisor (a : SupervisorAction)
  | client (i : Nat)
  | enterLiveWorkers
  | submit
  | owner (a : OwnerAction)
  | elapse (nanos : Nat)
  deriving DecidableEq,Repr

def step (p : State) : Action → Option State
  | .worker t a => workerStep p t a
  | .supervisor a => supervisorStep p a
  | .client i => do
    let pc ← p.clients[i]?
    let (p,pc) ← reapStep p pc
    some {p with clients := p.clients.set i pc}
  | .enterLiveWorkers => if p.owner = .inUse then some {p with clients := p.clients ++ [.collect]} else none
  | .submit =>
    if p.owner = .inUse ∧ p.queued < p.queueCapacity then some {p with queued := p.queued + 1} else none
  | .owner a => ownerStep p a
  | .elapse nanos => some {p with clock := p.clock + nanos}

/-- The pool machine starts from any validated configuration. -/
def machine : Machine State Action where
  initial p := ∃ desired capacity window maxRestarts, 0 < desired ∧ 0 < capacity ∧ 0 < maxRestarts ∧
    p = .new desired capacity window maxRestarts
  step := step

end MechanicsCore.Pool.Lifecycle
