import MechanicsCore.Library.Machine
import MechanicsCore.Runtime.RunSource

/-! The job protocol of the pool: concurrent `run` and `run_nonblocking_enqueue`
calls, the bounded job queue, the workers' loop and the drop that drains the
queue, as one machine. A job is named by the call that submits it. Every atomic
access, clock reading and channel operation is one step of the party that makes
it. Metrics, the worker map and the supervisor's decisions are left out: workers
appear and leave, and the restart flag changes, at any time. -/
namespace MechanicsCore.Pool.Protocol
open MechanicsCore.Library MechanicsCore.Runtime

abbrev CallId := Nat
abbrev JobResult (V : Type) := Except MechanicsError V

inductive Entry
  | run
  | runNonblockingEnqueue
  deriving DecidableEq,Repr

/-- How a call came by its result: before the queue took its job, by giving up
waiting, from its reply channel, or because every sender of that channel is gone. -/
inductive Exit
  | refused
  | timedOut
  | replied
  | disconnected
  deriving DecidableEq,Repr

/-- Program counter of a call. The call owns the receiver of its reply channel
up to `returned`. -/
inductive CallPc (V : Type)
  | closedCheck
  | restartCheck
  | liveCheck
  | deadlineFrom
  | enqueueBudget (deadline : Nat)
  | cancelEarly
  | startSend (deadline wait : Nat) (limitedByRunTimeout : Bool)
  | sending (deadline : Nat) (limit : Option Nat) (limitedByRunTimeout : Bool)
  | trySending (deadline : Nat)
  | markCanceled
  | answering (error : MechanicsError)
  | accepted (deadline : Nat)
  | startRecv (remaining : Nat)
  | waiting (limit : Option Nat)
  | timingOut
  | leaving (exit : Exit) (result : JobResult V)
  | returned (exit : Exit) (result : JobResult V)

/-- The places that send on a reply channel. -/
inductive Source
  | caller
  | canceledCheck
  | earlyReply
  | outcome
  | panic
  | drop
  deriving DecidableEq,Repr

/-- A call with its job's `canceled` flag and one-slot reply channel. `checked`
records that a worker has loaded the flag, `answers` every send that completed,
also those a gone receiver refused. -/
structure Call (V : Type) where
  entry : Entry
  runTimeout : Option Nat
  pc : CallPc V
  canceled : Bool
  reply : Option (JobResult V)
  checked : Bool
  answers : List (Source × JobResult V)

def Call.new {V : Type} (entry : Entry) (runTimeout : Option Nat) : Call V where
  entry := entry
  runTimeout := runTimeout
  pc := .closedCheck
  canceled := false
  reply := none
  checked := false
  answers := []

inductive WorkerPc
  | select
  | checking (j : CallId)
  | canceling (j : CallId)
  | passed (j : CallId)
  | running (j : CallId)
  | reporting (j : CallId) (error : MechanicsError)
  | panicked (j : CallId)
  | exited
  deriving DecidableEq,Repr

inductive DropPc
  | inUse
  | draining
  | answering (j : CallId)
  | drained
  deriving DecidableEq,Repr

/-- `started` logs the jobs handed to the runtime; times are nanoseconds. -/
structure State (V : Type) where
  queueCapacity : Nat
  enqueueTimeout : Nat
  runTimeout : Nat
  instantBound : Nat
  clock : Nat
  closed : Bool
  restartBlocked : Bool
  queue : List CallId
  calls : List (Call V)
  workers : List WorkerPc
  drop : DropPc
  started : List CallId

variable {V : Type}

def State.new (capacity enqueueTimeout runTimeout instantBound clock : Nat) : State V where
  queueCapacity := capacity
  enqueueTimeout := enqueueTimeout
  runTimeout := runTimeout
  instantBound := instantBound
  clock := clock
  closed := false
  restartBlocked := false
  queue := []
  calls := []
  workers := []
  drop := .inUse
  started := []

namespace State

def setCall (p : State V) (j : CallId) (c : Call V) : State V := {p with calls := p.calls.set j c}

/-- The call after one of its steps, with its job on the queue if the step put it there. -/
def putCall (p : State V) (j : CallId) (c : Call V) (enqueued : Bool) : State V :=
  {p.setCall j c with queue := if enqueued then p.queue ++ [j] else p.queue}

def setWorker (p : State V) (i : Nat) (w : WorkerPc) : State V := {p with workers := p.workers.set i w}

def checkedAdd (p : State V) (nanos : Nat) : Option Nat :=
  if p.clock + nanos < p.instantBound then some (p.clock + nanos) else none

def deadlineFromTimeout (p : State V) (timeout : Nat) : Except MechanicsError Nat :=
  match p.checkedAdd timeout with
  | some deadline => .ok deadline
  | none => .error (.runtimePool "run_timeout is too large for the current platform clock")

def remainingToDeadline (p : State V) (deadline : Nat) : Option Nat :=
  if deadline ≤ p.clock then none else some (deadline - p.clock)

end State

def WorkerPc.job : WorkerPc → Option CallId
  | .select => none
  | .checking j => some j
  | .canceling j => some j
  | .passed j => some j
  | .running j => some j
  | .reporting j _ => some j
  | .panicked j => some j
  | .exited => none

/-- Some sender of the job's reply channel is left once its call has handed the job over. -/
def State.senderAlive (p : State V) (j : CallId) : Bool :=
  p.queue.contains j || p.workers.any (fun w => w.job == some j) || p.drop == .answering j

def CallPc.listening : CallPc V → Bool
  | .returned _ _ => false
  | _ => true

/-- `reply.send(result)`: waits for the slot while the receiver exists, and is
refused, which every sender ignores, once it is gone. -/
def Call.send (c : Call V) (source : Source) (result : JobResult V) : Option (Call V) :=
  if c.pc.listening then
    match c.reply with
    | none => some {c with reply := some result, answers := c.answers ++ [(source,result)]}
    | some _ => none
  else some {c with answers := c.answers ++ [(source,result)]}

inductive CallAction
  | next
  | liveWorkers (live : Nat)
  | expire
  | disconnected
  deriving DecidableEq,Repr

def advance (p : State V) (j : CallId) (c : Call V) (a : CallAction) : Option (Call V × Bool) :=
  let goto (pc : CallPc V) : Option (Call V × Bool) := some ({c with pc := pc},false)
  let refuse (error : MechanicsError) := goto (.leaving .refused (.error error))
  match c.pc, a with
  | .closedCheck, .next => if p.closed then refuse (.poolClosed "runtime pool is closed") else goto .restartCheck
  | .restartCheck, .next => goto (if p.restartBlocked then .liveCheck else .deadlineFrom)
  | .liveCheck, .liveWorkers live =>
    if live = 0 then refuse (.workerUnavailable "all workers are unavailable and restart guard is active")
    else goto .deadlineFrom
  | .deadlineFrom, .next =>
    match p.deadlineFromTimeout (c.runTimeout.getD p.runTimeout), c.entry with
    | .error error, _ => refuse error
    | .ok deadline, .run => goto (.enqueueBudget deadline)
    | .ok deadline, .runNonblockingEnqueue => goto (.trySending deadline)
  | .enqueueBudget deadline, .next =>
    match p.remainingToDeadline deadline with
    | none => goto .cancelEarly
    | some remaining =>
      let wait := min p.enqueueTimeout remaining
      goto (.startSend deadline wait (wait == remaining))
  | .cancelEarly, .next =>
    some ({c with
      canceled := true
      pc := .leaving .refused (.error (.runTimeout "run timeout elapsed before enqueue"))},false)
  | .startSend deadline wait limited, .next => goto (.sending deadline (p.checkedAdd wait) limited)
  | .sending deadline _ _, .next =>
    if p.queue.length < p.queueCapacity then some ({c with pc := .accepted deadline},true) else none
  -- A slot may have come free between the last attempt and the reading of the clock.
  | .sending _ (some limit) limited, .expire =>
    if limit ≤ p.clock then
      goto (if limited then .markCanceled else .answering (.queueTimeout "enqueue timed out because queue is full"))
    else none
  -- The pool holds a receiver of its own queue; the arm is kept as the code has it.
  | .sending _ _ _, .disconnected => refuse (.workerUnavailable "job queue disconnected from workers")
  | .trySending deadline, .next =>
    if p.queue.length < p.queueCapacity then some ({c with pc := .accepted deadline},true)
    else refuse (.queueFull "queue is full")
  | .trySending _, .disconnected => refuse (.workerUnavailable "job queue disconnected from workers")
  | .markCanceled, .next =>
    some ({c with
      canceled := true
      pc := .answering (.runTimeout "run timeout elapsed while waiting to enqueue")},false)
  | .answering error, .next =>
    (c.send .caller (.error error)).map fun c => ({c with pc := .leaving .refused (.error error)},false)
  | .accepted deadline, .next =>
    match p.remainingToDeadline deadline with
    | none => goto .timingOut
    | some remaining => goto (.startRecv remaining)
  | .startRecv remaining, .next => goto (.waiting (p.checkedAdd remaining))
  | .waiting _, .next =>
    c.reply.map fun result => ({c with reply := none, pc := .leaving .replied result},false)
  | .waiting (some limit), .expire => if limit ≤ p.clock then goto .timingOut else none
  | .waiting _, .disconnected =>
    if c.reply.isNone && !p.senderAlive j then
      goto (.leaving .disconnected (.error (.workerUnavailable "worker dropped reply channel")))
    else none
  | .timingOut, .next =>
    some ({c with
      canceled := true
      pc := .leaving .timedOut
        (.error (.runTimeout "run timeout elapsed while waiting for worker reply"))},false)
  | .leaving exit result, .next => goto (.returned exit result)
  | _, _ => none

def callStep (p : State V) (j : CallId) (a : CallAction) : Option (State V) := do
  let c ← p.calls[j]?
  let (c,enqueued) ← advance p j c a
  some (p.putCall j c enqueued)

/-- `PoolJob::send_result`, and the sends of a worker that took the job apart. -/
def sendResult (p : State V) (j : CallId) (source : Source) (result : JobResult V) : Option (State V) := do
  let c ← p.calls[j]?
  let c ← c.send source result
  some (p.setCall j c)

inductive WorkerAction (V : Type)
  | takeShutdown
  | takeJob
  | next
  | earlyReply (result : JobResult V)
  | finish (outcome : RunSourceOutcome)
  | panic
  | unwind

/-- One step of a worker's loop. A script may panic, which the loop reports; what
unwinds past the loop takes the worker and its job along. -/
def workerStep (p : State V) (i : Nat) (a : WorkerAction V) : Option (State V) := do
  let w ← p.workers[i]?
  match w, a with
  | .select, .takeShutdown => some (p.setWorker i .exited)
  | .select, .takeJob =>
    match p.queue with
    | [] => none
    | j::rest => some ({p with queue := rest}.setWorker i (.checking j))
  | .checking j, .next => do
    let c ← p.calls[j]?
    some ((p.setCall j {c with checked := true}).setWorker i (if c.canceled then .canceling j else .passed j))
  | .canceling j, .next => do
    let p ← sendResult p j .canceledCheck (.error (.canceled "job timed out before execution"))
    some (p.setWorker i .select)
  | .passed j, .next => some ({p with started := p.started ++ [j]}.setWorker i (.running j))
  | .running j, .earlyReply result => sendResult p j .earlyReply result
  | .running _, .finish .mainReplied => some (p.setWorker i .select)
  | .running j, .finish (.mainNotReplied error) => some (p.setWorker i (.reporting j error))
  | .running j, .panic => some (p.setWorker i (.panicked j))
  | .reporting j error, .next => do
    let p ← sendResult p j .outcome (.error error)
    some (p.setWorker i .select)
  | .panicked j, .next => do
    let p ← sendResult p j .panic (.error (.panic "worker panicked while running job"))
    some (p.setWorker i .exited)
  | .exited, _ => none
  | _, .unwind => some (p.setWorker i .exited)
  | _, _ => none

def dropStep (p : State V) : Option (State V) :=
  match p.drop with
  -- Rust lets the drop begin only when no call borrows the pool; here it may begin at any time.
  | .inUse => some {p with closed := true, drop := .draining}
  | .draining =>
    match p.queue with
    | [] => some {p with drop := .drained}
    | j::rest => some {p with queue := rest, drop := .answering j}
  | .answering j => do
    let p ← sendResult p j .drop (.error (.canceled "pool dropped before job execution"))
    some {p with drop := .draining}
  | .drained => none

inductive Action (V : Type)
  | submit (entry : Entry) (runTimeout : Option Nat)
  | call (j : CallId) (a : CallAction)
  | worker (i : Nat) (a : WorkerAction V)
  | drop
  | spawnWorker
  | setRestartBlocked (blocked : Bool)
  | elapse (nanos : Nat)

def step (p : State V) : Action V → Option (State V)
  | .submit entry runTimeout => some {p with calls := p.calls ++ [.new entry runTimeout]}
  | .call j a => callStep p j a
  | .worker i a => workerStep p i a
  | .drop => dropStep p
  | .spawnWorker => some {p with workers := p.workers ++ [.select]}
  | .setRestartBlocked blocked => some {p with restartBlocked := blocked}
  | .elapse nanos => some {p with clock := p.clock + nanos}

/-- The protocol starts in a pool without workers, calls or queued jobs, under any configuration. -/
def machine : Machine (State V) (Action V) where
  initial p := ∃ capacity enqueueTimeout runTimeout instantBound clock, 0 < capacity ∧
    p = .new capacity enqueueTimeout runTimeout instantBound clock
  step := step

end MechanicsCore.Pool.Protocol
