import MechanicsCore.Executor.Engine
import MechanicsCore.Library.Exec
import MechanicsCore.Library.OrdMap

/-! The job queues, and the programs that run on them. The state of a program is
a `World`: the engine context, the queues, the rejection counter, the reply of
the job being run, and a log of what became of every job. -/
namespace MechanicsCore.Executor
open MechanicsCore.Library

/-- A queued macrotask: a job of the engine, or one of the failing jobs that
`enqueue_job` makes itself. -/
inductive GenericJob (J : Type)
  | body (job : J)
  | delayTooLarge
  | unsupported (message : String)
  deriving DecidableEq,Repr

inductive Queued (J : Type)
  | promise (job : J)
  | async (job : J)
  | timeout (job : J)
  | generic (job : GenericJob J)
  deriving DecidableEq,Repr

inductive Event (J : Type)
  | enqueued (job : Queued J)
  | called (job : Queued J)
  | cancelled (job : J)
  | yielded (job : J)
  | stopCalled
  deriving DecidableEq,Repr

structure Queue (J : Type) where
  asyncJobs : List J
  promiseJobs : List J
  timeoutJobs : OrdMap JsInstant (List J)
  genericJobs : List (GenericJob J)
  deadline : Option JsInstant

namespace Queue
variable {J : Type}

def new : Queue J := ⟨[],[],.empty,[],none⟩

def setDeadline (q : Queue J) (deadline : Option JsInstant) : Queue J := {q with deadline}

def clearAll (q : Queue J) : Queue J :=
  {q with asyncJobs := [], promiseJobs := [], timeoutJobs := .empty, genericJobs := []}

def nextTimeoutAt (q : Queue J) : Option JsInstant := q.timeoutJobs.firstKey

def hasDueTimeoutJob (q : Queue J) (now : JsInstant) : Bool := q.nextTimeoutAt.any (· ≤ now)

end Queue

structure QueueSnapshot where
  inFlightAsyncJobs : Nat
  promiseJobs : Nat
  timeoutJobs : Nat
  genericJobs : Nat
  deriving DecidableEq,Repr

inductive RunJobsExit
  | complete
  | deadlineExceeded (snapshot : QueueSnapshot)
  deriving DecidableEq,Repr

def usizeMax : Nat := 2^64 - 1

def saturatingAdd (a b : Nat) : Nat := min (a + b) usizeMax

def snapshot {J : Type} (q : Queue J) (inFlightAsyncJobs : Nat) : QueueSnapshot where
  inFlightAsyncJobs
  promiseJobs := q.promiseJobs.length
  timeoutJobs := (q.timeoutJobs.values.map List.length).sum
  genericJobs := q.genericJobs.length

def jsInstantFromMillis (ms : Nat) (fits : ms < 2^64) : JsInstant where
  nanos := ms / 1000 * 1000000000 + ms % 1000 * 1000000
  fits := by omega

/-- `delta` is in nanoseconds; the sum is made in whole milliseconds. -/
def instantCheckedAdd (base : JsInstant) (delta : Nat) : Option JsInstant :=
  let totalMs := base.millisSinceEpoch + delta / 1000000
  if fits : totalMs < 2^64 then some (jsInstantFromMillis totalMs fits) else none

def millisUntilOrZero (later earlier : JsInstant) : Nat := later.millisSinceEpoch - earlier.millisSinceEpoch

def waitBudget {J : Type} (q : Queue J) (now : JsInstant) : Option Nat :=
  match q.nextTimeoutAt.map (millisUntilOrZero · now), q.deadline.map (millisUntilOrZero · now) with
  | some a, some b => some (min a b)
  | some a, none => some a
  | none, some b => some b
  | none, none => none

/-- The closure variables of the job being run, and what was sent on its reply channel. -/
structure Reply (T : Types) where
  earlyReply : Bool
  mainReplied : Bool
  sent : List (Except MechanicsError T.Json)

structure World (T : Types) where
  context : Context T
  queue : Queue T.Job
  pendingUnhandledRejections : Nat
  reply : Reply T
  log : List (Event T.Job)

/-- Why a program stops early. `outOfFuel` bounds the event loop of the model and
is no behaviour of the code. -/
inductive Fault (T : Types)
  | js (error : JsError T.Value)
  | panic
  | outOfFuel

def Fault.isJs {T : Types} : Fault T → Bool
  | .js _ => true
  | _ => false

abbrev Exec (T : Types) := EStateM (Fault T) (World T)

namespace World
variable {T : Types}

def new (heap : T.Heap) : World T where
  context := ⟨heap,fun _ => .pending,0,none,⟨0,0,0⟩⟩
  queue := .new
  pendingUnhandledRejections := 0
  reply := ⟨false,false,[]⟩
  log := []

def record (w : World T) (events : List (Event T.Job)) : World T := {w with log := w.log ++ events}

def pushGeneric (w : World T) (job : GenericJob T.Job) : World T :=
  {w with queue := {w.queue with genericJobs := w.queue.genericJobs ++ [job]}}.record [.enqueued (.generic job)]

def enqueueJob (w : World T) (job : Job T.Job) (now : JsInstant) : World T :=
  match job with
  | .promiseJob job =>
    {w with queue := {w.queue with promiseJobs := w.queue.promiseJobs ++ [job]}}.record [.enqueued (.promise job)]
  | .asyncJob job =>
    {w with queue := {w.queue with asyncJobs := w.queue.asyncJobs ++ [job]}}.record [.enqueued (.async job)]
  | .timeoutJob job delay =>
    match instantCheckedAdd now delay with
    | none => w.pushGeneric .delayTooLarge
    | some due =>
      {w with queue := {w.queue with timeoutJobs := w.queue.timeoutJobs.push due job}}.record
        [.enqueued (.timeout job)]
  | .genericJob job => w.pushGeneric (.body job)
  | .other debug => w.pushGeneric (.unsupported ("unsupported job type: " ++ debug))

def promiseRejectionTracker (w : World T) : OperationType → World T
  | .reject => {w with pendingUnhandledRejections := saturatingAdd w.pendingUnhandledRejections 1}
  | .handle => {w with pendingUnhandledRejections := w.pendingUnhandledRejections - 1}

def settle (w : World T) (p : PromiseId) (outcome : Except T.Value T.Value) : World T :=
  match w.context.promises p with
  | .pending =>
    let state := match outcome with
      | .ok value => .fulfilled value
      | .error reason => .rejected reason
    {w with context := {w.context with promises := fun q => if q = p then state else w.context.promises q}}
  | _ => w

def act (w : World T) : HostAction T.Job T.Value → World T
  | .enqueue job now => w.enqueueJob job now
  | .settle p outcome => w.settle p outcome
  | .track operation => w.promiseRejectionTracker operation
  | .enterRealm realm => {w with context := {w.context with realm}}

def setHeap (w : World T) (heap : T.Heap) : World T := {w with context := {w.context with heap}}

def apply {α : Type} (w : World T) (effect : Effect T α) : World T :=
  effect.actions.foldl act (w.setHeap effect.heap)

section Frame
variable (w : World T)

@[simp] theorem settle_queue (p : PromiseId) (outcome : Except T.Value T.Value) :
    (w.settle p outcome).queue = w.queue := by
  simp only [settle]
  split <;> rfl

@[simp] theorem settle_log (p : PromiseId) (outcome : Except T.Value T.Value) :
    (w.settle p outcome).log = w.log := by
  simp only [settle]
  split <;> rfl

@[simp] theorem settle_reply (p : PromiseId) (outcome : Except T.Value T.Value) :
    (w.settle p outcome).reply = w.reply := by
  simp only [settle]
  split <;> rfl

@[simp] theorem promiseRejectionTracker_queue (operation : OperationType) :
    (w.promiseRejectionTracker operation).queue = w.queue := by
  cases operation <;> rfl

@[simp] theorem promiseRejectionTracker_log (operation : OperationType) :
    (w.promiseRejectionTracker operation).log = w.log := by
  cases operation <;> rfl

end Frame
end World

section Programs
variable {T : Types} {α : Type}

def perform (effect : Context T → Effect T α) : Exec T α := do
  let done := effect (← get).context
  modify (·.apply done)
  match done.outcome with
  | some a => pure a
  | none => throw .panic

theorem perform_run (effect : Context T → Effect T α) (w : World T) :
    (perform effect).run w =
      match (effect w.context).outcome with
      | some a => .ok a (w.apply (effect w.context))
      | none => .error .panic (w.apply (effect w.context)) := by
  unfold perform
  simp only [EStateM.run_bind,EStateM.run_get,EStateM.run_modify]
  cases (effect w.context).outcome <;> rfl

def performResult (effect : Context T → Effect T (JsResult T.Value α)) : Exec T α := do
  match ← perform effect with
  | .ok a => pure a
  | .error e => throw (.js e)

variable (E : Engine T)

def clockNow : Exec T JsInstant := do
  let (now,heap) := E.now (← get).context
  modify (·.setHeap heap)
  pure now

def deadlineExceeded : Exec T Bool := do
  match (← get).queue.deadline with
  | none => pure false
  | some deadline => return decide (deadline ≤ (← clockNow E))

def callGeneric (job : GenericJob T.Job) : Exec T Unit := do
  modify (·.record [.called (.generic job)])
  match job with
  | .body job => performResult (E.call .generic job)
  | .delayTooLarge =>
    throw (.js (.native .range "setTimeout delay is too large for the current platform clock"))
  | .unsupported message => throw (.js (.native .typ message))

def callPromise (job : T.Job) : Exec T Unit := do
  modify (·.record [.called (.promise job)])
  performResult (E.call .promise job)

def callTimeout (job : T.Job) : Exec T Unit := do
  modify (·.record [.called (.timeout job)])
  performResult (E.call .timeout job)

def takeDueTimeouts (now : JsInstant) : Exec T (List T.Job) :=
  modifyGet fun w =>
    let cancelled := fun job => E.isCancelled job w.context
    let popped := (w.queue.timeoutJobs.retain fun job => !cancelled job).popWhile (· ≤ now)
    (popped.1.flatten,{w with queue := {w.queue with timeoutJobs := popped.2}}.record
      ((w.queue.timeoutJobs.items.filter cancelled).map .cancelled))

def drainTimeoutJobs : Exec T Unit := do
  let now ← clockNow E
  let jobs ← takeDueTimeouts E now
  jobs.forM (callTimeout E)

def popGeneric : Exec T (Option (GenericJob T.Job)) :=
  modifyGet fun w =>
    (w.queue.genericJobs.head?,{w with queue := {w.queue with genericJobs := w.queue.genericJobs.tail}})

def takePromiseJobs : Exec T (List T.Job) :=
  modifyGet fun w => (w.queue.promiseJobs,{w with queue := {w.queue with promiseJobs := []}})

def drainGenericJob : Exec T Unit := do
  match ← popGeneric with
  | some job => callGeneric E job
  | none => pure ()

def drainPromiseJobs : Exec T Unit := do
  let jobs ← takePromiseJobs
  jobs.forM (callPromise E)

/-- One macrotask turn: due timeouts, one generic task, then the promise jobs. -/
def drainJobs : Exec T Unit := do
  drainTimeoutJobs E
  drainGenericJob E
  drainPromiseJobs E
  modify fun w => w.setHeap (E.clearKeptObjects w.context)

end Programs
end MechanicsCore.Executor
