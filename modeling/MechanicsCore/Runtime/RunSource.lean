import MechanicsCore.Executor.Loop

/-! One script run on a worker's runtime, from the endpoint preparation to the
outcome handed back to the worker. -/
namespace MechanicsCore.Runtime
open MechanicsCore.Executor MechanicsCore.Library

structure MechanicsJob (T : Types) where
  moduleSource : String
  arg : T.Json
  config : List (String × T.Endpoint)

/-- `maxExecutionTime` is in nanoseconds. -/
structure MechanicsExecutionLimits where
  maxExecutionTime : Nat
  maxLoopIterations : Nat
  maxRecursionDepth : Nat
  maxStackSize : Nat
  deriving DecidableEq,Repr

/-- What the worker configures once on its runtime. -/
structure Settings where
  executionLimits : MechanicsExecutionLimits
  defaultEndpointTimeoutMs : Option Nat
  defaultEndpointResponseMaxBytes : Option Nat
  deriving DecidableEq,Repr

inductive RunSourceOutcome
  | mainReplied
  | mainNotReplied (error : MechanicsError)
  deriving DecidableEq,Repr

variable {T : Types} (E : Engine T)

def jsErrorToExecution (error : JsError T.Value) : MechanicsError := .execution (E.display error)

def mainPendingError : JsError T.Value := .native .runtimeLimit "Default export promise did not settle"

def clearRejections : Exec T Unit := modify fun w => {w with pendingUnhandledRejections := 0}

def setDeadline (deadline : Option JsInstant) : Exec T Unit :=
  modify fun w => {w with queue := w.queue.setDeadline deadline}

def enterRealm (realm : Realm) : Exec T Realm :=
  modifyGet fun w => (w.context.realm,{w with context := {w.context with realm}})

def setData (data : Option (MechanicsState T)) : Exec T Unit :=
  modify fun w => {w with context := {w.context with data}}

def sendReply (result : Except MechanicsError T.Json) : Exec T Unit :=
  modify fun w => {w with reply := {w.reply with sent := w.reply.sent ++ [result]}}

def prepareEndpoints : List (String × T.Endpoint) → Except MechanicsError (List (String × T.Prepared))
  | [] => .ok []
  | (name,endpoint)::rest =>
    match E.prepareRuntime endpoint with
    | .error message => .error (jsErrorToExecution E (.rust message))
    | .ok prepared => (prepareEndpoints rest).map ((name,prepared)::·)

def computeDeadline (maxExecutionTime : Nat) : Exec T (JsResult T.Value JsInstant) := do
  let deadlineMs := (← clockNow E).millisSinceEpoch + maxExecutionTime / 1000000
  if fits : deadlineMs < 2^64 then return .ok (jsInstantFromMillis deadlineMs fits)
  else return .error (.native .range "Configured max_execution_time is too large")

def createRealm : Exec T (JsResult T.Value Realm) :=
  modifyGet fun w =>
    let (result,heap) := E.createRealm w.context
    (result,w.setHeap heap)

def jsValueToJson (value : T.Value) : Exec T (Except MechanicsError T.Json) := do
  match ← perform (E.toJson value) with
  | .ok json => return .ok (json.getD E.jsonNull)
  | .error e => return .error (jsErrorToExecution E e)

def mainSettled (main : PromiseId) (w : World T) : Bool :=
  match w.context.promises main with
  | .pending => false
  | _ => true

def mainResult (main : PromiseId) : Exec T (Except MechanicsError T.Json) := do
  match (← get).context.promises main with
  | .fulfilled value => jsValueToJson E value
  | .pending => return .error (jsErrorToExecution E mainPendingError)
  | .rejected reason => return .error (jsErrorToExecution E (.thrown reason))

/-- The stop callback: replies with the main result. -/
def replyMain (main : PromiseId) : Exec T Unit := do
  let result ← mainResult E main
  modify fun w => {w with reply := {w.reply with mainReplied := true}}
  if (← get).reply.earlyReply then
    modify fun w => {w with reply := {w.reply with earlyReply := false}}
    sendReply result

def evaluateModule (fuel : Nat) (source : String) : Exec T T.Value := do
  let module ← performResult (E.parse source)
  let moduleEval ← perform (E.loadLinkEvaluate module)
  runJobs E fuel
  match (← get).context.promises moduleEval with
  | .pending => throw (.js (.native .runtimeLimit "Module evaluation promise did not settle"))
  | .rejected reason => throw (.js (.thrown reason))
  | .fulfilled _ =>
    if (← get).pendingUnhandledRejections > 0 then throw (.js (.native .error "Unhandled promise rejection"))
    else return module

def callMain (module : T.Value) (arg : T.Json) : Exec T PromiseId := do
  let arg ← performResult (E.fromJson arg)
  let main ← performResult (E.getDefault module)
  match E.asFunction main with
  | none => throw (.js (.native .reference "Default export is not a function"))
  | some main =>
    let res ← performResult (E.callFunction main arg)
    -- The argument of `unwrap_or` is evaluated whether or not it is used.
    let resolved ← perform (E.resolve res)
    return (E.asPromise res).getD resolved

def startMain (fuel : Nat) (job : MechanicsJob T) : Exec T PromiseId := do
  let module ← evaluateModule E fuel job.moduleSource
  callMain E module job.arg

def pollTail (fuel : Nat) (main : PromiseId) : Exec T Unit := do
  let _ ← runJobsUntilThenToQuiescence E (mainSettled main) (replyMain E main) fuel
  let w ← get
  if !w.reply.mainReplied && !mainSettled main w then throw (.js mainPendingError)

def script (fuel : Nat) (job : MechanicsJob T) : Exec T Unit := do
  let main ← startMain E fuel job
  pollTail E fuel main

/-- The fallible closure of the run: a script error is caught, a panic is not. -/
def runScript (fuel : Nat) (job : MechanicsJob T) : Exec T (JsResult T.Value Unit) :=
  tryCatch (do script E fuel job; return .ok ()) fun
    | .js e => return .error e
    | fault => throw fault

theorem runScript_run (fuel : Nat) (job : MechanicsJob T) (w : World T) :
    (runScript E fuel job).run w =
      match (script E fuel job).run w with
      | .ok _ w' => .ok (.ok ()) w'
      | .error (.js e) w' => .ok (.error e) w'
      | .error fault w' => .error fault w' := by
  rw [runScript,run_tryCatch,EStateM.run_bind]
  cases (script E fuel job).run w with
  | ok _ w' => rfl
  | error fault w' => cases fault <;> rfl

variable {E} in
/-- What a script leaves behind however it ends, the closure around it does too. -/
theorem runScript_after {fuel : Nat} {job : MechanicsJob T} {before after : World T → Prop}
    (scripts : Meets before (script E fuel job) (fun _ => after) fun _ => after) :
    Meets before (runScript E fuel job) (fun _ => after) fun _ => after := by
  intro w holds
  rw [runScript_run]
  cases ran : (script E fuel job).run w with
  | ok _ v => exact scripts.returned holds ran
  | error fault v =>
    have ends := scripts.threw holds ran
    cases fault <;> exact ends

def outcome (result : JsResult T.Value Unit) (mainReplied : Bool) : RunSourceOutcome :=
  match result, mainReplied with
  | .ok (), true => .mainReplied
  | .ok (), false =>
    .mainNotReplied (.execution "run_source_with_early_reply returned without producing a main result")
  | .error _, true => .mainReplied
  | .error e, false => .mainNotReplied (jsErrorToExecution E e)

/-- Everything that the cleanup takes back, and the variables of the reply. -/
def enterJob (settings : Settings) (state : MechanicsState T) (deadline : JsInstant) (realm : Realm) :
    Exec T Realm := do
  let previousRealm ← enterRealm realm
  perform E.bundleBuiltinModules
  modify fun w => {w with context := {w.context with limits :=
    ⟨settings.executionLimits.maxLoopIterations,settings.executionLimits.maxRecursionDepth,
      settings.executionLimits.maxStackSize⟩}}
  setDeadline (some deadline)
  setData (some state)
  modify fun w => {w with reply := {w.reply with earlyReply := true, mainReplied := false}}
  return previousRealm

/-- The part before the closure: the realm to come back to, or an early exit. -/
def beginJob (settings : Settings) (job : MechanicsJob T) : Exec T (Except MechanicsError Realm) := do
  clearRejections
  match prepareEndpoints E job.config with
  | .error err => return .error err
  | .ok prepared =>
    match ← computeDeadline E settings.executionLimits.maxExecutionTime with
    | .error e => return .error (jsErrorToExecution E e)
    | .ok deadline =>
      match ← createRealm E with
      | .error e => return .error (jsErrorToExecution E e)
      | .ok realm =>
        let state := ⟨job.config,settings.defaultEndpointTimeoutMs,settings.defaultEndpointResponseMaxBytes,prepared⟩
        return .ok (← enterJob E settings state deadline realm)

/-- Up to `enter_realm` a run touches the heap and the rejection counter alone. -/
theorem beginJob_meets {before : World T → Prop} {returns : Except MechanicsError Realm → World T → Prop}
    {throws : Fault T → World T → Prop} (settings : Settings) (job : MechanicsJob T)
    (cleared : ∀ w, before w → before {w with pendingUnhandledRejections := 0})
    (heap : ∀ w heap, before w → before (w.setHeap heap))
    (early : ∀ err w, before w → returns (.error err) w)
    (enter : ∀ state deadline realm,
      Meets before (enterJob E settings state deadline realm) (fun previous => returns (.ok previous)) throws) :
    Meets before (beginJob E settings job) returns throws := by
  have clears : Meets before (clearRejections : Exec T Unit) (fun _ => before) throws := cleared
  have times : Meets before (computeDeadline E settings.executionLimits.maxExecutionTime) (fun _ => before) throws := by
    have reads : Meets before (clockNow E) (fun _ => before) throws := fun w holds => heap w _ holds
    refine reads.bind fun now => ?_
    dsimp only
    split
    · exact fun _ holds => holds
    · exact fun _ holds => holds
  have creates : Meets before (createRealm E) (fun _ => before) throws := fun w holds => heap w _ holds
  refine clears.bind fun _ => ?_
  cases prepareEndpoints E job.config with
  | error err => exact early err
  | ok prepared =>
    refine times.bind fun deadline => ?_
    cases deadline with
    | error e => exact early _
    | ok deadline =>
      refine creates.bind fun realm => ?_
      cases realm with
      | error e => exact early _
      | ok realm => exact (enter _ deadline realm).bind fun _ => fun _ holds => holds

def leaveJob (previousRealm : Realm) : Exec T Unit := do
  setData none
  setDeadline none
  modify fun w => {w with queue := w.queue.clearAll}
  clearRejections
  let _ ← enterRealm previousRealm

def runSourceWithEarlyReply (settings : Settings) (fuel : Nat) (job : MechanicsJob T) :
    Exec T RunSourceOutcome := do
  match ← beginJob E settings job with
  | .error err => return .mainNotReplied err
  | .ok previousRealm =>
    let result ← runScript E fuel job
    leaveJob previousRealm
    return outcome E result (← get).reply.mainReplied

/-- Only a panic, or the model's fuel, gets past the run. -/
def Uncaught : Fault T → Prop
  | .js _ => False
  | _ => True

theorem perform_uncaught {α : Type} (effect : Context T → Effect T α) (before : World T → Prop) :
    Meets before (perform effect) (fun _ _ => True) fun fault _ => Uncaught fault := by
  intro w _
  rw [perform_run]
  cases (effect w.context).outcome with
  | some a => trivial
  | none => trivial

theorem runScript_uncaught (fuel : Nat) (job : MechanicsJob T) :
    Meets (fun _ => True) (runScript E fuel job) (fun _ _ => True) fun fault _ => Uncaught fault := by
  intro w _
  rw [runScript_run]
  cases (script E fuel job).run w with
  | ok _ w' => trivial
  | error fault w' => cases fault <;> trivial

def oneSecond : Settings := ⟨⟨10^9,1000000,512,10240⟩,none,none⟩

end MechanicsCore.Runtime
