import MechanicsCore.Error
import Mathlib.Algebra.Order.Ring.Nat
import Mathlib.Order.Nat

/-! The script engine as the runtime sees it. What a call into the engine does
is an `Effect`: the host actions it takes in order (jobs enqueued, promises
settled, rejections reported, realms entered), the heap it leaves, and its
result. An `Engine` gives the effect of every call as a function of the context
alone, and is otherwise arbitrary. -/
namespace MechanicsCore.Executor

/-- Nanoseconds since the epoch, whose whole milliseconds fit a `u64`. -/
structure JsInstant where
  nanos : Nat
  fits : nanos / 1000000 < 2^64
  deriving DecidableEq,Repr

namespace JsInstant

theorem nanos_injective : Function.Injective nanos := by
  rintro ⟨a,_⟩ ⟨b,_⟩ same
  cases same
  rfl

instance : LinearOrder JsInstant := .lift' nanos nanos_injective

def millisSinceEpoch (t : JsInstant) : Nat := t.nanos / 1000000

def bound : Nat := 2^64 * 1000000

/-- A count of nanoseconds as an instant, stopping at the last one there is. -/
def ofNanos (n : Nat) : JsInstant where
  nanos := min n (bound - 1)
  fits := by
    unfold bound
    omega

theorem ofNanos_mono {a b : Nat} (le : a ≤ b) : (ofNanos a).nanos ≤ (ofNanos b).nanos := by
  change min a (bound - 1) ≤ min b (bound - 1)
  omega

end JsInstant

/-- The types the engine brings: its heap, job closures, script values, JSON
values, and the endpoints of a job's configuration before and after preparation. -/
structure Types where
  Heap : Type
  Job : Type
  Value : Type
  Json : Type
  Endpoint : Type
  Prepared : Type

abbrev PromiseId := Nat
abbrev Realm := Nat

inductive NativeErrorKind
  | error
  | range
  | reference
  | runtimeLimit
  | typ
  deriving DecidableEq,Repr

inductive JsError (V : Type)
  | native (kind : NativeErrorKind) (message : String)
  | rust (message : String)
  | thrown (value : V)
  deriving DecidableEq,Repr

abbrev JsResult (V α : Type) := Except (JsError V) α

inductive PromiseState (V : Type)
  | pending
  | fulfilled (value : V)
  | rejected (reason : V)
  deriving DecidableEq,Repr

inductive OperationType
  | reject
  | handle
  deriving DecidableEq,Repr

/-- A job handed to the executor; `delay` is a timeout in nanoseconds, `debug`
how a variant the executor does not know prints. -/
inductive Job (J : Type)
  | promiseJob (job : J)
  | asyncJob (job : J)
  | timeoutJob (job : J) (delay : Nat)
  | genericJob (job : J)
  | other (debug : String)
  deriving DecidableEq,Repr

inductive JobKind
  | promise
  | timeout
  | generic
  deriving DecidableEq,Repr

/-- What the engine asks of its host; `now` is the clock as `enqueue_job` reads it. -/
inductive HostAction (J V : Type)
  | enqueue (job : Job J) (now : JsInstant)
  | settle (promise : PromiseId) (outcome : Except V V)
  | track (operation : OperationType)
  | enterRealm (realm : Realm)
  deriving DecidableEq,Repr

/-- `outcome` is `none` when the call panics. -/
structure Effect (T : Types) (α : Type) where
  actions : List (HostAction T.Job T.Value)
  heap : T.Heap
  outcome : Option α

structure MechanicsState (T : Types) where
  config : List (String × T.Endpoint)
  defaultTimeoutMs : Option Nat
  defaultResponseMaxBytes : Option Nat
  preparedEndpoints : List (String × T.Prepared)

structure RuntimeLimits where
  loopIterationLimit : Nat
  recursionLimit : Nat
  stackSizeLimit : Nat
  deriving DecidableEq,Repr

structure Context (T : Types) where
  heap : T.Heap
  promises : PromiseId → PromiseState T.Value
  realm : Realm
  data : Option (MechanicsState T)
  limits : RuntimeLimits

structure Engine (T : Types) where
  now : Context T → JsInstant × T.Heap
  isCancelled : T.Job → Context T → Bool
  call : JobKind → T.Job → Context T → Effect T (JsResult T.Value Unit)
  /-- `group.next()` under an optional budget in milliseconds: which future of the
  group completed and with what, or nothing before the budget ran out. -/
  next : (group : List T.Job) → Option Nat → Context T →
    Effect T (Option (Fin group.length × JsResult T.Value Unit))
  sleep : Nat → Context T → T.Heap
  yieldNow : Context T → T.Heap
  clearKeptObjects : Context T → T.Heap
  prepareRuntime : T.Endpoint → Except String T.Prepared
  createRealm : Context T → JsResult T.Value Realm × T.Heap
  bundleBuiltinModules : Context T → Effect T Unit
  parse : String → Context T → Effect T (JsResult T.Value T.Value)
  loadLinkEvaluate : T.Value → Context T → Effect T PromiseId
  fromJson : T.Json → Context T → Effect T (JsResult T.Value T.Value)
  getDefault : T.Value → Context T → Effect T (JsResult T.Value T.Value)
  asFunction : T.Value → Option T.Value
  callFunction : T.Value → T.Value → Context T → Effect T (JsResult T.Value T.Value)
  asPromise : T.Value → Option PromiseId
  resolve : T.Value → Context T → Effect T PromiseId
  toJson : T.Value → Context T → Effect T (JsResult T.Value (Option T.Json))
  jsonNull : T.Json
  display : JsError T.Value → String

/-- Types for concrete runs; the heap is the clock in nanoseconds. -/
abbrev plain : Types := ⟨Nat,Nat,Nat,Nat,Unit,Unit⟩

def Effect.plain {α : Type} (c : Context plain) (actions : List (HostAction Nat Nat)) (a : α) : Effect plain α :=
  ⟨actions,c.heap,some a⟩

/-- An engine whose calls do nothing and whose clock moves only when the loop
waits or yields; concrete engines are updates of it. -/
def Engine.silent : Engine plain where
  now c := (.ofNanos c.heap,c.heap)
  isCancelled _ _ := false
  call _ _ c := .plain c [] (.ok ())
  next _ budget c := ⟨[],c.heap + budget.getD 0 * 1000000,some none⟩
  sleep d c := c.heap + d * 1000000
  yieldNow c := c.heap + 1
  clearKeptObjects c := c.heap
  prepareRuntime _ := .ok ()
  createRealm c := (.ok (c.realm + 1),c.heap)
  bundleBuiltinModules c := .plain c [] ()
  parse _ c := .plain c [] (.ok 0)
  loadLinkEvaluate _ c := .plain c [.settle 0 (.ok 0)] 0
  fromJson d c := .plain c [] (.ok d)
  getDefault _ c := .plain c [] (.ok 0)
  asFunction v := some v
  callFunction _ v c := .plain c [] (.ok v)
  asPromise v := some v
  resolve v c := .plain c [] v
  toJson v c := .plain c [] (.ok (some v))
  jsonNull := 0
  display _ := ""

end MechanicsCore.Executor
