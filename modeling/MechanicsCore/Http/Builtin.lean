import MechanicsCore.Http.Confinement

/-! The `mechanics:endpoint` function that scripts call. The engine is a `ScriptHost`:
reading a property or converting a value may run script code, with any effect on the
heap and any error. Turning the response into a script value is left out. -/
namespace MechanicsCore.Http
open MechanicsCore.Library

inductive CallError (V : Type)
  | typ (message : String)
  | rust (error : IoError)
  | thrown (value : V)

structure ScriptHost (X : Externals) where
  Heap : Type
  Value : Type
  Object : Type
  undefined : Value
  isUndefined : Value → Bool
  isNull : Value → Bool
  asString : Value → Option String
  asObject : Value → Option Object
  get : Object → String → Heap → Except (CallError Value) Value × Heap
  toJson : Value → Heap → Except (CallError Value) (Option X.Value) × Heap
  tryExtractBufferLikeBytes : Value → Heap → Except (CallError Value) (Option (List UInt8)) × Heap
  jsonNull : X.Value
  isJsonObject : X.Value → Bool
  /-- `serde_json::from_value` to a map from strings to strings. -/
  stringMap : X.Value → Except String (List (String × String))

structure Page {X : Externals} (H : ScriptHost X) where
  heap : H.Heap
  http : World X

abbrev Script {X : Externals} (H : ScriptHost X) := EStateM (CallError H.Value) (Page H)

structure EndpointState (X : Externals) where
  config : List (String × HttpEndpoint)
  preparedEndpoints : List (String × PreparedHttpEndpoint)
  endpointHttpClient : EndpointHttpClient X
  defaultTimeoutMs : Option Nat
  defaultResponseMaxBytes : Option Nat

def EndpointState.endpoint {X : Externals} (state : EndpointState X) (name : String) :
    Option (HttpEndpoint × PreparedHttpEndpoint) := do
  let endpoint ← state.config.lookup name
  let prepared ← state.preparedEndpoints.lookup name
  return (endpoint,prepared)

section
variable {X : Externals} {H : ScriptHost X} {α : Type}

/-- A call into the engine. -/
def Script.host (effect : H.Heap → Except (CallError H.Value) α × H.Heap) : Script H α := do
  let done := effect (← get).heap
  modify fun p => {p with heap := done.2}
  match done.1 with
  | .ok a => pure a
  | .error error => throw error

/-- The error of a failed request as the script sees it. -/
def requestFailed (endpointName : String) (error : IoError) : IoError :=
  let message := error.message
  ⟨error.kind,s!"endpoint `{endpointName}` request failed: {message}"⟩

/-- An HTTP program run for the script. -/
def Script.http (endpointName : String) (program : Http X α) : Script H α := do
  match program.run (← get).http with
  | .ok a http =>
    modify fun p => {p with http}
    pure a
  | .error error http =>
    modify fun p => {p with http}
    throw (.rust (requestFailed endpointName error))

theorem Script.http_run (endpointName : String) (program : Http X α) (p : Page H) :
    (Script.http endpointName program).run p =
      match program.run p.http with
      | .ok a http => .ok a {p with http}
      | .error error http => .error (.rust (requestFailed endpointName error)) {p with http} := by
  unfold Script.http
  simp only [EStateM.run_bind,EStateM.run_get]
  cases program.run p.http <;> rfl

def parseStringMapField (options : H.Object) (key fieldName : String) : Script H (List (String × String)) := do
  let value ← Script.host (H.get options key)
  if H.isUndefined value || H.isNull value then return []
  match ← Script.host (H.toJson value) with
  | none => throw (.typ s!"{fieldName} must be an object")
  | some json =>
    if H.isJsonObject json then
      match H.stringMap json with
      | .ok entries => return entries
      | .error message => throw (.rust ⟨.other,message⟩)
    else throw (.typ s!"{fieldName} must be an object")

def parseBody (value : H.Value) : Script H (EndpointHttpRequestBody X) := do
  if H.isUndefined value then return .absent
  if H.isNull value then return .json H.jsonNull
  match H.asString value with
  | some text => return .utf8 text
  | none =>
    match ← Script.host (H.tryExtractBufferLikeBytes value) with
    | some bytes => return .bytes bytes
    | none =>
      match ← Script.host (H.toJson value) with
      | some json => return .json json
      | none => throw (.typ "body is not JSON-convertible")

def parseEndpointCallOptionsJs (value : H.Value) : Script H (EndpointCallOptions X) := do
  if H.isUndefined value || H.isNull value then return ⟨[],[],[],.absent⟩
  match H.asObject value with
  | none => throw (.typ "endpoint options must be an object or null/undefined")
  | some options =>
    let urlParams ← parseStringMapField options "urlParams" "urlParams"
    let queries ← parseStringMapField options "queries" "queries"
    let headers ← parseStringMapField options "headers" "headers"
    let body ← parseBody (← Script.host (H.get options "body"))
    return ⟨urlParams,queries,headers,body⟩

/-- `endpoint(name, options)`, with the `MechanicsState` of the context if there is one. -/
def endpoint (state : Option (EndpointState X)) (args : List H.Value) : Script H (EndpointResponse X) := do
  match H.asString (args.getD 0 H.undefined) with
  | none => throw (.typ "endpoint is not a string")
  | some endpointName =>
    let options ← parseEndpointCallOptionsJs (args.getD 1 H.undefined)
    match state with
    | none => throw (.typ "Invalid state")
    | some state =>
      match state.endpoint endpointName with
      | none => throw (.typ "Endpoint not found")
      | some (endpoint,prepared) =>
        Script.http endpointName (executeEndpoint endpoint state.endpointHttpClient prepared state.defaultTimeoutMs
          state.defaultResponseMaxBytes options)

def pageAfter : EStateM.Result (CallError H.Value) (Page H) α → Page H
  | .ok _ p => p
  | .error _ p => p

/-- A script: calls of `endpoint` with any arguments, and between them anything that
leaves the sent requests alone. -/
inductive ScriptRun (state : Option (EndpointState X)) (p : Page H) : Page H → Prop
  | start : ScriptRun state p p
  | call (q : Page H) (before : ScriptRun state p q) (args : List H.Value) :
      ScriptRun state p (pageAfter ((endpoint state args).run q))
  | compute (q : Page H) (before : ScriptRun state p q) (heap : H.Heap) (clock : Nat) (later : q.http.clock ≤ clock) :
      ScriptRun state p ⟨heap,{q.http with clock}⟩

/-- A request that `endpoint` makes for a configured endpoint and some options. -/
def Configured (state : EndpointState X) (s : Sent X) : Prop :=
  ∃ name endpoint options request, state.config.lookup name = some endpoint ∧
    untimedRequest endpoint state.defaultResponseMaxBytes options = .ok request ∧
    s.request = {request with timeoutMs := s.request.timeoutMs}

/-- What was sent since then was sent to configured endpoints. -/
def Confined (state : Option (EndpointState X)) (p q : Page H) : Prop :=
  ∃ issued, q.http.sent = p.http.sent ++ issued ∧ ∀ s ∈ issued, ∃ configured, state = some configured ∧
    Configured configured s

section Confined
variable {state : Option (EndpointState X)}

theorem Confined.of_sent {p q : Page H} (same : q.http.sent = p.http.sent) : Confined state p q :=
  ⟨[],by simp [same],by simp⟩

instance : Std.Refl (Confined (H := H) state) := ⟨fun _ => .of_sent rfl⟩

instance : IsTrans (Page H) (Confined state) where
  trans p q r first second := by
    obtain ⟨early,sent,each⟩ := first
    obtain ⟨late,sent',each'⟩ := second
    refine ⟨early ++ late,by rw [sent',sent,List.append_assoc],fun s member => ?_⟩
    rcases List.mem_append.mp member with old | new
    · exact each s old
    · exact each' s new

def AnyError (_ : CallError H.Value) : Prop := True

theorem Script.host_confined (effect : H.Heap → Except (CallError H.Value) α × H.Heap) :
    Keeps (Confined state) AnyError (Script.host effect) := by
  refine Keeps.get.bind fun p => ?_
  refine Keeps.bind (Keeps.modify fun p => .of_sent rfl) fun _ => ?_
  cases (effect p.heap).1 with
  | ok a => exact .pure a
  | error error => exact .throw trivial

theorem parseStringMapField_confined (options : H.Object) (key fieldName : String) :
    Keeps (Confined state) AnyError (parseStringMapField options key fieldName) := by
  refine (Script.host_confined _).bind fun value => ?_
  split
  · exact .pure _
  · refine (Script.host_confined _).bind fun json => ?_
    cases json with
    | none => exact .throw trivial
    | some json =>
      dsimp only
      split
      · cases H.stringMap json with
        | ok entries => exact .pure _
        | error message => exact .throw trivial
      · exact .throw trivial

theorem parseBody_confined (value : H.Value) : Keeps (Confined state) AnyError (parseBody value) := by
  unfold parseBody
  split
  · exact .pure _
  · split
    · exact .pure _
    · cases H.asString value with
      | some text => exact .pure _
      | none =>
        refine (Script.host_confined _).bind fun bytes => ?_
        cases bytes with
        | some bytes => exact .pure _
        | none =>
          refine (Script.host_confined _).bind fun json => ?_
          cases json with
          | some json => exact .pure _
          | none => exact .throw trivial

theorem parseEndpointCallOptionsJs_confined (value : H.Value) :
    Keeps (Confined state) AnyError (parseEndpointCallOptionsJs value) := by
  unfold parseEndpointCallOptionsJs
  split
  · exact .pure _
  · cases H.asObject value with
    | none => exact .throw trivial
    | some options =>
      refine (parseStringMapField_confined options _ _).bind fun urlParams => ?_
      refine (parseStringMapField_confined options _ _).bind fun queries => ?_
      refine (parseStringMapField_confined options _ _).bind fun headers => ?_
      refine (Script.host_confined _).bind fun value => ?_
      exact (parseBody_confined value).bind fun body => .pure _

theorem Script.http_confined {configured : EndpointState X} {name : String} {target : HttpEndpoint}
    (found : configured.config.lookup name = some target) (prepared : PreparedHttpEndpoint)
    (options : EndpointCallOptions X) :
    Keeps (Confined (H := H) (some configured)) AnyError (Script.http name (executeEndpoint target
      configured.endpointHttpClient prepared configured.defaultTimeoutMs configured.defaultResponseMaxBytes options)) := by
  intro p
  have issues := executeEndpoint_issuedSince target configured.endpointHttpClient prepared configured.defaultTimeoutMs
    configured.defaultResponseMaxBytes options p.http
  have confined (http : World X)
      (since : IssuedSince target configured.defaultTimeoutMs configured.defaultResponseMaxBytes options p.http http) :
      Confined (some configured) p {p with http} := by
    obtain ⟨issued,sent,each⟩ := since
    refine ⟨issued,sent,fun s member => ⟨configured,rfl,name,target,options,?_⟩⟩
    obtain ⟨request,built,same⟩ := each.same s member
    exact ⟨request,found,built,by rw [same]⟩
  rw [Script.http_run]
  revert issues
  cases (executeEndpoint target configured.endpointHttpClient prepared configured.defaultTimeoutMs
      configured.defaultResponseMaxBytes options).run p.http with
  | ok response http => exact fun issues => confined http issues
  | error error http => exact fun issues => ⟨confined http issues,trivial⟩

theorem endpoint_confined (state : Option (EndpointState X)) (args : List H.Value) :
    Keeps (Confined state) AnyError (endpoint state args) := by
  unfold endpoint
  cases H.asString (args.getD 0 H.undefined) with
  | none => exact .throw trivial
  | some endpointName =>
    refine (parseEndpointCallOptionsJs_confined _).bind fun options => ?_
    cases state with
    | none => exact .throw trivial
    | some configured =>
      dsimp only
      cases found : configured.endpoint endpointName with
      | none => exact .throw trivial
      | some both =>
        obtain ⟨target,known,prepared,_,same⟩ : ∃ target, configured.config.lookup endpointName = some target ∧
            ∃ prepared, configured.preparedEndpoints.lookup endpointName = some prepared ∧ (target,prepared) = both := by
          simpa [EndpointState.endpoint,bind,Option.bind_eq_some_iff] using found
        subst same
        exact Script.http_confined known prepared options

end Confined

/-- Whatever a script passes to `endpoint`, however often, and whatever its getters and
conversions do, every request it makes the runtime send is one that a configured
endpoint builds from call options: its method, its URL, its headers and its body cap
are those of an endpoint of the job's configuration. Without a `MechanicsState` in the
context nothing is sent. -/
theorem scripts_reach_configured_endpoints_only (state : Option (EndpointState X)) {p q : Page H}
    (run : ScriptRun state p q) : ∃ issued, q.http.sent = p.http.sent ++ issued ∧
      ∀ s ∈ issued, ∃ configured, state = some configured ∧ Configured configured s := by
  have confined : Confined state p q := by
    induction run with
    | start => exact .of_sent rfl
    | call q before args ih =>
      have called := endpoint_confined state args q
      cases ran : (endpoint state args).run q with
      | ok response r =>
        rw [ran] at called
        exact IsTrans.trans _ _ _ ih called
      | error error r =>
        rw [ran] at called
        exact IsTrans.trans _ _ _ ih called.1
    | compute q before heap clock later ih => exact IsTrans.trans _ _ _ ih (.of_sent rfl)
  exact confined

end

/-- Script values are texts or undefined, and there are no objects. -/
def bareHost : ScriptHost textual where
  Heap := Unit
  Value := Option String
  Object := Empty
  undefined := none
  isUndefined value := value.isNone
  isNull _ := false
  asString value := value
  asObject _ := none
  get _ _ heap := (.ok none,heap)
  toJson _ heap := (.ok none,heap)
  tryExtractBufferLikeBytes _ heap := (.ok none,heap)
  jsonNull := ""
  isJsonObject _ := false
  stringMap _ := .ok []

def oneService : EndpointState textual := ⟨[("service",unavailable)],[("service",⟨[]⟩)],busy,none,none⟩

/-- A call of a configured endpoint, which has time for one request, and one of an unknown endpoint. -/
theorem scripts_reach_configured_endpoints_only_at_oneService : ∃ q : Page bareHost,
    ScriptRun (some oneService) ⟨(),⟨0,[]⟩⟩ q ∧ q.http.sent.length = 1 ∧ ∀ s ∈ q.http.sent, Configured oneService s := by
  have begins : ScriptRun (some oneService) (⟨(),⟨0,[]⟩⟩ : Page bareHost) ⟨(),⟨0,[]⟩⟩ := .start
  have run := ScriptRun.call _ (.call _ begins [some "service"]) [some "other"]
  obtain ⟨issued,sent,each⟩ := scripts_reach_configured_endpoints_only (some oneService) run
  refine ⟨_,run,by decide,fun s member => ?_⟩
  rw [sent] at member
  obtain ⟨configured,same,made⟩ := each s member
  cases same
  exact made

end MechanicsCore.Http
