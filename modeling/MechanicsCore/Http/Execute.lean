import MechanicsCore.Http.Transport

/-! `execute_endpoint`: one configured endpoint call with its retries, in a world
with a virtual clock. Time passes in the client and in the sleeps between
attempts; a sleep takes exactly the time it was asked for. Tracing is left out. -/
namespace MechanicsCore.Http

def nanosPerMilli : Nat := 1000000

inductive EndpointBodyType
  | json
  | utf8
  | bytes
  deriving DecidableEq,Repr

structure EndpointCallOptions (X : Externals) where
  urlParams : List (String × String)
  queries : List (String × String)
  headers : List (String × String)
  body : EndpointHttpRequestBody X

/-- An endpoint of the configuration crate, by the values its getters return. -/
structure HttpEndpoint where
  method : HttpMethod
  timeoutMs : Option Nat
  responseMaxBytes : Option Nat
  effectiveRequestBodyType : EndpointBodyType
  responseBodyType : EndpointBodyType
  allowNon2xxStatus : Bool
  retryPolicy : EndpointRetryPolicy
  buildUrl : List (String × String) → List (String × String) → Except IoError String
  buildHeaders : List (String × String) → Except IoError (List (String × String))

structure PreparedHttpEndpoint where
  exposedResponseAllowlist : List String

inductive EndpointResponseBody (X : Externals)
  | json (value : X.Value)
  | utf8 (text : String)
  | bytes (bytes : List UInt8)
  | empty

structure EndpointResponse (X : Externals) where
  body : EndpointResponseBody X
  headers : HeaderTexts
  status : Nat
  ok : Bool

structure World (X : Externals) where
  clock : Nat
  sent : List (Sent X)

abbrev Http (X : Externals) := EStateM IoError (World X)

def Http.ofExcept {X : Externals} {α : Type} : Except IoError α → Http X α
  | .ok a => pure a
  | .error error => throw error

section
variable {X : Externals}

def now : Http X Nat := return (← get).clock

def sleep (nanos : Nat) : Http X Unit := modify fun w => {w with clock := w.clock + nanos}

def EndpointHttpClient.send (client : EndpointHttpClient X) (request : EndpointHttpRequest X) :
    Http X (Except EndpointTransportError EndpointHttpResponse) :=
  modifyGet fun w =>
    let (outcome,elapsed) := client.execute w.sent w.clock request
    (outcome,⟨w.clock + elapsed,w.sent ++ [⟨w.clock,request⟩]⟩)

def defaultUserAgent : String := "Mozilla/5.0 (compatible; mechanics-rs/0.6.1)"

def buildUrlForOptions (endpoint : HttpEndpoint) (options : EndpointCallOptions X) : Except IoError String := do
  let url ← endpoint.buildUrl options.urlParams options.queries
  (X.parseUrl url).mapError (IoError.mk .other)

def buildHeadersForOptions (endpoint : HttpEndpoint) (defaultContentType : Option String)
    (options : EndpointCallOptions X) : Except IoError (HeaderMap X) := do
  let endpointPairs ← endpoint.buildHeaders options.headers
  headerFromPairs ([("user-agent",defaultUserAgent)] ++
    defaultContentType.toList.map (fun contentType => ("content-type",contentType)) ++ endpointPairs)

def EndpointHttpRequestBody.isAbsent : EndpointHttpRequestBody X → Bool
  | .absent => true
  | _ => false

def requestBody (endpoint : HttpEndpoint) (body : EndpointHttpRequestBody X) :
    Except IoError (EndpointHttpRequestBody X) :=
  if X.supportsRequestBody endpoint.method then
    match endpoint.effectiveRequestBodyType, body with
    | _, .absent => .ok .absent
    | .json, .json value => .ok (.json value)
    | .json, .utf8 text => .ok (.json (X.jsonString text))
    | .json, .bytes _ => .error ⟨.invalidInput,"request_body_type `json` requires a JSON-compatible value"⟩
    | .utf8, .utf8 text => .ok (.utf8 text)
    | .utf8, _ => .error ⟨.invalidInput,"request_body_type `utf8` requires `options.body` to be a string"⟩
    | .bytes, .bytes bytes => .ok (.bytes bytes)
    | .bytes, _ =>
      .error ⟨.invalidInput,"request_body_type `bytes` requires `options.body` to be a typed array, ArrayBuffer, or DataView"⟩
  else if !body.isAbsent then
    let name := X.methodName endpoint.method
    .error ⟨.invalidInput,s!"HTTP {name} endpoint does not accept a request body"⟩
  else .ok .absent

def buildRequest (endpoint : HttpEndpoint) (options : EndpointCallOptions X) (url : String) (headers : HeaderMap X)
    (responseMaxBytes attemptTimeoutMs : Option Nat) : Except IoError (EndpointHttpRequest X) := do
  let body ← requestBody endpoint options.body
  return ⟨endpoint.method,url,.fromHttpMap headers,attemptTimeoutMs,responseMaxBytes,body⟩

/-- `Instant::now().checked_add(Duration::from_millis(ms))`, if there is a timeout. -/
def deadlineFrom (X : Externals) (timeoutMs : Option Nat) (start : Nat) : Option Nat :=
  timeoutMs.bind fun ms =>
    if start + ms * nanosPerMilli < X.instantBound then some (start + ms * nanosPerMilli) else none

def remaining (deadline : Option Nat) : Http X (Option Nat) := do
  match deadline with
  | none => return none
  | some deadline => return some (deadline - (← now))

def remainingMs (deadline : Option Nat) : Http X (Option Nat) := do
  return (← remaining deadline).map fun left => min (left / nanosPerMilli) (2^64 - 1)

/-- The sleep before a retry, bounded by what remains to the deadline. -/
def pause (deadline : Option Nat) (delay : Nat) : Http X Unit := do
  if delay ≠ 0 then
    let bounded := match ← remaining deadline with
      | some left => min delay left
      | none => delay
    if bounded ≠ 0 then sleep bounded

/-- The retry loop from an attempt on: the response it breaks out with, or nothing
when the attempts are used up. -/
def attempts (policy : EndpointRetryPolicy) (client : EndpointHttpClient X) (deadline : Option Nat)
    (buildRequest : Option Nat → Except IoError (EndpointHttpRequest X)) :
    (left attempt : Nat) → Http X (Option EndpointHttpResponse)
  | 0, _ => return none
  | left + 1, attempt => do
    let attemptTimeoutMs ← remainingMs deadline
    if attemptTimeoutMs = some 0 then
      let made := attempt - 1
      throw ⟨.timedOut,s!"endpoint call timed out across {made} attempt(s)"⟩
    let request ← Http.ofExcept (buildRequest attemptTimeoutMs)
    match ← client.send request with
    | .ok res =>
      if attempt < policy.maxAttempts && policy.shouldRetryStatus res.status then
        let retryAfter := (res.headers.values "retry-after").head?
        pause deadline (policy.retryDelayForStatus res.status retryAfter attempt)
        attempts policy client deadline buildRequest left (attempt + 1)
      else return some res
    | .error err =>
      if attempt < policy.maxAttempts && err.isRetryablePer policy then
        pause deadline (policy.retryDelayForTransport attempt)
        attempts policy client deadline buildRequest left (attempt + 1)
      else throw err.intoIoError

def extendBodyWithLimit (target chunk : List UInt8) (maxBytes : Option Nat) : Except IoError (List UInt8) :=
  match maxBytes with
  | none => .ok (target ++ chunk)
  | some max =>
    if 2^64 ≤ target.length + chunk.length then
      .error ⟨.invalidData,"response body size overflow while enforcing max bytes limit"⟩
    else if max < target.length + chunk.length then
      .error ⟨.invalidData,s!"response body exceeds configured max bytes ({max})"⟩
    else .ok (target ++ chunk)

def decodeResponse (endpoint : HttpEndpoint) (prepared : PreparedHttpEndpoint) (responseMaxBytes : Option Nat)
    (res : EndpointHttpResponse) : Except IoError (EndpointResponse X) := do
  let status := res.status
  let ok := decide (200 ≤ status ∧ status ≤ 299)
  if !endpoint.allowNon2xxStatus && !ok then
    throw ⟨.other,s!"HTTP status {status}"⟩
  let headers := extractExposedResponseHeadersPrepared res.headers prepared.exposedResponseAllowlist
  if let (some max,some contentLength) := (responseMaxBytes,res.contentLength) then
    if max < contentLength then
      throw ⟨.invalidData,
        s!"response body exceeds configured max bytes ({max}): content-length is {contentLength}"⟩
  let bytes ← extendBodyWithLimit [] res.body responseMaxBytes
  if bytes.isEmpty then
    return ⟨.empty,headers,status,ok⟩
  let body ← match endpoint.responseBodyType with
    | .json => ((X.fromSlice bytes).mapError (IoError.mk .other)).map .json
    | .utf8 => ((X.fromUtf8 bytes).mapError (IoError.mk .other)).map .utf8
    | .bytes => .ok (.bytes bytes)
  return ⟨body,headers,status,ok⟩

def contentTypeOf : EndpointBodyType → String
  | .json => "application/json"
  | .utf8 => "text/plain; charset=utf-8"
  | .bytes => "application/octet-stream"

def executeEndpoint (endpoint : HttpEndpoint) (client : EndpointHttpClient X) (prepared : PreparedHttpEndpoint)
    (defaultTimeoutMs defaultResponseMaxBytes : Option Nat) (options : EndpointCallOptions X) :
    Http X (EndpointResponse X) := do
  let url ← Http.ofExcept (buildUrlForOptions endpoint options)
  let timeoutMs := endpoint.timeoutMs.or defaultTimeoutMs
  let responseMaxBytes := endpoint.responseMaxBytes.or defaultResponseMaxBytes
  let defaultContentType :=
    if X.supportsRequestBody endpoint.method && !options.body.isAbsent then
      some (contentTypeOf endpoint.effectiveRequestBodyType)
    else none
  let headers ← Http.ofExcept (buildHeadersForOptions endpoint defaultContentType options)
  let deadline := deadlineFrom X timeoutMs (← now)
  let policy := endpoint.retryPolicy
  let finalResponse ← attempts policy client deadline (buildRequest endpoint options url headers responseMaxBytes)
    policy.maxAttempts 1
  match finalResponse with
  | none => throw ⟨.other,"endpoint request attempts exhausted without terminal response"⟩
  | some res => Http.ofExcept (decodeResponse endpoint prepared responseMaxBytes res)

end
end MechanicsCore.Http
