import Mathlib.Algebra.Order.Ring.Nat

/-! Requests, responses, headers and errors that endpoint calls exchange with
their HTTP client. `Externals` holds what other crates provide: JSON, URLs,
header names and values, and the facts about methods. -/
namespace MechanicsCore.Http

inductive ErrorKind
  | timedOut
  | invalidInput
  | invalidData
  | other
  deriving DecidableEq,Repr

structure IoError where
  kind : ErrorKind
  message : String
  deriving DecidableEq,Repr

inductive HttpMethod
  | get
  | post
  | put
  | patch
  | delete
  | head
  | options
  deriving DecidableEq,Repr

structure Externals where
  Value : Type
  HeaderValue : Type
  jsonString : String → Value
  fromSlice : List UInt8 → Except String Value
  fromUtf8 : List UInt8 → Except String String
  headerName : String → Except String String
  headerValue : String → Except String HeaderValue
  headerText : HeaderValue → String
  parseUrl : String → Except String String
  supportsRequestBody : HttpMethod → Bool
  methodName : HttpMethod → String
  instantBound : Nat

/-- An `http::HeaderMap`: each name once, with its values in arrival order. -/
abbrev HeaderMap (X : Externals) := List (String × List X.HeaderValue)

namespace HeaderMap
variable {X : Externals}

def keys (headers : HeaderMap X) : List String := headers.map Prod.fst

def getAll (headers : HeaderMap X) (name : String) : List X.HeaderValue := (headers.lookup name).getD []

def insert (headers : HeaderMap X) (name : String) (value : X.HeaderValue) : HeaderMap X :=
  if headers.keys.contains name then
    headers.map fun entry => if entry.1 == name then (name,[value]) else entry
  else headers ++ [(name,[value])]

end HeaderMap

def headerFromPairs {X : Externals} (pairs : List (String × String)) : Except IoError (HeaderMap X) :=
  pairs.foldlM (fun headers (name,value) => do
    let name ← (X.headerName name).mapError (IoError.mk .invalidInput)
    let value ← (X.headerValue value).mapError (IoError.mk .invalidInput)
    return headers.insert name value) []

structure EndpointHttpHeaders where
  entries : List (String × String)
  deriving DecidableEq,Repr

namespace EndpointHttpHeaders

def new : EndpointHttpHeaders := ⟨[]⟩

def insert (headers : EndpointHttpHeaders) (name value : String) : EndpointHttpHeaders :=
  ⟨headers.entries ++ [(name,value)]⟩

/-- `eq_ignore_ascii_case`; `String.toLower` only maps ASCII letters. -/
def eqIgnoreAsciiCase (a b : String) : Bool := a.toLower == b.toLower

def values (headers : EndpointHttpHeaders) (name : String) : List String :=
  (headers.entries.filter fun entry => eqIgnoreAsciiCase entry.1 name).map Prod.snd

/-- Every value of every name, each name once. -/
def fromKeys {X : Externals} (headers : HeaderMap X) : List String → List String → EndpointHttpHeaders →
    EndpointHttpHeaders
  | [], _, out => out
  | name::names, seen, out =>
    if seen.contains name then fromKeys headers names seen out
    else fromKeys headers names (name::seen)
      ((headers.getAll name).foldl (fun out value => out.insert name (X.headerText value)) out)

def fromHttpMap {X : Externals} (headers : HeaderMap X) : EndpointHttpHeaders :=
  fromKeys headers headers.keys [] new

end EndpointHttpHeaders

abbrev HeaderTexts := List (String × String)

def HeaderTexts.insert (texts : HeaderTexts) (name text : String) : HeaderTexts :=
  texts.filter (fun entry => entry.1 != name) ++ [(name,text)]

def extractExposedResponseHeadersPrepared (headers : EndpointHttpHeaders) (allowlisted : List String) : HeaderTexts :=
  allowlisted.foldl (fun out name =>
    let parts := headers.values name
    if parts.isEmpty then out else out.insert name.toLower (", ".intercalate parts)) []

inductive EndpointHttpRequestBody (X : Externals)
  | absent
  | json (value : X.Value)
  | utf8 (text : String)
  | bytes (bytes : List UInt8)

structure EndpointHttpRequest (X : Externals) where
  method : HttpMethod
  url : String
  headers : EndpointHttpHeaders
  timeoutMs : Option Nat
  responseMaxBytes : Option Nat
  body : EndpointHttpRequestBody X

structure EndpointHttpResponse where
  status : Nat
  headers : EndpointHttpHeaders
  contentLength : Option Nat
  body : List UInt8

structure EndpointRetryPolicy where
  maxAttempts : Nat
  retryOnIoErrors : Bool
  retryOnTimeout : Bool
  shouldRetryStatus : Nat → Bool
  retryDelayForStatus : Nat → Option String → Nat → Nat
  retryDelayForTransport : Nat → Nat

inductive EndpointTransportError
  | network (error : IoError)
  | timeout
  | bodyTooLarge (limit : Nat) (seen : Option Nat)
  | invalidRequest (message : String)
  | decode (message : String)
  | other (message : String)

namespace EndpointTransportError

def toString : EndpointTransportError → String
  | .network error => error.message
  | .timeout => "request timed out"
  | .bodyTooLarge limit (some seen) =>
    s!"response body exceeds configured max bytes ({limit}): content-length is {seen}"
  | .bodyTooLarge limit none => s!"response body exceeds configured max bytes ({limit})"
  | .invalidRequest message => message
  | .decode message => message
  | .other message => message

def isRetryablePer (policy : EndpointRetryPolicy) : EndpointTransportError → Bool
  | .network _ => policy.retryOnIoErrors
  | .timeout => policy.retryOnTimeout
  | .bodyTooLarge _ _ => false
  | .invalidRequest _ => false
  | .decode _ => false
  | .other _ => false

def intoIoError : EndpointTransportError → IoError
  | .network error => error
  | .timeout => ⟨.timedOut,"request timed out"⟩
  | .bodyTooLarge limit seen => ⟨.invalidData,(bodyTooLarge limit seen).toString⟩
  | .invalidRequest message => ⟨.invalidInput,message⟩
  | .decode message => ⟨.other,message⟩
  | .other message => ⟨.other,message⟩

end EndpointTransportError

/-- A request with the time it was handed to the client. -/
structure Sent (X : Externals) where
  issuedAt : Nat
  request : EndpointHttpRequest X

/-- A client answers a request, given the requests before it and the time, after
some nanoseconds. -/
structure EndpointHttpClient (X : Externals) where
  execute : List (Sent X) → Nat → EndpointHttpRequest X →
    Except EndpointTransportError EndpointHttpResponse × Nat

end MechanicsCore.Http
