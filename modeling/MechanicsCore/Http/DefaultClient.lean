import MechanicsCore.Http.Deadline

/-! `DefaultEndpointHttpClient`: one request over `mechanics_http_client`, whose
behaviour is a parameter. The request's timeout is one deadline for the headers and
the body, taken when the transport has been built: the library is told what remains
before it sends, and reading the body is cut off when the deadline comes. -/
namespace MechanicsCore.Http
open MechanicsCore.Library

/-- `mechanics_http_client::Error`, each variant with the text the classification takes
from it; `unknown` stands for the variants the crate may still add. -/
inductive MhcError
  | timeout
  | unreachable (message : String)
  | tls (message : String)
  | cancelled (message : String)
  | dns (message : String)
  | quicHandshake (message : String)
  | bodyTooLarge (limit seen : Nat)
  | invalidUrl (message : String)
  | invalidHeader (message : String)
  | serializeJson (message : String)
  | decode (message : String)
  | internal (message : String)
  | unknown (message : String)
  deriving DecidableEq,Repr

structure MhcRequest (X : Externals) where
  method : HttpMethod
  url : String
  headers : List (String × String)
  timeout : Option Nat
  body : EndpointHttpRequestBody X

/-- A response whose body has not been read: how reading it ends and after how many
nanoseconds, with a cap on its size and without. -/
structure MhcResponse (X : Externals) where
  status : Nat
  contentLength : Option Nat
  headers : HeaderMap X
  bytesWithCap : Nat → Except MhcError (List UInt8) × Nat
  bytes : Except MhcError (List UInt8) × Nat

/-- What the library does and how many nanoseconds it takes, from what was sent before
and the time. -/
structure MhcClient (X : Externals) where
  freshTransport : List (Sent X) → Nat → Except String Unit × Nat
  send : List (Sent X) → Nat → MhcRequest X → Except MhcError (MhcResponse X) × Nat

/-- Told a timeout, the library comes back with headers or an error within it. -/
def MhcClient.KeepsTimeouts {X : Externals} (client : MhcClient X) : Prop :=
  ∀ history time request nanos, request.timeout = some nanos → (client.send history time request).2 ≤ nanos

/-- A transport is built, or found impossible to build, within so many nanoseconds. -/
def MhcClient.BuildsWithin {X : Externals} (client : MhcClient X) (nanos : Nat) : Prop :=
  ∀ history time, (client.freshTransport history time).2 ≤ nanos

def classifyMhcError : MhcError → EndpointTransportError
  | .timeout => .timeout
  | .unreachable message => .network ⟨.other,message⟩
  | .tls message => .network ⟨.other,message⟩
  | .cancelled message => .network ⟨.other,message⟩
  | .dns message => .network ⟨.other,message⟩
  | .quicHandshake message => .network ⟨.other,message⟩
  | .bodyTooLarge limit seen => .bodyTooLarge limit (some seen)
  | .invalidUrl message => .invalidRequest message
  | .invalidHeader message => .invalidRequest message
  | .serializeJson message => .invalidRequest message
  | .decode message => .decode message
  | .internal message => .other message
  | .unknown message => .other message

def classifyDeadlineError (error : IoError) : EndpointTransportError :=
  match error.kind with
  | .timedOut => .timeout
  | .invalidInput => .invalidRequest error.message
  | _ => .other error.message

/-- The state is the clock, in nanoseconds. -/
abbrev Transport := EStateM EndpointTransportError Nat

def Transport.ofDeadline {α : Type} : Except IoError α → Transport α
  | .ok a => pure a
  | .error error => throw (classifyDeadlineError error)

/-- Waits for something that ends in a known way after a known time. -/
def Transport.await {α : Type} (what : Except EndpointTransportError α × Nat) : Transport α := do
  modify (· + what.2)
  match what.1 with
  | .ok a => pure a
  | .error error => throw error

/-- `tokio::time::timeout`: what is ready when the time is up still counts. -/
def Transport.awaitFor {α : Type} (nanos : Nat) (what : Except EndpointTransportError α × Nat) : Transport α := do
  if what.2 ≤ nanos then Transport.await what
  else
    modify (· + nanos)
    throw .timeout

namespace EndpointRequestDeadline

def new (X : Externals) (timeoutMs : Option Nat) (now : Nat) : Except IoError (Option Nat) :=
  match timeoutMs with
  | none => .ok none
  | some ms =>
    if now + ms * nanosPerMilli < X.instantBound then .ok (some (now + ms * nanosPerMilli))
    else .error ⟨.invalidInput,"request timeout is too large for the current platform clock"⟩

def remaining (expiresAt now : Nat) : Except IoError Nat :=
  if expiresAt - now = 0 then .error ⟨.timedOut,"request timed out"⟩ else .ok (expiresAt - now)

end EndpointRequestDeadline

section
variable {X : Externals}

/-- The body of a response, under the cap of the request if there is one. -/
def readBody (responseMaxBytes : Option Nat) (res : MhcResponse X) :
    Except EndpointTransportError (List UInt8) × Nat :=
  match responseMaxBytes with
  | some max =>
    let read := res.bytesWithCap max
    (match read.1 with
      | .ok bytes => .ok bytes
      | .error (.bodyTooLarge limit _) => .error (.bodyTooLarge limit none)
      | .error error => .error (classifyMhcError error),read.2)
  | none => (res.bytes.1.mapError classifyMhcError,res.bytes.2)

def overCap (responseMaxBytes contentLength : Option Nat) : Option (Nat × Nat) :=
  match responseMaxBytes, contentLength with
  | some max, some length => if max < length then some (max,length) else none
  | _, _ => none

/-- What remains to the deadline, if there is one; nothing left is an error. -/
def remainingTimeout (deadline : Option Nat) : Transport (Option Nat) := do
  match deadline with
  | some expiresAt =>
    let left ← Transport.ofDeadline (EndpointRequestDeadline.remaining expiresAt (← get))
    return some left
  | none => return none

def awaitBody (deadline : Option Nat) (body : Except EndpointTransportError (List UInt8) × Nat) :
    Transport (List UInt8) := do
  match ← remainingTimeout deadline with
  | some left => Transport.awaitFor left body
  | none => Transport.await body

/-- `req.send()` after the request has been built up. -/
def sendFor (client : MhcClient X) (history : List (Sent X)) (request : EndpointHttpRequest X) (timeout : Option Nat) :
    Transport (MhcResponse X) := do
  let sent := client.send history (← get) ⟨request.method,request.url,request.headers.entries,timeout,request.body⟩
  Transport.await (sent.1.mapError classifyMhcError,sent.2)

/-- From the request to the response with its body, under a deadline. -/
def exchange (client : MhcClient X) (history : List (Sent X)) (request : EndpointHttpRequest X)
    (deadline : Option Nat) : Transport EndpointHttpResponse := do
  let timeout ← remainingTimeout deadline
  let res ← sendFor client history request timeout
  match overCap request.responseMaxBytes res.contentLength with
  | some (max,length) => throw (.bodyTooLarge max (some length))
  | none =>
    let body ← awaitBody deadline (readBody request.responseMaxBytes res)
    return ⟨res.status,.fromHttpMap res.headers,res.contentLength,body⟩

def buildFresh (client : MhcClient X) (history : List (Sent X)) : Transport Unit := do
  let fresh := client.freshTransport history (← get)
  Transport.await (fresh.1.mapError .other,fresh.2)

/-- The deadline is taken when the transport has been built. -/
def DefaultEndpointHttpClient.run (client : MhcClient X) (history : List (Sent X)) (request : EndpointHttpRequest X) :
    Transport EndpointHttpResponse := do
  buildFresh client history
  let deadline ← Transport.ofDeadline (EndpointRequestDeadline.new X request.timeoutMs (← get))
  exchange client history request deadline

/-- The client as `execute_endpoint` sees it: an outcome, and the time it took. -/
def DefaultEndpointHttpClient.new (client : MhcClient X) : EndpointHttpClient X where
  execute history time request :=
    match (DefaultEndpointHttpClient.run client history request).run time with
    | .ok response clock => (.ok response,clock - time)
    | .error error clock => (.error error,clock - time)

end

section Timing
variable {X : Externals} {α : Type} {expiresAt : Nat}

theorem Transport.ofDeadline_meets (before : Nat → Prop) (e : Except IoError α) :
    Meets before (Transport.ofDeadline e) (fun a t => before t ∧ e = .ok a) fun _ => before := by
  intro t holds
  cases e with
  | ok a => exact ⟨holds,rfl⟩
  | error error => exact holds

theorem Transport.await_meets {what : Except EndpointTransportError α × Nat} :
    Meets (fun t => t + what.2 ≤ expiresAt) (Transport.await what) (fun _ t => t ≤ expiresAt)
      fun _ t => t ≤ expiresAt := by
  intro t within
  obtain ⟨outcome,nanos⟩ := what
  cases outcome with
  | ok a => exact within
  | error error => exact within

/-- However long the awaited thing takes, the wait is over in time. -/
theorem Transport.awaitFor_meets {nanos : Nat} (what : Except EndpointTransportError α × Nat) :
    Meets (fun t => t + nanos ≤ expiresAt) (Transport.awaitFor nanos what) (fun _ t => t ≤ expiresAt)
      fun _ t => t ≤ expiresAt := by
  unfold Transport.awaitFor
  split
  · rename_i ready
    exact fun t within => Transport.await_meets t (Nat.le_trans (Nat.add_le_add_left ready t) within)
  · exact fun t within => within

theorem EndpointRequestDeadline.remaining_ok {now left : Nat}
    (found : EndpointRequestDeadline.remaining expiresAt now = .ok left) : now + left ≤ expiresAt := by
  unfold EndpointRequestDeadline.remaining at found
  split at found
  · contradiction
  · cases found
    omega

theorem EndpointRequestDeadline.new_ok {ms now : Nat} {deadline : Option Nat}
    (made : EndpointRequestDeadline.new X (some ms) now = .ok deadline) :
    deadline = some (now + ms * nanosPerMilli) := by
  simp only [EndpointRequestDeadline.new] at made
  split at made
  · cases made
    rfl
  · contradiction

theorem remainingTimeout_meets :
    Meets (fun t => t ≤ expiresAt) (remainingTimeout (some expiresAt))
      (fun timeout t => ∃ left, timeout = some left ∧ t + left ≤ expiresAt) fun _ t => t ≤ expiresAt := by
  refine Meets.read_bind fun t within => ?_
  refine ((Transport.ofDeadline_meets _ _).weaken fun _ _ same => same ▸ within).bind fun left => ?_
  rintro _ ⟨rfl,found⟩
  exact ⟨left,rfl,EndpointRequestDeadline.remaining_ok found⟩

theorem awaitBody_meets (body : Except EndpointTransportError (List UInt8) × Nat) :
    Meets (fun t => t ≤ expiresAt) (awaitBody (some expiresAt) body) (fun _ t => t ≤ expiresAt)
      fun _ t => t ≤ expiresAt := by
  refine remainingTimeout_meets.bind fun timeout => ?_
  rintro t ⟨left,rfl,within⟩
  exact Transport.awaitFor_meets body t within

theorem sendFor_meets {client : MhcClient X} (keeps : client.KeepsTimeouts) (history : List (Sent X))
    (request : EndpointHttpRequest X) {left : Nat} :
    Meets (fun t => t + left ≤ expiresAt) (sendFor client history request (some left)) (fun _ t => t ≤ expiresAt)
      fun _ t => t ≤ expiresAt := by
  refine Meets.read_bind fun start within => ?_
  intro t same
  subst same
  exact Transport.await_meets t (Nat.le_trans (Nat.add_le_add_left (keeps _ _ _ left rfl) t) within)

theorem buildFresh_meets {client : MhcClient X} {fresh : Nat} (builds : client.BuildsWithin fresh)
    (history : List (Sent X)) :
    Meets (fun t => t + fresh ≤ expiresAt) (buildFresh client history) (fun _ t => t ≤ expiresAt)
      fun _ t => t ≤ expiresAt := by
  refine Meets.read_bind fun start within => ?_
  intro t same
  subst same
  exact Transport.await_meets t (Nat.le_trans (Nat.add_le_add_left (builds _ _) t) within)

/-- Sending and reading the body share one deadline. -/
theorem exchange_meets {client : MhcClient X} (keeps : client.KeepsTimeouts) (history : List (Sent X))
    (request : EndpointHttpRequest X) :
    Meets (fun t => t ≤ expiresAt) (exchange client history request (some expiresAt)) (fun _ t => t ≤ expiresAt)
      fun _ t => t ≤ expiresAt := by
  refine remainingTimeout_meets.bind fun timeout => ?_
  rintro start ⟨left,rfl,within⟩
  refine (sendFor_meets keeps history request).bind (fun res => ?_) start within
  cases overCap request.responseMaxBytes res.contentLength with
  | some excess => exact fun t early => early
  | none => exact (awaitBody_meets _).bind fun body => fun t early => early

/-- Building the transport comes before the deadline, and nothing else does. -/
theorem DefaultEndpointHttpClient.lateBy {client : MhcClient X} {fresh : Nat} (keeps : client.KeepsTimeouts)
    (builds : client.BuildsWithin fresh) : (DefaultEndpointHttpClient.new client).LateBy fresh := by
  intro history time request ms timeout
  have ends : Meets (fun t => t = time) (DefaultEndpointHttpClient.run client history request)
      (fun _ t => t ≤ time + fresh + ms * nanosPerMilli) fun _ t => t ≤ time + fresh + ms * nanosPerMilli := by
    have built : Meets (fun t => t = time) (buildFresh client history) (fun _ t => t ≤ time + fresh)
        fun _ t => t ≤ time + fresh := (buildFresh_meets builds history).starting (Nat.le_refl _)
    refine (built.weaken fun _ t early => Nat.le_add_right_of_le early).bind fun _ => ?_
    refine Meets.read_bind fun start early => ?_
    have dated : start + ms * nanosPerMilli ≤ time + fresh + ms * nanosPerMilli := Nat.add_le_add_right early _
    rw [timeout]
    refine ((Transport.ofDeadline_meets _ _).weaken fun _ t same => same ▸ Nat.le_add_right_of_le early).bind
      fun deadline => ?_
    rintro t ⟨rfl,made⟩
    rw [EndpointRequestDeadline.new_ok made]
    refine (((exchange_meets keeps history request).mono fun _ _ ended => ?_).weaken fun _ _ ended => ?_) t
      (Nat.le_add_right _ _)
    · exact Nat.le_trans ended dated
    · exact Nat.le_trans ended dated
  unfold DefaultEndpointHttpClient.new
  dsimp only
  cases ran : (DefaultEndpointHttpClient.run client history request).run time with
  | ok response clock =>
    have early := ends.returned rfl ran
    dsimp only at early ⊢
    omega
  | error error clock =>
    have early := ends.threw rfl ran
    dsimp only at early ⊢
    omega

end Timing

end MechanicsCore.Http
