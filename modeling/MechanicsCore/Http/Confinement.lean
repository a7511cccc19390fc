import MechanicsCore.Http.Retries
import MechanicsCore.Http.DefaultClient

/-! What a script can make the runtime send. All requests of one endpoint call are one
request, sent again with what is left of the timeout; and whatever a script passes to
`endpoint`, requests are those of configured endpoints. -/
namespace MechanicsCore.Http
open MechanicsCore.Library

variable {X : Externals}

/-- The timeout of a request issued at `time`. -/
def leftMs (deadline : Option Nat) (time : Nat) : Option Nat :=
  deadline.map fun deadline => min ((deadline - time) / nanosPerMilli) (2^64 - 1)

/-- At most `n` requests have been issued since `w₀`, in the order of time and each the
one that `build` makes for what remained then. -/
def Repeated (w₀ : World X) (deadline : Option Nat) (build : Option Nat → Except IoError (EndpointHttpRequest X))
    (n : Nat) (w : World X) : Prop :=
  ∃ issued, w.sent = w₀.sent ++ issued ∧ issued.length ≤ n ∧ issued.Pairwise (fun a b => a.issuedAt ≤ b.issuedAt) ∧
    ∀ s ∈ issued, s.issuedAt ≤ w.clock ∧ build (leftMs deadline s.issuedAt) = .ok s.request

section Loop
variable {w₀ : World X} {deadline : Option Nat} {build : Option Nat → Except IoError (EndpointHttpRequest X)} {n : Nat}

theorem Repeated.later {w : World X} (repeated : Repeated w₀ deadline build n w) {clock : Nat} (later : w.clock ≤ clock) :
    Repeated w₀ deadline build n {w with clock} := by
  obtain ⟨issued,sent,count,order,each⟩ := repeated
  exact ⟨issued,sent,count,order,fun s member => ⟨Nat.le_trans (each s member).1 later,(each s member).2⟩⟩

theorem Repeated.more {w : World X} (repeated : Repeated w₀ deadline build n w) {m : Nat} (more : n ≤ m) :
    Repeated w₀ deadline build m w := by
  obtain ⟨issued,sent,count,rest⟩ := repeated
  exact ⟨issued,sent,Nat.le_trans count more,rest⟩

theorem Repeated.pause (delay : Nat) :
    Meets (Repeated w₀ deadline build n) (pause deadline delay) (fun _ => Repeated w₀ deadline build n)
      fun _ => Repeated w₀ deadline build n := by
  have slept (nanos : Nat) : Meets (Repeated w₀ deadline build n) (if nanos ≠ 0 then sleep nanos else pure ())
      (fun _ => Repeated w₀ deadline build n) fun _ => Repeated w₀ deadline build n := by
    split
    · exact fun w repeated => repeated.later (Nat.le_add_right _ _)
    · exact fun w repeated => repeated
  have read : Meets (Repeated w₀ deadline build n) (remaining deadline) (fun _ => Repeated w₀ deadline build n)
      fun _ => Repeated w₀ deadline build n := by
    cases deadline with
    | none => exact fun w repeated => repeated
    | some d => exact fun w repeated => repeated
  unfold Http.pause
  split
  · refine read.bind fun left => ?_
    cases left with
    | none => exact slept _
    | some left => exact slept _
  · exact fun w repeated => repeated

theorem Repeated.send {client : EndpointHttpClient X} {request : EndpointHttpRequest X} (time : Nat)
    (built : build (leftMs deadline time) = .ok request) :
    Meets (fun w => Repeated w₀ deadline build n w ∧ w.clock = time) (client.send request)
      (fun _ => Repeated w₀ deadline build (n + 1)) fun _ => Repeated w₀ deadline build (n + 1) := by
  rintro w ⟨⟨issued,sent,count,order,each⟩,rfl⟩
  refine ⟨issued ++ [⟨w.clock,request⟩],?_,?_,?_,?_⟩
  · change w.sent ++ [⟨w.clock,request⟩] = _
    rw [sent,List.append_assoc]
  · simpa using count
  · refine List.pairwise_append.mpr ⟨order,List.pairwise_singleton _ _,fun a early b last => ?_⟩
    rw [List.mem_singleton.mp last]
    exact (each a early).1
  · intro s member
    have passed : w.clock ≤ w.clock + (client.execute w.sent w.clock request).2 := Nat.le_add_right _ _
    rcases List.mem_append.mp member with old | new
    · exact ⟨Nat.le_trans (each s old).1 passed,(each s old).2⟩
    · rw [List.mem_singleton.mp new]
      exact ⟨passed,built⟩

theorem attempts_repeat {policy : EndpointRetryPolicy} {client : EndpointHttpClient X} (left attempt : Nat) :
    Meets (Repeated w₀ deadline build n) (attempts policy client deadline build left attempt)
      (fun _ => Repeated w₀ deadline build (n + left)) fun _ => Repeated w₀ deadline build (n + left) := by
  induction left generalizing attempt n with
  | zero => exact fun w repeated => repeated
  | succ left ih =>
    have weaker : ∀ w : World X, Repeated w₀ deadline build n w → Repeated w₀ deadline build (n + (left + 1)) w :=
      fun w repeated => repeated.more (Nat.le_add_right _ _)
    have again (delay attempt : Nat) : Meets (Repeated w₀ deadline build (n + 1))
        (do pause deadline delay; attempts policy client deadline build left attempt)
        (fun _ => Repeated w₀ deadline build (n + (left + 1))) fun _ => Repeated w₀ deadline build (n + (left + 1)) := by
      rw [Nat.add_comm left 1,← Nat.add_assoc]
      refine ((Repeated.pause delay).weaken fun _ w repeated => repeated.more (Nat.le_add_right _ _)).bind fun _ => ?_
      exact ih attempt
    have enough : ∀ w : World X, Repeated w₀ deadline build (n + 1) w → Repeated w₀ deadline build (n + (left + 1)) w :=
      fun w repeated => repeated.more (by omega)
    unfold attempts
    have read : Meets (Repeated w₀ deadline build n) (remainingMs deadline)
        (fun ms w => Repeated w₀ deadline build n w ∧ ms = leftMs deadline w.clock)
        fun _ => Repeated w₀ deadline build (n + (left + 1)) := by
      cases deadline with
      | none => exact fun w repeated => ⟨repeated,rfl⟩
      | some d => exact fun w repeated => ⟨repeated,rfl⟩
    refine read.bind fun attemptTimeoutMs => ?_
    split
    · exact fun w repeated => weaker w repeated.1
    · refine ((ofExcept_meets _ (build attemptTimeoutMs)).weaken fun _ w holds => weaker w holds.1).bind fun request => ?_
      have sent : Meets (fun w => (Repeated w₀ deadline build n w ∧ attemptTimeoutMs = leftMs deadline w.clock) ∧
          build attemptTimeoutMs = .ok request) (client.send request) (fun _ => Repeated w₀ deadline build (n + 1))
          fun _ => Repeated w₀ deadline build (n + (left + 1)) := by
        rintro w ⟨⟨repeated,rfl⟩,built⟩
        exact ((Repeated.send w.clock built).weaken fun _ w repeated => enough w repeated) w ⟨repeated,rfl⟩
      refine sent.bind fun outcome => ?_
      cases outcome with
      | ok res =>
        dsimp only
        split
        · exact again _ _
        · exact fun w repeated => enough w repeated
      | error err =>
        dsimp only
        split
        · exact again _ _
        · exact fun w repeated => enough w repeated

end Loop

/-- The requests of one endpoint call. -/
structure Issued (endpoint : HttpEndpoint) (defaultTimeoutMs defaultResponseMaxBytes : Option Nat)
    (options : EndpointCallOptions X) (start : Nat) (issued : List (Sent X)) : Prop where
  count : issued.length ≤ endpoint.retryPolicy.maxAttempts
  order : issued.Pairwise fun a b => a.issuedAt ≤ b.issuedAt
  same : ∀ s ∈ issued, ∃ request, untimedRequest endpoint defaultResponseMaxBytes options = .ok request ∧
    s.request = {request with
      timeoutMs := leftMs (deadlineFrom X (endpoint.timeoutMs.or defaultTimeoutMs) start) s.issuedAt}

section Call
variable (endpoint : HttpEndpoint) (client : EndpointHttpClient X) (prepared : PreparedHttpEndpoint)
  (defaultTimeoutMs defaultResponseMaxBytes : Option Nat) (options : EndpointCallOptions X)

theorem buildRequest_untimed {url : String} {headers : HeaderMap X} {responseMaxBytes ms : Option Nat}
    {request : EndpointHttpRequest X}
    (built : buildRequest endpoint options url headers responseMaxBytes ms = .ok request) :
    ∃ untimed, buildRequest endpoint options url headers responseMaxBytes none = .ok untimed ∧
      request = {untimed with timeoutMs := ms} := by
  unfold buildRequest at built ⊢
  cases body : requestBody endpoint options.body with
  | error error => simp [body,bind,Except.bind] at built
  | ok content =>
    simp only [body,bind,Except.bind,pure,Except.pure,Except.ok.injEq] at built
    exact ⟨_,rfl,by rw [← built]⟩

/-- What the call has sent since the world it was made in. -/
def IssuedSince (w w' : World X) : Prop :=
  ∃ issued, w'.sent = w.sent ++ issued ∧
    Issued endpoint defaultTimeoutMs defaultResponseMaxBytes options w.clock issued

theorem executeEndpoint_issues (w : World X) :
    Meets (fun w' => w' = w)
      (executeEndpoint endpoint client prepared defaultTimeoutMs defaultResponseMaxBytes options)
      (fun _ => IssuedSince endpoint defaultTimeoutMs defaultResponseMaxBytes options w)
      fun _ => IssuedSince endpoint defaultTimeoutMs defaultResponseMaxBytes options w := by
  have nothing : ∀ w', w' = w → IssuedSince endpoint defaultTimeoutMs defaultResponseMaxBytes options w w' :=
    fun w' same => ⟨[],by simp [same],by simp,List.Pairwise.nil,by simp⟩
  rw [executeEndpoint_eq]
  refine ((ofExcept_meets _ _).weaken fun _ w' same => nothing w' same).bind fun url => ?_
  refine ((ofExcept_meets _ _).weaken fun _ w' same => nothing w' same.1).bind fun headers => ?_
  refine now_meets fun w' ⟨⟨same,madeUrl⟩,madeHeaders⟩ => ?_
  rw [same]
  have finish : ∀ w' : World X, Repeated w (deadlineFrom X (endpoint.timeoutMs.or defaultTimeoutMs) w.clock)
      (buildRequest endpoint options url headers (endpoint.responseMaxBytes.or defaultResponseMaxBytes))
      (0 + endpoint.retryPolicy.maxAttempts) w' →
        IssuedSince endpoint defaultTimeoutMs defaultResponseMaxBytes options w w' := by
    rintro w' ⟨issued,sent,count,order,each⟩
    refine ⟨issued,sent,by simpa using count,order,fun s member => ?_⟩
    obtain ⟨untimed,built,same⟩ := buildRequest_untimed endpoint options (each s member).2
    exact ⟨untimed,by simp only [untimedRequest,madeUrl,madeHeaders,bind,Except.bind,built],same⟩
  have looped : Meets (fun w' => w' = w) (attempts endpoint.retryPolicy client
      (deadlineFrom X (endpoint.timeoutMs.or defaultTimeoutMs) w.clock)
      (buildRequest endpoint options url headers (endpoint.responseMaxBytes.or defaultResponseMaxBytes))
      endpoint.retryPolicy.maxAttempts 1)
      (fun _ => IssuedSince endpoint defaultTimeoutMs defaultResponseMaxBytes options w)
      fun _ => IssuedSince endpoint defaultTimeoutMs defaultResponseMaxBytes options w := by
    intro w' same
    refine (((attempts_repeat _ _).mono fun _ w' => finish w').weaken fun _ w' => finish w') w' ?_
    exact ⟨[],by simp [same],by simp,List.Pairwise.nil,by simp⟩
  refine looped.bind fun finalResponse => ?_
  cases finalResponse with
  | none => exact throw_meets _
  | some res => exact (ofExcept_meets _ _).mono fun _ _ holds => holds.1

theorem executeEndpoint_issuedSince (w : World X) :
    IssuedSince endpoint defaultTimeoutMs defaultResponseMaxBytes options w
      (stateAfter ((executeEndpoint endpoint client prepared defaultTimeoutMs defaultResponseMaxBytes options).run w)) := by
  have meets := executeEndpoint_issues endpoint client prepared defaultTimeoutMs defaultResponseMaxBytes options w
  exact meets.after rfl

/-- All requests of one endpoint call, over all its attempts, are one request, at most
`max_attempts` times and in the order of time, that differs from attempt to attempt only
in its timeout: none has one, or all have, the whole milliseconds that remain to the
one deadline of the call. -/
theorem retries_repeat_one_request (w : World X) :
    ∃ issued, (stateAfter ((executeEndpoint endpoint client prepared defaultTimeoutMs defaultResponseMaxBytes
        options).run w)).sent = w.sent ++ issued ∧
      issued.length ≤ endpoint.retryPolicy.maxAttempts ∧
      issued.Pairwise (fun a b => a.issuedAt ≤ b.issuedAt) ∧
      (∀ a ∈ issued, ∀ b ∈ issued, a.request = {b.request with timeoutMs := a.request.timeoutMs}) ∧
      ((∀ s ∈ issued, s.request.timeoutMs = none) ∨ ∀ s ∈ issued, s.request.timeoutMs.isSome = true) ∧
      issued.Pairwise fun a b => ∀ ms, b.request.timeoutMs = some ms → ∃ more ≥ ms, a.request.timeoutMs = some more := by
  obtain ⟨issued,sent,each⟩ :=
    executeEndpoint_issuedSince endpoint client prepared defaultTimeoutMs defaultResponseMaxBytes options w
  refine ⟨issued,sent,each.count,each.order,fun a first b second => ?_,?_,?_⟩
  · obtain ⟨request,made,same⟩ := each.same a first
    obtain ⟨request',made',same'⟩ := each.same b second
    rw [made] at made'
    cases made'
    rw [same,same']
  · cases dated : deadlineFrom X (endpoint.timeoutMs.or defaultTimeoutMs) w.clock with
    | none =>
      refine .inl fun s member => ?_
      obtain ⟨request,_,same⟩ := each.same s member
      rw [same,dated]
      rfl
    | some deadline =>
      refine .inr fun s member => ?_
      obtain ⟨request,_,same⟩ := each.same s member
      rw [same,dated]
      rfl
  · refine each.order.imp_of_mem fun {a b} first second early ms timeout => ?_
    obtain ⟨request,made,same⟩ := each.same a first
    obtain ⟨request',made',same'⟩ := each.same b second
    rw [same]
    rw [same'] at timeout
    dsimp only [leftMs] at timeout ⊢
    cases dated : deadlineFrom X (endpoint.timeoutMs.or defaultTimeoutMs) w.clock with
    | none => simp [dated] at timeout
    | some deadline =>
      rw [dated,Option.map_some] at timeout
      cases timeout
      have less : (deadline - b.issuedAt) / nanosPerMilli ≤ (deadline - a.issuedAt) / nanosPerMilli :=
        Nat.div_le_div_right (by omega)
      exact ⟨_,Nat.le_min.mpr ⟨Nat.le_trans (Nat.min_le_left _ _) less,Nat.min_le_right _ _⟩,rfl⟩

end Call

end MechanicsCore.Http
