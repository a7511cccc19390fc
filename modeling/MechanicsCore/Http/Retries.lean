import MechanicsCore.Http.Deadline

/-! The retry loop without a deadline, against what it is for: send the request until
an outcome is terminal or the attempts are used up, and answer with the last outcome. -/
namespace MechanicsCore.Http
open MechanicsCore.Library

variable {X : Externals}

abbrev Outcome := Except EndpointTransportError EndpointHttpResponse

/-- The policy retries after this outcome while attempts are left; otherwise it is terminal. -/
def retried (policy : EndpointRetryPolicy) : Outcome → Bool
  | .ok res => policy.shouldRetryStatus res.status
  | .error err => err.isRetryablePer policy

/-- The least attempt with a terminal outcome, else the last one. -/
def finalAttempt (policy : EndpointRetryPolicy) (outcomes : (attempt : Nat) → Outcome) : Nat :=
  ((List.range' 1 policy.maxAttempts).find? fun attempt => !retried policy (outcomes attempt)).getD policy.maxAttempts

/-- The answer of a call whose last outcome is given, in the world it ends in. -/
def answer (endpoint : HttpEndpoint) (prepared : PreparedHttpEndpoint) (responseMaxBytes : Option Nat) (w : World X) :
    Outcome → EStateM.Result IoError (World X) (EndpointResponse X)
  | .ok res => (Http.ofExcept (decodeResponse endpoint prepared responseMaxBytes res)).run w
  | .error err => .error err.intoIoError w

theorem pause_sent (delay : Nat) (w : World X) : ∃ w', (pause none delay).run w = .ok () w' ∧ w'.sent = w.sent := by
  unfold pause
  by_cases none : delay = 0
  · exact ⟨w,by simp [none,EStateM.run_pure],rfl⟩
  · exact ⟨{w with clock := w.clock + delay},by simp [none,remaining,sleep],rfl⟩

theorem pause_or {α : Type} (again : Bool) (delay : Nat) (next finish : Http X α) (w : World X) :
    ∃ w', w'.sent = w.sent ∧ (if again = true then pause none delay >>= fun _ => next else finish).run w =
      if again = true then next.run w' else finish.run w' := by
  cases again with
  | false => exact ⟨w,rfl,rfl⟩
  | true =>
    obtain ⟨w',paused,kept⟩ := pause_sent delay w
    refine ⟨w',kept,?_⟩
    rw [if_pos rfl,if_pos rfl,EStateM.run_bind,paused]

theorem ofExcept_ok {α β : Type} (a : α) (f : α → Http X β) : Http.ofExcept (.ok a) >>= f = f a := rfl

theorem ofExcept_error {α β : Type} (error : IoError) (f : α → Http X β) (w : World X) :
    (Http.ofExcept (.error error) >>= f).run w = .error error w := rfl

theorem now_run {α : Type} (f : Nat → Http X α) (w : World X) : (now >>= f).run w = (f w.clock).run w := rfl

section Loop
variable {policy : EndpointRetryPolicy} {client : EndpointHttpClient X}
  {buildRequest : Option Nat → Except IoError (EndpointHttpRequest X)} {request : EndpointHttpRequest X}

/-- What the loop breaks out with after an outcome. -/
def breakWith : Outcome → Http X (Option EndpointHttpResponse)
  | .ok res => return some res
  | .error err => throw err.intoIoError

/-- One round without a deadline: the request goes out, and the outcome decides. -/
theorem attempts_round (built : buildRequest none = .ok request) (left attempt : Nat) (w : World X) :
    ∃ w', w'.sent = w.sent ++ [⟨w.clock,request⟩] ∧
      (attempts policy client none buildRequest (left + 1) attempt).run w =
        if (attempt < policy.maxAttempts && retried policy (client.execute w.sent w.clock request).1) = true then
          (attempts policy client none buildRequest left (attempt + 1)).run w'
        else (breakWith (client.execute w.sent w.clock request).1).run w' := by
  let after : World X := ⟨w.clock + (client.execute w.sent w.clock request).2,w.sent ++ [⟨w.clock,request⟩]⟩
  have sent : (client.send request).run w = .ok (client.execute w.sent w.clock request).1 after := rfl
  rw [attempts]
  change ∃ w', _ ∧ (Http.ofExcept (buildRequest none) >>= _).run w = _
  rw [built,ofExcept_ok,EStateM.run_bind,sent]
  cases (client.execute w.sent w.clock request).1 with
  | ok res => exact pause_or _ _ _ _ after
  | error err => exact pause_or _ _ _ _ after

/-- From an attempt on the loop sends the request up to the final attempt and breaks out
with its outcome. -/
theorem attempts_run {outcomes : Nat → Outcome} {base : Nat} (built : buildRequest none = .ok request)
    (scripted : ∀ sent clock request, (client.execute sent clock request).1 = outcomes (sent.length - base + 1))
    (left : Nat) {attempt : Nat} (counted : attempt + left = policy.maxAttempts) {w : World X}
    (position : w.sent.length + 1 = base + attempt) (started : 1 ≤ attempt) :
    ∃ w' calls final, ((List.range' attempt (left + 1)).find? fun n => !retried policy (outcomes n)).getD
        policy.maxAttempts = final ∧
      w'.sent = w.sent ++ calls ∧ calls.length + attempt = final + 1 ∧ (∀ call ∈ calls, call.request = request) ∧
      (attempts policy client none buildRequest (left + 1) attempt).run w = (breakWith (outcomes final)).run w' := by
  induction left generalizing attempt w with
  | zero =>
    obtain ⟨w',sent,round⟩ := attempts_round built 0 attempt w
    have here : w.sent.length - base + 1 = attempt := by omega
    have last : ¬ (decide (attempt < policy.maxAttempts) && retried policy (outcomes attempt)) = true := by
      simp only [Bool.and_eq_true,decide_eq_true_eq,not_and]
      omega
    rw [scripted,here,if_neg last] at round
    refine ⟨w',[⟨w.clock,request⟩],attempt,?_,sent,by rw [List.length_singleton,Nat.add_comm],by simp,round⟩
    rw [← counted]
    cases verdict : retried policy (outcomes attempt) <;> simp [List.range',verdict]
  | succ left ih =>
    obtain ⟨w',sent,round⟩ := attempts_round built (left + 1) attempt w
    have here : w.sent.length - base + 1 = attempt := by omega
    have more : attempt < policy.maxAttempts := by omega
    rw [scripted,here] at round
    rw [List.range'_succ,List.find?_cons]
    cases verdict : retried policy (outcomes attempt) with
    | false =>
      rw [verdict,if_neg (by simp)] at round
      exact ⟨w',[⟨w.clock,request⟩],attempt,rfl,sent,by rw [List.length_singleton,Nat.add_comm],by simp,round⟩
    | true =>
      rw [verdict,if_pos (by simpa using more)] at round
      have size : w'.sent.length + 1 = base + (attempt + 1) := by
        rw [sent,List.length_append,List.length_singleton]
        omega
      obtain ⟨w'',calls,final,found,history,count,same,ran⟩ := ih (by omega) size (by omega)
      refine ⟨w'',⟨w.clock,request⟩::calls,final,found,?_,?_,?_,round.trans ran⟩
      · rw [history,sent,List.append_assoc,List.singleton_append]
      · rw [List.length_cons]
        omega
      · intro call member
        rcases List.mem_cons.mp member with rfl | later
        · rfl
        · exact same call later

/-- The loop never ends without a response or an error: its last round does not retry. -/
theorem attempts_respond (deadline : Option Nat) (left : Nat) {attempt : Nat} (counted : attempt + left = policy.maxAttempts) :
    Meets (fun _ => True) (attempts policy client deadline buildRequest (left + 1) attempt) (fun final _ => final ≠ none)
      fun _ _ => True := by
  induction left generalizing attempt with
  | zero =>
    have last : (decide (attempt < policy.maxAttempts)) = false := decide_eq_false (by omega)
    unfold attempts
    refine (Meets.trivially _ _).bind fun attemptTimeoutMs => ?_
    split
    · exact fun w _ => trivial
    · refine (Meets.trivially _ _).bind fun request => (Meets.trivially _ _).bind fun outcome => ?_
      rw [last]
      cases outcome with
      | ok res => exact fun w _ => Option.some_ne_none res
      | error err => exact fun w _ => trivial
  | succ left ih =>
    have later := ih (show attempt + 1 + left = policy.maxAttempts by omega)
    rw [attempts]
    refine (Meets.trivially _ _).bind fun attemptTimeoutMs => ?_
    split
    · exact fun w _ => trivial
    · refine (Meets.trivially _ _).bind fun request => (Meets.trivially _ _).bind fun outcome => ?_
      cases outcome with
      | ok res =>
        dsimp only
        split
        · exact (Meets.trivially _ _).bind fun _ => later
        · exact fun w _ => Option.some_ne_none res
      | error err =>
        dsimp only
        split
        · exact (Meets.trivially _ _).bind fun _ => later
        · exact fun w _ => trivial

end Loop

section Call
variable (endpoint : HttpEndpoint) (client : EndpointHttpClient X) (prepared : PreparedHttpEndpoint)
  (defaultTimeoutMs defaultResponseMaxBytes : Option Nat) (options : EndpointCallOptions X)

def defaultContentType : Option String :=
  if X.supportsRequestBody endpoint.method && !options.body.isAbsent then
    some (contentTypeOf endpoint.effectiveRequestBodyType)
  else none

/-- The request every attempt of an untimed call sends. -/
def untimedRequest : Except IoError (EndpointHttpRequest X) := do
  let url ← buildUrlForOptions endpoint options
  let headers ← buildHeadersForOptions endpoint (defaultContentType endpoint options) options
  buildRequest endpoint options url headers (endpoint.responseMaxBytes.or defaultResponseMaxBytes) none

def conclude : (finalResponse : Option EndpointHttpResponse) → Http X (EndpointResponse X)
  | none => throw ⟨.other,"endpoint request attempts exhausted without terminal response"⟩
  | some res => Http.ofExcept
    (decodeResponse endpoint prepared (endpoint.responseMaxBytes.or defaultResponseMaxBytes) res)

theorem executeEndpoint_eq : executeEndpoint endpoint client prepared defaultTimeoutMs defaultResponseMaxBytes options =
    (Http.ofExcept (buildUrlForOptions endpoint options) >>= fun url =>
      Http.ofExcept (buildHeadersForOptions endpoint (defaultContentType endpoint options) options) >>= fun headers =>
      now >>= fun start =>
      attempts endpoint.retryPolicy client (deadlineFrom X (endpoint.timeoutMs.or defaultTimeoutMs) start)
        (buildRequest endpoint options url headers (endpoint.responseMaxBytes.or defaultResponseMaxBytes))
        endpoint.retryPolicy.maxAttempts 1 >>= conclude endpoint prepared defaultResponseMaxBytes) := by
  unfold executeEndpoint
  rfl

/-- An untimed call fails without its request, else it is the retry loop. -/
theorem executeEndpoint_untimed {w : World X}
    (untimed : deadlineFrom X (endpoint.timeoutMs.or defaultTimeoutMs) w.clock = none) :
    (∃ error, untimedRequest endpoint defaultResponseMaxBytes options = .error error ∧
      (executeEndpoint endpoint client prepared defaultTimeoutMs defaultResponseMaxBytes options).run w = .error error w) ∨
    ∃ build, build none = untimedRequest endpoint defaultResponseMaxBytes options ∧
      (executeEndpoint endpoint client prepared defaultTimeoutMs defaultResponseMaxBytes options).run w =
        (attempts endpoint.retryPolicy client none build endpoint.retryPolicy.maxAttempts 1 >>=
          conclude endpoint prepared defaultResponseMaxBytes).run w := by
  rw [executeEndpoint_eq]
  unfold untimedRequest
  cases buildUrlForOptions endpoint options with
  | error error => exact .inl ⟨error,rfl,ofExcept_error _ _ w⟩
  | ok url =>
    rw [ofExcept_ok]
    cases buildHeadersForOptions endpoint (defaultContentType endpoint options) options with
    | error error => exact .inl ⟨error,rfl,ofExcept_error _ _ w⟩
    | ok headers =>
      refine .inr ⟨buildRequest endpoint options url headers (endpoint.responseMaxBytes.or defaultResponseMaxBytes),rfl,?_⟩
      rw [ofExcept_ok,now_run,untimed]

theorem untimedRequest_body {error : IoError} (invalid : requestBody endpoint options.body = .error error) :
    ∃ first, untimedRequest endpoint defaultResponseMaxBytes options = .error first := by
  unfold untimedRequest
  cases buildUrlForOptions endpoint options with
  | error first => exact ⟨first,rfl⟩
  | ok url =>
    cases buildHeadersForOptions endpoint (defaultContentType endpoint options) options with
    | error first => exact ⟨first,rfl⟩
    | ok headers =>
      refine ⟨error,?_⟩
      change (requestBody endpoint options.body >>= _) = _
      rw [invalid]
      rfl

/-- Without a request the call ends where it began. -/
theorem executeEndpoint_unbuilt {w : World X} {error : IoError}
    (untimed : deadlineFrom X (endpoint.timeoutMs.or defaultTimeoutMs) w.clock = none)
    (positive : 1 ≤ endpoint.retryPolicy.maxAttempts)
    (unbuilt : untimedRequest endpoint defaultResponseMaxBytes options = .error error) :
    (executeEndpoint endpoint client prepared defaultTimeoutMs defaultResponseMaxBytes options).run w = .error error w := by
  rcases executeEndpoint_untimed endpoint client prepared defaultTimeoutMs defaultResponseMaxBytes options untimed with
    ⟨first,failed,ran⟩ | ⟨build,same,ran⟩
  · rw [unbuilt] at failed
    cases failed
    exact ran
  · obtain ⟨left,rounds⟩ := Nat.exists_eq_add_of_le' positive
    have first : (attempts endpoint.retryPolicy client none build (left + 1) 1).run w = .error error w := by
      rw [attempts]
      change (Http.ofExcept (build none) >>= _).run w = _
      rw [same,unbuilt,ofExcept_error]
    rw [ran,rounds,EStateM.run_bind,first]

theorem executeEndpoint_built {w : World X} {request : EndpointHttpRequest X} {outcomes : Nat → Outcome}
    (untimed : deadlineFrom X (endpoint.timeoutMs.or defaultTimeoutMs) w.clock = none)
    (positive : 1 ≤ endpoint.retryPolicy.maxAttempts)
    (scripted : ∀ sent clock request, (client.execute sent clock request).1 = outcomes (sent.length - w.sent.length + 1))
    (built : untimedRequest endpoint defaultResponseMaxBytes options = .ok request) :
    ∃ w' calls, w'.sent = w.sent ++ calls ∧ calls.length = finalAttempt endpoint.retryPolicy outcomes ∧
      (∀ call ∈ calls, call.request = request) ∧
      (executeEndpoint endpoint client prepared defaultTimeoutMs defaultResponseMaxBytes options).run w =
        answer endpoint prepared (endpoint.responseMaxBytes.or defaultResponseMaxBytes) w'
          (outcomes (finalAttempt endpoint.retryPolicy outcomes)) := by
  rcases executeEndpoint_untimed endpoint client prepared defaultTimeoutMs defaultResponseMaxBytes options untimed with
    ⟨first,failed,_⟩ | ⟨build,same,ran⟩
  · rw [built] at failed
    cases failed
  · obtain ⟨left,rounds⟩ := Nat.exists_eq_add_of_le' positive
    obtain ⟨w',calls,final,found,sent,count,requests,looped⟩ := attempts_run (same.trans built) scripted left
      (show 1 + left = endpoint.retryPolicy.maxAttempts by omega) rfl le_rfl
    rw [← rounds] at found looped
    change finalAttempt endpoint.retryPolicy outcomes = final at found
    subst found
    refine ⟨w',calls,sent,by omega,requests,?_⟩
    rw [ran,EStateM.run_bind,looped]
    cases outcomes (finalAttempt endpoint.retryPolicy outcomes) with
    | ok res => rfl
    | error err => rfl

end Call

/-- Without a deadline a call makes the attempts its policy asks for and answers with the
last outcome; a body that cannot be sent makes none. -/
theorem retry_loop_meets_specification (endpoint : HttpEndpoint) (client : EndpointHttpClient X)
    (prepared : PreparedHttpEndpoint) (defaultTimeoutMs defaultResponseMaxBytes : Option Nat)
    (options : EndpointCallOptions X) (w : World X) (outcomes : Nat → Outcome)
    (positive : 1 ≤ endpoint.retryPolicy.maxAttempts)
    (untimed : deadlineFrom X (endpoint.timeoutMs.or defaultTimeoutMs) w.clock = none)
    (scripted : ∀ sent clock request, (client.execute sent clock request).1 = outcomes (sent.length - w.sent.length + 1)) :
    (∀ request, untimedRequest endpoint defaultResponseMaxBytes options = .ok request →
      ∃ w' calls, w'.sent = w.sent ++ calls ∧ calls.length = finalAttempt endpoint.retryPolicy outcomes ∧
        (∀ call ∈ calls, call.request = request) ∧
        (executeEndpoint endpoint client prepared defaultTimeoutMs defaultResponseMaxBytes options).run w =
          answer endpoint prepared (endpoint.responseMaxBytes.or defaultResponseMaxBytes) w'
            (outcomes (finalAttempt endpoint.retryPolicy outcomes))) ∧
    (∀ error, requestBody endpoint options.body = .error error → ∃ first,
      (executeEndpoint endpoint client prepared defaultTimeoutMs defaultResponseMaxBytes options).run w = .error first w) ∧
    ∀ deadline build w₀ w', (attempts endpoint.retryPolicy client deadline build endpoint.retryPolicy.maxAttempts 1).run w₀ ≠
      .ok none w' := by
  refine ⟨fun request built => ?_,fun error invalid => ?_,fun deadline build w₀ w' exhausted => ?_⟩
  · exact executeEndpoint_built endpoint client prepared defaultTimeoutMs defaultResponseMaxBytes options untimed positive
      scripted built
  · obtain ⟨first,unbuilt⟩ := untimedRequest_body endpoint defaultResponseMaxBytes options invalid
    exact ⟨first,executeEndpoint_unbuilt endpoint client prepared defaultTimeoutMs defaultResponseMaxBytes options untimed
      positive unbuilt⟩
  · obtain ⟨left,rounds⟩ := Nat.exists_eq_add_of_le' positive
    have counted : 1 + left = endpoint.retryPolicy.maxAttempts := by omega
    rw [rounds] at exhausted
    exact (attempts_respond deadline left counted).returned trivial exhausted rfl

/-- A client whose first request times out. -/
def recovering : EndpointHttpClient textual where
  execute history _ _ := (if history.length = 0 then .error .timeout else .ok ⟨200,⟨[]⟩,none,[]⟩,500000)

theorem retry_loop_meets_specification_at_recovering :
    ∃ w', w'.sent.length = 2 ∧
      (executeEndpoint {unavailable with timeoutMs := none} recovering ⟨[]⟩ none none ⟨[],[],[],.absent⟩).run ⟨0,[]⟩ =
        .ok ⟨.empty,[],200,true⟩ w' := by
  obtain ⟨w',calls,sent,count,_,ran⟩ := (retry_loop_meets_specification {unavailable with timeoutMs := none} recovering ⟨[]⟩
    none none ⟨[],[],[],.absent⟩ ⟨0,[]⟩ (fun attempt => if attempt - 1 = 0 then .error .timeout else .ok ⟨200,⟨[]⟩,none,[]⟩)
    (by decide) rfl fun sent clock request => rfl).1 _ rfl
  refine ⟨w',?_,ran⟩
  rw [sent]
  exact count

end MechanicsCore.Http
