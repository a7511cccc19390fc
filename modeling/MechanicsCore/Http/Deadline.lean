import MechanicsCore.Library.Exec
import MechanicsCore.Http.Execute

/-! The aggregate timeout of an endpoint call. All attempts and all sleeps between
them draw on one deadline, so the call is over when the deadline comes, whatever
the retry policy decides and however long it wants to wait. -/
namespace MechanicsCore.Http
open MechanicsCore.Library

variable {X : Externals}

/-- The client answers within the timeout of the request it was given. -/
def EndpointHttpClient.Prompt (client : EndpointHttpClient X) : Prop :=
  ∀ history time request ms, request.timeoutMs = some ms →
    (client.execute history time request).2 ≤ ms * nanosPerMilli

/-- The client answers at most `late` nanoseconds after the timeout of the request. -/
def EndpointHttpClient.LateBy (client : EndpointHttpClient X) (late : Nat) : Prop :=
  ∀ history time request ms, request.timeoutMs = some ms →
    (client.execute history time request).2 ≤ ms * nanosPerMilli + late

theorem EndpointHttpClient.Prompt.lateBy {client : EndpointHttpClient X} (prompt : client.Prompt) : client.LateBy 0 :=
  fun history time request ms timeout => Nat.le_add_right_of_le (prompt history time request ms timeout)

/-- The request was given at least a millisecond, and no more than remained. -/
def Sent.InTime (deadline : Nat) (s : Sent X) : Prop :=
  ∃ ms, s.request.timeoutMs = some ms ∧ 1 ≤ ms ∧ ms * nanosPerMilli ≤ deadline - s.issuedAt

/-- The deadline passed no longer than `late` ago, and what was sent since the world
`w₀` was sent in time. -/
def OnTime (w₀ : World X) (deadline late : Nat) (w : World X) : Prop :=
  w.clock ≤ deadline + late ∧ ∃ issued, w.sent = w₀.sent ++ issued ∧ ∀ s ∈ issued, s.InTime deadline

section
variable {w₀ : World X} {deadline late : Nat}

theorem remainingMs_meets : Meets (OnTime w₀ deadline late) (remainingMs (some deadline))
    (fun ms w => OnTime w₀ deadline late w ∧ ∃ left, ms = some left ∧ left * nanosPerMilli ≤ deadline - w.clock)
    fun _ => OnTime w₀ deadline late := by
  intro w onTime
  refine ⟨onTime,_,rfl,?_⟩
  calc min ((deadline - w.clock) / nanosPerMilli) (2^64 - 1) * nanosPerMilli
      ≤ (deadline - w.clock) / nanosPerMilli * nanosPerMilli := Nat.mul_le_mul_right _ (Nat.min_le_left _ _)
    _ ≤ deadline - w.clock := Nat.div_mul_le_self _ _

theorem ofExcept_meets {α : Type} (before : World X → Prop) (e : Except IoError α) :
    Meets before (Http.ofExcept e) (fun a w => before w ∧ e = .ok a) fun _ => before := by
  intro w holds
  cases e with
  | ok a => exact ⟨holds,rfl⟩
  | error error => exact holds

theorem throw_meets {α : Type} {before : World X → Prop} {returns : α → World X → Prop} (error : IoError) :
    Meets before (throw error : Http X α) returns fun _ => before :=
  fun _ holds => holds

theorem now_meets {α : Type} {before : World X → Prop} {f : Nat → Http X α} {returns : α → World X → Prop}
    {throws : IoError → World X → Prop} (each : ∀ w, before w → Meets (fun w' => w' = w) (f w.clock) returns throws) :
    Meets before (now >>= f) returns throws :=
  fun w holds => each w holds w rfl

theorem pause_meets (delay : Nat) : Meets (OnTime w₀ deadline late) (pause (some deadline) delay)
    (fun _ => OnTime w₀ deadline late) fun _ => OnTime w₀ deadline late := by
  intro w onTime
  have slept : (pause (some deadline) delay).run w = .ok () {w with clock := w.clock + min delay (deadline - w.clock)} := by
    unfold pause
    by_cases none : delay = 0
    · simp [none,EStateM.run_pure]
    · by_cases late : deadline - w.clock = 0
      · simp [none,late,remaining,now,EStateM.run_bind]
      · simp [none,late,remaining,now,sleep,EStateM.run_bind]
  rw [slept]
  refine ⟨?_,onTime.2⟩
  have before := onTime.1
  dsimp only
  omega

theorem send_meets {client : EndpointHttpClient X} (lateBy : client.LateBy late) {request : EndpointHttpRequest X}
    {ms : Nat} (timeout : request.timeoutMs = some ms) (positive : 1 ≤ ms) :
    Meets (fun w => OnTime w₀ deadline late w ∧ ms * nanosPerMilli ≤ deadline - w.clock) (client.send request)
      (fun _ => OnTime w₀ deadline late) fun _ => OnTime w₀ deadline late := by
  rintro w ⟨⟨early,issued,sent,inTime⟩,fits⟩
  have quick := lateBy w.sent w.clock request ms timeout
  -- A request that was given time leaves before the deadline, so lateness does not add up.
  have given : 0 < ms * nanosPerMilli := Nat.mul_pos positive (by decide)
  refine ⟨?_,issued ++ [⟨w.clock,request⟩],?_,?_⟩
  · change w.clock + (client.execute w.sent w.clock request).2 ≤ deadline + late
    omega
  · change w.sent ++ [⟨w.clock,request⟩] = _
    rw [sent,List.append_assoc]
  · intro s member
    rcases List.mem_append.mp member with old | new
    · exact inTime s old
    · cases List.mem_singleton.mp new
      exact ⟨ms,timeout,positive,fits⟩

/-- The retry loop stays on time: each attempt gets what remains, each sleep stops at the deadline. -/
theorem attempts_meets {policy : EndpointRetryPolicy} {client : EndpointHttpClient X} (lateBy : client.LateBy late)
    {buildRequest : Option Nat → Except IoError (EndpointHttpRequest X)}
    (carries : ∀ ms request, buildRequest ms = .ok request → request.timeoutMs = ms) (left attempt : Nat) :
    Meets (OnTime w₀ deadline late) (attempts policy client (some deadline) buildRequest left attempt)
      (fun _ => OnTime w₀ deadline late) fun _ => OnTime w₀ deadline late := by
  induction left generalizing attempt with
  | zero => exact fun w onTime => onTime
  | succ left ih =>
    unfold attempts
    refine remainingMs_meets.bind fun attemptTimeoutMs => ?_
    split
    · exact fun w onTime => onTime.1
    · rename_i more
      refine ((ofExcept_meets _ (buildRequest attemptTimeoutMs)).weaken fun _ _ holds => holds.1).bind fun request => ?_
      have sent : Meets (fun w => (OnTime w₀ deadline late w ∧ ∃ ms, attemptTimeoutMs = some ms ∧
          ms * nanosPerMilli ≤ deadline - w.clock) ∧ buildRequest attemptTimeoutMs = .ok request)
          (client.send request) (fun _ => OnTime w₀ deadline late) fun _ => OnTime w₀ deadline late := by
        rintro w ⟨⟨onTime,ms,rfl,fits⟩,built⟩
        have positive : 1 ≤ ms := Nat.one_le_iff_ne_zero.mpr fun zero => more (by rw [zero])
        exact send_meets lateBy (carries _ _ built) positive w ⟨onTime,fits⟩
      refine sent.bind fun outcome => ?_
      cases outcome with
      | ok res =>
        dsimp only
        split
        · exact (pause_meets _).bind fun _ => ih (attempt + 1)
        · exact fun w onTime => onTime
      | error err =>
        dsimp only
        split
        · exact (pause_meets _).bind fun _ => ih (attempt + 1)
        · exact fun w onTime => onTime

end

theorem buildRequest_timeoutMs (endpoint : HttpEndpoint) (options : EndpointCallOptions X) (url : String)
    (headers : HeaderMap X) (responseMaxBytes ms : Option Nat) (request : EndpointHttpRequest X)
    (built : buildRequest endpoint options url headers responseMaxBytes ms = .ok request) :
    request.timeoutMs = ms := by
  unfold buildRequest at built
  cases body : requestBody endpoint options.body with
  | error error => simp [body,bind,Except.bind] at built
  | ok content =>
    simp only [body,bind,Except.bind,pure,Except.pure,Except.ok.injEq] at built
    rw [← built]

theorem execute_meets {endpoint : HttpEndpoint} {client : EndpointHttpClient X} {late : Nat}
    (lateBy : client.LateBy late)
    (prepared : PreparedHttpEndpoint) {defaultTimeoutMs : Option Nat} (defaultResponseMaxBytes : Option Nat)
    (options : EndpointCallOptions X) {w : World X} {deadline : Nat}
    (dated : deadlineFrom X (endpoint.timeoutMs.or defaultTimeoutMs) w.clock = some deadline)
    (later : w.clock ≤ deadline) :
    Meets (fun w' => w' = w)
      (executeEndpoint endpoint client prepared defaultTimeoutMs defaultResponseMaxBytes options)
      (fun _ => OnTime w deadline late) fun _ => OnTime w deadline late := by
  have begins : OnTime w deadline late w := ⟨Nat.le_add_right_of_le later,[],by simp,by simp⟩
  unfold executeEndpoint
  refine ((ofExcept_meets _ _).weaken fun _ w' same => same ▸ begins).bind fun url => ?_
  dsimp only
  refine ((ofExcept_meets _ _).weaken fun _ w' same => same.1 ▸ begins).bind fun headers => ?_
  refine now_meets ?_
  rintro _ ⟨⟨rfl,_⟩,_⟩
  rw [dated]
  refine Meets.bind (fun w' same => attempts_meets lateBy (buildRequest_timeoutMs _ _ _ _ _) _ _ w' (same ▸ begins))
    fun finalResponse => ?_
  cases finalResponse with
  | none => exact throw_meets _
  | some res => exact (ofExcept_meets _ _).mono fun _ _ holds => holds.1

/-- With an effective timeout whose deadline the clock can represent, and a client
that keeps to the timeout of each request, the call is over by the deadline; every
request carries at least a millisecond and at most what then remains, and none is
issued when less than a millisecond remains. -/
theorem aggregate_timeout (endpoint : HttpEndpoint) (client : EndpointHttpClient X) (prepared : PreparedHttpEndpoint)
    (defaultTimeoutMs defaultResponseMaxBytes : Option Nat) (options : EndpointCallOptions X) (w : World X)
    (timeoutMs : Nat) (effective : endpoint.timeoutMs.or defaultTimeoutMs = some timeoutMs)
    (representable : w.clock + timeoutMs * nanosPerMilli < X.instantBound) (prompt : client.Prompt) :
    let deadline := w.clock + timeoutMs * nanosPerMilli
    ∃ w', ((∃ response, (executeEndpoint endpoint client prepared defaultTimeoutMs defaultResponseMaxBytes options).run w =
          .ok response w') ∨
        ∃ error, (executeEndpoint endpoint client prepared defaultTimeoutMs defaultResponseMaxBytes options).run w =
          .error error w') ∧
      w'.clock ≤ deadline ∧ ∃ issued, w'.sent = w.sent ++ issued ∧ ∀ s ∈ issued,
        nanosPerMilli ≤ deadline - s.issuedAt ∧
          ∃ ms, s.request.timeoutMs = some ms ∧ 1 ≤ ms ∧ ms * nanosPerMilli ≤ deadline - s.issuedAt := by
  intro deadline
  have dated : deadlineFrom X (endpoint.timeoutMs.or defaultTimeoutMs) w.clock = some deadline := by
    rw [deadlineFrom,effective,Option.bind_some,if_pos representable]
  have later : w.clock ≤ deadline := Nat.le_add_right _ _
  clear_value deadline
  have meets := execute_meets prompt.lateBy prepared defaultResponseMaxBytes options dated later
  have ends : ∀ w', OnTime w deadline 0 w' → w'.clock ≤ deadline ∧ ∃ issued, w'.sent = w.sent ++ issued ∧ ∀ s ∈ issued,
      nanosPerMilli ≤ deadline - s.issuedAt ∧ ∃ ms, s.request.timeoutMs = some ms ∧
        1 ≤ ms ∧ ms * nanosPerMilli ≤ deadline - s.issuedAt := by
    rintro w' ⟨early,issued,sent,inTime⟩
    rw [Nat.add_zero] at early
    refine ⟨early,issued,sent,fun s member => ?_⟩
    obtain ⟨ms,timeout,positive,fits⟩ := inTime s member
    exact ⟨Nat.le_trans (Nat.le_mul_of_pos_left _ positive) fits,ms,timeout,positive,fits⟩
  cases ran : (executeEndpoint endpoint client prepared defaultTimeoutMs defaultResponseMaxBytes options).run w with
  | ok response w' => exact ⟨w',.inl ⟨response,rfl⟩,ends w' (meets.returned rfl ran)⟩
  | error error w' => exact ⟨w',.inr ⟨error,rfl⟩,ends w' (meets.threw rfl ran)⟩

def textual : Externals where
  Value := String
  HeaderValue := String
  jsonString := id
  fromSlice _ := .error "expected value at line 1 column 1"
  fromUtf8 _ := .error "invalid utf-8 sequence"
  headerName name := .ok name.toLower
  headerValue := .ok
  headerText := id
  parseUrl := .ok
  supportsRequestBody method := method != .get
  methodName _ := "GET"
  instantBound := 2^63

/-- Three milliseconds for up to five attempts, with two milliseconds between them. -/
def unavailable : HttpEndpoint where
  method := .get
  timeoutMs := some 3
  responseMaxBytes := none
  effectiveRequestBodyType := .json
  responseBodyType := .json
  allowNon2xxStatus := false
  retryPolicy := ⟨5,true,true,fun status => status == 503,fun _ _ _ => 2 * nanosPerMilli,fun _ => 0⟩
  buildUrl _ _ := .ok "localhost"
  buildHeaders headers := .ok headers

/-- A client that answers 503 half a millisecond after the request. -/
def busy : EndpointHttpClient textual where
  execute _ _ request :=
    (.ok ⟨503,⟨[]⟩,none,[]⟩,min 500000 (request.timeoutMs.getD 0 * nanosPerMilli))

theorem busy_prompt : busy.Prompt := by
  intro history time request ms timeout
  simp only [busy,timeout,Option.getD_some]
  exact Nat.min_le_right _ _

theorem aggregate_timeout_at_unavailable :
    ∃ w', ((∃ response, (executeEndpoint unavailable busy ⟨[]⟩ none none ⟨[],[],[],.absent⟩).run ⟨0,[]⟩ =
          .ok response w') ∨
        ∃ error, (executeEndpoint unavailable busy ⟨[]⟩ none none ⟨[],[],[],.absent⟩).run ⟨0,[]⟩ = .error error w') ∧
      w'.clock ≤ 3 * nanosPerMilli := by
  obtain ⟨w',ended,early,_⟩ := aggregate_timeout unavailable busy ⟨[]⟩ none none ⟨[],[],[],.absent⟩ ⟨0,[]⟩ 3 rfl
    (by decide) busy_prompt
  exact ⟨w',ended,by simpa using early⟩

end MechanicsCore.Http
