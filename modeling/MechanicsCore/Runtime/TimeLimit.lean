import MechanicsCore.Executor.Overrun
import MechanicsCore.Runtime.Settlement

/-! The execution time limit of a run. A run has two event loops under one deadline, the
one that loads the module and the one that waits for main, and some calls around
them. It ends within the limit and what the calls of one turn and a few more take. -/
namespace MechanicsCore.Runtime
open MechanicsCore.Executor MechanicsCore.Library
variable {T : Types} (E : Engine T)

/-- The part of `evaluateModule` before its event loop. -/
def loadModule (source : String) : Exec T (T.Value × PromiseId) := do
  let module ← performResult (E.parse source)
  let moduleEval ← perform (E.loadLinkEvaluate module)
  return (module,moduleEval)

/-- The part of `evaluateModule` after its event loop. -/
def checkModule (loaded : T.Value × PromiseId) : Exec T T.Value := do
  match (← get).context.promises loaded.2 with
  | .pending => throw (.js (.native .runtimeLimit "Module evaluation promise did not settle"))
  | .rejected reason => throw (.js (.thrown reason))
  | .fulfilled _ =>
    if (← get).pendingUnhandledRejections > 0 then throw (.js (.native .error "Unhandled promise rejection"))
    else return loaded.1

theorem evaluateModule_eq (fuel : Nat) (source : String) :
    evaluateModule E fuel source = loadModule E source >>= fun loaded => runJobs E fuel >>= fun _ => checkModule loaded := by
  simp only [loadModule,bind_assoc,pure_bind]
  rfl

/-- How many jobs each turn of the two loops of a run drains. -/
def runDrains (settings : Settings) (fuel : Nat) (job : MechanicsJob T) (w : World T) : List Nat :=
  match (beginJob E settings job).run w with
  | .ok (.ok _) u =>
    let loading := match (loadModule E job.moduleSource).run u with
      | .ok _ v => turnDrains E (fun _ => false) (pure ()) fuel .new v
      | .error _ _ => []
    let running := match (startMain E fuel job).run u with
      | .ok main v => turnDrains E (mainSettled main) (replyMain E main) fuel .new v
      | .error _ _ => []
    loading ++ running
  | _ => []

variable {E} {clock : T.Heap → Nat} {cost : Nat}

section Calls
variable (costs : E.Costs clock cost)
include costs

theorem mainResult_lasts (main : PromiseId) : Keeps (Lasts clock cost) (fun _ => True) (mainResult E main) := by
  refine lasts_after .get fun w => ?_
  cases w.context.promises main with
  | pending => exact lasts_pure _
  | rejected reason => exact lasts_pure _
  | fulfilled value =>
    have performs : Keeps (Lasts clock cost) (fun _ => True) (perform (E.toJson value)) :=
      (perform_lasts (costs.toJson · value)).mono (fun _ _ lasts => lasts) fun _ _ => trivial
    refine lasts_then performs fun json => ?_
    cases json with
    | ok json => exact .pure _
    | error e => exact .pure _

theorem replyMain_lasts (main : PromiseId) : Keeps (Lasts clock cost) (fun _ => True) (replyMain E main) := by
  refine lasts_then (mainResult_lasts costs main) fun result => ?_
  refine (Keeps.modify fun _ => ⟨rfl,List.prefix_rfl,le_rfl⟩).bind fun _ => ?_
  refine Keeps.get.bind fun w => ?_
  split
  · refine (Keeps.modify fun _ => ⟨rfl,List.prefix_rfl,le_rfl⟩).bind fun _ => ?_
    exact .modify fun _ => ⟨rfl,List.prefix_rfl,le_rfl⟩
  · exact .pure _

theorem stopOnce_lasts (main : PromiseId) (ls : LoopState T) :
    Keeps (Lasts clock cost) (fun _ => True) (stopOnce (mainSettled main) (replyMain E main) ls) := by
  refine lasts_after .get fun w => ?_
  split
  · have records : Keeps (Lasts clock 0) (fun _ => True) (modify (·.record [.stopCalled]) : Exec T PUnit) :=
      .modify fun w => ⟨rfl,.record w _,le_rfl⟩
    split
    · exact lasts_after records fun _ => lasts_then (replyMain_lasts costs main) fun _ => .pure _
    · exact lasts_pure _
  · exact lasts_pure _

theorem loadModule_lasts (source : String) : Keeps (Lasts clock (2 * cost)) InFuel (loadModule E source) := by
  rw [Nat.two_mul]
  refine lasts_bind (performResult_lasts (costs.parse · source)) fun module => ?_
  exact lasts_then (perform_lasts (costs.evaluate · module)) fun _ => .pure _

theorem callMain_lasts (module : T.Value) (arg : T.Json) :
    Keeps (Lasts clock (4 * cost)) InFuel (callMain E module arg) := by
  have total : 4 * cost = cost + (cost + (cost + (cost + 0))) := by omega
  rw [total]
  refine lasts_bind (performResult_lasts (costs.fromJson · arg)) fun arg => ?_
  refine lasts_bind (performResult_lasts (costs.getDefault · module)) fun main => ?_
  cases E.asFunction main with
  | none => exact fun _ => ⟨⟨rfl,List.prefix_rfl,Nat.le_add_right _ _⟩,trivial⟩
  | some main =>
    refine lasts_bind (performResult_lasts (costs.callFunction · main arg)) fun res => ?_
    exact lasts_bind (perform_lasts (costs.resolve · res)) fun _ => .pure _

end Calls

/-- The deadline stands, and it is no later than the limit. -/
structure Until (clock : T.Heap → Nat) (d : JsInstant) (limit : Nat) (w : World T) : Prop where
  deadline : w.queue.deadline = some d
  time : clock w.context.heap ≤ limit

def NoLater (clock : T.Heap → Nat) (limit : Nat) (w : World T) : Prop := clock w.context.heap ≤ limit

theorem Until.later {d : JsInstant} {limit more : Nat} {w : World T} (before : Until clock d limit w) (le : limit ≤ more) :
    Until clock d more w := ⟨before.deadline,before.time.trans le⟩

theorem NoLater.later {limit more : Nat} {w : World T} (early : NoLater clock limit w) (le : limit ≤ more) :
    NoLater clock more w := early.trans le

section Limits
variable {d : JsInstant} {limit nanos : Nat} {α : Type}

theorem lasts_until {faults : Fault T → Prop} {x : Exec T α} (lasts : Keeps (Lasts clock nanos) faults x) :
    Meets (Until clock d limit) x (fun _ => Until clock d (limit + nanos)) fun _ => NoLater clock (limit + nanos) := by
  intro w before
  cases ran : x.run w with
  | ok a v =>
    have after := lasts.returned ran
    exact ⟨after.deadline.trans before.deadline,after.time.trans (Nat.add_le_add_right before.time _)⟩
  | error e v => exact (lasts.threw ran).1.time.trans (Nat.add_le_add_right before.time _)

theorem lasts_noLater {faults : Fault T → Prop} {x : Exec T α} (lasts : Keeps (Lasts clock nanos) faults x) :
    Meets (NoLater clock limit) x (fun _ => NoLater clock (limit + nanos)) fun _ => NoLater clock (limit + nanos) := by
  intro w early
  cases ran : x.run w with
  | ok a v => exact (lasts.returned ran).time.trans (Nat.add_le_add_right early _)
  | error e v => exact (lasts.threw ran).1.time.trans (Nat.add_le_add_right early _)

variable (costs : E.Costs clock cost) {calls fuel : Nat}
include costs

theorem loop_until {shouldStop : World T → Bool} {onStop : Exec T Unit} {stop : Nat}
    (stops : ∀ ls, Keeps (Lasts clock stop) (fun _ => True) (stopOnce shouldStop onStop ls))
    (least : d.nanos + (calls + 3) * cost ≤ limit) :
    Meets (fun w => Until clock d limit w ∧ ∀ n ∈ turnDrains E shouldStop onStop fuel .new w, n ≤ calls)
      (runJobsUntilThenToQuiescence E shouldStop onStop fuel) (fun _ => NoLater clock (limit + 1000000 + stop + cost))
      fun _ => NoLater clock (limit + 1000000 + stop + cost) := by
  rintro w ⟨before,brief⟩
  have ends := turns_end costs stops fuel .new w before.deadline before.time least brief
  rw [runJobsUntilThenToQuiescence]
  cases ran : (turns E shouldStop onStop fuel .new).run w with
  | ok exit v => rwa [ran] at ends
  | error fault v => rwa [ran] at ends

theorem runJobs_until (least : d.nanos + (calls + 3) * cost ≤ limit) :
    Meets (fun w => Until clock d limit w ∧ ∀ n ∈ turnDrains E (fun _ => false) (pure ()) fuel .new w, n ≤ calls)
      (runJobs E fuel) (fun _ => Until clock d (limit + 1000000 + cost))
      fun _ => NoLater clock (limit + 1000000 + cost) := by
  have stops (ls : LoopState T) : Keeps (Lasts clock 0) (fun _ => True) (stopOnce (fun _ => false) (pure ()) ls) :=
    (Covers.stopNever (pure ()) ls).mono (fun _ _ kept => kept) fun _ _ => trivial
  have times : Meets (fun w => Until clock d limit w ∧ ∀ n ∈ turnDrains E (fun _ => false) (pure ()) fuel .new w, n ≤ calls)
      (runJobs E fuel) (fun _ => NoLater clock (limit + 1000000 + cost))
      fun _ => NoLater clock (limit + 1000000 + cost) := by
    refine (loop_until costs stops least).bind fun exit => ?_
    cases exit <;> exact fun _ late => late
  refine Meets.each fun w before => (times.starting before).remembers.mono fun _ v after => ?_
  exact ⟨(((Steps.covers E).runJobs fuel).returned after.2).quiet.deadline.trans before.1.deadline,after.1⟩

/-- Main has been called within a millisecond and seven calls. -/
theorem startMain_until {job : MechanicsJob T} {u : World T} (before : Until clock d limit u)
    (least : d.nanos + (calls + 3) * cost ≤ limit + 2 * cost)
    (brief : ∀ loaded v, (loadModule E job.moduleSource).run u = .ok loaded v →
      ∀ n ∈ turnDrains E (fun _ => false) (pure ()) fuel .new v, n ≤ calls) :
    Meets (· = u) (startMain E fuel job) (fun _ => Until clock d (limit + 1000000 + 7 * cost))
      fun _ => NoLater clock (limit + 1000000 + 7 * cost) := by
  have loads : Meets (· = u) (loadModule E job.moduleSource)
      (fun _ v => Until clock d (limit + 2 * cost) v ∧ ∀ n ∈ turnDrains E (fun _ => false) (pure ()) fuel .new v, n ≤ calls)
      fun _ => NoLater clock (limit + 2 * cost) :=
    (((lasts_until (loadModule_lasts costs job.moduleSource)).starting before).remembers).mono
      fun loaded v after => ⟨after.1,brief loaded v after.2⟩
  rw [startMain,evaluateModule_eq,bind_assoc]
  refine (loads.weaken fun _ _ early => early.later (by omega)).bind fun loaded => ?_
  rw [bind_assoc]
  refine ((runJobs_until costs least).weaken fun _ _ early => early.later (by omega)).bind fun _ => ?_
  have checks : Keeps (Lasts clock 0) (fun _ => True) (checkModule loaded : Exec T T.Value) := by
    refine Keeps.get.bind fun w => ?_
    cases w.context.promises loaded.2 with
    | pending => exact .throw trivial
    | rejected reason => exact .throw trivial
    | fulfilled value =>
      refine Keeps.get.bind fun w => ?_
      split
      · exact .throw trivial
      · exact .pure _
  refine ((lasts_until checks).weaken fun _ _ early => early.later (by omega)).bind fun module => ?_
  have total : limit + 2 * cost + 1000000 + cost + 0 + 4 * cost = limit + 1000000 + 7 * cost := by omega
  rw [← total]
  exact lasts_until (callMain_lasts costs module job.arg)

/-- A run makes its deadline from its first look at the clock, in whole milliseconds. -/
theorem computeDeadline_until (maxExecutionTime start : Nat) :
    Meets (NoLater clock start) (computeDeadline E maxExecutionTime)
      (fun deadline w => NoLater clock (start + cost) w ∧ ∀ d, deadline = .ok d → d.nanos ≤ start + cost + maxExecutionTime)
      fun _ _ => False := by
  have reads : Meets (NoLater clock start) (clockNow E)
      (fun now w => NoLater clock (start + cost) w ∧ now.nanos ≤ start + cost) fun _ _ => False := by
    intro w early
    have late : clock (E.now w.context).2 ≤ start + cost := (costs.now w.context).trans (Nat.add_le_add_right early _)
    exact ⟨late,(costs.reads w.context).trans_le late⟩
  refine reads.bind fun now => ?_
  rintro w ⟨early,reading⟩
  by_cases fits : now.millisSinceEpoch + maxExecutionTime / 1000000 < 2^64
  · simp only [fits]
    refine ⟨early,fun d same => ?_⟩
    cases same
    have down : now.millisSinceEpoch = now.nanos / 1000000 := rfl
    change (now.millisSinceEpoch + _) / 1000 * 1000000000 + (now.millisSinceEpoch + _) % 1000 * 1000000 ≤ _
    omega
  · simp only [fits]
    exact ⟨early,fun d same => by contradiction⟩

theorem enterJob_until (settings : Settings) (state : MechanicsState T) (deadline : JsInstant) (realm : Realm)
    (start : Nat) :
    Meets (NoLater clock start) (enterJob E settings state deadline realm) (fun _ => Until clock deadline (start + cost))
      fun _ => NoLater clock (start + cost) := by
  have enters : Meets (NoLater clock start) (enterRealm realm : Exec T Realm) (fun _ => NoLater clock start)
      fun _ => NoLater clock (start + cost) := fun _ early => early
  have bundles : Meets (NoLater clock start) (perform E.bundleBuiltinModules) (fun _ => NoLater clock (start + cost))
      fun _ => NoLater clock (start + cost) := lasts_noLater (perform_lasts costs.bundle)
  exact enters.bind fun _ => bundles.bind fun _ => fun _ early => ⟨rfl,early⟩

theorem beginJob_until (settings : Settings) (job : MechanicsJob T) (start : Nat) :
    Meets (NoLater clock start) (beginJob E settings job)
      (fun begun w => NoLater clock (start + 3 * cost) w ∧ ∀ previous, begun = .ok previous →
        ∃ d, Until clock d (start + 3 * cost) w ∧ d.nanos ≤ start + cost + settings.executionLimits.maxExecutionTime)
      fun _ => NoLater clock (start + 3 * cost) := by
  have clears : Meets (NoLater clock start) (clearRejections : Exec T Unit) (fun _ => NoLater clock start)
      fun _ => NoLater clock (start + 3 * cost) := fun _ early => early
  have creates : Meets (NoLater clock (start + cost)) (createRealm E) (fun _ => NoLater clock (start + cost + cost))
      fun _ => NoLater clock (start + 3 * cost) :=
    fun w early => (costs.createRealm w.context).trans (Nat.add_le_add_right early _)
  have total : start + cost + cost + cost = start + 3 * cost := by omega
  refine clears.bind fun _ => ?_
  cases prepareEndpoints E job.config with
  | error err => exact fun w early => ⟨early.later (by omega),by rintro previous ⟨⟩⟩
  | ok prepared =>
    refine ((computeDeadline_until costs _ start).weaken fun _ _ never => never.elim).bind fun deadline => ?_
    refine Meets.given fun within => ?_
    cases deadline with
    | error e => exact fun w early => ⟨early.later (by omega),by rintro previous ⟨⟩⟩
    | ok d =>
      refine creates.bind fun realm => ?_
      cases realm with
      | error e => exact fun w early => ⟨early.later (by omega),by rintro previous ⟨⟩⟩
      | ok realm =>
        have enters := enterJob_until costs settings
          ⟨job.config,settings.defaultEndpointTimeoutMs,settings.defaultEndpointResponseMaxBytes,prepared⟩ d realm
          (start + cost + cost)
        rw [total] at enters
        exact enters.bind fun _ => fun w before => ⟨before.time,fun _ _ => ⟨d,before,within d rfl⟩⟩

/-- A script has ended within a millisecond for each loop and nine calls. -/
theorem script_until {job : MechanicsJob T} {u : World T} (before : Until clock d limit u)
    (least : d.nanos + (calls + 3) * cost ≤ limit + 2 * cost)
    (loading : ∀ loaded v, (loadModule E job.moduleSource).run u = .ok loaded v →
      ∀ n ∈ turnDrains E (fun _ => false) (pure ()) fuel .new v, n ≤ calls)
    (running : ∀ main v, (startMain E fuel job).run u = .ok main v →
      ∀ n ∈ turnDrains E (mainSettled main) (replyMain E main) fuel .new v, n ≤ calls) :
    Meets (· = u) (script E fuel job) (fun _ => NoLater clock (limit + 2000000 + 9 * cost))
      fun _ => NoLater clock (limit + 2000000 + 9 * cost) := by
  have starts := (startMain_until costs before least loading).remembers.mono
    fun main v after => (⟨after.1,running main v after.2⟩ : _ ∧ _)
  refine (starts.weaken fun _ _ early => early.later (by omega)).bind fun main => ?_
  have total : limit + 1000000 + 7 * cost + 1000000 + cost + cost = limit + 2000000 + 9 * cost := by omega
  rw [← total]
  refine (loop_until costs (stopOnce_lasts costs main) (by omega)).bind fun exit => Meets.get_bind fun w => ?_
  split
  · exact fun _ early => early
  · exact fun _ early => early

end Limits

section Run
variable {settings : Settings} {fuel : Nat} {job : MechanicsJob T} {previous : Realm} {u w : World T} {n : Nat}

theorem loading_drains (begun : (beginJob E settings job).run w = .ok (.ok previous) u) {loaded : T.Value × PromiseId}
    {v : World T} (ran : (loadModule E job.moduleSource).run u = .ok loaded v)
    (turn : n ∈ turnDrains E (fun _ => false) (pure ()) fuel .new v) : n ∈ runDrains E settings fuel job w := by
  simp only [runDrains,begun,ran]
  exact List.mem_append_left _ turn

theorem running_drains (begun : (beginJob E settings job).run w = .ok (.ok previous) u) {main : PromiseId}
    {v : World T} (ran : (startMain E fuel job).run u = .ok main v)
    (turn : n ∈ turnDrains E (mainSettled main) (replyMain E main) fuel .new v) : n ∈ runDrains E settings fuel job w := by
  simp only [runDrains,begun,ran]
  exact List.mem_append_right _ turn

end Run

/-- However a run ends, it does so within its execution time limit, two milliseconds, and
what the calls of one turn and twelve more take. -/
theorem run_keeps_its_time_limit (costs : E.Costs clock cost) (settings : Settings) (fuel : Nat) (job : MechanicsJob T)
    (w : World T) (calls : Nat) (brief : ∀ n ∈ runDrains E settings fuel job w, n ≤ calls) :
    clock (stateAfter ((runSourceWithEarlyReply E settings fuel job).run w)).context.heap ≤
      clock w.context.heap + settings.executionLimits.maxExecutionTime + 2000000 + (calls + 12) * cost := by
  obtain ⟨limit,limit_eq⟩ : ∃ limit, limit =
      clock w.context.heap + settings.executionLimits.maxExecutionTime + (calls + 3) * cost := ⟨_,rfl⟩
  have sum : (calls + 12) * cost = (calls + 3) * cost + 9 * cost := by rw [← Nat.add_mul]
  have total : clock w.context.heap + settings.executionLimits.maxExecutionTime + 2000000 + (calls + 12) * cost =
      limit + 2000000 + 9 * cost := by omega
  have three : 3 * cost ≤ (calls + 3) * cost := Nat.mul_le_mul_right _ (Nat.le_add_left _ _)
  have begins := ((beginJob_until costs settings job (clock w.context.heap)).starting le_rfl).remembers
  have whole : Meets (· = w) (runSourceWithEarlyReply E settings fuel job)
      (fun _ => NoLater clock (limit + 2000000 + 9 * cost)) fun _ => NoLater clock (limit + 2000000 + 9 * cost) := by
    refine (begins.weaken fun _ _ early => early.later (by omega)).bind fun begun => ?_
    cases begun with
    | error err => exact fun u after => after.1.1.later (by omega)
    | ok previous =>
      refine Meets.each fun u ⟨⟨_,entered⟩,begun⟩ => ?_
      obtain ⟨d,before,least⟩ := entered previous rfl
      -- Both loops run under `d`, so one limit serves them: a turn that begins before `d` ends by it.
      have soon : Until clock d limit u := before.later (by omega)
      have scripts := script_until costs soon (by omega)
        (fun _ _ ran n turn => brief n (loading_drains begun ran turn))
        (fun _ _ ran n turn => brief n (running_drains begun ran turn))
      exact (runScript_after scripts).bind fun result => fun _ early => early
  rw [total]
  exact whole.after rfl

/-- Main's promise is `5`. A promise job takes a nanosecond, then an async job settles
main as the budget of the wait runs out. -/
def drainsFirst : Engine plain :=
  {settlesLate with
    callFunction := fun _ _ c =>
      .plain c [.enqueue (.promiseJob 1) (.ofNanos c.heap),.enqueue (.asyncJob 1) (.ofNanos c.heap)] (.ok 5)
    call := fun _ _ c => ⟨[],c.heap + 1,some (.ok ())⟩}

theorem drainsFirst_costs : drainsFirst.Costs (fun heap => (JsInstant.ofNanos heap).nanos) 1 := by
  have moves (h k b : Nat) : min (h + k) b ≤ min h b + k := by omega
  have still (h b : Nat) : min h b ≤ min h b + 1 := Nat.le_add_right _ _
  constructor
  case reads => exact fun _ => rfl
  case call => exact fun c _ _ => moves c.heap 1 _
  case next =>
    intro c group budget
    cases group with
    | nil => exact (Nat.le_add_right _ _).trans (Nat.le_add_right _ _)
    | cons job rest => exact (moves c.heap (budget * 1000000) _).trans (Nat.le_add_right _ _)
  case sleep => exact fun c d => (moves c.heap (d * 1000000) _).trans (Nat.le_add_right _ _)
  case yieldNow => exact fun c => moves c.heap 1 _
  all_goals
    intros
    exact still _ _

/-- The run drains a job and waits for another up to its deadline. -/
theorem run_keeps_its_time_limit_at_drainsFirst :
    1 ∈ runDrains drainsFirst oneSecond 5 anyJob (.new 0) ∧
    (∀ n ∈ runDrains drainsFirst oneSecond 5 anyJob (.new 0), n ≤ 1) ∧
    (JsInstant.ofNanos
        (stateAfter ((runSourceWithEarlyReply drainsFirst oneSecond 5 anyJob).run (.new 0))).context.heap).nanos ≤
      (JsInstant.ofNanos 0).nanos + oneSecond.executionLimits.maxExecutionTime + 2000000 + (1 + 12) * 1 := by
  have drained : 1 ∈ runDrains drainsFirst oneSecond 5 anyJob (.new 0) ∧
      ∀ n ∈ runDrains drainsFirst oneSecond 5 anyJob (.new 0), n ≤ 1 := by decide +kernel
  exact ⟨drained.1,drained.2,run_keeps_its_time_limit drainsFirst_costs oneSecond 5 anyJob (.new 0) 1 drained.2⟩

end MechanicsCore.Runtime
