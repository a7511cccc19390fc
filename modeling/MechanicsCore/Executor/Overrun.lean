import MechanicsCore.Executor.Progress
import MechanicsCore.Executor.Service

/-! How late the event loop may end. The loop looks at the deadline before and after it
waits, never in a turn's drain. With a bound on what each call into the engine takes,
a loop with a deadline ends within a millisecond and the calls of one turn of it. -/
namespace MechanicsCore.Executor
open MechanicsCore.Library
variable {T : Types}

/-- Readings show the clock, and a call into the engine takes at most `cost` nanoseconds
besides the wait it is asked for. -/
structure Engine.Costs (E : Engine T) (clock : T.Heap → Nat) (cost : Nat) : Prop where
  reads : ∀ c, (E.now c).1.nanos = clock (E.now c).2
  now : ∀ c, clock (E.now c).2 ≤ clock c.heap + cost
  call : ∀ c kind job, clock (E.call kind job c).heap ≤ clock c.heap + cost
  next : ∀ c group budget, clock (E.next group (some budget) c).heap ≤ clock c.heap + budget * 1000000 + cost
  sleep : ∀ c d, clock (E.sleep d c) ≤ clock c.heap + d * 1000000 + cost
  yieldNow : ∀ c, clock (E.yieldNow c) ≤ clock c.heap + cost
  clearKeptObjects : ∀ c, clock (E.clearKeptObjects c) ≤ clock c.heap + cost
  createRealm : ∀ c, clock (E.createRealm c).2 ≤ clock c.heap + cost
  bundle : ∀ c, clock (E.bundleBuiltinModules c).heap ≤ clock c.heap + cost
  parse : ∀ c source, clock (E.parse source c).heap ≤ clock c.heap + cost
  evaluate : ∀ c module, clock (E.loadLinkEvaluate module c).heap ≤ clock c.heap + cost
  fromJson : ∀ c json, clock (E.fromJson json c).heap ≤ clock c.heap + cost
  getDefault : ∀ c module, clock (E.getDefault module c).heap ≤ clock c.heap + cost
  callFunction : ∀ c f arg, clock (E.callFunction f arg c).heap ≤ clock c.heap + cost
  resolve : ∀ c value, clock (E.resolve value c).heap ≤ clock c.heap + cost
  toJson : ∀ c value, clock (E.toJson value c).heap ≤ clock c.heap + cost

/-- The jobs that a drain calls. -/
def Queued.drained? {J : Type} : Queued J → Option Unit
  | .async _ => none
  | _ => some ()

def drains (w : World T) : Nat := callsOf Queued.drained? w

/-- At most `nanos` pass, and the deadline stays. -/
structure Lasts (clock : T.Heap → Nat) (nanos : Nat) (w w' : World T) : Prop where
  deadline : w'.queue.deadline = w.queue.deadline
  logs : Appends w w'
  time : clock w'.context.heap ≤ clock w.context.heap + nanos

/-- It is no later than `limit` and what the calls after the first `n` took, at a rate. -/
structure By (clock : T.Heap → Nat) (rate : Nat) (d : JsInstant) (n limit : Nat) (w : World T) : Prop where
  deadline : w.queue.deadline = some d
  calls : n ≤ drains w
  time : clock w.context.heap + rate * n ≤ limit + rate * drains w

/-- The deadline has not been seen. -/
structure Ahead (clock : T.Heap → Nat) (d : JsInstant) (n : Nat) (w : World T) : Prop where
  deadline : w.queue.deadline = some d
  calls : n ≤ drains w
  time : clock w.context.heap < d.nanos

section Times
variable {E : Engine T} {clock : T.Heap → Nat} {rate cost : Nat} {d : JsInstant} {n limit nanos : Nat} {w w' : World T}

theorem Lasts.longer {more : Nat} (lasts : Lasts clock nanos w w') (le : nanos ≤ more) : Lasts clock more w w' :=
  ⟨lasts.deadline,lasts.logs,lasts.time.trans (Nat.add_le_add_left le _)⟩

theorem lasts_bind {α β : Type} {more : Nat} {faults : Fault T → Prop} {x : Exec T α} {f : α → Exec T β}
    (first : Keeps (Lasts clock nanos) faults x) (second : ∀ a, Keeps (Lasts clock more) faults (f a)) :
    Keeps (Lasts clock (nanos + more)) faults (x >>= f) := by
  have both {a b c : World T} (one : Lasts clock nanos a b) (two : Lasts clock more b c) : Lasts clock (nanos + more) a c :=
    ⟨two.deadline.trans one.deadline,one.logs.trans two.logs,two.time.trans (by have time := one.time; omega)⟩
  intro w
  rw [EStateM.run_bind]
  cases ran : x.run w with
  | error e v =>
    obtain ⟨lasts,allowed⟩ := first.threw ran
    exact ⟨lasts.longer (Nat.le_add_right _ _),allowed⟩
  | ok a v =>
    have lasts := first.returned ran
    dsimp only
    cases after : (f a).run v with
    | ok b u => exact both lasts ((second a).returned after)
    | error e u =>
      obtain ⟨later,allowed⟩ := (second a).threw after
      exact ⟨both lasts later,allowed⟩

theorem lasts_then {α β : Type} {faults : Fault T → Prop} {x : Exec T α} {f : α → Exec T β}
    (first : Keeps (Lasts clock nanos) faults x) (second : ∀ a, Keeps (Lasts clock 0) faults (f a)) :
    Keeps (Lasts clock nanos) faults (x >>= f) := lasts_bind first second

theorem lasts_after {α β : Type} {faults : Fault T → Prop} {x : Exec T α} {f : α → Exec T β}
    (first : Keeps (Lasts clock 0) faults x) (second : ∀ a, Keeps (Lasts clock nanos) faults (f a)) :
    Keeps (Lasts clock nanos) faults (x >>= f) := by
  have both := lasts_bind first second
  rwa [Nat.zero_add] at both

theorem lasts_pure {α : Type} {faults : Fault T → Prop} (a : α) : Keeps (Lasts clock nanos) faults (pure a : Exec T α) :=
  fun _ => ⟨rfl,List.prefix_rfl,Nat.le_add_right _ _⟩

instance : Std.Refl (Lasts (T := T) clock 0) := ⟨fun _ => ⟨rfl,List.prefix_rfl,le_rfl⟩⟩
instance : IsTrans (World T) (Lasts clock 0) :=
  ⟨fun _ _ _ one two => ⟨two.deadline.trans one.deadline,one.logs.trans two.logs,two.time.trans one.time⟩⟩

theorem By.later {limit' : Nat} (by' : By clock rate d n limit w) (le : limit ≤ limit') : By clock rate d n limit' w :=
  ⟨by'.deadline,by'.calls,by'.time.trans (Nat.add_le_add_right le _)⟩

theorem By.lasts (by' : By clock rate d n limit w) (lasts : Lasts clock nanos w w') :
    By clock rate d n (limit + nanos) w' := by
  have calls : drains w ≤ drains w' := lasts.logs.callsOf_le _
  refine ⟨lasts.deadline.trans by'.deadline,by'.calls.trans calls,?_⟩
  have time := by'.time
  have passes := lasts.time
  have more := Nat.mul_le_mul_left rate calls
  omega

theorem Ahead.by (ahead : Ahead clock d n w) : By clock rate d n d.nanos w := by
  refine ⟨ahead.deadline,ahead.calls,?_⟩
  have time := ahead.time
  have more := Nat.mul_le_mul_left rate ahead.calls
  omega

theorem Ahead.lasts (ahead : Ahead clock d n w) (lasts : Lasts clock 0 w w') : Ahead clock d n w' :=
  ⟨lasts.deadline.trans ahead.deadline,ahead.calls.trans (lasts.logs.callsOf_le _),lasts.time.trans_lt ahead.time⟩

/-- When a stretch of the loop is over, by the number of its calls. -/
theorem By.ends (calls : Nat) (by' : By clock cost d n limit w) (few : drains w ≤ n + calls) :
    clock w.context.heap ≤ limit + calls * cost := by
  have time := by'.time
  have more := Nat.mul_le_mul_left cost few
  rw [Nat.mul_add] at more
  rw [Nat.mul_comm calls]
  omega

theorem lasts_meets {α : Type} {faults : Fault T → Prop} {x : Exec T α} (lasts : Keeps (Lasts clock nanos) faults x) :
    Meets (By clock rate d n limit) x (fun _ => By clock rate d n (limit + nanos))
      fun _ => By clock rate d n (limit + nanos) := by
  intro w before
  cases ran : x.run w with
  | ok a w' => exact before.lasts (lasts.returned ran)
  | error e w' => exact before.lasts (lasts.threw ran).1

theorem call_meets {job : Queued T.Job} (own : job.drained? = some ()) {rest : Exec T Unit} {faults : Fault T → Prop}
    (lasts : Keeps (Lasts clock cost) faults rest) :
    Meets (By clock cost d n limit) (do modify (·.record [.called job]); rest) (fun _ => By clock cost d n limit)
      fun _ => By clock cost d n limit := by
  -- The log pays for the call before it is made.
  have recorded : Meets (By clock cost d n limit) (modify (·.record [.called job]) : Exec T PUnit)
      (fun _ w => w.queue.deadline = some d ∧ n ≤ drains w ∧
        clock w.context.heap + cost + cost * n ≤ limit + cost * drains w) fun _ => By clock cost d n limit := by
    intro w before
    have one : calledIn Queued.drained? [Event.called job] = [()] := by simp [calledIn,own]
    have more : drains (w.record [.called job]) = drains w + 1 := by
      change (calledIn Queued.drained? (w.log ++ [.called job])).length = _
      rw [calledIn_append,one,List.length_append]
      rfl
    have time := before.time
    refine ⟨before.deadline,before.calls.trans (more ▸ Nat.le_succ _),?_⟩
    change clock w.context.heap + cost + cost * n ≤ limit + cost * drains (w.record [.called job])
    rw [more,Nat.mul_add,Nat.mul_one]
    omega
  refine recorded.bind fun _ => ?_
  rintro w ⟨deadline,calls,time⟩
  have after {w' : World T} (lasts : Lasts clock cost w w') : By clock cost d n limit w' := by
    have logs : drains w ≤ drains w' := lasts.logs.callsOf_le _
    have more := Nat.mul_le_mul_left cost logs
    have passes := lasts.time
    exact ⟨lasts.deadline.trans deadline,calls.trans logs,by omega⟩
  cases ran : rest.run w with
  | ok a w' => exact after (lasts.returned ran)
  | error e w' => exact after (lasts.threw ran).1

theorem perform_lasts {α : Type} {effect : Context T → Effect T α}
    (time : ∀ c, clock (effect c).heap ≤ clock c.heap + nanos) : Keeps (Lasts clock nanos) InFuel (perform effect) := by
  intro w
  have lasts : Lasts clock nanos w (w.apply (effect w.context)) := by
    refine ⟨(Quiet.acts _ (w.setHeap _)).deadline,Appends.acts (w.setHeap (effect w.context).heap) _,?_⟩
    rw [World.apply,World.acts_heap]
    exact time w.context
  rw [perform_run]
  cases (effect w.context).outcome with
  | none => exact ⟨lasts,trivial⟩
  | some a => exact lasts

theorem performResult_lasts {α : Type} {effect : Context T → Effect T (JsResult T.Value α)}
    (time : ∀ c, clock (effect c).heap ≤ clock c.heap + nanos) :
    Keeps (Lasts clock nanos) InFuel (performResult effect) := by
  intro w
  have performed := perform_lasts time w
  rw [performResult,EStateM.run_bind]
  cases ran : (perform effect).run w with
  | error fault v =>
    rw [ran] at performed
    exact performed
  | ok result v =>
    rw [ran] at performed
    cases result with
    | ok a => exact performed
    | error e => exact ⟨performed,trivial⟩

variable (costs : E.Costs clock cost)
include costs

theorem clockNow_lasts : Keeps (Lasts clock cost) InFuel (clockNow E) :=
  fun w => ⟨rfl,List.prefix_rfl,costs.now w.context⟩

theorem callGeneric_meets (job : GenericJob T.Job) :
    Meets (By clock cost d n limit) (callGeneric E job) (fun _ => By clock cost d n limit)
      fun _ => By clock cost d n limit := by
  have fails (e : JsError T.Value) : Keeps (Lasts clock cost) InFuel (throw (.js e) : Exec T Unit) :=
    fun w => ⟨⟨rfl,List.prefix_rfl,Nat.le_add_right _ _⟩,trivial⟩
  cases job with
  | body job => exact call_meets rfl (performResult_lasts (costs.call · .generic job))
  | delayTooLarge => exact call_meets rfl (fails _)
  | unsupported message => exact call_meets rfl (fails _)

theorem drainTimeoutJobs_meets : Meets (By clock cost d n limit) (drainTimeoutJobs E)
    (fun _ => By clock cost d n (limit + cost)) fun _ => By clock cost d n (limit + cost) := by
  refine (lasts_meets (clockNow_lasts costs)).bind fun now => ?_
  have taken : Keeps (Lasts clock 0) InFuel (takeDueTimeouts E now) := by
    apply Keeps.modifyGet
    intro w
    exact ⟨rfl,.record w _,le_rfl⟩
  refine (lasts_meets taken).bind fun due => ?_
  exact Meets.forM (fun _ => By clock cost d n (limit + cost))
    (fun job _ => call_meets rfl (performResult_lasts (costs.call · .timeout job))) due

theorem drainGenericJob_meets : Meets (By clock cost d n limit) (drainGenericJob E) (fun _ => By clock cost d n limit)
    fun _ => By clock cost d n limit := by
  have popped : Keeps (Lasts clock 0) InFuel (popGeneric : Exec T _) :=
    .modifyGet fun w => ⟨rfl,List.prefix_rfl,le_rfl⟩
  refine (lasts_meets popped).bind fun job => ?_
  cases job with
  | some job => exact callGeneric_meets costs job
  | none => exact fun _ before => before

theorem drainPromiseJobs_meets : Meets (By clock cost d n limit) (drainPromiseJobs E)
    (fun _ => By clock cost d n limit) fun _ => By clock cost d n limit := by
  have taken : Keeps (Lasts clock 0) InFuel (takePromiseJobs : Exec T _) :=
    .modifyGet fun w => ⟨rfl,List.prefix_rfl,le_rfl⟩
  refine (lasts_meets taken).bind fun jobs => ?_
  exact Meets.forM (fun _ => By clock cost d n limit)
    (fun job _ => call_meets rfl (performResult_lasts (costs.call · .promise job))) jobs

/-- The drain looks at the clock once. -/
theorem drainJobs_meets : Meets (By clock cost d n limit) (drainJobs E) (fun _ => By clock cost d n (limit + 2 * cost))
    fun _ => By clock cost d n (limit + 2 * cost) := by
  have soon (w : World T) (by' : By clock cost d n (limit + cost) w) : By clock cost d n (limit + 2 * cost) w :=
    by'.later (by omega)
  refine ((drainTimeoutJobs_meets costs).weaken fun _ => soon).bind fun _ => ?_
  refine ((drainGenericJob_meets costs).weaken fun _ => soon).bind fun _ => ?_
  refine ((drainPromiseJobs_meets costs).weaken fun _ => soon).bind fun _ => ?_
  intro w before
  have lasts : Lasts clock cost w (w.setHeap (E.clearKeptObjects w.context)) :=
    ⟨rfl,List.prefix_rfl,costs.clearKeptObjects w.context⟩
  exact (before.lasts lasts).later (by omega)

/-- What the two checks of a turn find out. -/
theorem checkDeadline_meets (ls : LoopState T) : Meets (By clock 0 d n limit) (checkDeadline E ls)
    (fun next w => match next with
      | .inl _ => Ahead clock d n w
      | .inr _ => By clock 0 d n (limit + cost) w)
    fun _ => By clock 0 d n (limit + cost) := by
  intro w before
  have reading : (deadlineExceeded E).run w =
      .ok (decide (d ≤ (E.now w.context).1)) (w.setHeap (E.now w.context).2) := by
    rw [deadlineExceeded,EStateM.run_bind,EStateM.run_get]
    dsimp only
    rw [before.deadline]
    rfl
  have after := before.lasts ((clockNow_lasts costs).returned (s := w) rfl)
  rw [checkDeadline,EStateM.run_bind,reading]
  dsimp only
  by_cases late : d ≤ (E.now w.context).1
  · rw [decide_eq_true late]
    exact after
  · rw [decide_eq_false late]
    have early : (E.now w.context).1.nanos < d.nanos := not_le.mp late
    rw [costs.reads] at early
    exact ⟨after.deadline,after.calls,early⟩

omit costs in
/-- A wait in whole milliseconds up to the deadline ends less than one after it. -/
theorem By.waits {now : JsInstant} {millis : Nat} (before : By clock 0 d n (d.nanos + cost) w)
    (reading : now.nanos = clock w.context.heap) (least : millis ≤ millisUntilOrZero d now)
    (lasts : Lasts clock (millis * 1000000 + cost) w w') : By clock 0 d n (d.nanos + 1000000 + 2 * cost) w' := by
  have calls : drains w ≤ drains w' := lasts.logs.callsOf_le _
  have ends : now.nanos + millis * 1000000 ≤ max now.nanos (d.nanos + 1000000) := by
    unfold millisUntilOrZero JsInstant.millisSinceEpoch at least
    omega
  have time := before.time
  have passes := lasts.time
  exact ⟨lasts.deadline.trans before.deadline,before.calls.trans calls,by omega⟩

theorem clockNow_reads : Meets (Ahead clock d n) (clockNow E)
    (fun now w => By clock 0 d n (d.nanos + cost) w ∧ now.nanos = clock w.context.heap) fun _ _ => False :=
  fun w ahead => ⟨ahead.by.lasts ((clockNow_lasts costs).returned (s := w) rfl),costs.reads w.context⟩

omit costs in
theorem sleepDuration_le {q : Queue T.Job} {due now : JsInstant} (deadline : q.deadline = some d) :
    sleepDuration q due now ≤ millisUntilOrZero d now := by
  unfold sleepDuration
  split
  · exact Nat.zero_le _
  · simp only [deadline]
    split
    · simp
    · exact Nat.min_le_right _ _

omit costs in
theorem waitBudget_le {q : Queue T.Job} (now : JsInstant) (deadline : q.deadline = some d) :
    ∃ budget, waitBudget q now = some budget ∧ budget ≤ millisUntilOrZero d now := by
  unfold waitBudget
  rw [deadline]
  cases q.nextTimeoutAt with
  | none => exact ⟨_,rfl,le_rfl⟩
  | some due => exact ⟨_,rfl,Nat.min_le_right _ _⟩

theorem sleepForTimer_meets : Meets (Ahead clock d n) (sleepForTimer E)
    (fun _ => By clock 0 d n (d.nanos + 1000000 + 2 * cost))
    fun _ => By clock 0 d n (d.nanos + 1000000 + 2 * cost) := by
  have soon {w : World T} (by' : By clock 0 d n (d.nanos + cost) w) :
      By clock 0 d n (d.nanos + 1000000 + 2 * cost) w := by'.later (by omega)
  refine Meets.read_bind fun w ahead => ?_
  have still : Meets (· = w) (pure () : Exec T Unit) (fun _ => By clock 0 d n (d.nanos + 1000000 + 2 * cost))
      fun _ => By clock 0 d n (d.nanos + 1000000 + 2 * cost) :=
    fun v same => soon ((same ▸ ahead.by).later (Nat.le_add_right _ _))
  dsimp only
  split
  · cases w.queue.nextTimeoutAt with
    | none => exact still
    | some due =>
      have reads : Meets (· = w) (clockNow E)
          (fun now v => By clock 0 d n (d.nanos + cost) v ∧ now.nanos = clock v.context.heap)
          fun _ => By clock 0 d n (d.nanos + 1000000 + 2 * cost) := by
        intro v same
        exact (clockNow_reads costs) v (same ▸ ahead)
      refine reads.bind fun now => ?_
      split
      · rintro v ⟨by',reading⟩
        have lasts : Lasts clock (sleepDuration w.queue due now * 1000000 + cost) v
            (v.setHeap (E.sleep (sleepDuration w.queue due now) v.context)) :=
          ⟨rfl,List.prefix_rfl,(costs.sleep v.context _).trans (by omega)⟩
        exact by'.waits reading (sleepDuration_le ahead.deadline) lasts
      · exact fun v read => soon read.1
  · exact still

theorem pollGroup_meets (ls : LoopState T) : Meets (Ahead clock d n) (pollGroup E ls)
    (fun _ => By clock 0 d n (d.nanos + 1000000 + 2 * cost))
    fun _ => By clock 0 d n (d.nanos + 1000000 + 2 * cost) := by
  refine ((clockNow_reads costs).weaken fun _ _ never => never.elim).bind fun now => ?_
  refine Meets.read_bind fun w => ?_
  rintro ⟨by',reading⟩
  dsimp only
  split
  · exact fun v same => same ▸ by'.later (by omega)
  · obtain ⟨budget,known,least⟩ := waitBudget_le now by'.deadline
    rw [known]
    have polls : Meets (· = w) (perform (E.next ls.group (some budget)))
        (fun _ => By clock 0 d n (d.nanos + 1000000 + 2 * cost))
        fun _ => By clock 0 d n (d.nanos + 1000000 + 2 * cost) := by
      intro v same
      rw [same]
      have lasts : Keeps (Lasts clock (budget * 1000000 + cost)) InFuel (perform (E.next ls.group (some budget))) :=
        perform_lasts fun c => (costs.next c _ budget).trans (by omega)
      cases ran : (perform (E.next ls.group (some budget))).run w with
      | ok polled u => exact by'.waits reading least (lasts.returned ran)
      | error fault u => exact by'.waits reading least (lasts.threw ran).1
    refine polls.bind fun polled => ?_
    split
    · have records (event : Event T.Job) : Keeps (Lasts clock 0) InFuel (modify (·.record [event]) : Exec T PUnit) :=
        .modify fun w => ⟨rfl,.record w _,le_rfl⟩
      exact (lasts_meets (records _)).bind fun _ => fun _ before => before
    · exact fun _ before => before
    · exact fun _ before => before

theorem waitForWork_meets (ls : LoopState T) : Meets (Ahead clock d n) (waitForWork E ls)
    (fun _ => By clock 0 d n (d.nanos + 1000000 + 2 * cost))
    fun _ => By clock 0 d n (d.nanos + 1000000 + 2 * cost) := by
  unfold waitForWork
  split
  · exact (sleepForTimer_meets costs).bind fun _ => fun _ before => before
  · exact pollGroup_meets costs ls

theorem openTurn_meets (ls : LoopState T) : Meets (By clock 0 d n limit) (openTurn E ls)
    (fun next w => match next with
      | .inl _ => Ahead clock d n w
      | .inr _ => By clock 0 d n (max d.nanos (limit + cost)) w)
    fun _ => By clock 0 d n (max d.nanos (limit + cost)) := by
  refine ((checkDeadline_meets costs ls).weaken fun _ _ late => late.later (le_max_right _ _)).bind fun next => ?_
  cases next with
  | inr exit => exact fun _ late => late.later (le_max_right _ _)
  | inl ls =>
    have starts : Meets (Ahead clock d n) (startAsyncJobs ls) (fun _ => Ahead clock d n)
        fun _ => By clock 0 d n (max d.nanos (limit + cost)) :=
      fun w ahead => ahead.lasts ⟨rfl,.record w _,le_rfl⟩
    refine starts.bind fun ls => ?_
    refine Meets.get_bind fun w => ?_
    split
    · exact fun _ ahead => ahead.by.later (le_max_left _ _)
    · exact fun _ ahead => ahead

theorem closeTurn_meets (ls : LoopState T) : Meets (By clock 0 d n limit) (closeTurn E ls)
    (fun next w => match next with
      | .inl _ => By clock cost d n (d.nanos + 3 * cost) w
      | .inr _ => By clock 0 d n (limit + cost) w)
    fun _ w => By clock 0 d n (limit + cost) w ∨ By clock cost d n (d.nanos + 3 * cost) w := by
  refine ((checkDeadline_meets costs ls).weaken fun _ _ => .inl).bind fun next => ?_
  cases next with
  | inr exit => exact fun _ late => late
  | inl ls =>
    have drained : Meets (Ahead clock d n) (drainJobs E) (fun _ => By clock cost d n (d.nanos + 2 * cost))
        fun _ => By clock cost d n (d.nanos + 2 * cost) := fun w ahead => drainJobs_meets costs w ahead.by
    refine (drained.weaken fun _ _ late => .inr (late.later (by omega))).bind fun _ => ?_
    intro w before
    have lasts : Lasts clock cost w (w.setHeap (E.yieldNow w.context)) :=
      ⟨rfl,List.prefix_rfl,costs.yieldNow w.context⟩
    exact (before.lasts lasts).later (by omega)

end Times

section Turns
variable (E : Engine T) (shouldStop : World T → Bool) (onStop : Exec T Unit)

/-- How many jobs each turn of a run drains. -/
def turnDrains : Nat → LoopState T → World T → List Nat
  | 0, _, _ => []
  | fuel + 1, ls, w =>
    match (turn E shouldStop onStop ls).run w with
    | .ok (.inl ls') w' => (drains w' - drains w) :: turnDrains fuel ls' w'
    | .ok (.inr _) w' => [drains w' - drains w]
    | .error _ w' => [drains w' - drains w]

variable {E shouldStop onStop} {clock : T.Heap → Nat} {cost stop : Nat} {d : JsInstant} (costs : E.Costs clock cost)
  (stops : ∀ ls, Keeps (Lasts clock stop) (fun _ => True) (stopOnce shouldStop onStop ls))
include costs stops

/-- A turn that goes on ends soon after the deadline by what it drained. One that does not
either drained nothing or failed in its drain. -/
theorem turn_meets {n limit : Nat} (ls : LoopState T) : Meets (By clock 0 d n limit) (turn E shouldStop onStop ls)
    (fun next w => match next with
      | .inl _ => By clock cost d n (d.nanos + 3 * cost) w
      | .inr _ => By clock 0 d n (max (limit + stop + cost) (d.nanos + 1000000 + 3 * cost)) w)
    fun _ w => By clock 0 d n (max (limit + stop + cost) (d.nanos + 1000000 + 3 * cost)) w ∨
      By clock cost d n (d.nanos + 3 * cost) w := by
  have soon {m : Nat} (le : m ≤ max (limit + stop + cost) (d.nanos + 1000000 + 3 * cost)) (w : World T)
      (early : By clock 0 d n m w) : By clock 0 d n (max (limit + stop + cost) (d.nanos + 1000000 + 3 * cost)) w :=
    early.later le
  refine ((lasts_meets (stops ls)).weaken fun _ w early => .inl (soon (by omega) w early)).bind fun ls => ?_
  refine ((openTurn_meets costs ls).weaken fun _ w early => .inl (soon (by omega) w early)).bind fun next => ?_
  cases next with
  | inr exit => exact soon (by omega)
  | inl ls =>
    refine ((waitForWork_meets costs ls).weaken fun _ w early => .inl (soon (by omega) w early)).bind fun ls => ?_
    refine ((closeTurn_meets costs ls).weaken fun _ w => Or.imp_left (soon (by omega) w)).mono fun next w => ?_
    cases next with
    | inl ls => exact fun after => after
    | inr exit => exact soon (by omega) w

/-- The loop ends within a millisecond, the callback and one call of the later of the time
it began and the end of the longest turn that began before the deadline. -/
theorem turns_end (fuel : Nat) (ls : LoopState T) (w : World T) {calls limit : Nat} (deadline : w.queue.deadline = some d)
    (begins : clock w.context.heap ≤ limit) (least : d.nanos + (calls + 3) * cost ≤ limit)
    (brief : ∀ n ∈ turnDrains E shouldStop onStop fuel ls w, n ≤ calls) :
    clock (stateAfter ((turns E shouldStop onStop fuel ls).run w)).context.heap ≤ limit + 1000000 + stop + cost := by
  have distribute : (calls + 3) * cost = calls * cost + 3 * cost := Nat.add_mul _ _ _
  rw [distribute] at least
  induction fuel generalizing ls w with
  | zero => exact begins.trans (by omega)
  | succ fuel ih =>
    have start : By clock 0 d (drains w) limit w := ⟨deadline,le_rfl,by omega⟩
    have soon {v : World T} (late : By clock 0 d (drains w) (max (limit + stop + cost) (d.nanos + 1000000 + 3 * cost)) v) :
        clock v.context.heap ≤ limit + 1000000 + stop + cost := by
      have time := late.time
      omega
    have meets := turn_meets costs stops ls w start
    rw [turns,EStateM.run_bind]
    rw [turnDrains] at brief
    cases turned : (turn E shouldStop onStop ls).run w with
    | error fault v =>
      rw [turned] at meets brief
      have few : drains v - drains w ≤ calls := brief _ (List.mem_singleton_self _)
      change clock v.context.heap ≤ _
      rcases meets with early | late
      · exact soon early
      · have ends := late.ends calls (by omega)
        omega
    | ok next v =>
      rw [turned] at meets brief
      cases next with
      | inr exit => exact soon meets
      | inl next =>
        have few : drains v - drains w ≤ calls := brief _ List.mem_cons_self
        have ends := By.ends calls meets (by omega)
        exact ih next v meets.deadline (by omega) fun n member => brief n (List.mem_cons_of_mem _ member)

end Turns

end MechanicsCore.Executor
