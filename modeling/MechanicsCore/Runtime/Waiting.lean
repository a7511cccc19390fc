import MechanicsCore.Runtime.Settlement

/-! How long the event loop waits. Timers and deadlines are whole milliseconds and the
loop counts from the millisecond the clock is in, so that a wait for the earliest
of them ends within the millisecond that begins there. -/
namespace MechanicsCore.Runtime
open MechanicsCore.Executor MechanicsCore.Library
variable {T : Types} {E : Engine T}

section Instants

def WholeMillis (t : JsInstant) : Prop := t.nanos % 1000000 = 0

theorem wholeMillis_fromMillis (ms : Nat) (fits : ms < 2^64) : WholeMillis (jsInstantFromMillis ms fits) := by
  change (ms / 1000 * 1000000000 + ms % 1000 * 1000000) % 1000000 = 0
  omega

theorem wholeMillis_of_checkedAdd {base t : JsInstant} {delta : Nat} (added : instantCheckedAdd base delta = some t) :
    WholeMillis t := by
  unfold instantCheckedAdd at added
  dsimp only at added
  split at added
  · cases added
    exact wholeMillis_fromMillis _ _
  · contradiction

theorem wholeMillis_of_deadline {maxExecutionTime : Nat} {w w' : World T} {d : JsInstant}
    (computed : (computeDeadline E maxExecutionTime).run w = .ok (.ok d) w') : WholeMillis d := by
  obtain ⟨now,v,_,rest⟩ := run_bind_ok.mp computed
  dsimp only at rest
  split at rest
  · cases rest
    exact wholeMillis_fromMillis _ _
  · cases rest

theorem millisSinceEpoch_mono {a b : JsInstant} (le : a ≤ b) : a.millisSinceEpoch ≤ b.millisSinceEpoch :=
  Nat.div_le_div_right le

theorem millisUntilOrZero_past {t now : JsInstant} (past : t ≤ now) : millisUntilOrZero t now = 0 :=
  Nat.sub_eq_zero_of_le (millisSinceEpoch_mono past)

theorem millisUntilOrZero_min (a b now : JsInstant) :
    millisUntilOrZero (min a b) now = min (millisUntilOrZero a now) (millisUntilOrZero b now) := by
  have mono : Monotone (millisUntilOrZero · now) := fun _ _ le => Nat.sub_le_sub_right (millisSinceEpoch_mono le) _
  exact mono.map_min

end Instants

/-- The earliest of the next timer and the deadline. -/
def earliest {J : Type} (q : Queue J) : Option JsInstant := q.nextTimeoutAt.merge min q.deadline

/-- `Duration::from_millis`, in nanoseconds. -/
def fromMillis (millis : Nat) : Nat := millis * 1000000

/-- What a wait of `nanos` from `now` on is for an instant that it is to reach: nothing if
the instant has come; otherwise at least a millisecond, and over when the instant
has come but less than a millisecond later. -/
structure WaitsFor (now target : JsInstant) (nanos : Nat) : Prop where
  zero : nanos = 0 ↔ target ≤ now
  least : 0 < nanos → 1000000 ≤ nanos
  reaches : 0 < nanos → target.nanos ≤ now.nanos + nanos
  stops : 0 < nanos → now.nanos + nanos < target.nanos + 1000000

theorem waitsFor_millis (now : JsInstant) {target : JsInstant} (whole : WholeMillis target) :
    WaitsFor now target (fromMillis (millisUntilOrZero target now)) := by
  have order : target ≤ now ↔ target.nanos ≤ now.nanos := Iff.rfl
  unfold WholeMillis at whole
  unfold fromMillis millisUntilOrZero JsInstant.millisSinceEpoch
  refine ⟨?_,?_,?_,?_⟩
  · rw [order]
    omega
  · omega
  · omega
  · omega

section Waits
variable {q : Queue T.Job} {now first : JsInstant}

theorem waitBudget_eq (q : Queue T.Job) (now : JsInstant) : waitBudget q now = (earliest q).map (millisUntilOrZero · now) := by
  unfold waitBudget earliest
  cases q.nextTimeoutAt with
  | none => cases q.deadline <;> rfl
  | some due =>
    cases q.deadline with
    | none => rfl
    | some deadline => exact congrArg some (millisUntilOrZero_min due deadline now).symm

/-- The sleep of a loop without futures is the wait budget: its own tests for instants
that have passed change nothing. -/
theorem sleepDuration_eq {due : JsInstant} (next : q.nextTimeoutAt = some due) (known : earliest q = some first) :
    sleepDuration q due now = millisUntilOrZero first now := by
  unfold earliest at known
  unfold sleepDuration
  rw [next] at known
  cases deadline : q.deadline with
  | none =>
    rw [deadline] at known
    cases known
    split
    · rename_i past
      exact (millisUntilOrZero_past past).symm
    · rfl
  | some d =>
    rw [deadline] at known
    cases known
    rw [millisUntilOrZero_min]
    split
    · rename_i past
      rw [millisUntilOrZero_past past,Nat.zero_min]
    · dsimp only
      split
      · rename_i past
        rw [millisUntilOrZero_past past]
      · rfl

end Waits

/-- Every timer is where `instant_checked_add` has put it, and the deadline where
`compute_deadline` has. -/
structure Scheduled (E : Engine T) (q : Queue T.Job) : Prop where
  timers : ∀ due ∈ q.timeoutJobs.keys, ∃ now delay, instantCheckedAdd now delay = some due
  deadline : ∀ d, q.deadline = some d →
    ∃ maxExecutionTime w w', (computeDeadline E maxExecutionTime).run w = .ok (.ok d) w'

theorem Scheduled.wholeMillis {q : Queue T.Job} (scheduled : Scheduled E q) {first : JsInstant}
    (known : earliest q = some first) : WholeMillis first := by
  have timer : ∀ due, q.nextTimeoutAt = some due → WholeMillis due := by
    intro due next
    obtain ⟨now,delay,added⟩ := scheduled.timers due (OrdMap.firstKey_mem_keys next)
    exact wholeMillis_of_checkedAdd added
  have limit : ∀ d, q.deadline = some d → WholeMillis d := by
    intro d found
    obtain ⟨maxExecutionTime,w,w',computed⟩ := scheduled.deadline d found
    exact wholeMillis_of_deadline computed
  unfold earliest at known
  cases next : q.nextTimeoutAt with
  | none =>
    cases found : q.deadline with
    | none => simp [next,found] at known
    | some d =>
      rw [next,found] at known
      cases known
      exact limit _ found
  | some due =>
    cases found : q.deadline with
    | none =>
      rw [next,found] at known
      cases known
      exact timer _ next
    | some d =>
      rw [next,found] at known
      cases known
      rcases min_choice due d with same | same
      · rw [same]
        exact timer _ next
      · rw [same]
        exact limit _ found

/-- Both waits of the loop, the budget for a future and the sleep without futures, are for
the earliest of the next timer and the deadline, and exact. -/
theorem waits_are_exact (E : Engine T) (q : Queue T.Job) (scheduled : Scheduled E q) (now first : JsInstant)
    (known : earliest q = some first) :
    (∃ budget, waitBudget q now = some budget ∧ WaitsFor now first (fromMillis budget)) ∧
    ∀ due, q.nextTimeoutAt = some due → WaitsFor now first (fromMillis (sleepDuration q due now)) := by
  have precise := waitsFor_millis now (scheduled.wholeMillis known)
  refine ⟨⟨millisUntilOrZero first now,?_,precise⟩,fun due next => ?_⟩
  · rw [waitBudget_eq,known]
    rfl
  · rw [sleepDuration_eq next known]
    exact precise

/-- A timer at 6 ms and a deadline at 8 ms, and the clock a nanosecond into the second millisecond. -/
def timerAhead : Queue Nat := {Queue.new with
  timeoutJobs := OrdMap.empty.push ⟨6000000,by decide⟩ 7
  deadline := some ⟨8000000,by decide⟩}

theorem waits_are_exact_at_timerAhead : waitBudget timerAhead ⟨1000001,by decide⟩ = some 5 ∧
    WaitsFor ⟨1000001,by decide⟩ ⟨6000000,by decide⟩ 5000000 := by
  have scheduled : Scheduled Engine.silent timerAhead := by
    refine ⟨fun due member => ?_,fun d found => ?_⟩
    · refine ⟨⟨0,by decide⟩,6000000,?_⟩
      rw [List.mem_singleton.mp member]
      rfl
    · cases found
      exact ⟨8000000,World.new 0,World.new 0,rfl⟩
  obtain ⟨⟨budget,known,precise⟩,_⟩ := waits_are_exact Engine.silent timerAhead scheduled ⟨1000001,by decide⟩
    ⟨6000000,by decide⟩ (by decide)
  have same : waitBudget timerAhead ⟨1000001,by decide⟩ = some 5 := by decide
  rw [same] at known
  cases known
  exact ⟨same,precise⟩

section Runs

/-- Timers come from `instant_checked_add` alone, and the deadline stays as it is. -/
structure Reschedules (w w' : World T) : Prop where
  timers : ∀ due ∈ w'.queue.timeoutJobs.keys,
    due ∈ w.queue.timeoutJobs.keys ∨ ∃ now delay, instantCheckedAdd now delay = some due
  deadline : w'.queue.deadline = w.queue.deadline

theorem Reschedules.same {w w' : World T} (queue : w'.queue = w.queue) : Reschedules w w' := by
  refine ⟨fun due member => .inl ?_,?_⟩
  · rwa [queue] at member
  · rw [queue]

theorem Reschedules.trans {w w' w'' : World T} (before : Reschedules w w') (after : Reschedules w' w'') :
    Reschedules w w'' := by
  refine ⟨fun due member => ?_,after.deadline.trans before.deadline⟩
  rcases after.timers due member with old | computed
  · exact before.timers due old
  · exact .inr computed

instance : Std.Refl (Reschedules (T := T)) := ⟨fun _ => .same rfl⟩
instance : IsTrans (World T) Reschedules := ⟨fun _ _ _ => .trans⟩

theorem Reschedules.act (w : World T) (action : HostAction T.Job T.Value) : Reschedules w (w.act action) := by
  cases action with
  | settle p outcome => exact .same (w.settle_queue p outcome)
  | track operation => exact .same (w.promiseRejectionTracker_queue operation)
  | enterRealm realm => exact .same rfl
  | enqueue job now =>
    cases job with
    | timeoutJob job delay =>
      simp only [World.act,World.enqueueJob]
      split
      · exact ⟨fun due member => .inl member,rfl⟩
      · rename_i due added
        refine ⟨fun other member => ?_,rfl⟩
        rcases OrdMap.mem_keys_alter member with same | old
        · exact .inr ⟨now,delay,same ▸ added⟩
        · exact .inl old
    | _ => exact ⟨fun due member => .inl member,rfl⟩

theorem Reschedules.acts (actions : List (HostAction T.Job T.Value)) (w : World T) :
    Reschedules w (actions.foldl World.act w) := by
  induction actions generalizing w with
  | nil => exact .same rfl
  | cons action rest ih => exact (Reschedules.act w action).trans (ih _)

theorem Reschedules.covers (E : Engine T) : Covers E Reschedules where
  run w actions heap _ := by
    have moved : Reschedules w (w.setHeap heap) := .same rfl
    exact moved.trans (.acts actions _)
  wait _ _ _ := .same rfl
  record _ _ _ := .same rfl
  takeAsyncs _ := ⟨fun _ member => .inl member,rfl⟩
  takePromises _ := ⟨fun _ member => .inl member,rfl⟩
  popGeneric _ := ⟨fun _ member => .inl member,rfl⟩
  takeTimers _ _ _ :=
    ⟨fun _ member => .inl (OrdMap.mem_keys_filterMapValues (OrdMap.mem_keys_popWhile member)),rfl⟩

theorem Scheduled.reschedules {w w' : World T} (scheduled : Scheduled E w.queue) (after : Reschedules w w') :
    Scheduled E w'.queue := by
  refine ⟨fun due member => ?_,fun d found => ?_⟩
  · rcases after.timers due member with old | computed
    · exact scheduled.timers due old
    · exact computed
  · rw [after.deadline] at found
    exact scheduled.deadline d found

variable {main : PromiseId} {w w' : World T}

theorem replyMain_reschedules : Keeps Reschedules (fun _ => True) (replyMain E main) := by
  refine replyMain_keeps ?_ fun _ _ => .same rfl
  exact (mainResult_covered (Reschedules.covers E)).mono (fun _ _ after => after) fun _ _ => trivial

theorem turn_reschedules {shouldStop : World T → Bool} {onStop : Exec T Unit}
    (stops : Keeps Reschedules (fun _ => True) onStop) (ls : LoopState T) :
    Keeps Reschedules (fun _ => True) (turn E shouldStop onStop ls) := by
  have stopped : Keeps Reschedules (fun _ => True) (stopOnce shouldStop onStop ls) := by
    refine Keeps.get.bind fun w => ?_
    split
    · split
      · refine Keeps.bind (.modify fun _ => .same rfl) fun _ => ?_
        exact stops.bind fun _ => .pure _
      · exact .pure _
    · exact .pure _
  exact stopped.bind fun ls => ((Reschedules.covers E).restOfTurn ls).mono (fun _ _ after => after) fun _ _ => trivial

theorem reached_scheduled {shouldStop : World T → Bool} {onStop : Exec T Unit}
    (stops : Keeps Reschedules (fun _ => True) onStop) (scheduled : Scheduled E w.queue) {ls : LoopState T}
    (reached : Reached E shouldStop onStop w ls w') : Scheduled E w'.queue := by
  apply Reached.invariant (fun _ v => Scheduled E v.queue) scheduled ?_ reached
  intro ls v ls' v' before turned
  exact before.reschedules ((turn_reschedules stops ls).returned turned)

theorem beginJob_scheduled {settings : Settings} {job : MechanicsJob T} {previous : Realm}
    (scheduled : Scheduled E w.queue) (begun : (beginJob E settings job).run w = .ok (.ok previous) w') :
    Scheduled E w'.queue := by
  have times : Keeps Reschedules InFuel (computeDeadline E settings.executionLimits.maxExecutionTime) := by
    refine (Reschedules.covers E).clockNow.bind fun now => ?_
    dsimp only
    split
    · exact .pure _
    · exact .pure _
  have creates : Keeps Reschedules InFuel (createRealm E) := fun w => (Reschedules.covers E).wait w _ .createRealm
  obtain ⟨_,_,cleared,rest⟩ := run_bind_ok.mp begun
  cases cleared
  cases endpoints : prepareEndpoints E job.config with
  | error err =>
    rw [endpoints] at rest
    cases rest
  | ok prepared =>
    rw [endpoints] at rest
    obtain ⟨deadline,v,computed,rest⟩ := run_bind_ok.mp rest
    cases deadline with
    | error e => cases rest
    | ok d =>
      obtain ⟨realm,_,created,rest⟩ := run_bind_ok.mp rest
      cases realm with
      | error e => cases rest
      | ok realm =>
        obtain ⟨_,_,entered,returned⟩ := run_bind_ok.mp rest
        cases returned
        obtain ⟨_,_,moved,entered⟩ := run_bind_ok.mp entered
        cases moved
        obtain ⟨_,u,bundled,entered⟩ := run_bind_ok.mp entered
        have clears : Reschedules w {w with pendingUnhandledRejections := 0} := .same rfl
        have bundles := ((Reschedules.covers E).perform fun _ => .bundle).returned bundled
        have enters : Reschedules v u := (creates.returned created).trans ⟨bundles.timers,bundles.deadline⟩
        have before := scheduled.reschedules ((clears.trans (times.returned computed)).trans enters)
        cases entered
        refine ⟨before.timers,fun other found => ?_⟩
        cases found
        exact ⟨_,_,_,computed⟩

/-- In the run of a job the loop waits on timers and on a deadline that are computed. -/
theorem job_scheduled {settings : Settings} {fuel : Nat} {job : MechanicsJob T} {previous : Realm} {start u : World T}
    (scheduled : Scheduled E start.queue) (begun : (beginJob E settings job).run start = .ok (.ok previous) w)
    (started : (startMain E fuel job).run w = .ok main u) {ls : LoopState T}
    (reached : Reached E (mainSettled main) (replyMain E main) u ls w') : Scheduled E w'.queue := by
  have begins := beginJob_scheduled scheduled begun
  have starts := begins.reschedules ((startMain_covered (Reschedules.covers E) fuel job).returned started)
  exact reached_scheduled replyMain_reschedules starts reached

end Runs

end MechanicsCore.Runtime
