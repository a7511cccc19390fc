import MechanicsCore.Executor.Conservation
import MechanicsCore.Library.Buckets

/-! What one drain of the timers calls, and what it leaves in the map. -/
namespace MechanicsCore.Executor
open MechanicsCore.Library

variable {T : Types}

/-- The instant and the job that an action adds to the timers, if it adds one. -/
def HostAction.timer? {J V : Type} : HostAction J V → Option (JsInstant × J)
  | .enqueue (.timeoutJob job delay) now => (instantCheckedAdd now delay).map (·,job)
  | _ => none

section Calls
variable (E : Engine T)

/-- The world a timeout job leaves that does not fail. -/
def afterTimeout (w : World T) (job : T.Job) : World T :=
  (w.record [.called (.timeout job)]).apply (E.call .timeout job w.context)

/-- None of the jobs fails when they are called one after the other. -/
def NoneFails : List T.Job → World T → Prop
  | [], _ => True
  | job::rest, w => (E.call .timeout job w.context).outcome = some (.ok ()) ∧ NoneFails rest (afterTimeout E w job)

/-- The host actions of the jobs, called one after the other. -/
def timeoutActions : List T.Job → World T → List (HostAction T.Job T.Value)
  | [], _ => []
  | job::rest, w => (E.call .timeout job w.context).actions ++ timeoutActions rest (afterTimeout E w job)

theorem callTimeout_run {w : World T} {job : T.Job} (succeeds : (E.call .timeout job w.context).outcome = some (.ok ())) :
    (callTimeout E job).run w = .ok () (afterTimeout E w job) := by
  have performed := perform_run (E.call .timeout job) (w.record [.called (.timeout job)])
  rw [show (E.call .timeout job (w.record [.called (.timeout job)]).context).outcome = some (.ok ()) from succeeds]
    at performed
  unfold callTimeout performResult
  simp only [EStateM.run_bind,EStateM.run_modify,performed]
  rfl

theorem callTimeouts_run {jobs : List T.Job} {w : World T} (succeed : NoneFails E jobs w) :
    (jobs.forM (callTimeout E)).run w = .ok () (jobs.foldl (afterTimeout E) w) := by
  induction jobs generalizing w with
  | nil => rfl
  | cons job rest ih =>
    obtain ⟨first,others⟩ := succeed
    change (callTimeout E job >>= fun _ => rest.forM (callTimeout E)).run w = _
    rw [EStateM.run_bind,callTimeout_run E first]
    exact ih others

end Calls

section Arrivals

/-- What the queue holds for one instant grows at its end, and no bucket becomes empty. -/
structure Arrived (w : World T) (arrivals : List (JsInstant × T.Job)) (w' : World T) : Prop where
  buckets : ∀ due, w'.queue.timeoutJobs.bucket due =
    w.queue.timeoutJobs.bucket due ++ (arrivals.filter fun timer => timer.1 = due).map Prod.snd
  filled : w.queue.timeoutJobs.Filled → w'.queue.timeoutJobs.Filled

theorem Arrived.same {w w' : World T} (timers : w'.queue.timeoutJobs = w.queue.timeoutJobs) : Arrived w [] w' where
  buckets due := by simp [timers]
  filled filled := by rwa [timers]

theorem Arrived.trans {w w' w'' : World T} {arrivals others : List (JsInstant × T.Job)} (first : Arrived w arrivals w')
    (second : Arrived w' others w'') : Arrived w (arrivals ++ others) w'' where
  buckets due := by rw [second.buckets,first.buckets,List.filter_append,List.map_append,List.append_assoc]
  filled filled := second.filled (first.filled filled)

theorem arrived_act (w : World T) (action : HostAction T.Job T.Value) :
    Arrived w action.timer?.toList (w.act action) := by
  cases action with
  | settle p outcome => exact .same (by rw [World.act,World.settle_queue])
  | track operation => exact .same (by rw [World.act,World.promiseRejectionTracker_queue])
  | enterRealm realm => exact .same rfl
  | enqueue job now =>
    cases job with
    | promiseJob job => exact .same rfl
    | asyncJob job => exact .same rfl
    | genericJob job => exact .same rfl
    | other debug => exact .same rfl
    | timeoutJob job delay =>
      simp only [World.act,World.enqueueJob,HostAction.timer?]
      cases instantCheckedAdd now delay with
      | none => exact .same rfl
      | some due =>
        refine ⟨fun other => ?_,fun filled => filled.push due job⟩
        refine (OrdMap.bucket_push w.queue.timeoutJobs due job other).trans ?_
        by_cases same : other = due
        · simp [same]
        · simp [same,Ne.symm same]

theorem arrived_acts (actions : List (HostAction T.Job T.Value)) (w : World T) :
    Arrived w (actions.filterMap HostAction.timer?) (actions.foldl World.act w) := by
  induction actions generalizing w with
  | nil => exact .same rfl
  | cons action rest ih =>
    have both := (arrived_act w action).trans (ih (w.act action))
    cases timer : action.timer? with
    | none => simpa [timer] using both
    | some arrival => simpa [timer] using both

variable (E : Engine T)

theorem arrived_calls (jobs : List T.Job) (w : World T) :
    Arrived w ((timeoutActions E jobs w).filterMap HostAction.timer?) (jobs.foldl (afterTimeout E) w) := by
  induction jobs generalizing w with
  | nil => exact .same rfl
  | cons job rest ih =>
    have recorded : Arrived w [] ((w.record [.called (.timeout job)]).setHeap (E.call .timeout job w.context).heap) :=
      .same rfl
    have called := recorded.trans (arrived_acts (E.call .timeout job w.context).actions _)
    rw [timeoutActions,List.filterMap_append]
    exact called.trans (ih (afterTimeout E w job))

end Arrivals

section Log

/-- The log grows by events whose calls are the given ones. -/
def Logs (w : World T) (calls : List (Queued T.Job)) (w' : World T) : Prop :=
  ∃ events, w'.log = w.log ++ events ∧ calledIn some events = calls

theorem Logs.trans {w w' w'' : World T} {calls others : List (Queued T.Job)} (first : Logs w calls w')
    (second : Logs w' others w'') : Logs w (calls ++ others) w'' := by
  obtain ⟨events,grown,called⟩ := first
  obtain ⟨later,grown',called'⟩ := second
  exact ⟨events ++ later,by rw [grown',grown,List.append_assoc],by rw [calledIn_append,called,called']⟩

theorem logs_act (w : World T) (action : HostAction T.Job T.Value) : Logs w [] (w.act action) := by
  cases action with
  | settle p outcome => exact ⟨[],by rw [World.act,World.settle_log,List.append_nil],rfl⟩
  | track operation => exact ⟨[],by rw [World.act,World.promiseRejectionTracker_log,List.append_nil],rfl⟩
  | enterRealm realm => exact ⟨[],(List.append_nil _).symm,rfl⟩
  | enqueue job now =>
    cases job with
    | promiseJob job => exact ⟨_,rfl,rfl⟩
    | asyncJob job => exact ⟨_,rfl,rfl⟩
    | genericJob job => exact ⟨_,rfl,rfl⟩
    | other debug => exact ⟨_,rfl,rfl⟩
    | timeoutJob job delay =>
      simp only [World.act,World.enqueueJob]
      cases instantCheckedAdd now delay with
      | none => exact ⟨_,rfl,rfl⟩
      | some due => exact ⟨_,rfl,rfl⟩

theorem logs_acts (actions : List (HostAction T.Job T.Value)) (w : World T) :
    Logs w [] (actions.foldl World.act w) := by
  induction actions generalizing w with
  | nil => exact ⟨[],(List.append_nil _).symm,rfl⟩
  | cons action rest ih => exact (logs_act w action).trans (ih (w.act action))

theorem logs_calls (E : Engine T) (jobs : List T.Job) (w : World T) :
    Logs w (jobs.map .timeout) (jobs.foldl (afterTimeout E) w) := by
  induction jobs generalizing w with
  | nil => exact ⟨[],(List.append_nil _).symm,rfl⟩
  | cons job rest ih =>
    have recorded : Logs w [.timeout job] (w.record [.called (.timeout job)]) := ⟨_,rfl,rfl⟩
    have called : Logs w [.timeout job] (afterTimeout E w job) := recorded.trans (logs_acts _ _)
    exact called.trans (ih (afterTimeout E w job))

end Log

section Drain

theorem act_context {w w' : World T} (same : w.context = w'.context) (action : HostAction T.Job T.Value) :
    (w.act action).context = (w'.act action).context := by
  cases action with
  | settle p outcome =>
    simp only [World.act,World.settle,same]
    split
    · rfl
    · exact same
  | track operation => cases operation <;> exact same
  | enterRealm realm => simp only [World.act,same]
  | enqueue job now =>
    cases job with
    | promiseJob job => exact same
    | asyncJob job => exact same
    | genericJob job => exact same
    | other debug => exact same
    | timeoutJob job delay =>
      simp only [World.act,World.enqueueJob]
      cases instantCheckedAdd now delay with
      | none => exact same
      | some due => exact same

theorem acts_context {w w' : World T} (same : w.context = w'.context) (actions : List (HostAction T.Job T.Value)) :
    (actions.foldl World.act w).context = (actions.foldl World.act w').context := by
  induction actions generalizing w w' with
  | nil => exact same
  | cons action rest ih => exact ih (act_context same action)

variable (E : Engine T)

theorem afterTimeout_context {w w' : World T} (same : w.context = w'.context) (job : T.Job) :
    (afterTimeout E w job).context = (afterTimeout E w' job).context := by
  simp only [afterTimeout,World.apply,same]
  apply acts_context
  simp only [World.setHeap,World.record,same]

theorem noneFails_congr {w w' : World T} (same : w.context = w'.context) {jobs : List T.Job}
    (succeed : NoneFails E jobs w) : NoneFails E jobs w' := by
  induction jobs generalizing w w' with
  | nil => trivial
  | cons job rest ih => exact ⟨same ▸ succeed.1,ih (afterTimeout_context E same job) succeed.2⟩

theorem timeoutActions_congr {w w' : World T} (same : w.context = w'.context) (jobs : List T.Job) :
    timeoutActions E jobs w = timeoutActions E jobs w' := by
  induction jobs generalizing w w' with
  | nil => rfl
  | cons job rest ih => rw [timeoutActions,timeoutActions,ih (afterTimeout_context E same job),same]

variable (w : World T)

/-- The world in which a drain looks at the timers, right after it read the clock. -/
def drainStart : World T := w.setHeap (E.now w.context).2

def drainNow : JsInstant := (E.now w.context).1

def live (job : T.Job) : Bool := !E.isCancelled job (drainStart E w).context

/-- The timers not cancelled whose instant has come, by instant and then by age. -/
def dueTimers : List (JsInstant × T.Job) :=
  w.queue.timeoutJobs.pairs.filter fun timer => decide (timer.1 ≤ drainNow E w) && live E w timer.2

/-- What the jobs of a drain enqueue as timers, with their instants. -/
def drainArrivals : List (JsInstant × T.Job) :=
  (timeoutActions E ((dueTimers E w).map Prod.snd) (drainStart E w)).filterMap HostAction.timer?

theorem retained_pairs :
    (w.queue.timeoutJobs.retain (live E w)).pairs.filter (fun timer => decide (timer.1 ≤ drainNow E w)) = dueTimers E w := by
  rw [OrdMap.retain_pairs,List.filter_filter]
  rfl

theorem instants_closed (now a b : JsInstant) (before : a < b) (come : decide (b ≤ now) = true) :
    decide (a ≤ now) = true := decide_eq_true (before.le.trans (of_decide_eq_true come))

/-- The timers a drain leaves where they are. -/
def keptTimers : OrdMap JsInstant (List T.Job) :=
  ((w.queue.timeoutJobs.retain (live E w)).popWhile (· ≤ drainNow E w)).2

theorem keptTimers_bucket (due : JsInstant) : (keptTimers E w).bucket due =
    if due ≤ drainNow E w then [] else (w.queue.timeoutJobs.bucket due).filter (live E w) := by
  obtain ⟨_,left⟩ := OrdMap.popWhile_pairs (instants_closed (drainNow E w)) (w.queue.timeoutJobs.retain (live E w))
  have kept : (keptTimers E w).pairs = w.queue.timeoutJobs.pairs.filter fun timer =>
      !decide (timer.1 ≤ drainNow E w) && live E w timer.2 := by
    rw [keptTimers,left,OrdMap.retain_pairs,List.filter_filter]
  rw [OrdMap.bucket_eq_pairs,kept,OrdMap.filter_pairs_of_key _ fun instant => !decide (instant ≤ drainNow E w)]
  by_cases come : due ≤ drainNow E w
  · simp [come]
  · simp [come]

theorem takeDueTimeouts_run : ∃ w', (takeDueTimeouts E (drainNow E w)).run (drainStart E w) =
      .ok ((dueTimers E w).map Prod.snd) w' ∧
    w'.context = (drainStart E w).context ∧ Logs w [] w' ∧ w'.queue.timeoutJobs = keptTimers E w := by
  obtain ⟨popped,_⟩ := OrdMap.popWhile_pairs (instants_closed (drainNow E w)) (w.queue.timeoutJobs.retain (live E w))
  rw [retained_pairs] at popped
  rw [← popped]
  refine ⟨_,rfl,rfl,⟨_,rfl,?_⟩,rfl⟩
  simp [calledIn]

/-- A drain in which no job fails returns. It calls the timers that are not cancelled
and whose instant has come, by instant and within one instant in the order of
its bucket, to whose end `enqueue_job` adds; it keeps the others that are not
cancelled, and the timers the called jobs add stay in the map uncalled. -/
theorem timer_drain_exact (E : Engine T) (w : World T)
    (succeed : NoneFails E ((dueTimers E w).map Prod.snd) (drainStart E w)) :
    ∃ w', (drainTimeoutJobs E).run w = .ok () w' ∧
      (∃ events, w'.log = w.log ++ events ∧
        calledIn some events = (dueTimers E w).map fun timer => .timeout timer.2) ∧
      (dueTimers E w).Pairwise (fun earlier later => earlier.1 ≤ later.1) ∧
      (∀ due, ((dueTimers E w).filter fun timer => timer.1 = due).map Prod.snd =
        if due ≤ drainNow E w then (w.queue.timeoutJobs.bucket due).filter (live E w) else []) ∧
      (∀ due, w'.queue.timeoutJobs.bucket due =
        (if due ≤ drainNow E w then [] else (w.queue.timeoutJobs.bucket due).filter (live E w)) ++
          ((drainArrivals E w).filter fun timer => timer.1 = due).map Prod.snd) ∧
      w'.queue.timeoutJobs.Filled := by
  obtain ⟨taken,took,context,quiet,kept⟩ := takeDueTimeouts_run E w
  have called := callTimeouts_run E (noneFails_congr E context.symm succeed)
  have logged := quiet.trans (logs_calls E ((dueTimers E w).map Prod.snd) taken)
  have arrived := arrived_calls E ((dueTimers E w).map Prod.snd) taken
  refine ⟨((dueTimers E w).map Prod.snd).foldl (afterTimeout E) taken,?_,?_,?_,?_,?_,?_⟩
  · change ((takeDueTimeouts E (drainNow E w)) >>= fun jobs => jobs.forM (callTimeout E)).run (drainStart E w) = _
    rw [EStateM.run_bind,took]
    exact called
  · obtain ⟨events,grown,calls⟩ := logged
    exact ⟨events,grown,by rw [calls,List.nil_append,List.map_map]; rfl⟩
  · exact (OrdMap.pairs_sorted _).sublist List.filter_sublist
  · intro due
    have chosen := OrdMap.filter_pairs_of_key w.queue.timeoutJobs (fun instant => decide (instant ≤ drainNow E w))
      (live E w) due
    simp only [decide_eq_true_eq] at chosen
    rw [dueTimers]
    convert chosen
  · intro due
    rw [arrived.buckets,kept,keptTimers_bucket,timeoutActions_congr E context]
    rfl
  · exact arrived.filled (kept ▸ (OrdMap.retain_filled _ _).popWhile _)

end Drain

/-- Job 2 is cancelled; job 1 adds a timer that is due at once. -/
def rearming : Engine plain :=
  {Engine.silent with
    isCancelled := fun job _ => job == 2
    call := fun
      | .timeout, 1, c => .plain c [.enqueue (.timeoutJob 7 0) (.ofNanos c.heap)] (.ok ())
      | _, _, c => .plain c [] (.ok ())}

def rearmingStart : World plain :=
  {(World.new 3000000 : World plain) with
    queue := {Queue.new with
      timeoutJobs := ((((OrdMap.empty.push ⟨2000000,by decide⟩ 3).push ⟨1000000,by decide⟩ 6).push
        ⟨1000000,by decide⟩ 2).push ⟨1000000,by decide⟩ 1).push ⟨5000000,by decide⟩ 4}}

theorem timer_drain_exact_at_rearming : ∃ w', (drainTimeoutJobs rearming).run rearmingStart = .ok () w' ∧
    (∃ events, w'.log = events ∧ calledIn some events = [.timeout 6,.timeout 1,.timeout 3]) ∧
    w'.queue.timeoutJobs.bucket ⟨3000000,by decide⟩ = [7] ∧ w'.queue.timeoutJobs.bucket ⟨5000000,by decide⟩ = [4] := by
  obtain ⟨w',ran,⟨events,grown,calls⟩,_,_,buckets,_⟩ := timer_drain_exact rearming rearmingStart ⟨rfl,rfl,rfl,trivial⟩
  exact ⟨w',ran,⟨events,grown,calls⟩,buckets _,buckets _⟩

end MechanicsCore.Executor
