import MechanicsCore.Executor.Conservation
import MechanicsCore.Executor.Steps

/-! No job starves. What a turn of the loop calls is bounded from below by what waited
at its head, whatever the jobs it calls enqueue: all promise and async jobs that were
there, and one generic job. The order of the queues then says when each job is called. -/
namespace MechanicsCore.Executor
open MechanicsCore.Library
variable {T : Types}

/-- The log only grows. -/
def Appends (w w' : World T) : Prop := w.log <+: w'.log

theorem Appends.trans {a b c : World T} (first : Appends a b) (second : Appends b c) : Appends a c :=
  List.IsPrefix.trans first second

instance : Std.Refl (Appends (T := T)) := ⟨fun _ => List.prefix_rfl⟩
instance : IsTrans (World T) Appends := ⟨fun _ _ _ => Appends.trans⟩

theorem Appends.record (w : World T) (events : List (Event T.Job)) : Appends w (w.record events) :=
  List.prefix_append _ _

theorem Appends.of_eq {w w' : World T} (same : w'.log = w.log) : Appends w w' :=
  ⟨[],by rw [List.append_nil,same]⟩

theorem Appends.enqueueJob (w : World T) (job : Job T.Job) (now : JsInstant) : Appends w (w.enqueueJob job now) := by
  cases job with
  | promiseJob job => exact .record _ _
  | asyncJob job => exact .record _ _
  | timeoutJob job delay =>
    simp only [World.enqueueJob]
    split
    · exact .record _ _
    · exact .record _ _
  | genericJob job => exact .record _ _
  | other debug => exact .record _ _

theorem Appends.acts (w : World T) (actions : List (HostAction T.Job T.Value)) : Appends w (actions.foldl World.act w) := by
  have act (w : World T) (action : HostAction T.Job T.Value) : Appends w (w.act action) := by
    cases action with
    | enqueue job now => exact .enqueueJob w job now
    | settle p outcome => exact .of_eq (w.settle_log p outcome)
    | track operation => exact .of_eq (w.promiseRejectionTracker_log operation)
    | enterRealm realm => exact List.prefix_rfl
  induction actions generalizing w with
  | nil => exact List.prefix_rfl
  | cons action rest ih => exact (act w action).trans (ih _)

theorem Appends.covers (E : Engine T) : Covers E Appends where
  run w actions heap _ := Appends.acts (w.setHeap heap) actions
  wait _ _ _ := List.prefix_rfl
  record w events _ := .record w events
  takeAsyncs _ := List.prefix_rfl
  takePromises _ := List.prefix_rfl
  popGeneric _ := List.prefix_rfl
  takeTimers _ _ _ := List.prefix_rfl

theorem OnlyEnqueues.logs {onStop : Exec T Unit} (enqueues : OnlyEnqueues onStop) :
    Keeps Appends (fun _ => True) onStop := by
  refine enqueues.mono ?_ fun _ _ => trivial
  rintro w w' ⟨jobs,queue,log⟩
  rw [Appends,log]
  clear queue log
  induction jobs generalizing w with
  | nil => exact List.prefix_rfl
  | cons job rest ih => exact (Appends.enqueueJob w job.1 job.2).trans (ih _)

theorem stopOnce_logs {onStop : Exec T Unit} (enqueues : OnlyEnqueues onStop) (shouldStop : World T → Bool)
    (ls : LoopState T) : Keeps Appends (fun _ => True) (stopOnce shouldStop onStop ls) := by
  refine Keeps.get.bind fun w => ?_
  split
  · have called : Keeps Appends (fun _ => True) (modify (·.record [.stopCalled]) : Exec T PUnit) :=
      .modify fun w => .record w _
    split
    · exact called.bind fun _ => enqueues.logs.bind fun _ => .pure _
    · exact .pure _
  · exact .pure _

section Drains
variable (E : Engine T)

/-- Calls of one kind, counted along the log. -/
def callsOf {A : Type} (queue : Queued T.Job → Option A) (w : World T) : Nat := (calledIn queue w.log).length

theorem Appends.callsOf_le {A : Type} (queue : Queued T.Job → Option A) {w w' : World T} (logs : Appends w w') :
    callsOf queue w ≤ callsOf queue w' :=
  (logs.filterMap _).length_le

/-- A program that logs one call and goes on raises the number of calls. -/
theorem calls_one {A : Type} (queue : Queued T.Job → Option A) {job : Queued T.Job} {a : A} (own : queue job = some a)
    {rest : Exec T Unit} (logs : Keeps Appends InFuel rest) (n : Nat) :
    Meets (fun w => n ≤ callsOf queue w) (do modify (·.record [.called job]); rest)
      (fun _ w => n + 1 ≤ callsOf queue w) fun _ _ => True := by
  have recorded : Meets (fun w => n ≤ callsOf queue w) (modify (·.record [.called job]) : Exec T PUnit)
      (fun _ w => n + 1 ≤ callsOf queue w) fun _ _ => True := by
    intro w bound
    have one : calledIn queue [Event.called job] = [a] := by simp [calledIn,own]
    change n + 1 ≤ (calledIn queue (w.log ++ [.called job])).length
    rw [calledIn_append,one,List.length_append]
    exact Nat.add_le_add_right bound 1
  refine recorded.bind fun _ => ?_
  intro w bound
  cases ran : rest.run w with
  | ok a w' => exact Nat.le_trans bound ((logs.returned ran).callsOf_le queue)
  | error e w' => trivial

theorem callGeneric_calls (job : GenericJob T.Job) (n : Nat) :
    Meets (fun w => n ≤ callsOf Queued.generic? w) (callGeneric E job) (fun _ w => n + 1 ≤ callsOf Queued.generic? w)
      fun _ _ => True := by
  have own : Queued.generic? (.generic job) = some job := rfl
  have fails (e : JsError T.Value) : Keeps Appends InFuel (throw (.js e) : Exec T Unit) := .throw trivial
  cases job with
  | body job => exact calls_one Queued.generic? own ((Appends.covers E).performResult fun _ => .call _ _) n
  | delayTooLarge => exact calls_one Queued.generic? own (fails _) n
  | unsupported message => exact calls_one Queued.generic? own (fails _) n

theorem callPromise_calls (job : T.Job) (n : Nat) :
    Meets (fun w => n ≤ callsOf Queued.promise? w) (callPromise E job) (fun _ w => n + 1 ≤ callsOf Queued.promise? w)
      fun _ _ => True :=
  calls_one Queued.promise? rfl ((Appends.covers E).performResult fun _ => .call _ _) n

/-- A turn calls the first generic job, if one waits. -/
theorem drainGenericJob_calls {w w' : World T} (ran : (drainGenericJob E).run w = .ok () w') :
    callsOf Queued.generic? w + min 1 w.queue.genericJobs.length ≤ callsOf Queued.generic? w' := by
  obtain ⟨job,u,popped,after⟩ := run_bind_ok.mp ran
  have same : w.queue.genericJobs.head? = job ∧ u.log = w.log := by
    cases popped
    exact ⟨rfl,rfl⟩
  have before : callsOf Queued.generic? u = callsOf Queued.generic? w := by rw [callsOf,same.2,callsOf]
  cases job with
  | none =>
    cases after
    have empty : w.queue.genericJobs = [] := List.head?_eq_none_iff.mp same.1
    simp [empty,before]
  | some job =>
    have called := (callGeneric_calls E job (callsOf Queued.generic? u)).returned (Nat.le_refl _) after
    omega

/-- A turn calls all promise jobs that wait when it comes to them. -/
theorem drainPromiseJobs_calls {w w' : World T} (ran : (drainPromiseJobs E).run w = .ok () w') :
    callsOf Queued.promise? w + w.queue.promiseJobs.length ≤ callsOf Queued.promise? w' := by
  obtain ⟨jobs,u,taken,after⟩ := run_bind_ok.mp ran
  have same : w.queue.promiseJobs = jobs ∧ u.log = w.log := by
    cases taken
    exact ⟨rfl,rfl⟩
  have before : callsOf Queued.promise? u = callsOf Queued.promise? w := by rw [callsOf,same.2,callsOf]
  have all : Meets (fun v => callsOf Queued.promise? u + jobs.length ≤ callsOf Queued.promise? v + jobs.length)
      (jobs.forM (callPromise E)) (fun _ v => callsOf Queued.promise? u + jobs.length ≤ callsOf Queued.promise? v)
      fun _ _ => True := by
    refine Meets.forM (fun rest v => callsOf Queued.promise? u + jobs.length ≤ callsOf Queued.promise? v + rest.length)
      (fun job rest => ?_) jobs
    intro v bound
    have called := callPromise_calls E job (callsOf Queued.promise? v) v (Nat.le_refl _)
    cases ran : (callPromise E job).run v with
    | ok a v' =>
      rw [ran] at called
      simp only [List.length_cons] at bound
      dsimp only at called ⊢
      omega
    | error e v' => trivial
  have called := all.returned (Nat.le_refl _) after
  rw [same.1,← before]
  exact called

end Drains

theorem Fifo.owed {J A : Type} {queue : Queued J → Option A} {log : List (Event J)} {start waiting : List A}
    (fifo : Fifo queue log start [] waiting) :
    (calledIn queue log).length + waiting.length = start.length + (enqueuedIn queue log).length := by
  simpa using congrArg List.length fifo

/-- Between two points of a run at which no job is held, called and waiting jobs do not get fewer. -/
theorem Fifo.owed_le {J A : Type} {queue : Queued J → Option A} {log log' : List (Event J)}
    {start waiting waiting' : List A} (fifo : Fifo queue log start [] waiting) (longer : log <+: log')
    (fifo' : Fifo queue log' start [] waiting') :
    (calledIn queue log).length + waiting.length ≤ (calledIn queue log').length + waiting'.length := by
  have more : (enqueuedIn queue log).length ≤ (enqueuedIn queue log').length := (longer.filterMap _).length_le
  rw [fifo.owed,fifo'.owed]
  omega

/-- Enough calls have been made to reach the first `n` of the jobs that waited. -/
theorem Fifo.reaches {J A : Type} {queue : Queued J → Option A} {log log' : List (Event J)}
    {start waiting waiting' : List A} (fifo : Fifo queue log start [] waiting) (longer : log <+: log')
    (fifo' : Fifo queue log' start [] waiting') {n : Nat}
    (enough : (calledIn queue log).length + min n waiting.length ≤ (calledIn queue log').length) :
    calledIn queue log ++ waiting.take n <+: calledIn queue log' := by
  have before : calledIn queue log ++ waiting.take n <+: start ++ enqueuedIn queue log' := by
    have whole : calledIn queue log ++ waiting.take n <+: start ++ enqueuedIn queue log := by
      rw [← fifo]
      exact (List.prefix_append_right_inj _).mpr (List.take_prefix n waiting)
    exact whole.trans ((List.prefix_append_right_inj _).mpr (longer.filterMap _))
  have after : calledIn queue log' <+: start ++ enqueuedIn queue log' := by
    rw [← fifo']
    exact List.prefix_append _ _
  exact List.prefix_of_prefix_length_le before after (by simpa using enough)

/-- What a turn that goes on has done to the calls of the three queues. -/
structure Serves (w w' : World T) : Prop where
  logs : Appends w w'
  promises : callsOf Queued.promise? w + w.queue.promiseJobs.length ≤ callsOf Queued.promise? w'
  generics : callsOf Queued.generic? w + min 1 w.queue.genericJobs.length ≤ callsOf Queued.generic? w'
  asyncs : callsOf Queued.async? w + w.queue.asyncJobs.length ≤ callsOf Queued.async? w'

section Turn
variable {E : Engine T} {shouldStop : World T → Bool} {onStop : Exec T Unit} {start : Queue T.Job}

theorem startAsyncJobs_calls {ls ls' : LoopState T} {w w' : World T} (ran : (startAsyncJobs ls).run w = .ok ls' w') :
    callsOf Queued.async? w + w.queue.asyncJobs.length ≤ callsOf Queued.async? w' := by
  cases ran
  have called : calledIn Queued.async? (w.queue.asyncJobs.map fun job => Event.called (.async job)) =
      w.queue.asyncJobs := by
    simp [calledIn,List.filterMap_map,Queued.async?]
  simp [callsOf,World.record,called]

theorem openTurn_calls {ls ls' : LoopState T} {w w' : World T} (balanced : Balanced start (holding ls.group) w)
    (ran : (openTurn E ls).run w = .ok (.inl ls') w') :
    callsOf Queued.async? w + w.queue.asyncJobs.length ≤ callsOf Queued.async? w' := by
  obtain ⟨next,u,checked,after⟩ := run_bind_ok.mp ran
  have held := ((Balanced.checkDeadline E ls).returned balanced checked).1
  have logs : Appends w u := ((Appends.covers E).checkDeadline ls).returned checked
  cases next with
  | inr exit => cases after
  | inl ls₁ =>
    obtain ⟨ls₂,v,started,after⟩ := run_bind_ok.mp after
    have last : w' = v := by
      obtain ⟨q,v',read,after⟩ := run_bind_ok.mp after
      cases read
      split at after
      · cases after
      · cases after
        rfl
    have calls := startAsyncJobs_calls started
    have owed := balanced.asyncs.owed_le logs held.asyncs
    unfold callsOf at *
    rw [last]
    omega

theorem closeTurn_serves {ls ls' : LoopState T} {w w' : World T} (balanced : Balanced start (holding ls.group) w)
    (ran : (closeTurn E ls).run w = .ok (.inl ls') w') :
    Appends w w' ∧ callsOf Queued.promise? w + w.queue.promiseJobs.length ≤ callsOf Queued.promise? w' ∧
      callsOf Queued.generic? w + min 1 w.queue.genericJobs.length ≤ callsOf Queued.generic? w' := by
  obtain ⟨next,u,checked,after⟩ := run_bind_ok.mp ran
  obtain ⟨held,next_eq⟩ := (Balanced.checkDeadline E ls).returned balanced checked
  rcases next_eq with rfl | ⟨snapshot,rfl⟩
  · obtain ⟨_,v,drained,yielded⟩ := run_bind_ok.mp after
    obtain ⟨_,v₁,timers,rest⟩ := run_bind_ok.mp drained
    obtain ⟨_,v₂,generic,rest⟩ := run_bind_ok.mp rest
    obtain ⟨_,v₃,promise,cleared⟩ := run_bind_ok.mp rest
    have held₁ := (Balanced.drainTimeoutJobs E ls.group).returned held timers
    have held₂ := (Balanced.drainGenericJob E ls.group).returned held₁ generic
    have logs₁ : Appends w v₁ :=
      ((Appends.covers E).checkDeadline ls |>.returned checked).trans ((Appends.covers E).drainTimeoutJobs.returned timers)
    have logs₂ : Appends v₁ v₂ := (Appends.covers E).drainGenericJob.returned generic
    have logs₃ : Appends v₂ v₃ := (Appends.covers E).drainPromiseJobs.returned promise
    have last : w'.log = v₃.log := by
      cases cleared
      cases yielded
      rfl
    have logs₄ : Appends v₃ w' := .of_eq last
    have calls_generic := drainGenericJob_calls E generic
    have calls_promise := drainPromiseJobs_calls E promise
    have owed_generic := balanced.generics.owed_le logs₁ held₁.generics
    have owed_promise := balanced.promises.owed_le (logs₁.trans logs₂) held₂.promises
    have generic_end := (logs₃.trans logs₄).callsOf_le Queued.generic?
    have generic_start := logs₁.callsOf_le Queued.generic?
    have promise_end := logs₄.callsOf_le Queued.promise?
    refine ⟨((logs₁.trans logs₂).trans logs₃).trans logs₄,?_,?_⟩
    · unfold callsOf at *
      omega
    · unfold callsOf at *
      omega
  · cases after

theorem turn_serves (enqueues : OnlyEnqueues onStop) {ls ls' : LoopState T} {w w' : World T}
    (balanced : Balanced start (holding ls.group) w) (ran : (turn E shouldStop onStop ls).run w = .ok (.inl ls') w') :
    Serves w w' := by
  obtain ⟨stopped,u,stops,after⟩ := run_bind_ok.mp ran
  obtain ⟨next,v,opened,after⟩ := run_bind_ok.mp after
  cases next with
  | inr exit => cases after
  | inl ls₁ =>
    obtain ⟨ls₂,v₁,waited,closed⟩ := run_bind_ok.mp after
    obtain ⟨held,same⟩ := (Balanced.stopOnce shouldStop (enqueues.balanced start) ls).returned balanced stops
    rw [← same] at held
    have held₁ := (Balanced.openTurn E stopped).returned held opened
    have held₂ := (Balanced.waitForWork E ls₁).returned held₁ waited
    have logs := (stopOnce_logs enqueues shouldStop ls).returned stops
    have logs₁ : Appends u v := ((Appends.covers E).openTurn stopped).returned opened
    have logs₂ : Appends v v₁ := ((Appends.covers E).waitForWork ls₁).returned waited
    obtain ⟨logs₃,promises,generics⟩ := closeTurn_serves held₂ closed
    have before := (logs.trans logs₁).trans logs₂
    have owed_generic := balanced.generics.owed_le before held₂.generics
    have owed_promise := balanced.promises.owed_le before held₂.promises
    have owed_async := balanced.asyncs.owed_le logs held.asyncs
    have generic_start := before.callsOf_le Queued.generic?
    have asyncs := openTurn_calls held opened
    have async_end := (logs₂.trans logs₃).callsOf_le Queued.async?
    constructor
    · exact before.trans logs₃
    · unfold callsOf at *
      omega
    · unfold callsOf at *
      omega
    · unfold callsOf at *
      omega

variable (E shouldStop onStop) in
/-- So many turns in a row, each of which goes on. -/
def TurnedTimes : Nat → LoopState T × World T → LoopState T × World T → Prop
  | 0, a, b => a = b
  | n + 1, a, b => ∃ c, Turned E shouldStop onStop a c ∧ TurnedTimes n c b

theorem TurnedTimes.serves (enqueues : OnlyEnqueues onStop) {n : Nat} {a b : LoopState T × World T}
    (balanced : Balanced start (holding a.1.group) a.2) (turned : TurnedTimes E shouldStop onStop n a b) :
    Balanced start (holding b.1.group) b.2 ∧ Appends a.2 b.2 ∧
      callsOf Queued.generic? a.2 + min n a.2.queue.genericJobs.length ≤ callsOf Queued.generic? b.2 ∧
      (0 < n → callsOf Queued.promise? a.2 + a.2.queue.promiseJobs.length ≤ callsOf Queued.promise? b.2 ∧
        callsOf Queued.async? a.2 + a.2.queue.asyncJobs.length ≤ callsOf Queued.async? b.2) := by
  induction n generalizing a with
  | zero =>
    cases turned
    exact ⟨balanced,List.prefix_rfl,by omega,fun none => absurd none (Nat.lt_irrefl 0)⟩
  | succ n ih =>
    obtain ⟨c,first,rest⟩ := turned
    have held : Balanced start (holding c.1.group) c.2 :=
      (Balanced.turn E shouldStop (enqueues.balanced start) a.1).returned balanced first
    have serves : Serves a.2 c.2 := turn_serves enqueues balanced first
    obtain ⟨last,logs,generics,_⟩ := ih held rest
    have owed := balanced.generics.owed_le serves.logs held.generics
    have now := serves.generics
    refine ⟨last,serves.logs.trans logs,?_,fun _ => ⟨?_,?_⟩⟩
    · unfold callsOf at *
      omega
    · exact serves.promises.trans (logs.callsOf_le Queued.promise?)
    · exact serves.asyncs.trans (logs.callsOf_le Queued.async?)

end Turn

end MechanicsCore.Executor
