import MechanicsCore.Executor.Loop
import Mathlib.Data.List.Perm.Basic

/-! No job is lost, duplicated or reordered. The log of a run and the queues
balance against the jobs the run began with and those enqueued on the way, at
every point of the loop; a job taken out of a queue is held until it is called. -/
namespace MechanicsCore.Executor
open MechanicsCore.Library

section Ledger
variable {J A : Type}

def Queued.promise? : Queued J → Option J
  | .promise job => some job
  | _ => none

def Queued.async? : Queued J → Option J
  | .async job => some job
  | _ => none

def Queued.timeout? : Queued J → Option J
  | .timeout job => some job
  | _ => none

def Queued.generic? : Queued J → Option (GenericJob J)
  | .generic job => some job
  | _ => none

def enqueuedIn (queue : Queued J → Option A) (log : List (Event J)) : List A :=
  log.filterMap fun
    | .enqueued job => queue job
    | _ => none

def calledIn (queue : Queued J → Option A) (log : List (Event J)) : List A :=
  log.filterMap fun
    | .called job => queue job
    | _ => none

def cancelledIn (log : List (Event J)) : List J :=
  log.filterMap fun
    | .cancelled job => some job
    | _ => none

def yieldedIn (log : List (Event J)) : List J :=
  log.filterMap fun
    | .yielded job => some job
    | _ => none

section Append
variable (queue : Queued J → Option A) (log events : List (Event J))

@[simp] theorem enqueuedIn_append : enqueuedIn queue (log ++ events) = enqueuedIn queue log ++ enqueuedIn queue events :=
  List.filterMap_append

@[simp] theorem calledIn_append : calledIn queue (log ++ events) = calledIn queue log ++ calledIn queue events :=
  List.filterMap_append

@[simp] theorem cancelledIn_append : cancelledIn (log ++ events) = cancelledIn log ++ cancelledIn events :=
  List.filterMap_append

@[simp] theorem yieldedIn_append : yieldedIn (log ++ events) = yieldedIn log ++ yieldedIn events :=
  List.filterMap_append

end Append

/-- A queue in first-in first-out order: what was called, then what is held for
calling, then what still waits, is what was there at the start and what came. -/
def Fifo (queue : Queued J → Option A) (log : List (Event J)) (start held waiting : List A) : Prop :=
  calledIn queue log ++ (held ++ waiting) = start ++ enqueuedIn queue log

/-- Timers leave in the order of their instants, so they balance as a bag. -/
def Timers (log : List (Event J)) (start held waiting : List J) : Prop :=
  (calledIn Queued.timeout? log ++ (cancelledIn log ++ (held ++ waiting))).Perm
    (start ++ enqueuedIn Queued.timeout? log)

/-- The futures in flight are the async jobs called and not yet yielded. -/
def InFlight (log : List (Event J)) (group : List J) : Prop :=
  (yieldedIn log ++ group).Perm (calledIn Queued.async? log)

section Moves
variable {queue : Queued J → Option A} {log events : List (Event J)} {start held waiting : List A} {x : A}

theorem Fifo.unmoved (fifo : Fifo queue log start held waiting) (arrives : enqueuedIn queue events = [])
    (leaves : calledIn queue events = []) : Fifo queue (log ++ events) start held waiting := by
  simpa [Fifo,arrives,leaves] using fifo

theorem Fifo.arrive (fifo : Fifo queue log start held waiting) (arrives : enqueuedIn queue events = [x])
    (leaves : calledIn queue events = []) : Fifo queue (log ++ events) start held (waiting ++ [x]) := by
  have longer := congrArg (· ++ [x]) fifo
  simpa [Fifo,arrives,leaves] using longer

theorem Fifo.leave (xs : List A) (fifo : Fifo queue log start (xs ++ held) waiting)
    (arrives : enqueuedIn queue events = []) (leaves : calledIn queue events = xs) :
    Fifo queue (log ++ events) start held waiting := by
  simpa [Fifo,arrives,leaves] using fifo

end Moves

section TimerMoves
variable {log events : List (Event J)} {start held waiting : List J} {j : J}

theorem Timers.unmoved (timers : Timers log start held waiting)
    (arrives : enqueuedIn Queued.timeout? events = []) (leaves : calledIn Queued.timeout? events = [])
    (dropped : cancelledIn events = []) : Timers (log ++ events) start held waiting := by
  simpa [Timers,arrives,leaves,dropped] using timers

theorem Timers.arrive {longer : List J} (timers : Timers log start held waiting)
    (added : longer.Perm (waiting ++ [j])) : Timers (log ++ [.enqueued (.timeout j)]) start held longer := by
  have more := timers.append_right [j]
  have came : enqueuedIn Queued.timeout? [Event.enqueued (.timeout j)] = [j] := rfl
  have left : calledIn Queued.timeout? [Event.enqueued (.timeout j)] = [] := rfl
  have dropped : cancelledIn [Event.enqueued (.timeout j)] = [] := rfl
  simp only [Timers,enqueuedIn_append,calledIn_append,cancelledIn_append,came,left,dropped,List.append_nil]
  refine (List.Perm.trans ?_ more).trans (by rw [List.append_assoc])
  simp only [List.append_assoc]
  exact ((added.append_left held).append_left _).append_left _

theorem Timers.leave (timers : Timers log start (j::held) waiting) :
    Timers (log ++ [.called (.timeout j)]) start held waiting := by
  have came : enqueuedIn Queued.timeout? [Event.called (.timeout j)] = [] := rfl
  have left : calledIn Queued.timeout? [Event.called (.timeout j)] = [j] := rfl
  have dropped : cancelledIn [Event.called (.timeout j)] = [] := rfl
  simp only [Timers,enqueuedIn_append,calledIn_append,cancelledIn_append,came,left,dropped,List.append_nil]
  refine List.Perm.trans ?_ timers
  simp only [List.append_assoc,List.cons_append,List.nil_append]
  exact List.perm_middle.symm.append_left _

theorem Timers.expire {dropped due later : List J} (timers : Timers log start [] waiting)
    (parts : (dropped ++ (due ++ later)).Perm waiting) :
    Timers (log ++ dropped.map .cancelled) start due later := by
  have came : enqueuedIn Queued.timeout? (dropped.map Event.cancelled) = [] := by simp [enqueuedIn]
  have left : calledIn Queued.timeout? (dropped.map Event.cancelled) = [] := by simp [calledIn]
  have gone : cancelledIn (dropped.map Event.cancelled) = dropped := by simp [cancelledIn]
  simp only [Timers,enqueuedIn_append,calledIn_append,cancelledIn_append,came,left,gone,List.append_nil]
  refine List.Perm.trans ?_ timers
  rw [List.append_assoc (cancelledIn log)]
  exact (parts.append_left _).append_left _

theorem InFlight.unmoved {group : List J} (inFlight : InFlight log group)
    (called : calledIn Queued.async? events = []) (yielded : yieldedIn events = []) :
    InFlight (log ++ events) group := by
  simpa [InFlight,called,yielded] using inFlight

theorem InFlight.join {group jobs : List J} (inFlight : InFlight log group) :
    InFlight (log ++ jobs.map fun job => .called (.async job)) (group ++ jobs) := by
  have called : calledIn Queued.async? (jobs.map fun job => Event.called (.async job)) = jobs := by
    simp [calledIn,List.filterMap_map,Queued.async?]
  have yielded : yieldedIn (jobs.map fun job => Event.called (.async job)) = [] := by simp [yieldedIn]
  simp only [InFlight,calledIn_append,yieldedIn_append,called,yielded,List.append_nil]
  rw [← List.append_assoc]
  exact inFlight.append_right jobs

theorem InFlight.yield {group : List J} (inFlight : InFlight log group) (i : Fin group.length) :
    InFlight (log ++ [.yielded (group.get i)]) (group.eraseIdx i) := by
  have yielded : yieldedIn [Event.yielded (group.get i)] = [group.get i] := rfl
  have called : calledIn Queued.async? [Event.yielded (group.get i)] = [] := rfl
  simp only [InFlight,calledIn_append,yieldedIn_append,called,yielded,List.append_nil]
  refine List.Perm.trans ?_ inFlight
  rw [List.append_assoc]
  exact (List.getElem_cons_eraseIdx_perm i.isLt).append_left _

end TimerMoves
end Ledger

/-- Jobs taken out of the queues and not called yet, and the futures in flight. -/
structure Held (J : Type) where
  promises : List J
  generics : List (GenericJob J)
  timeouts : List J
  group : List J

def holding {J : Type} (group : List J) : Held J := ⟨[],[],[],group⟩

variable {T : Types}

structure Balanced (start : Queue T.Job) (held : Held T.Job) (w : World T) : Prop where
  promises : Fifo Queued.promise? w.log start.promiseJobs held.promises w.queue.promiseJobs
  generics : Fifo Queued.generic? w.log start.genericJobs held.generics w.queue.genericJobs
  asyncs : Fifo Queued.async? w.log start.asyncJobs [] w.queue.asyncJobs
  timeouts : Timers w.log start.timeoutJobs.items held.timeouts w.queue.timeoutJobs.items
  group : InFlight w.log held.group

namespace Balanced
variable {start : Queue T.Job} {held : Held T.Job} {w : World T}

theorem pushGeneric (balanced : Balanced start held w) (job : GenericJob T.Job) :
    Balanced start held (w.pushGeneric job) where
  promises := balanced.promises.unmoved rfl rfl
  generics := balanced.generics.arrive rfl rfl
  asyncs := balanced.asyncs.unmoved rfl rfl
  timeouts := balanced.timeouts.unmoved rfl rfl rfl
  group := balanced.group.unmoved rfl rfl

theorem enqueueJob (balanced : Balanced start held w) (job : Job T.Job) (now : JsInstant) :
    Balanced start held (w.enqueueJob job now) := by
  cases job with
  | promiseJob job =>
    exact ⟨balanced.promises.arrive rfl rfl,balanced.generics.unmoved rfl rfl,balanced.asyncs.unmoved rfl rfl,
      balanced.timeouts.unmoved rfl rfl rfl,balanced.group.unmoved rfl rfl⟩
  | asyncJob job =>
    exact ⟨balanced.promises.unmoved rfl rfl,balanced.generics.unmoved rfl rfl,balanced.asyncs.arrive rfl rfl,
      balanced.timeouts.unmoved rfl rfl rfl,balanced.group.unmoved rfl rfl⟩
  | timeoutJob job delay =>
    simp only [World.enqueueJob]
    split
    · exact balanced.pushGeneric _
    · exact ⟨balanced.promises.unmoved rfl rfl,balanced.generics.unmoved rfl rfl,balanced.asyncs.unmoved rfl rfl,
        balanced.timeouts.arrive (OrdMap.push_items _ _ _),balanced.group.unmoved rfl rfl⟩
  | genericJob job => exact balanced.pushGeneric _
  | other debug => exact balanced.pushGeneric _

theorem congr (balanced : Balanced start held w) {w' : World T} (queue : w'.queue = w.queue)
    (log : w'.log = w.log) : Balanced start held w' := by
  obtain ⟨promises,generics,asyncs,timeouts,group⟩ := balanced
  constructor <;> rw [log] <;> try rw [queue]
  all_goals assumption

theorem act (balanced : Balanced start held w) (action : HostAction T.Job T.Value) :
    Balanced start held (w.act action) := by
  cases action with
  | enqueue job now => exact balanced.enqueueJob job now
  | settle p outcome => exact balanced.congr (w.settle_queue p outcome) (w.settle_log p outcome)
  | track operation =>
    exact balanced.congr (w.promiseRejectionTracker_queue operation) (w.promiseRejectionTracker_log operation)
  | enterRealm realm => exact balanced.congr rfl rfl

theorem acts (balanced : Balanced start held w) (actions : List (HostAction T.Job T.Value)) :
    Balanced start held (actions.foldl World.act w) := by
  induction actions generalizing w with
  | nil => exact balanced
  | cons action rest ih => exact ih (balanced.act action)

theorem perform {α : Type} (effect : Context T → Effect T α) :
    Meets (Balanced start held) (perform effect) (fun _ => Balanced start held) fun _ _ => True := by
  intro w balanced
  have heap : Balanced start held (w.setHeap (effect w.context).heap) := balanced.congr rfl rfl
  have after := heap.acts (effect w.context).actions
  rw [perform_run]
  cases (effect w.context).outcome with
  | some a => exact after
  | none => trivial

theorem performResult {α : Type} (effect : Context T → Effect T (JsResult T.Value α)) :
    Meets (Balanced start held) (performResult effect) (fun _ => Balanced start held) fun _ _ => True := by
  refine (Balanced.perform effect).bind fun result => ?_
  cases result with
  | ok a => exact fun _ balanced => balanced
  | error e => exact fun _ _ => trivial

variable (E : Engine T)

theorem clockNow : Meets (Balanced start held) (clockNow E) (fun _ => Balanced start held) fun _ _ => True :=
  fun _ balanced => balanced.congr rfl rfl

theorem callPromise (job : T.Job) (rest : List T.Job) :
    Meets (Balanced start {held with promises := job::rest}) (callPromise E job)
      (fun _ => Balanced start {held with promises := rest}) fun _ _ => True := by
  have recorded : Meets (Balanced start {held with promises := job::rest})
      (modify (·.record [.called (.promise job)]) : Exec T PUnit)
      (fun _ => Balanced start {held with promises := rest}) fun _ _ => True := fun _ balanced =>
    ⟨Fifo.leave [job] balanced.promises rfl rfl,balanced.generics.unmoved rfl rfl,
      balanced.asyncs.unmoved rfl rfl,balanced.timeouts.unmoved rfl rfl rfl,balanced.group.unmoved rfl rfl⟩
  exact recorded.bind fun _ => Balanced.performResult _

theorem callTimeout (job : T.Job) (rest : List T.Job) :
    Meets (Balanced start {held with timeouts := job::rest}) (callTimeout E job)
      (fun _ => Balanced start {held with timeouts := rest}) fun _ _ => True := by
  have recorded : Meets (Balanced start {held with timeouts := job::rest})
      (modify (·.record [.called (.timeout job)]) : Exec T PUnit)
      (fun _ => Balanced start {held with timeouts := rest}) fun _ _ => True := fun _ balanced =>
    ⟨balanced.promises.unmoved rfl rfl,balanced.generics.unmoved rfl rfl,balanced.asyncs.unmoved rfl rfl,
      Timers.leave balanced.timeouts,balanced.group.unmoved rfl rfl⟩
  exact recorded.bind fun _ => Balanced.performResult _

theorem callGeneric (job : GenericJob T.Job) :
    Meets (Balanced start {held with generics := [job]}) (callGeneric E job)
      (fun _ => Balanced start {held with generics := []}) fun _ _ => True := by
  have recorded : Meets (Balanced start {held with generics := [job]})
      (modify (·.record [.called (.generic job)]) : Exec T PUnit)
      (fun _ => Balanced start {held with generics := []}) fun _ _ => True := fun _ balanced =>
    ⟨balanced.promises.unmoved rfl rfl,Fifo.leave [job] balanced.generics rfl rfl,balanced.asyncs.unmoved rfl rfl,
      balanced.timeouts.unmoved rfl rfl rfl,balanced.group.unmoved rfl rfl⟩
  refine recorded.bind fun _ => ?_
  cases job with
  | body job => exact Balanced.performResult _
  | delayTooLarge => exact fun _ _ => trivial
  | unsupported message => exact fun _ _ => trivial

variable (group : List T.Job)

theorem takeDueTimeouts (now : JsInstant) :
    Meets (Balanced start (holding group)) (takeDueTimeouts E now)
      (fun due => Balanced start {holding group with timeouts := due}) fun _ _ => True := by
  intro w balanced
  have parts : ((w.queue.timeoutJobs.items.filter fun job => E.isCancelled job w.context) ++
      (((w.queue.timeoutJobs.retain fun job => !E.isCancelled job w.context).popWhile (· ≤ now)).1.flatten ++
        ((w.queue.timeoutJobs.retain fun job => !E.isCancelled job w.context).popWhile (· ≤ now)).2.items)).Perm
      w.queue.timeoutJobs.items := by
    rw [OrdMap.popWhile_items,OrdMap.retain_items]
    exact List.filter_append_perm _ _
  refine ⟨balanced.promises.unmoved ?_ ?_,balanced.generics.unmoved ?_ ?_,balanced.asyncs.unmoved ?_ ?_,
    Timers.expire balanced.timeouts parts,balanced.group.unmoved ?_ ?_⟩
  all_goals simp [enqueuedIn,calledIn,yieldedIn]

theorem drainTimeoutJobs :
    Meets (Balanced start (holding group)) (drainTimeoutJobs E) (fun _ => Balanced start (holding group))
      fun _ _ => True := by
  refine (Balanced.clockNow E).bind fun now => ?_
  refine (Balanced.takeDueTimeouts E group now).bind fun due => ?_
  exact Meets.forM (fun rest => Balanced start {holding group with timeouts := rest})
    (fun job rest => Balanced.callTimeout E job rest) due

theorem drainGenericJob :
    Meets (Balanced start (holding group)) (drainGenericJob E) (fun _ => Balanced start (holding group))
      fun _ _ => True := by
  have popped : Meets (Balanced start (holding group)) (popGeneric : Exec T _)
      (fun job => Balanced start {holding group with generics := job.toList}) fun _ _ => True := by
    intro w balanced
    refine ⟨balanced.promises,?_,balanced.asyncs,balanced.timeouts,balanced.group⟩
    have generics := balanced.generics
    change Fifo Queued.generic? w.log start.genericJobs w.queue.genericJobs.head?.toList w.queue.genericJobs.tail
    cases waiting : w.queue.genericJobs with
    | nil => rwa [waiting] at generics
    | cons job rest => rwa [waiting] at generics
  refine popped.bind fun job => ?_
  cases job with
  | some job => exact Balanced.callGeneric E job
  | none => exact fun _ balanced => balanced

theorem drainPromiseJobs :
    Meets (Balanced start (holding group)) (drainPromiseJobs E) (fun _ => Balanced start (holding group))
      fun _ _ => True := by
  have taken : Meets (Balanced start (holding group)) (takePromiseJobs : Exec T _)
      (fun jobs => Balanced start {holding group with promises := jobs}) fun _ _ => True := by
    intro w balanced
    refine ⟨?_,balanced.generics,balanced.asyncs,balanced.timeouts,balanced.group⟩
    simpa [Fifo,holding] using balanced.promises
  refine taken.bind fun jobs => ?_
  exact Meets.forM (fun rest => Balanced start {holding group with promises := rest})
    (fun job rest => Balanced.callPromise E job rest) jobs

theorem drainJobs :
    Meets (Balanced start (holding group)) (drainJobs E) (fun _ => Balanced start (holding group))
      fun _ _ => True := by
  refine (Balanced.drainTimeoutJobs E group).bind fun _ => ?_
  refine (Balanced.drainGenericJob E group).bind fun _ => ?_
  refine (Balanced.drainPromiseJobs E group).bind fun _ => ?_
  exact fun _ balanced => balanced.congr rfl rfl

theorem checkDeadline (ls : LoopState T) :
    Meets (Balanced start held) (checkDeadline E ls)
      (fun next w => Balanced start held w ∧ (next = .inl ls ∨ ∃ snapshot, next = .inr (.deadlineExceeded snapshot)))
      fun _ _ => True := by
  have checked : Meets (Balanced start held) (deadlineExceeded E) (fun _ => Balanced start held)
      fun _ _ => True := by
    refine Meets.get_bind fun w => ?_
    cases w.queue.deadline with
    | none => exact fun _ balanced => balanced
    | some deadline => exact (Balanced.clockNow E).bind fun now => fun _ balanced => balanced
  refine checked.bind fun exceeded => ?_
  cases exceeded with
  | true => exact fun _ balanced => ⟨balanced,.inr ⟨_,rfl⟩⟩
  | false => exact fun _ balanced => ⟨balanced,.inl rfl⟩

theorem startAsyncJobs (ls : LoopState T) :
    Meets (Balanced start (holding ls.group)) (startAsyncJobs ls)
      (fun ls w => Balanced start (holding ls.group) w ∧ w.queue.asyncJobs = []) fun _ _ => True := by
  intro w balanced
  have taken : Fifo Queued.async? w.log start.asyncJobs (w.queue.asyncJobs ++ []) [] := by
    simpa [Fifo] using balanced.asyncs
  refine ⟨⟨balanced.promises.unmoved ?_ ?_,balanced.generics.unmoved ?_ ?_,taken.leave _ ?_ ?_,
    balanced.timeouts.unmoved ?_ ?_ ?_,balanced.group.join⟩,rfl⟩
  all_goals
    simp [enqueuedIn,calledIn,cancelledIn,List.filterMap_map,Queued.promise?,Queued.generic?,Queued.async?,
      Queued.timeout?]

theorem sleepForTimer :
    Meets (Balanced start held) (sleepForTimer E) (fun _ => Balanced start held) fun _ _ => True := by
  refine Meets.get_bind fun w => ?_
  dsimp only
  split
  · cases w.queue.nextTimeoutAt with
    | none => exact fun _ balanced => balanced
    | some nextTimeoutAt =>
      refine (Balanced.clockNow E).bind fun now => ?_
      split
      · exact fun _ balanced => balanced.congr rfl rfl
      · exact fun _ balanced => balanced
  · exact fun _ balanced => balanced

theorem pollGroup (ls : LoopState T) :
    Meets (Balanced start (holding ls.group)) (pollGroup E ls)
      (fun ls => Balanced start (holding ls.group)) fun _ _ => True := by
  refine (Balanced.clockNow E).bind fun now => ?_
  refine Meets.get_bind fun w => ?_
  dsimp only
  split
  · exact fun _ balanced => balanced
  · refine (Balanced.perform _).bind fun polled => ?_
    split
    · rename_i i
      exact fun _ balanced => ⟨balanced.promises.unmoved rfl rfl,balanced.generics.unmoved rfl rfl,
        balanced.asyncs.unmoved rfl rfl,balanced.timeouts.unmoved rfl rfl rfl,balanced.group.yield i⟩
    · exact fun _ _ => trivial
    · exact fun _ balanced => balanced

theorem waitForWork (ls : LoopState T) :
    Meets (Balanced start (holding ls.group)) (waitForWork E ls)
      (fun ls => Balanced start (holding ls.group)) fun _ _ => True := by
  unfold Executor.waitForWork
  split
  · exact (Balanced.sleepForTimer E).bind fun _ => fun _ balanced => balanced
  · exact Balanced.pollGroup E ls

theorem stopOnce (shouldStop : World T → Bool) {onStop : Exec T Unit}
    (stops : ∀ held, Meets (Balanced start held) onStop (fun _ => Balanced start held) fun _ _ => True)
    (ls : LoopState T) :
    Meets (Balanced start held) (stopOnce shouldStop onStop ls)
      (fun next w => Balanced start held w ∧ next.group = ls.group) fun _ _ => True := by
  refine Meets.get_bind fun w => ?_
  split
  · have called : Meets (Balanced start held) (modify (·.record [.stopCalled]) : Exec T PUnit)
        (fun _ => Balanced start held) fun _ _ => True := fun _ balanced =>
      ⟨balanced.promises.unmoved rfl rfl,balanced.generics.unmoved rfl rfl,balanced.asyncs.unmoved rfl rfl,
        balanced.timeouts.unmoved rfl rfl rfl,balanced.group.unmoved rfl rfl⟩
    split
    · refine called.bind fun _ => ?_
      exact (stops held).bind fun _ => fun _ balanced => ⟨balanced,rfl⟩
    · exact fun _ balanced => ⟨balanced,rfl⟩
  · exact fun _ balanced => ⟨balanced,rfl⟩

end Balanced

structure Drained (q : Queue T.Job) : Prop where
  asyncs : q.asyncJobs = []
  promises : q.promiseJobs = []
  timeouts : q.timeoutJobs.isEmpty = true
  generics : q.genericJobs = []

def Balanced.Next (start : Queue T.Job) (next : LoopState T ⊕ RunJobsExit) (w : World T) : Prop :=
  match next with
  | .inl ls => Balanced start (holding ls.group) w
  | .inr .complete => Balanced start (holding []) w ∧ Drained w.queue
  | .inr (.deadlineExceeded _) => True

section Loop
variable (E : Engine T) {start : Queue T.Job}

theorem Balanced.openTurn (ls : LoopState T) :
    Meets (Balanced start (holding ls.group)) (openTurn E ls) (Balanced.Next start) fun _ _ => True := by
  refine (Balanced.checkDeadline E ls).bind fun next => ?_
  rintro w ⟨balanced,rfl | ⟨snapshot,rfl⟩⟩
  · refine Meets.bind (Balanced.startAsyncJobs ls) (fun started => ?_) w balanced
    refine Meets.read_bind fun w ⟨balanced,noAsync⟩ => ?_
    split
    · rename_i quiet
      simp only [quiescent,Bool.and_eq_true,List.isEmpty_iff] at quiet
      obtain ⟨⟨⟨noGroup,noPromise⟩,noTimeout⟩,noGeneric⟩ := quiet
      rintro _ rfl
      exact ⟨noGroup ▸ balanced,⟨noAsync,noPromise,noTimeout,noGeneric⟩⟩
    · rintro _ rfl
      exact balanced
  · trivial

theorem Balanced.closeTurn (ls : LoopState T) :
    Meets (Balanced start (holding ls.group)) (closeTurn E ls) (Balanced.Next start) fun _ _ => True := by
  refine (Balanced.checkDeadline E ls).bind fun next => ?_
  rintro w ⟨balanced,rfl | ⟨snapshot,rfl⟩⟩
  · refine Meets.bind (Balanced.drainJobs E ls.group) (fun _ => ?_) w balanced
    exact fun _ balanced => balanced.congr rfl rfl
  · trivial

variable (shouldStop : World T → Bool) {onStop : Exec T Unit}
  (stops : ∀ held, Meets (Balanced start held) onStop (fun _ => Balanced start held) fun _ _ => True)
include stops

theorem Balanced.turn (ls : LoopState T) :
    Meets (Balanced start (holding ls.group)) (turn E shouldStop onStop ls) (Balanced.Next start)
      fun _ _ => True := by
  refine (Balanced.stopOnce shouldStop stops ls).bind fun stopped => ?_
  rintro w ⟨balanced,same⟩
  rw [← same] at balanced
  refine Meets.bind (Balanced.openTurn E stopped) (fun next => ?_) w balanced
  cases next with
  | inr exit => exact fun _ after => after
  | inl ls => exact Meets.bind (Balanced.waitForWork E ls) fun ls => Balanced.closeTurn E ls

theorem Balanced.turns (fuel : Nat) (ls : LoopState T) :
    Meets (Balanced start (holding ls.group)) (turns E shouldStop onStop fuel ls)
      (fun exit => Balanced.Next start (.inr exit)) fun _ _ => True := by
  induction fuel generalizing ls with
  | zero => exact fun _ _ => trivial
  | succ fuel ih =>
    refine (Balanced.turn E shouldStop stops ls).bind fun next => ?_
    cases next with
    | inr exit => exact fun _ after => after
    | inl ls => exact ih ls

end Loop

/-- The queues and the log are what enqueueing some jobs makes of them. -/
def Enqueues (w w' : World T) : Prop :=
  ∃ jobs : List (Job T.Job × JsInstant),
    w'.queue = (jobs.foldl (fun w job => w.enqueueJob job.1 job.2) w).queue ∧
    w'.log = (jobs.foldl (fun w job => w.enqueueJob job.1 job.2) w).log

/-- A callback that reaches the queues only through `enqueue_job`. -/
def OnlyEnqueues (onStop : Exec T Unit) : Prop := Keeps Enqueues (fun _ => True) onStop

section Enqueues
variable {v w : World T}

theorem World.enqueueJob_congr (queue : v.queue = w.queue) (log : v.log = w.log) (job : Job T.Job) (now : JsInstant) :
    (v.enqueueJob job now).queue = (w.enqueueJob job now).queue ∧ (v.enqueueJob job now).log = (w.enqueueJob job now).log := by
  cases job with
  | timeoutJob job delay =>
    simp only [World.enqueueJob]
    split <;> simp [World.pushGeneric,World.record,queue,log]
  | _ => simp [World.enqueueJob,World.pushGeneric,World.record,queue,log]

theorem enqueueJobs_congr (queue : v.queue = w.queue) (log : v.log = w.log) (jobs : List (Job T.Job × JsInstant)) :
    (jobs.foldl (fun w job => w.enqueueJob job.1 job.2) v).queue =
        (jobs.foldl (fun w job => w.enqueueJob job.1 job.2) w).queue ∧
      (jobs.foldl (fun w job => w.enqueueJob job.1 job.2) v).log =
        (jobs.foldl (fun w job => w.enqueueJob job.1 job.2) w).log := by
  induction jobs generalizing v w with
  | nil => exact ⟨queue,log⟩
  | cons job rest ih =>
    obtain ⟨queue,log⟩ := World.enqueueJob_congr queue log job.1 job.2
    exact ih queue log

theorem Enqueues.same (queue : w.queue = v.queue) (log : w.log = v.log) : Enqueues v w := ⟨[],queue,log⟩

instance : Std.Refl (Enqueues (T := T)) := ⟨fun _ => .same rfl rfl⟩

instance : IsTrans (World T) Enqueues where
  trans u v w first second := by
    obtain ⟨jobs,queue,log⟩ := first
    obtain ⟨more,queue',log'⟩ := second
    have after := enqueueJobs_congr queue log more
    refine ⟨jobs ++ more,?_,?_⟩
    · rw [List.foldl_append]
      exact queue'.trans after.1
    · rw [List.foldl_append]
      exact log'.trans after.2

/-- Whatever a script does to its host, it reaches the queues through `enqueue_job`. -/
theorem Enqueues.apply {α : Type} (w : World T) (effect : Effect T α) : Enqueues w (w.apply effect) := by
  have act (w : World T) (action : HostAction T.Job T.Value) : Enqueues w (w.act action) := by
    cases action with
    | enqueue job now => exact ⟨[(job,now)],rfl,rfl⟩
    | settle p outcome => exact .same (w.settle_queue p outcome) (w.settle_log p outcome)
    | track operation => exact .same (w.promiseRejectionTracker_queue operation) (w.promiseRejectionTracker_log operation)
    | enterRealm realm => exact .same rfl rfl
  have acts (actions : List (HostAction T.Job T.Value)) (w : World T) : Enqueues w (actions.foldl World.act w) := by
    induction actions generalizing w with
    | nil => exact .same rfl rfl
    | cons action rest ih => exact IsTrans.trans _ _ _ (act w action) (ih _)
  have heap : Enqueues w (w.setHeap effect.heap) := .same rfl rfl
  exact IsTrans.trans _ _ _ heap (acts effect.actions _)

end Enqueues

theorem OnlyEnqueues.balanced {onStop : Exec T Unit} (enqueues : OnlyEnqueues onStop) (start : Queue T.Job)
    (held : Held T.Job) :
    Meets (Balanced start held) onStop (fun _ => Balanced start held) fun _ _ => True := by
  intro w balanced
  cases ran : onStop.run w with
  | error e w' => trivial
  | ok a w' =>
    obtain ⟨jobs,queue,log⟩ := enqueues.returned ran
    refine Balanced.congr ?_ queue log
    clear queue log ran
    induction jobs generalizing w with
    | nil => exact balanced
    | cons job rest ih => exact ih _ (balanced.enqueueJob job.1 job.2)

theorem Balanced.opening {w : World T} (fresh : w.log = []) : Balanced w.queue (holding []) w := by
  constructor <;> simp [Fifo,Timers,InFlight,holding,fresh,enqueuedIn,calledIn,cancelledIn,yieldedIn]

/-- A complete run leaves every queue empty and every future yielded; promise, generic
and async jobs were called once each in the order they were enqueued, and the
timers called or dropped as cancelled are those that were there or came. -/
theorem complete_conserves (E : Engine T) (shouldStop : World T → Bool) (onStop : Exec T Unit)
    (enqueues : OnlyEnqueues onStop) (fuel : Nat) (w w' : World T) (fresh : w.log = [])
    (ran : (runJobsUntilThenToQuiescence E shouldStop onStop fuel).run w = .ok .complete w') :
    Drained w'.queue ∧
    calledIn Queued.promise? w'.log = w.queue.promiseJobs ++ enqueuedIn Queued.promise? w'.log ∧
    calledIn Queued.generic? w'.log = w.queue.genericJobs ++ enqueuedIn Queued.generic? w'.log ∧
    calledIn Queued.async? w'.log = w.queue.asyncJobs ++ enqueuedIn Queued.async? w'.log ∧
    (calledIn Queued.timeout? w'.log ++ cancelledIn w'.log).Perm
      (w.queue.timeoutJobs.items ++ enqueuedIn Queued.timeout? w'.log) ∧
    (yieldedIn w'.log).Perm (calledIn Queued.async? w'.log) := by
  have closing := (Balanced.turns E shouldStop (enqueues.balanced w.queue) fuel .new).returned (.opening fresh) ran
  obtain ⟨⟨promises,generics,asyncs,timeouts,group⟩,drained⟩ := closing
  have noTimers : w'.queue.timeoutJobs.items = [] := OrdMap.isEmpty_items drained.timeouts
  refine ⟨drained,?_,?_,?_,?_,?_⟩
  · simpa [Fifo,holding,drained.promises] using promises
  · simpa [Fifo,holding,drained.generics] using generics
  · simpa [Fifo,holding,drained.asyncs] using asyncs
  · simpa [Timers,holding,noTimers] using timeouts
  · simpa [InFlight,holding] using group

/-- Promise job `n + 1` enqueues promise job `n`; the first future of the group completes. -/
def countdown : Engine plain :=
  {Engine.silent with
    call := fun
      | .promise, n + 1, c => .plain c [.enqueue (.promiseJob n) ⟨0,by decide⟩] (.ok ())
      | _, _, c => .plain c [] (.ok ())
    next := fun
      | [], _, c => .plain c [] none
      | _::_, _, c => .plain c [] (some (0,.ok ()))}

def countdownStart : World plain :=
  {(World.new 0 : World plain) with queue := ⟨[5],[2,1],OrdMap.empty.push ⟨3000000,by decide⟩ 9,[.body 4],none⟩}

theorem complete_conserves_at_countdown : ∃ w', (runJobsUntilThenToQuiescence countdown (fun _ => false) (pure ())
    8).run countdownStart = .ok .complete w' ∧ Drained w'.queue ∧
    enqueuedIn Queued.promise? w'.log = [1,0,0] ∧ calledIn Queued.promise? w'.log = [2,1] ++ [1,0,0] ∧
    (calledIn Queued.timeout? w'.log ++ cancelledIn w'.log).Perm [9] := by
  obtain ⟨exit,w',ran,passed⟩ := returnsWith_witness
    ((runJobsUntilThenToQuiescence countdown (fun _ => false) (pure ()) 8).run countdownStart)
    (fun exit w => exit == .complete && enqueuedIn Queued.promise? w.log == [1,0,0] &&
      enqueuedIn Queued.timeout? w.log == []) (by decide +kernel)
  simp only [Bool.and_eq_true,beq_iff_eq] at passed
  obtain ⟨⟨rfl,promises⟩,timers⟩ := passed
  obtain ⟨drained,called,_,_,fired,_⟩ :=
    complete_conserves countdown (fun _ => false) (pure ()) (fun _ => ⟨[],rfl,rfl⟩) 8 countdownStart w' rfl ran
  rw [timers] at fired
  rw [promises] at called
  exact ⟨w',ran,drained,promises,called,fired⟩

end MechanicsCore.Executor
