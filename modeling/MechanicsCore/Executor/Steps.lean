import MechanicsCore.Executor.Loop

/-! What the executor can do to the world, said once. A relation that covers each
thing a program of the event loop does, the stop callback aside, covers the whole
program; and no program but the loop itself runs out of fuel. -/
namespace MechanicsCore.Executor
open MechanicsCore.Library
variable {T : Types}

/-- The calls into the engine that run script, with their actions and the heap they leave. -/
inductive Engine.Does (E : Engine T) (c : Context T) : List (HostAction T.Job T.Value) → T.Heap → Prop
  | call (kind : JobKind) (job : T.Job) : Does E c (E.call kind job c).actions (E.call kind job c).heap
  | next (group : List T.Job) (budget : Option Nat) :
      Does E c (E.next group budget c).actions (E.next group budget c).heap
  | bundle : Does E c (E.bundleBuiltinModules c).actions (E.bundleBuiltinModules c).heap
  | parse (source : String) : Does E c (E.parse source c).actions (E.parse source c).heap
  | evaluate (module : T.Value) : Does E c (E.loadLinkEvaluate module c).actions (E.loadLinkEvaluate module c).heap
  | fromJson (json : T.Json) : Does E c (E.fromJson json c).actions (E.fromJson json c).heap
  | getDefault (module : T.Value) : Does E c (E.getDefault module c).actions (E.getDefault module c).heap
  | callFunction (f arg : T.Value) : Does E c (E.callFunction f arg c).actions (E.callFunction f arg c).heap
  | resolve (value : T.Value) : Does E c (E.resolve value c).actions (E.resolve value c).heap
  | toJson (value : T.Value) : Does E c (E.toJson value c).actions (E.toJson value c).heap

/-- The calls that leave everything but the heap alone. -/
inductive Engine.Waits (E : Engine T) (c : Context T) : T.Heap → Prop
  | now : Waits E c (E.now c).2
  | sleep (d : Nat) : Waits E c (E.sleep d c)
  | yieldNow : Waits E c (E.yieldNow c)
  | clearKeptObjects : Waits E c (E.clearKeptObjects c)
  | createRealm : Waits E c (E.createRealm c).2

def InFuel : Fault T → Prop
  | .outOfFuel => False
  | _ => True

/-- A relation that covers everything the programs of the loop do to the world but
calling the stop callback. -/
structure Covers (E : Engine T) (R : World T → World T → Prop) : Prop where
  run : ∀ w actions heap, E.Does w.context actions heap → R w (actions.foldl World.act (w.setHeap heap))
  wait : ∀ w heap, E.Waits w.context heap → R w (w.setHeap heap)
  record : ∀ w events, .stopCalled ∉ events → R w (w.record events)
  takeAsyncs : ∀ w, R w {w with queue := {w.queue with asyncJobs := []}}
  takePromises : ∀ w, R w {w with queue := {w.queue with promiseJobs := []}}
  popGeneric : ∀ w, R w {w with queue := {w.queue with genericJobs := w.queue.genericJobs.tail}}
  takeTimers : ∀ w kept due, R w {w with queue := {w.queue with
    timeoutJobs := ((w.queue.timeoutJobs.retain kept).popWhile due).2}}

namespace Covers
variable {E : Engine T} {R : World T → World T → Prop} [Std.Refl R] [IsTrans (World T) R] {α : Type}
variable (covers : Covers E R)
include covers

omit [Std.Refl R] [IsTrans (World T) R] in
theorem perform {effect : Context T → Effect T α}
    (does : ∀ c, E.Does c (effect c).actions (effect c).heap) : Keeps R InFuel (perform effect) := by
  intro w
  have taken : R w (w.apply (effect w.context)) := covers.run w _ _ (does w.context)
  rw [perform_run]
  cases (effect w.context).outcome with
  | some a => exact taken
  | none => exact ⟨taken,trivial⟩

theorem performResult {effect : Context T → Effect T (JsResult T.Value α)}
    (does : ∀ c, E.Does c (effect c).actions (effect c).heap) : Keeps R InFuel (performResult effect) := by
  refine (covers.perform does).bind fun result => ?_
  cases result with
  | ok a => exact .pure a
  | error e => exact .throw trivial

omit [Std.Refl R] [IsTrans (World T) R] in
theorem logs (events : List (Event T.Job)) (unstopped : .stopCalled ∉ events) :
    Keeps R InFuel (modify (·.record events) : Exec T PUnit) :=
  .modify fun w => covers.record w events unstopped

omit [Std.Refl R] [IsTrans (World T) R] in
theorem clockNow : Keeps R InFuel (clockNow E) := fun w => covers.wait w _ .now

theorem deadlineExceeded : Keeps R InFuel (deadlineExceeded E) := by
  refine Keeps.get.bind fun w => ?_
  cases w.queue.deadline with
  | none => exact .pure _
  | some deadline => exact covers.clockNow.bind fun now => .pure _

theorem callPromise (job : T.Job) : Keeps R InFuel (callPromise E job) :=
  (covers.logs _ (by simp)).bind fun _ => covers.performResult fun _ => .call _ _

theorem callTimeout (job : T.Job) : Keeps R InFuel (callTimeout E job) :=
  (covers.logs _ (by simp)).bind fun _ => covers.performResult fun _ => .call _ _

theorem callGeneric (job : GenericJob T.Job) : Keeps R InFuel (callGeneric E job) := by
  refine (covers.logs _ (by simp)).bind fun _ => ?_
  cases job with
  | body job => exact covers.performResult fun _ => .call _ _
  | delayTooLarge => exact .throw trivial
  | unsupported message => exact .throw trivial

theorem drainTimeoutJobs : Keeps R InFuel (drainTimeoutJobs E) := by
  refine covers.clockNow.bind fun now => ?_
  have taken : Keeps R InFuel (takeDueTimeouts E now) := by
    apply Keeps.modifyGet
    intro w
    exact IsTrans.trans _ _ _ (covers.takeTimers w _ _) (covers.record _ _ (by simp))
  exact taken.bind fun due => .forM covers.callTimeout due

theorem drainGenericJob : Keeps R InFuel (drainGenericJob E) := by
  have popped : Keeps R InFuel (Executor.popGeneric : Exec T _) := .modifyGet covers.popGeneric
  refine popped.bind fun job => ?_
  cases job with
  | some job => exact covers.callGeneric job
  | none => exact .pure _

theorem drainPromiseJobs : Keeps R InFuel (drainPromiseJobs E) := by
  have taken : Keeps R InFuel (takePromiseJobs : Exec T _) := .modifyGet covers.takePromises
  exact taken.bind fun jobs => .forM covers.callPromise jobs

theorem drainJobs : Keeps R InFuel (drainJobs E) := by
  refine covers.drainTimeoutJobs.bind fun _ => ?_
  refine covers.drainGenericJob.bind fun _ => ?_
  refine covers.drainPromiseJobs.bind fun _ => ?_
  exact .modify fun w => covers.wait w _ .clearKeptObjects

omit [Std.Refl R] in
theorem startAsyncJobs (ls : LoopState T) : Keeps R InFuel (startAsyncJobs ls) := by
  apply Keeps.modifyGet
  intro w
  exact IsTrans.trans _ _ _ (covers.takeAsyncs w) (covers.record _ _ (by simp))

theorem sleepForTimer : Keeps R InFuel (sleepForTimer E) := by
  refine Keeps.get.bind fun w => ?_
  dsimp only
  split
  · cases w.queue.nextTimeoutAt with
    | none => exact .pure _
    | some nextTimeoutAt =>
      refine covers.clockNow.bind fun now => ?_
      split
      · exact .modify fun w => covers.wait w _ (.sleep _)
      · exact .pure _
  · exact .pure _

theorem pollGroup (ls : LoopState T) : Keeps R InFuel (pollGroup E ls) := by
  refine covers.clockNow.bind fun now => ?_
  refine Keeps.get.bind fun w => ?_
  dsimp only
  split
  · exact .pure _
  · refine (covers.perform fun _ => .next _ _).bind fun polled => ?_
    split
    · exact (covers.logs _ (by simp)).bind fun _ => .pure _
    · exact .throw trivial
    · exact .pure _

theorem waitForWork (ls : LoopState T) : Keeps R InFuel (waitForWork E ls) := by
  unfold Executor.waitForWork
  split
  · exact covers.sleepForTimer.bind fun _ => .pure _
  · exact covers.pollGroup ls

theorem checkDeadline (ls : LoopState T) : Keeps R InFuel (checkDeadline E ls) := by
  refine covers.deadlineExceeded.bind fun exceeded => ?_
  cases exceeded with
  | true => exact Keeps.get.bind fun _ => .pure _
  | false => exact .pure _

theorem openTurn (ls : LoopState T) : Keeps R InFuel (openTurn E ls) := by
  refine (covers.checkDeadline ls).bind fun next => ?_
  cases next with
  | inr exit => exact .pure _
  | inl ls =>
    refine (covers.startAsyncJobs ls).bind fun ls => ?_
    refine Keeps.get.bind fun w => ?_
    split
    · exact .pure _
    · exact .pure _

theorem closeTurn (ls : LoopState T) : Keeps R InFuel (closeTurn E ls) := by
  refine (covers.checkDeadline ls).bind fun next => ?_
  cases next with
  | inr exit => exact .pure _
  | inl ls =>
    refine covers.drainJobs.bind fun _ => ?_
    refine Keeps.bind ?_ fun _ => .pure _
    exact .modify fun w => covers.wait w _ .yieldNow

theorem restOfTurn (ls : LoopState T) : Keeps R InFuel (restOfTurn E ls) := by
  refine (covers.openTurn ls).bind fun next => ?_
  cases next with
  | inr exit => exact .pure _
  | inl ls => exact (covers.waitForWork ls).bind fun ls => covers.closeTurn ls

omit covers in
theorem stopNever (onStop : Exec T Unit) (ls : LoopState T) :
    Keeps R InFuel (stopOnce (fun _ => false) onStop ls) := by
  refine Keeps.get.bind fun w => ?_
  simp only [Bool.and_false,Bool.false_eq_true,↓reduceIte]
  exact .pure _

theorem turns (onStop : Exec T Unit) (fuel : Nat) (ls : LoopState T) :
    Keeps R (fun _ => True) (turns E (fun _ => false) onStop fuel ls) := by
  induction fuel generalizing ls with
  | zero => exact .throw trivial
  | succ fuel ih =>
    have turned : Keeps R InFuel (turn E (fun _ => false) onStop ls) :=
      (stopNever onStop ls).bind fun ls => covers.restOfTurn ls
    refine (turned.mono (fun _ _ related => related) fun _ _ => trivial).bind fun next => ?_
    cases next with
    | inr exit => exact .pure _
    | inl ls => exact ih ls

theorem runJobs (fuel : Nat) : Keeps R (fun _ => True) (runJobs E fuel) := by
  refine (covers.turns _ fuel .new).bind fun exit => ?_
  cases exit with
  | complete => exact .pure _
  | deadlineExceeded snapshot => exact .throw trivial

end Covers

inductive Step (E : Engine T) (w : World T) : World T → Prop
  | run {actions : List (HostAction T.Job T.Value)} {heap : T.Heap} (does : E.Does w.context actions heap) :
      Step E w (actions.foldl World.act (w.setHeap heap))
  | wait {heap : T.Heap} (waits : E.Waits w.context heap) : Step E w (w.setHeap heap)
  | move (queue : Queue T.Job) (deadline : queue.deadline = w.queue.deadline) : Step E w {w with queue}
  | record (events : List (Event T.Job)) (unstopped : .stopCalled ∉ events) : Step E w (w.record events)

def Steps (E : Engine T) : World T → World T → Prop := Relation.ReflTransGen (Step E)

instance (E : Engine T) : Std.Refl (Steps E) := ⟨fun _ => .refl⟩
instance (E : Engine T) : IsTrans (World T) (Steps E) := ⟨fun _ _ _ => .trans⟩

theorem Steps.covers (E : Engine T) : Covers E (Steps E) where
  run _ _ _ does := .single (.run does)
  wait _ _ waits := .single (.wait waits)
  record _ events unstopped := .single (.record events unstopped)
  takeAsyncs _ := .single (.move _ rfl)
  takePromises _ := .single (.move _ rfl)
  popGeneric _ := .single (.move _ rfl)
  takeTimers _ _ _ := .single (.move _ rfl)

theorem checkDeadline_next (E : Engine T) (ls : LoopState T) :
    Meets (fun _ => True) (checkDeadline E ls) (fun next _ => next = .inl ls ∨ ∃ exit, next = .inr exit)
      fun _ _ => True := by
  refine (Meets.trivially _ (deadlineExceeded E)).bind fun exceeded => ?_
  cases exceeded with
  | true => exact fun _ _ => .inr ⟨_,rfl⟩
  | false => exact fun _ _ => .inl rfl

/-- The wait leaves the group alone or takes out one future that it counts. -/
theorem waitForWork_next (E : Engine T) (ls : LoopState T) :
    Meets (fun _ => True) (waitForWork E ls)
      (fun next _ => next = ls ∨ ∃ i : Fin ls.group.length,
        next = {ls with group := ls.group.eraseIdx i, inFlightAsyncJobs := ls.inFlightAsyncJobs - 1})
      fun _ _ => True := by
  unfold waitForWork
  split
  · exact (Meets.trivially _ _).bind fun _ => fun _ _ => .inl rfl
  · refine (Meets.trivially _ _).bind fun now => ?_
    refine Meets.get_bind fun w => ?_
    dsimp only
    split
    · exact fun _ _ => .inl rfl
    · refine (Meets.trivially _ _).bind fun polled => ?_
      split
      · exact fun _ _ => .inr ⟨_,rfl⟩
      · exact fun _ _ => trivial
      · exact fun _ _ => .inl rfl

theorem closeTurn_next (E : Engine T) (ls : LoopState T) :
    Meets (fun _ => True) (closeTurn E ls) (fun next _ => next = .inl ls ∨ ∃ exit, next = .inr exit)
      fun _ _ => True := by
  refine (checkDeadline_next E ls).bind fun next => ?_
  intro w checked
  rcases checked with rfl | ⟨exit,rfl⟩
  · have drains := Meets.trivially (fun _ => True) (drainJobs E)
    refine drains.bind (fun _ => ?_) w trivial
    exact (Meets.trivially _ _).bind fun _ => fun _ _ => .inl rfl
  · exact .inr ⟨exit,rfl⟩

def SameStop (ls ls' : LoopState T) : Prop := ls'.stopped = ls.stopped ∧ ls'.onStop = ls.onStop

def SameStop.Next (ls : LoopState T) : LoopState T ⊕ RunJobsExit → Prop
  | .inl next => SameStop ls next
  | .inr _ => True

theorem SameStop.next {ls ls' : LoopState T} (same : SameStop ls ls') {next : LoopState T ⊕ RunJobsExit}
    (kept : SameStop.Next ls' next) : SameStop.Next ls next := by
  cases next with
  | inl last => exact ⟨kept.1.trans same.1,kept.2.trans same.2⟩
  | inr exit => trivial

theorem waitForWork_sameStop (E : Engine T) (ls : LoopState T) :
    Meets (fun _ => True) (waitForWork E ls) (fun next _ => SameStop ls next) fun _ _ => True := by
  apply (waitForWork_next E ls).mono
  rintro next w (rfl | ⟨i,rfl⟩)
  · exact ⟨rfl,rfl⟩
  · exact ⟨rfl,rfl⟩

theorem openTurn_sameStop (E : Engine T) (ls : LoopState T) :
    Meets (fun _ => True) (openTurn E ls) (fun next _ => SameStop.Next ls next) fun _ _ => True := by
  refine (checkDeadline_next E ls).bind fun next => ?_
  rintro w (rfl | ⟨exit,rfl⟩)
  · have started : Meets (fun _ => True) (startAsyncJobs ls) (fun next _ => SameStop ls next) fun _ _ => True :=
      fun _ _ => ⟨rfl,rfl⟩
    refine started.bind (fun next => ?_) w trivial
    refine Meets.get_bind fun v => ?_
    split
    · exact fun _ _ => trivial
    · exact fun _ same => same
  · trivial

theorem closeTurn_sameStop (E : Engine T) (ls : LoopState T) :
    Meets (fun _ => True) (closeTurn E ls) (fun next _ => SameStop.Next ls next) fun _ _ => True := by
  apply (closeTurn_next E ls).mono
  rintro next w (rfl | ⟨exit,rfl⟩)
  · exact ⟨rfl,rfl⟩
  · trivial

theorem restOfTurn_sameStop (E : Engine T) (ls : LoopState T) :
    Meets (fun _ => True) (restOfTurn E ls) (fun next _ => SameStop.Next ls next) fun _ _ => True := by
  refine (openTurn_sameStop E ls).bind fun next => ?_
  cases next with
  | inr exit => exact fun _ _ => trivial
  | inl opened =>
    intro w opens
    refine (waitForWork_sameStop E opened).bind (fun waited => ?_) w trivial
    intro w waits
    exact (closeTurn_sameStop E waited).mono (fun next _ closes => opens.next (waits.next closes)) w trivial

def Event.isStop {J : Type} : Event J → Bool
  | .stopCalled => true
  | _ => false

def stopsIn {J : Type} (log : List (Event J)) : Nat := log.countP Event.isStop

/-- What no step disturbs: the reply, the calls of the stop callback, the deadline,
and a promise once it has settled. -/
structure Quiet (w w' : World T) : Prop where
  reply : w'.reply = w.reply
  stops : stopsIn w'.log = stopsIn w.log
  deadline : w'.queue.deadline = w.queue.deadline
  settled : ∀ p, w.context.promises p ≠ .pending → w'.context.promises p = w.context.promises p

namespace Quiet
variable {w w' w'' : World T}

theorem refl (w : World T) : Quiet w w := ⟨rfl,rfl,rfl,fun _ _ => rfl⟩

theorem trans (first : Quiet w w') (second : Quiet w' w'') : Quiet w w'' where
  reply := second.reply.trans first.reply
  stops := second.stops.trans first.stops
  deadline := second.deadline.trans first.deadline
  settled p unpending := by
    have same := first.settled p unpending
    exact (second.settled p (same ▸ unpending)).trans same

theorem pushGeneric (w : World T) (job : GenericJob T.Job) : Quiet w (w.pushGeneric job) :=
  ⟨rfl,by simp [World.pushGeneric,World.record,stopsIn,Event.isStop],rfl,fun _ _ => rfl⟩

theorem enqueueJob (w : World T) (job : Job T.Job) (now : JsInstant) : Quiet w (w.enqueueJob job now) := by
  cases job with
  | promiseJob job => exact ⟨rfl,by simp [World.enqueueJob,World.record,stopsIn,Event.isStop],rfl,fun _ _ => rfl⟩
  | asyncJob job => exact ⟨rfl,by simp [World.enqueueJob,World.record,stopsIn,Event.isStop],rfl,fun _ _ => rfl⟩
  | timeoutJob job delay =>
    simp only [World.enqueueJob]
    split
    · exact pushGeneric w _
    · exact ⟨rfl,by simp [World.record,stopsIn,Event.isStop],rfl,fun _ _ => rfl⟩
  | genericJob job => exact pushGeneric w _
  | other debug => exact pushGeneric w _

theorem settle (w : World T) (p : PromiseId) (outcome : Except T.Value T.Value) : Quiet w (w.settle p outcome) := by
  refine ⟨by simp,by simp,by simp,fun q unpending => ?_⟩
  simp only [World.settle]
  split
  · rename_i pending
    have other : q ≠ p := fun same => unpending (same ▸ pending)
    simp [other]
  · rfl

theorem act (w : World T) (action : HostAction T.Job T.Value) : Quiet w (w.act action) := by
  cases action with
  | enqueue job now => exact enqueueJob w job now
  | settle p outcome => exact settle w p outcome
  | track operation => cases operation <;> exact ⟨rfl,rfl,rfl,fun _ _ => rfl⟩
  | enterRealm realm => exact ⟨rfl,rfl,rfl,fun _ _ => rfl⟩

theorem acts (actions : List (HostAction T.Job T.Value)) (w : World T) : Quiet w (actions.foldl World.act w) := by
  induction actions generalizing w with
  | nil => exact refl w
  | cons action rest ih => exact (act w action).trans (ih _)

end Quiet

theorem Step.quiet {E : Engine T} {w w' : World T} (step : Step E w w') : Quiet w w' := by
  cases step with
  | run does =>
    have heap (h : T.Heap) : Quiet w (w.setHeap h) := ⟨rfl,rfl,rfl,fun _ _ => rfl⟩
    exact (heap _).trans (Quiet.acts _ _)
  | wait waits => exact ⟨rfl,rfl,rfl,fun _ _ => rfl⟩
  | move queue deadline => exact ⟨rfl,rfl,deadline,fun _ _ => rfl⟩
  | record events unstopped =>
    have none : stopsIn events = 0 := by
      refine List.countP_eq_zero.mpr fun event member => ?_
      cases event with
      | stopCalled => exact absurd member unstopped
      | _ => simp [Event.isStop]
    refine ⟨rfl,?_,rfl,fun _ _ => rfl⟩
    change List.countP _ (w.log ++ events) = stopsIn w.log
    rw [List.countP_append]
    exact congrArg (stopsIn w.log + ·) none

theorem Steps.quiet {E : Engine T} {w w' : World T} (steps : Steps E w w') : Quiet w w' := by
  induction steps with
  | refl => exact .refl _
  | tail _ step ih => exact ih.trans step.quiet

end MechanicsCore.Executor
