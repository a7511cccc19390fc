import MechanicsCore.Runtime.RunSource
import MechanicsCore.Executor.Conservation
import MechanicsCore.Executor.Progress

/-! When the main promise is answered. The stop check stands only at the head of
a turn: a main promise that settles later in the turn is answered in the next
turn, if there is one. -/
namespace MechanicsCore.Runtime
open MechanicsCore.Executor MechanicsCore.Library
variable {T : Types} (E : Engine T) (main : PromiseId)

/-- What the stop callback makes of a settled main promise. -/
def IsResultOf (state : PromiseState T.Value) (result : Except MechanicsError T.Json) : Prop :=
  match state with
  | .pending => False
  | .rejected reason => result = .error (jsErrorToExecution E (.thrown reason))
  | .fulfilled value => ∃ c json, (E.toJson value c).outcome = some json ∧
      result = match json with
        | .ok json => .ok (json.getD E.jsonNull)
        | .error e => .error (jsErrorToExecution E e)

def Unanswered (sent : List (Except MechanicsError T.Json)) (w : World T) : Prop := w.reply = ⟨true,false,sent⟩

def Answered (sent : List (Except MechanicsError T.Json)) (w : World T) : Prop :=
  ∃ result, IsResultOf E (w.context.promises main) result ∧ w.reply = ⟨false,true,sent ++ [result]⟩

variable {E main} {sent : List (Except MechanicsError T.Json)} {w w' : World T}

theorem Answered.settled (answered : Answered E main sent w) : w.context.promises main ≠ .pending := by
  obtain ⟨result,isResult,_⟩ := answered
  intro pending
  rw [pending] at isResult
  exact isResult

theorem Answered.quiet (answered : Answered E main sent w) (quiet : Quiet w w') : Answered E main sent w' := by
  have settled := answered.settled
  obtain ⟨result,isResult,reply⟩ := answered
  exact ⟨result,quiet.settled main settled ▸ isResult,quiet.reply.trans reply⟩

theorem mainSettled_iff : mainSettled main w = true ↔ w.context.promises main ≠ .pending := by
  unfold mainSettled
  split
  · rename_i pending
    simp [pending]
  · rename_i unpending
    simpa using unpending

/-! The stop callback. -/

theorem jsValueToJson_run (value : T.Value) : (jsValueToJson E value).run w =
    match (E.toJson value w.context).outcome with
    | none => .error .panic (w.apply (E.toJson value w.context))
    | some (.ok json) => .ok (.ok (json.getD E.jsonNull)) (w.apply (E.toJson value w.context))
    | some (.error e) => .ok (.error (jsErrorToExecution E e)) (w.apply (E.toJson value w.context)) := by
  rw [jsValueToJson,EStateM.run_bind,perform_run]
  cases (E.toJson value w.context).outcome with
  | none => rfl
  | some result => cases result <;> rfl

theorem mainResult_keeps {R : World T → World T → Prop} [Std.Refl R]
    (taken : ∀ w value, R w (w.apply (E.toJson value w.context))) :
    Keeps R (fun fault => fault = .panic) (mainResult E main) := by
  intro w
  rw [mainResult,EStateM.run_bind,EStateM.run_get]
  dsimp only
  cases w.context.promises main with
  | pending => exact Std.Refl.refl w
  | rejected reason => exact Std.Refl.refl w
  | fulfilled value =>
    dsimp only
    rw [jsValueToJson_run]
    cases (E.toJson value w.context).outcome with
    | none => exact ⟨taken w value,rfl⟩
    | some result => cases result <;> exact taken w value

theorem mainResult_covered {R : World T → World T → Prop} [Std.Refl R] (covers : Covers E R) :
    Keeps R (fun fault => fault = .panic) (mainResult E main) :=
  mainResult_keeps fun w value => covers.run w _ _ (.toJson value)

/-- Behind main's result the callback writes nothing but the reply. -/
theorem replyMain_keeps {R : World T → World T → Prop} {faults : Fault T → Prop} [Std.Refl R] [IsTrans (World T) R]
    (results : Keeps R faults (mainResult E main)) (replies : ∀ (w : World T) reply, R w {w with reply}) :
    Keeps R faults (replyMain E main) := by
  refine results.bind fun result => ?_
  refine (Keeps.modify fun w => replies w _).bind fun _ => ?_
  refine Keeps.get.bind fun w => ?_
  split
  · refine (Keeps.modify fun w => replies w _).bind fun _ => ?_
    exact .modify fun w => replies w _
  · exact .pure _

/-- The callback that the runtime passes reaches the queues through `enqueue_job` alone. -/
theorem replyMain_onlyEnqueues : OnlyEnqueues (replyMain E main) := by
  have results : Keeps Enqueues (fun _ => True) (mainResult E main) :=
    (mainResult_keeps fun w _ => .apply w _).mono (fun _ _ enqueues => enqueues) fun _ _ => trivial
  exact replyMain_keeps results fun _ _ => .same rfl rfl

theorem mainResult_isResult {result : Except MechanicsError T.Json} (settled : w.context.promises main ≠ .pending)
    (ran : (mainResult E main).run w = .ok result w') : IsResultOf E (w.context.promises main) result := by
  rw [mainResult,EStateM.run_bind,EStateM.run_get] at ran
  dsimp only at ran
  cases state : w.context.promises main with
  | pending => exact absurd state settled
  | rejected reason =>
    rw [state] at ran
    cases ran
    rfl
  | fulfilled value =>
    rw [state] at ran
    dsimp only at ran
    rw [jsValueToJson_run] at ran
    cases json : (E.toJson value w.context).outcome with
    | none => simp [json] at ran
    | some json' =>
      refine ⟨w.context,json',json,?_⟩
      rw [json] at ran
      cases json' <;> cases ran <;> rfl

theorem replyMain_answers (settled : w.context.promises main ≠ .pending) (unanswered : Unanswered sent w) :
    match (replyMain E main).run w with
    | .ok _ w' => Answered E main sent w' ∧ stopsIn w'.log = stopsIn w.log
    | .error fault w' => fault = .panic ∧ Unanswered sent w' := by
  rw [replyMain,EStateM.run_bind]
  cases ran : (mainResult E main).run w with
  | error fault v =>
    obtain ⟨steps,same⟩ := (mainResult_covered (Steps.covers E)).threw ran
    exact ⟨same,steps.quiet.reply.trans unanswered⟩
  | ok result v =>
    have quiet := ((mainResult_covered (Steps.covers E)).returned ran).quiet
    have reply : v.reply = ⟨true,false,sent⟩ := quiet.reply.trans unanswered
    have isResult := mainResult_isResult settled ran
    rw [← quiet.settled main settled] at isResult
    have sends : ((do
        modify fun w => {w with reply := {w.reply with mainReplied := true}}
        if (← get).reply.earlyReply then
          modify fun w => {w with reply := {w.reply with earlyReply := false}}
          sendReply result) : Exec T Unit).run v =
        .ok () {v with reply := ⟨false,true,sent ++ [result]⟩} := by
      simp [EStateM.run_bind,sendReply,reply]
    dsimp only
    rw [sends]
    exact ⟨⟨result,isResult,rfl⟩,quiet.stops⟩

/-! The loop that runs a job's tail. -/

/-- Where the loop stands: before the callback, or after it. -/
inductive Stage (E : Engine T) (main : PromiseId) (sent : List (Except MechanicsError T.Json)) (stops : Nat)
    (ls : LoopState T) (w : World T) : Prop
  | before (unstopped : ls.stopped = false) (armed : ls.onStop = true) (unanswered : Unanswered sent w)
      (counted : stopsIn w.log = stops)
  | after (stopped : ls.stopped = true) (answered : Answered E main sent w) (counted : stopsIn w.log = stops + 1)

variable {stops : Nat} {ls ls' : LoopState T}

theorem Stage.steps (stage : Stage E main sent stops ls w) (same : SameStop ls ls') (quiet : Quiet w w') :
    Stage E main sent stops ls' w' := by
  cases stage with
  | before unstopped armed unanswered counted =>
    exact .before (same.1.trans unstopped) (same.2.trans armed) (quiet.reply.trans unanswered)
      (quiet.stops.trans counted)
  | after stopped answered counted =>
    exact .after (same.1.trans stopped) (answered.quiet quiet) (quiet.stops.trans counted)

/-- The stop check calls the callback exactly when main has settled and it has not been called. -/
theorem stopOnce_stage (stage : Stage E main sent stops ls w) :
    match (stopOnce (mainSettled main) (replyMain E main) ls).run w with
    | .ok next w' => Stage E main sent stops next w' ∧ next.stopped = mainSettled main w ∧
        (next.stopped = false → next = ls ∧ w' = w)
    | .error fault w' => fault = .panic ∧ Unanswered sent w' := by
  rw [stopOnce,EStateM.run_bind,EStateM.run_get]
  dsimp only
  cases stage with
  | after stopped answered counted =>
    have settled : mainSettled main w = true := mainSettled_iff.mpr answered.settled
    rw [stopped,settled]
    exact ⟨.after stopped answered counted,stopped,fun unstopped => by simp [stopped] at unstopped⟩
  | before unstopped armed unanswered counted =>
    cases settled : mainSettled main w with
    | false =>
      rw [unstopped]
      exact ⟨.before unstopped armed unanswered counted,unstopped,fun _ => ⟨rfl,rfl⟩⟩
    | true =>
      have answers := replyMain_answers (E := E) (w := w.record [.stopCalled]) (mainSettled_iff.mp settled) unanswered
      have counts : stopsIn (w.record [.stopCalled]).log = stops + 1 := by
        simp [World.record,stopsIn,Event.isStop,← counted]
      rw [unstopped,armed]
      simp only [Bool.not_false,Bool.and_true,↓reduceIte,EStateM.run_bind,EStateM.run_modify]
      cases ran : (replyMain E main).run (w.record [.stopCalled]) with
      | error fault v =>
        rw [ran] at answers
        exact answers
      | ok _ v =>
        rw [ran] at answers
        exact ⟨.after rfl answers.1 (answers.2.trans counts),rfl,fun unstopped => by contradiction⟩

theorem turned_stage (stage : Stage E main sent stops ls w)
    (turned : Turned E (mainSettled main) (replyMain E main) (ls,w) (ls',w')) : Stage E main sent stops ls' w' := by
  obtain ⟨stopped,v,checked,rest⟩ := run_bind_ok.mp turned
  have spec := stopOnce_stage stage
  rw [checked] at spec
  have same := (restOfTurn_sameStop E stopped).returned trivial rest
  exact spec.1.steps same (((Steps.covers E).restOfTurn stopped).returned rest).quiet

theorem reached_stage (unanswered : Unanswered sent w)
    (reached : Reached E (mainSettled main) (replyMain E main) w ls w') :
    Stage E main sent (stopsIn w.log) ls w' := by
  apply Reached.invariant (Stage E main sent (stopsIn w.log)) (.before rfl rfl unanswered rfl) ?_ reached
  intro ls v ls' v' stage turned
  exact turned_stage stage turned

/-! The run around the loop. -/

section Covered
variable {R : World T → World T → Prop} [Std.Refl R] [IsTrans (World T) R] (covers : Covers E R)
include covers

theorem evaluateModule_covered (fuel : Nat) (source : String) :
    Keeps R (fun _ => True) (evaluateModule E fuel source) := by
  have lift {α : Type} {x : Exec T α} (kept : Keeps R InFuel x) : Keeps R (fun _ => True) x :=
    kept.mono (fun _ _ related => related) fun _ _ => trivial
  refine (lift (covers.performResult fun _ => .parse _)).bind fun module => ?_
  refine (lift (covers.perform fun _ => .evaluate _)).bind fun moduleEval => ?_
  refine (covers.runJobs fuel).bind fun _ => ?_
  refine Keeps.get.bind fun w => ?_
  cases w.context.promises moduleEval with
  | pending => exact .throw trivial
  | rejected reason => exact .throw trivial
  | fulfilled value =>
    refine Keeps.get.bind fun w => ?_
    split
    · exact .throw trivial
    · exact .pure _

theorem callMain_covered (module : T.Value) (arg : T.Json) : Keeps R InFuel (callMain E module arg) := by
  refine (covers.performResult fun _ => .fromJson _).bind fun arg => ?_
  refine (covers.performResult fun _ => .getDefault _).bind fun main => ?_
  cases E.asFunction main with
  | none => exact .throw trivial
  | some main =>
    refine (covers.performResult fun _ => .callFunction _ _).bind fun res => ?_
    exact (covers.perform fun _ => .resolve _).bind fun resolved => .pure _

theorem startMain_covered (fuel : Nat) (job : MechanicsJob T) : Keeps R (fun _ => True) (startMain E fuel job) :=
  (evaluateModule_covered covers fuel job.moduleSource).bind fun module =>
    (callMain_covered covers module job.arg).mono (fun _ _ related => related) fun _ _ => trivial

end Covered

theorem enterJob_reply (settings : Settings) (state : MechanicsState T) (deadline : JsInstant) (realm : Realm) :
    Meets (fun w => w.reply.sent = sent) (enterJob E settings state deadline realm) (fun _ => Unanswered sent)
      fun _ w => w.reply.sent = sent := by
  have moved : Meets (fun w => w.reply.sent = sent) (enterRealm realm : Exec T Realm)
      (fun _ w => w.reply.sent = sent) fun _ w => w.reply.sent = sent := fun _ same => same
  have bundled : Meets (fun w => w.reply.sent = sent) (perform E.bundleBuiltinModules)
      (fun _ w => w.reply.sent = sent) fun _ w => w.reply.sent = sent := by
    intro w same
    have steps : Keeps (Steps E) InFuel (perform E.bundleBuiltinModules) := (Steps.covers E).perform fun _ => .bundle
    cases ran : (perform E.bundleBuiltinModules).run w with
    | ok _ v => exact (congrArg Reply.sent (steps.returned ran).quiet.reply).trans same
    | error fault v => exact (congrArg Reply.sent (steps.threw ran).1.quiet.reply).trans same
  refine moved.bind fun previous => ?_
  refine bundled.bind fun _ => ?_
  exact fun _ same => congrArg (Reply.mk true false) same

theorem beginJob_reply (settings : Settings) (job : MechanicsJob T) :
    Meets (fun w => w.reply.sent = sent) (beginJob E settings job)
      (fun begun w => match begun with
        | .ok _ => Unanswered sent w
        | .error _ => w.reply.sent = sent)
      fun _ w => w.reply.sent = sent :=
  beginJob_meets E settings job (fun _ same => same) (fun _ _ same => same) (fun _ _ same => same)
    fun state deadline realm => enterJob_reply settings state deadline realm

theorem runSource_returns {settings : Settings} {fuel : Nat} {job : MechanicsJob T} {previous : Realm}
    {start : World T} {result : JsResult T.Value Unit}
    (begun : (beginJob E settings job).run start = .ok (.ok previous) w)
    (ran : (runScript E fuel job).run w = .ok result w') :
    ∃ last, (runSourceWithEarlyReply E settings fuel job).run start = .ok (outcome E result w'.reply.mainReplied) last ∧
      last.reply = w'.reply := by
  rw [runSourceWithEarlyReply,EStateM.run_bind,begun]
  dsimp only
  rw [EStateM.run_bind,ran]
  exact ⟨_,rfl,rfl⟩

/-! A loop that returns. -/

def SamePromises (w w' : World T) : Prop := w'.context.promises = w.context.promises

instance : Std.Refl (SamePromises (T := T)) := ⟨fun _ => rfl⟩
instance : IsTrans (World T) SamePromises := ⟨fun _ _ _ first second => second.trans first⟩

theorem SamePromises.settled (main : PromiseId) (same : SamePromises w w') : mainSettled main w' = mainSettled main w := by
  unfold mainSettled
  rw [same]

theorem deadlineExceeded_samePromises : Keeps SamePromises (fun _ => True) (deadlineExceeded E) := by
  refine Keeps.get.bind fun w => ?_
  cases w.queue.deadline with
  | none => exact .pure _
  | some deadline =>
    have reads : Keeps SamePromises (fun _ => True) (clockNow E) := fun _ => rfl
    exact reads.bind fun now => .pure _

theorem openTurn_samePromises (ls : LoopState T) : Keeps SamePromises (fun _ => True) (openTurn E ls) := by
  have checks : Keeps SamePromises (fun _ => True) (checkDeadline E ls) := by
    refine deadlineExceeded_samePromises.bind fun exceeded => ?_
    cases exceeded with
    | true => exact Keeps.get.bind fun _ => .pure _
    | false => exact .pure _
  refine checks.bind fun next => ?_
  cases next with
  | inr exit => exact .pure _
  | inl ls =>
    have starts : Keeps SamePromises (fun _ => True) (startAsyncJobs ls) := .modifyGet fun _ => rfl
    refine starts.bind fun ls => ?_
    refine Keeps.get.bind fun w => ?_
    split
    · exact .pure _
    · exact .pure _

variable (E main) in
/-- The wait of this turn settles main, and the deadline check behind it ends the loop. -/
def SettledByPoll (ls : LoopState T) (w : World T) : Prop :=
  ∃ stopped v opened u waited u' u'', (stopOnce (mainSettled main) (replyMain E main) ls).run w = .ok stopped v ∧
    (openTurn E stopped).run v = .ok (.inl opened) u ∧ mainSettled main u = false ∧
    (waitForWork E opened).run u = .ok waited u' ∧ mainSettled main u' = true ∧
    (deadlineExceeded E).run u' = .ok true u''

theorem SettledByPoll.exits (late : SettledByPoll E main ls w) :
    ∃ exit w', (turn E (mainSettled main) (replyMain E main) ls).run w = .ok (.inr exit) w' := by
  obtain ⟨stopped,v,opened,u,waited,u',u'',stops,opens,_,waits,_,exceeded⟩ := late
  refine ⟨.deadlineExceeded (snapshot u''.queue waited.inFlightAsyncJobs),u'',?_⟩
  refine run_bind_ok.mpr ⟨stopped,v,stops,?_⟩
  refine run_bind_ok.mpr ⟨.inl opened,u,opens,?_⟩
  refine run_bind_ok.mpr ⟨waited,u',waits,?_⟩
  have checks : (checkDeadline E waited).run u' =
      .ok (.inr (.deadlineExceeded (snapshot u''.queue waited.inFlightAsyncJobs))) u'' :=
    run_bind_ok.mpr ⟨true,u'',exceeded,rfl⟩
  exact run_bind_ok.mpr ⟨_,u'',checks,rfl⟩

theorem closeTurn_exits {exit : RunJobsExit} (closes : (closeTurn E ls).run w = .ok (.inr exit) w') :
    (deadlineExceeded E).run w = .ok true w' := by
  obtain ⟨next,v,checks,rest⟩ := run_bind_ok.mp closes
  obtain ⟨exceeded,u,checked,after⟩ := run_bind_ok.mp checks
  cases exceeded with
  | true =>
    cases after
    cases rest
    exact checked
  | false =>
    cases after
    obtain ⟨_,_,_,rest⟩ := run_bind_ok.mp rest
    obtain ⟨_,_,_,rest⟩ := run_bind_ok.mp rest
    cases rest

/-- A loop that returns with main settled has called the callback, unless main
settled in the wait of the last turn. -/
theorem turn_exits {exit : RunJobsExit} (stage : Stage E main sent stops ls w)
    (exits : (turn E (mainSettled main) (replyMain E main) ls).run w = .ok (.inr exit) w')
    (settled : mainSettled main w' = true) :
    stopsIn w'.log = stops + 1 ∧ w'.reply.mainReplied = true ∧ ¬ SettledByPoll E main ls w ∨
    stopsIn w'.log = stops ∧ w'.reply.mainReplied = false ∧ SettledByPoll E main ls w := by
  obtain ⟨next,v,checked,rest⟩ := run_bind_ok.mp exits
  have spec := stopOnce_stage stage
  rw [checked] at spec
  obtain ⟨stage,same,unmoved⟩ := spec
  have quiet := (((Steps.covers E).restOfTurn next).returned rest).quiet
  cases stage with
  | after stopped answered counted =>
    left
    obtain ⟨result,_,reply⟩ := answered.quiet quiet
    refine ⟨quiet.stops.trans counted,by rw [reply],?_⟩
    rintro ⟨next',v',opened,u,_,_,_,checked',opens,unsettled,_⟩
    rw [checked] at checked'
    cases checked'
    have onward := (((Steps.covers E).openTurn next).returned opens).quiet
    have still := mainSettled_iff.mpr (answered.quiet onward).settled
    rw [still] at unsettled
    contradiction
  | before unstopped armed unanswered counted =>
    right
    obtain ⟨rfl,rfl⟩ := unmoved unstopped
    rw [unstopped] at same
    refine ⟨quiet.stops.trans counted,by rw [quiet.reply,unanswered],?_⟩
    obtain ⟨opened,u,opens,rest⟩ := run_bind_ok.mp rest
    have unsettled : mainSettled main u = false :=
      (((openTurn_samePromises next).returned opens).settled main).trans same.symm
    cases opened with
    | inr exit =>
      cases rest
      rw [unsettled] at settled
      contradiction
    | inl opened =>
      obtain ⟨waited,u',waits,closes⟩ := run_bind_ok.mp rest
      have exceeded := closeTurn_exits closes
      have before := (deadlineExceeded_samePromises.returned exceeded).settled main
      exact ⟨next,_,opened,u,waited,u',w',checked,opens,unsettled,waits,before.symm.trans settled,exceeded⟩

variable (E main) in
def SettledByLastPoll (w : World T) : Prop :=
  ∃ ls v, Reached E (mainSettled main) (replyMain E main) w ls v ∧ SettledByPoll E main ls v

theorem loop_returns {fuel : Nat} {exit : RunJobsExit} (unanswered : Unanswered sent w)
    (returned : (runJobsUntilThenToQuiescence E (mainSettled main) (replyMain E main) fuel).run w = .ok exit w')
    (settled : mainSettled main w' = true) :
    stopsIn w'.log = stopsIn w.log + 1 ∧ w'.reply.mainReplied = true ∧ ¬ SettledByLastPoll E main w ∨
    stopsIn w'.log = stopsIn w.log ∧ w'.reply.mainReplied = false ∧ SettledByLastPoll E main w := by
  obtain ⟨ls,v,reached,exits⟩ := turns_returns returned
  rcases turn_exits (reached_stage unanswered reached) exits settled with ⟨once,replied,early⟩ | ⟨never,silent,late⟩
  · refine .inl ⟨once,replied,?_⟩
    rintro ⟨ls',v',reached',late⟩
    obtain ⟨exit',u,exits'⟩ := late.exits
    obtain ⟨rfl,rfl⟩ := Reached.last_unique reached reached' (by simp [exits]) (by simp [exits'])
    exact early late
  · exact .inr ⟨never,silent,ls,v,reached,late⟩

variable (E) in
/-- The run comes to the arm that reports a contract bug. -/
def ReachesContractBug (settings : Settings) (fuel : Nat) (job : MechanicsJob T) (start : World T) : Prop :=
  ∃ previous w w', (beginJob E settings job).run start = .ok (.ok previous) w ∧
    (runScript E fuel job).run w = .ok (.ok ()) w' ∧ w'.reply.mainReplied = false

theorem pollTail_run (fuel : Nat) : (pollTail E fuel main).run w =
    match (runJobsUntilThenToQuiescence E (mainSettled main) (replyMain E main) fuel).run w with
    | .ok _ w' => if !w'.reply.mainReplied && !mainSettled main w' then .error (.js mainPendingError) w' else .ok () w'
    | .error fault w' => .error fault w' := by
  rw [pollTail,EStateM.run_bind]
  cases (runJobsUntilThenToQuiescence E (mainSettled main) (replyMain E main) fuel).run w with
  | error fault w' => rfl
  | ok exit w' =>
    dsimp only
    rw [EStateM.run_bind,EStateM.run_get]
    dsimp only
    split
    · rfl
    · rfl

theorem runScript_ok_iff {fuel : Nat} {job : MechanicsJob T} :
    (runScript E fuel job).run w = .ok (.ok ()) w' ↔
      ∃ main exit v, (startMain E fuel job).run w = .ok main v ∧
        (runJobsUntilThenToQuiescence E (mainSettled main) (replyMain E main) fuel).run v = .ok exit w' ∧
        (w'.reply.mainReplied = true ∨ mainSettled main w' = true) := by
  have caught : (runScript E fuel job).run w = .ok (.ok ()) w' ↔ (script E fuel job).run w = .ok () w' := by
    rw [runScript_run]
    cases (script E fuel job).run w with
    | ok _ v => simp
    | error fault v => cases fault <;> simp
  rw [caught,script,run_bind_ok]
  refine exists_congr fun main => ?_
  constructor
  · rintro ⟨v,started,polled⟩
    rw [pollTail_run] at polled
    cases looped : (runJobsUntilThenToQuiescence E (mainSettled main) (replyMain E main) fuel).run v with
    | error fault u => simp [looped] at polled
    | ok exit u =>
      rw [looped] at polled
      dsimp only at polled
      split at polled
      · contradiction
      · rename_i answered
        cases polled
        refine ⟨exit,v,started,looped,?_⟩
        simpa [Classical.or_iff_not_imp_left] using answered
  · rintro ⟨exit,v,started,looped,answered⟩
    refine ⟨v,started,?_⟩
    rw [pollTail_run,looped]
    dsimp only
    rw [if_neg]
    rcases answered with replied | settled
    · simp [replied]
    · simp [settled]

/-- For every schedule, a loop that returns with main settled has called the callback
once unless main settled in the wait of the last turn; and the arm that reports
a contract bug is reached in those runs and no others. -/
theorem settled_main_replied_iff (E : Engine T) :
    (∀ main sent fuel exit w w', Unanswered sent w →
      (runJobsUntilThenToQuiescence E (mainSettled main) (replyMain E main) fuel).run w = .ok exit w' →
      mainSettled main w' = true →
      (stopsIn w'.log = stopsIn w.log + 1 ↔ ¬ SettledByLastPoll E main w)) ∧
    ∀ settings fuel job start, ReachesContractBug E settings fuel job start ↔
      ∃ previous main exit w v w', (beginJob E settings job).run start = .ok (.ok previous) w ∧
        (startMain E fuel job).run w = .ok main v ∧
        (runJobsUntilThenToQuiescence E (mainSettled main) (replyMain E main) fuel).run v = .ok exit w' ∧
        mainSettled main w' = true ∧ SettledByLastPoll E main v := by
  constructor
  · intro main sent fuel exit w w' unanswered returned settled
    rcases loop_returns unanswered returned settled with ⟨once,_,early⟩ | ⟨never,_,late⟩
    · exact ⟨fun _ => early,fun _ => once⟩
    · refine ⟨fun once => ?_,fun early => absurd late early⟩
      omega
  · intro settings fuel job start
    have fresh {previous : Realm} {main : PromiseId} {w v : World T}
        (begun : (beginJob E settings job).run start = .ok (.ok previous) w)
        (started : (startMain E fuel job).run w = .ok main v) : Unanswered start.reply.sent v :=
      ((startMain_covered (Steps.covers E) fuel job).returned started).quiet.reply.trans
        ((beginJob_reply settings job).returned rfl begun)
    constructor
    · rintro ⟨previous,w,w',begun,ran,silent⟩
      obtain ⟨main,exit,v,started,returned,answered⟩ := runScript_ok_iff.mp ran
      have settled : mainSettled main w' = true := by simpa [silent] using answered
      rcases loop_returns (fresh begun started) returned settled with ⟨_,replied,_⟩ | ⟨_,_,late⟩
      · rw [replied] at silent
        contradiction
      · exact ⟨previous,main,exit,w,v,w',begun,started,returned,settled,late⟩
    · rintro ⟨previous,main,exit,w,v,w',begun,started,returned,settled,late⟩
      refine ⟨previous,w,w',begun,runScript_ok_iff.mpr ⟨main,exit,v,started,returned,.inr settled⟩,?_⟩
      rcases loop_returns (fresh begun started) returned settled with ⟨_,_,early⟩ | ⟨_,silent,_⟩
      · exact absurd late early
      · exact silent

def anyJob : MechanicsJob plain := ⟨"",0,[]⟩

/-- Main's promise is `5`. An async job settles it as the budget of the wait runs out. -/
def settlesLate : Engine plain :=
  {Engine.silent with
    callFunction := fun _ _ c => .plain c [.enqueue (.asyncJob 1) (.ofNanos c.heap)] (.ok 5)
    next := fun
      | [], _, c => .plain c [] none
      | _::_, budget, c => ⟨[.settle 5 (.ok 7)],c.heap + budget.getD 0 * 1000000,some (some (⟨0,Nat.succ_pos _⟩,.ok ()))⟩}

theorem settlesLate_ticks : settlesLate.Ticks fun heap => (JsInstant.ofNanos heap).nanos where
  reads _ := le_rfl
  does c actions heap does := by
    cases does with
    | next group budget =>
      cases group with
      | nil => exact le_rfl
      | cons job rest => exact JsInstant.ofNanos_mono (Nat.le_add_right _ _)
    | _ => exact le_rfl
  waits c heap waits := by
    cases waits with
    | sleep d => exact JsInstant.ofNanos_mono (Nat.le_add_right _ _)
    | yieldNow => exact JsInstant.ofNanos_mono (Nat.le_add_right _ _)
    | _ => exact le_rfl
  yields c := by
    have moves (h b : Nat) : min (min h b + 1) b ≤ min (h + 1) b := by omega
    exact moves c.heap (JsInstant.bound - 1)

/-- The loop returns with main settled and the callback not called, and the run
reports the contract bug. -/
theorem settled_main_unreplied : settlesLate.Ticks (fun heap => (JsInstant.ofNanos heap).nanos) ∧
    ∃ previous w v w' exit last, (beginJob settlesLate oneSecond anyJob).run (.new 0) = .ok (.ok previous) w ∧
      (startMain settlesLate 5 anyJob).run w = .ok 5 v ∧
      (runJobsUntilThenToQuiescence settlesLate (mainSettled 5) (replyMain settlesLate 5) 5).run v = .ok exit w' ∧
      mainSettled 5 w' = true ∧ stopsIn w'.log = stopsIn v.log ∧
      (runSourceWithEarlyReply settlesLate oneSecond 5 anyJob).run (.new 0) = .ok (.mainNotReplied
        (.execution "run_source_with_early_reply returned without producing a main result")) last ∧
      last.reply.sent = [] := by
  obtain ⟨begun,w,begins,passed⟩ := returnsWith_witness ((beginJob settlesLate oneSecond anyJob).run (.new 0))
    (fun begun w => begun.isOk && returnsWith (fun main v => main == 5 &&
      returnsWith (fun _ w' => mainSettled 5 w' && stopsIn w'.log == stopsIn v.log)
        ((runJobsUntilThenToQuiescence settlesLate (mainSettled 5) (replyMain settlesLate 5) 5).run v))
        ((startMain settlesLate 5 anyJob).run w)) (by decide)
  obtain ⟨ok,passed⟩ := Bool.and_eq_true_iff.mp passed
  obtain ⟨main,v,starts,passed⟩ := returnsWith_witness _ _ passed
  obtain ⟨isFive,passed⟩ := Bool.and_eq_true_iff.mp passed
  obtain ⟨exit,w',returns,passed⟩ := returnsWith_witness _ _ passed
  obtain ⟨settled,uncalled⟩ := Bool.and_eq_true_iff.mp passed
  obtain ⟨outcome,last,ran,passed⟩ := returnsWith_witness
    ((runSourceWithEarlyReply settlesLate oneSecond 5 anyJob).run (.new 0))
    (fun outcome w => outcome == .mainNotReplied
      (.execution "run_source_with_early_reply returned without producing a main result") && w.reply.sent.isEmpty)
    (by decide +kernel)
  obtain ⟨same,unsent⟩ := Bool.and_eq_true_iff.mp passed
  have same : outcome = _ := beq_iff_eq.mp same
  have five : main = 5 := beq_iff_eq.mp isFive
  subst same five
  cases begun with
  | error err => contradiction
  | ok previous =>
    exact ⟨settlesLate_ticks,previous,w,v,w',exit,last,begins,starts,returns,settled,beq_iff_eq.mp uncalled,ran,
      List.isEmpty_iff.mp unsent⟩

/-- The same job, but it is done a millisecond after it was called. -/
def settlesSoon : Engine plain :=
  {settlesLate with
    next := fun
      | [], _, c => .plain c [] none
      | _::_, _, c => ⟨[.settle 5 (.ok 7)],c.heap + 1000000,some (some (⟨0,Nat.succ_pos _⟩,.ok ()))⟩}

theorem settled_main_replied_iff_at_settlesSoon :
    (∃ v w', (runJobsUntilThenToQuiescence settlesSoon (mainSettled 5) (replyMain settlesSoon 5) 5).run v =
        .ok .complete w' ∧ mainSettled 5 v = false ∧ mainSettled 5 w' = true ∧ stopsIn w'.log = stopsIn v.log + 1 ∧
        ¬ SettledByLastPoll settlesSoon 5 v) ∧
      ¬ ReachesContractBug settlesSoon oneSecond 5 anyJob (.new 0) := by
  obtain ⟨begun,w,begins,passed⟩ := returnsWith_witness ((beginJob settlesSoon oneSecond anyJob).run (.new 0))
    (fun _ w => returnsWith (fun main v => (main == 5 && (!mainSettled 5 v &&
      (v.reply.earlyReply && (!v.reply.mainReplied && v.reply.sent.isEmpty)))) &&
      returnsWith (fun exit w' => exit == .complete && (mainSettled 5 w' && stopsIn w'.log == stopsIn v.log + 1))
        ((runJobsUntilThenToQuiescence settlesSoon (mainSettled 5) (replyMain settlesSoon 5) 5).run v))
        ((startMain settlesSoon 5 anyJob).run w)) (by decide +kernel)
  obtain ⟨main,v,starts,passed⟩ := returnsWith_witness _ _ passed
  obtain ⟨opened,passed⟩ := Bool.and_eq_true_iff.mp passed
  obtain ⟨exit,w',returns,passed⟩ := returnsWith_witness _ _ passed
  obtain ⟨complete,settled,once⟩ : exit = .complete ∧ mainSettled 5 w' = true ∧ stopsIn w'.log = stopsIn v.log + 1 := by
    simpa using passed
  obtain ⟨rfl,pending,early,unreplied,unsent⟩ : main = 5 ∧ mainSettled 5 v = false ∧ v.reply.earlyReply = true ∧
      v.reply.mainReplied = false ∧ v.reply.sent = [] := by
    simpa using opened
  have unanswered : Unanswered [] v := by rw [Unanswered,← early,← unreplied,← unsent]
  obtain ⟨loops,bugs⟩ := settled_main_replied_iff settlesSoon
  have inTime := (loops 5 [] 5 exit v w' unanswered returns settled).mp once
  refine ⟨⟨v,w',complete ▸ returns,pending,settled,once,inTime⟩,fun bug => ?_⟩
  obtain ⟨_,main,_,u,v',_,begins',starts',_,_,late⟩ := (bugs oneSecond 5 anyJob (.new 0)).mp bug
  -- The run is the one above: it begins and starts main in one way only.
  cases begins.symm.trans begins'
  cases starts.symm.trans starts'
  exact inTime late

/-! A loop that fails. -/

theorem turn_fails {e : JsError T.Value} (stage : Stage E main sent stops ls w)
    (failed : (turn E (mainSettled main) (replyMain E main) ls).run w = .error (.js e) w') :
    (mainSettled main w = true → Answered E main sent w') ∧
    (mainSettled main w = false → Unanswered sent w') := by
  have spec := stopOnce_stage stage
  rcases run_bind_error.mp failed with stopped | ⟨next,v,checked,rest⟩
  · rw [stopped] at spec
    exact absurd spec.1 (by simp)
  · rw [checked] at spec
    obtain ⟨stage,same,_⟩ := spec
    have quiet := (((Steps.covers E).restOfTurn next).threw rest).1.quiet
    cases stage with
    | before unstopped armed unanswered counted =>
      rw [unstopped] at same
      exact ⟨fun settled => by simp [settled] at same,fun _ => quiet.reply.trans unanswered⟩
    | after stopped answered counted =>
      rw [stopped] at same
      exact ⟨fun _ => answered.quiet quiet,fun unsettled => by simp [unsettled] at same⟩

variable (E main) in
/-- The turn in which the loop fails found main settled at its head. -/
def SettledAtHead (w : World T) : Prop :=
  ∃ ls v e u, Reached E (mainSettled main) (replyMain E main) w ls v ∧
    (turn E (mainSettled main) (replyMain E main) ls).run v = .error (.js e) u ∧ mainSettled main v = true

theorem loop_fails {fuel : Nat} {e : JsError T.Value} (unanswered : Unanswered sent w)
    (failed : (runJobsUntilThenToQuiescence E (mainSettled main) (replyMain E main) fuel).run w = .error (.js e) w') :
    (SettledAtHead E main w → Answered E main sent w') ∧ (¬ SettledAtHead E main w → Unanswered sent w') := by
  obtain ⟨ls,v,reached,fails | ⟨impossible,_⟩⟩ := turns_throws failed
  · obtain ⟨wins,loses⟩ := turn_fails (reached_stage unanswered reached) fails
    constructor
    · rintro ⟨ls',v',e',u,reached',fails',settled⟩
      obtain ⟨rfl,rfl⟩ := Reached.last_unique reached reached' (by simp [fails]) (by simp [fails'])
      exact wins settled
    · intro unsettled
      refine loses (Bool.eq_false_iff.mpr fun settled => ?_)
      exact unsettled ⟨ls,v,e,w',reached,fails,settled⟩
  · contradiction

/-- A job whose loop fails is answered with main's result exactly if the failing turn
found main settled at its head; otherwise, even if main has settled since, it is
answered with the error of the loop. -/
theorem main_wins_iff {settings : Settings} {fuel : Nat} {job : MechanicsJob T} {previous : Realm} {start v : World T}
    {e : JsError T.Value} (begun : (beginJob E settings job).run start = .ok (.ok previous) w)
    (started : (startMain E fuel job).run w = .ok main v)
    (failed : (runJobsUntilThenToQuiescence E (mainSettled main) (replyMain E main) fuel).run v = .error (.js e) w') :
    ((∃ last result, (runSourceWithEarlyReply E settings fuel job).run start = .ok .mainReplied last ∧
        IsResultOf E (w'.context.promises main) result ∧ last.reply.sent = start.reply.sent ++ [result]) ↔
      SettledAtHead E main v) ∧
    (¬ SettledAtHead E main v → ∃ last, (runSourceWithEarlyReply E settings fuel job).run start =
      .ok (.mainNotReplied (jsErrorToExecution E e)) last ∧ last.reply.sent = start.reply.sent) := by
  have unanswered : Unanswered start.reply.sent v :=
    ((startMain_covered (Steps.covers E) fuel job).returned started).quiet.reply.trans
      ((beginJob_reply settings job).returned rfl begun)
  have ran : (runScript E fuel job).run w = .ok (.error e) w' := by
    have polled : (pollTail E fuel main).run v = .error (.js e) w' := by
      rw [pollTail,EStateM.run_bind,failed]
    rw [runScript_run,script,EStateM.run_bind,started]
    dsimp only
    rw [polled]
  obtain ⟨last,returned,reply⟩ := runSource_returns begun ran
  obtain ⟨wins,loses⟩ := loop_fails unanswered failed
  have lost (unsettled : ¬ SettledAtHead E main v) :
      (runSourceWithEarlyReply E settings fuel job).run start =
        .ok (.mainNotReplied (jsErrorToExecution E e)) last ∧ last.reply.sent = start.reply.sent := by
    have fresh : w'.reply = ⟨true,false,start.reply.sent⟩ := loses unsettled
    rw [fresh] at returned reply
    exact ⟨returned,by rw [reply]⟩
  refine ⟨⟨?_,?_⟩,fun unsettled => ⟨last,lost unsettled⟩⟩
  · rintro ⟨last',result,replied,_⟩
    by_contra unsettled
    simp [(lost unsettled).1] at replied
  · intro atHead
    obtain ⟨result,isResult,replied⟩ := wins atHead
    rw [replied] at returned reply
    exact ⟨last,result,returned,isResult,by rw [reply]⟩

/-- Main's promise is `5`. Job `1` settles it, job `3` settles it and enqueues job `2`, and job `2` fails. -/
def lateFailure (jobs : List Nat) : Engine plain :=
  {Engine.silent with
    callFunction := fun _ _ c => .plain c (jobs.map fun job => .enqueue (.promiseJob job) (.ofNanos 0)) (.ok 5)
    call := fun
      | _, 1, c => .plain c [.settle 5 (.ok 7)] (.ok ())
      | _, 3, c => .plain c [.settle 5 (.ok 7),.enqueue (.promiseJob 2) (.ofNanos 0)] (.ok ())
      | _, _, c => .plain c [] (.error (.native .error "late"))
    display := fun
      | .native _ message => message
      | _ => ""}

private theorem lateFailure_fails (jobs : List Nat)
    (passed : returnsWith (fun begun w => begun.isOk && returnsWith (fun main v => main == 5 &&
      throwsWith (fun fault w' => fault.isJs && w'.context.promises 5 == .fulfilled 7)
        ((runJobsUntilThenToQuiescence (lateFailure jobs) (mainSettled 5) (replyMain (lateFailure jobs) 5) 5).run v))
        ((startMain (lateFailure jobs) 5 anyJob).run w))
      ((beginJob (lateFailure jobs) oneSecond anyJob).run (.new 0)) = true) :
    ∃ previous w v w' e, (beginJob (lateFailure jobs) oneSecond anyJob).run (.new 0) = .ok (.ok previous) w ∧
      (startMain (lateFailure jobs) 5 anyJob).run w = .ok 5 v ∧
      (runJobsUntilThenToQuiescence (lateFailure jobs) (mainSettled 5) (replyMain (lateFailure jobs) 5) 5).run v =
        .error (.js e) w' ∧ w'.context.promises 5 = .fulfilled 7 := by
  obtain ⟨begun,w,begins,passed⟩ := returnsWith_witness _ _ passed
  obtain ⟨ok,passed⟩ := Bool.and_eq_true_iff.mp passed
  obtain ⟨main,v,starts,passed⟩ := returnsWith_witness _ _ passed
  obtain ⟨isFive,passed⟩ := Bool.and_eq_true_iff.mp passed
  obtain ⟨fault,w',fails,passed⟩ := throwsWith_witness _ _ passed
  obtain ⟨isJs,settled⟩ := Bool.and_eq_true_iff.mp passed
  obtain rfl := beq_iff_eq.mp isFive
  cases begun with
  | error err => contradiction
  | ok previous =>
    cases fault with
    | js e => exact ⟨previous,w,v,w',e,begins,starts,fails,beq_iff_eq.mp settled⟩
    | panic => contradiction
    | outOfFuel => contradiction

/-- Jobs `1` and `2` are in one batch: main has settled when the loop fails, and is not answered. -/
theorem settled_main_loses : ∃ previous w v w' e last,
    (beginJob (lateFailure [1,2]) oneSecond anyJob).run (.new 0) = .ok (.ok previous) w ∧
    (startMain (lateFailure [1,2]) 5 anyJob).run w = .ok 5 v ∧
    (runJobsUntilThenToQuiescence (lateFailure [1,2]) (mainSettled 5) (replyMain (lateFailure [1,2]) 5) 5).run v =
      .error (.js e) w' ∧ mainSettled 5 w' = true ∧
    (runSourceWithEarlyReply (lateFailure [1,2]) oneSecond 5 anyJob).run (.new 0) =
      .ok (.mainNotReplied (.execution "late")) last ∧ last.reply.sent = [] := by
  obtain ⟨previous,w,v,w',e,begun,started,failed,state⟩ := lateFailure_fails [1,2] (by decide +kernel)
  obtain ⟨outcome,last,ran,passed⟩ := returnsWith_witness
    ((runSourceWithEarlyReply (lateFailure [1,2]) oneSecond 5 anyJob).run (.new 0))
    (fun outcome w => outcome == .mainNotReplied (.execution "late") && w.reply.sent.isEmpty) (by decide +kernel)
  obtain ⟨same,unsent⟩ := Bool.and_eq_true_iff.mp passed
  have same : outcome = _ := beq_iff_eq.mp same
  subst same
  exact ⟨previous,w,v,w',e,last,begun,started,failed,mainSettled_iff.mpr (by simp [state]),ran,
    List.isEmpty_iff.mp unsent⟩

/-- Job `3` settles main one turn before job `2` fails. -/
theorem main_wins_iff_at_lateFailure : ∃ previous w v w' e,
    (beginJob (lateFailure [3]) oneSecond anyJob).run (.new 0) = .ok (.ok previous) w ∧
    (startMain (lateFailure [3]) 5 anyJob).run w = .ok 5 v ∧
    (runJobsUntilThenToQuiescence (lateFailure [3]) (mainSettled 5) (replyMain (lateFailure [3]) 5) 5).run v =
      .error (.js e) w' ∧ SettledAtHead (lateFailure [3]) 5 v := by
  obtain ⟨previous,w,v,w',e,begun,started,failed,state⟩ := lateFailure_fails [3] (by decide +kernel)
  obtain ⟨outcome,last,ran,passed⟩ := returnsWith_witness
    ((runSourceWithEarlyReply (lateFailure [3]) oneSecond 5 anyJob).run (.new 0))
    (fun outcome w => outcome == .mainReplied && w.reply.sent == [.ok 7]) (by decide +kernel)
  obtain ⟨same,sent⟩ := Bool.and_eq_true_iff.mp passed
  have same : outcome = .mainReplied := beq_iff_eq.mp same
  subst same
  refine ⟨previous,w,v,w',e,begun,started,failed,(main_wins_iff begun started failed).1.mp ?_⟩
  refine ⟨last,.ok 7,ran,?_,beq_iff_eq.mp sent⟩
  rw [state]
  exact ⟨w'.context,.ok (some 7),rfl,rfl⟩

end MechanicsCore.Runtime
