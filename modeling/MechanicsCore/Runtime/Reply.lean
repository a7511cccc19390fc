import MechanicsCore.Runtime.Settlement

/-! The replies to a job. The runtime closure, the worker and the panic handler
each may send one; absent a panic exactly one of them does. -/
namespace MechanicsCore.Runtime
open MechanicsCore.Executor MechanicsCore.Library
variable {T : Types} (E : Engine T)

variable {E} {sent : List (Except MechanicsError T.Json)} {w w' : World T}

variable (E) in
/-- The early reply has not been sent, or was sent once with the result of a main promise. -/
def Replied (sent : List (Except MechanicsError T.Json)) (w : World T) : Prop :=
  Unanswered sent w ∨ ∃ main, Answered E main sent w

theorem stage_replied {main : PromiseId} {stops : Nat} {ls : LoopState T} (stage : Stage E main sent stops ls w) :
    Replied E sent w := by
  cases stage with
  | before _ _ unanswered _ => exact .inl unanswered
  | after _ answered _ => exact .inr ⟨main,answered⟩

theorem Replied.quiet (replied : Replied E sent w) (quiet : Quiet w w') : Replied E sent w' := by
  rcases replied with unanswered | ⟨main,answered⟩
  · exact .inl (quiet.reply.trans unanswered)
  · exact .inr ⟨main,answered.quiet quiet⟩

theorem turn_replied {main : PromiseId} {stops : Nat} {ls : LoopState T} (stage : Stage E main sent stops ls w) :
    match (turn E (mainSettled main) (replyMain E main) ls).run w with
    | .ok _ w' => Replied E sent w'
    | .error _ w' => Replied E sent w' := by
  have spec := stopOnce_stage stage
  rw [turn,EStateM.run_bind]
  cases checked : (stopOnce (mainSettled main) (replyMain E main) ls).run w with
  | error fault v =>
    rw [checked] at spec
    exact .inl spec.2
  | ok next v =>
    rw [checked] at spec
    dsimp only
    cases rest : (restOfTurn E next).run v with
    | ok _ u => exact (stage_replied spec.1).quiet (((Steps.covers E).restOfTurn next).returned rest).quiet
    | error fault u => exact (stage_replied spec.1).quiet (((Steps.covers E).restOfTurn next).threw rest).1.quiet

theorem loop_replied (main : PromiseId) (fuel : Nat) :
    Meets (Unanswered sent) (runJobsUntilThenToQuiescence E (mainSettled main) (replyMain E main) fuel)
      (fun _ => Replied E sent) fun _ => Replied E sent := by
  intro w unanswered
  cases ran : (runJobsUntilThenToQuiescence E (mainSettled main) (replyMain E main) fuel).run w with
  | ok exit w' =>
    obtain ⟨ls,v,reached,exits⟩ := turns_returns ran
    have replied := turn_replied (reached_stage unanswered reached)
    rw [exits] at replied
    exact replied
  | error fault w' =>
    obtain ⟨ls,v,reached,fails | ⟨_,rfl⟩⟩ := turns_throws ran
    · have replied := turn_replied (reached_stage unanswered reached)
      rw [fails] at replied
      exact replied
    · exact stage_replied (reached_stage unanswered reached)

theorem script_replied (fuel : Nat) (job : MechanicsJob T) :
    Meets (Unanswered sent) (script E fuel job) (fun _ => Replied E sent) fun _ => Replied E sent := by
  have starts : Meets (Unanswered sent) (startMain E fuel job) (fun _ => Unanswered sent) fun _ => Replied E sent := by
    intro w unanswered
    cases ran : (startMain E fuel job).run w with
    | ok main v => exact ((startMain_covered (Steps.covers E) fuel job).returned ran).quiet.reply.trans unanswered
    | error fault v => exact .inl (((startMain_covered (Steps.covers E) fuel job).threw ran).1.quiet.reply.trans unanswered)
  refine starts.bind fun main => ?_
  refine (loop_replied main fuel).bind fun exit => ?_
  refine Meets.get_bind fun w => ?_
  split
  · exact fun _ replied => replied
  · exact fun _ replied => replied

theorem runSource_replied (settings : Settings) (fuel : Nat) (job : MechanicsJob T) :
    Meets (fun w => w.reply.sent = sent) (runSourceWithEarlyReply E settings fuel job)
      (fun outcome w => outcome = .mainReplied ∧ (∃ main, Answered E main sent w) ∨
        (∃ err, outcome = .mainNotReplied err) ∧ w.reply.sent = sent)
      fun _ w => w.reply.sent = sent ∨ ∃ main, Answered E main sent w := by
  refine ((beginJob_reply settings job).weaken fun _ _ same => .inl same).bind fun begun => ?_
  cases begun with
  | error err => exact fun _ same => .inr ⟨⟨err,rfl⟩,same⟩
  | ok previous =>
    have ran : Meets (Unanswered sent) (runScript E fuel job) (fun _ => Replied E sent)
        fun _ w => w.reply.sent = sent ∨ ∃ main, Answered E main sent w := by
      intro w unanswered
      have replied := script_replied (E := E) fuel job w unanswered
      rw [runScript_run]
      cases ended : (script E fuel job).run w with
      | ok _ v =>
        rw [ended] at replied
        exact replied
      | error fault v =>
        rw [ended] at replied
        have same : v.reply.sent = sent ∨ ∃ main, Answered E main sent v :=
          replied.imp (congrArg Reply.sent) id
        cases fault with
        | js e => exact replied
        | panic => exact same
        | outOfFuel => exact same
    refine ran.bind fun result => ?_
    rintro w (unanswered | ⟨main,result',isResult,reply⟩)
    · -- The flag is still down, so both results of the closure end as `MainNotReplied`.
      have flag : w.reply.mainReplied = false := by rw [unanswered]
      refine .inr ⟨?_,congrArg Reply.sent unanswered⟩
      change ∃ err, outcome E result w.reply.mainReplied = .mainNotReplied err
      rw [flag]
      cases result <;> exact ⟨_,rfl⟩
    · have flag : w.reply.mainReplied = true := by rw [reply]
      refine .inl ⟨?_,main,result',isResult,reply⟩
      change outcome E result w.reply.mainReplied = .mainReplied
      rw [flag]
      cases result <;> rfl

/-! The run ends. -/

section Ticking
variable {clock : T.Heap → Nat} (ticks : E.Ticks clock)
include ticks

end Ticking

section Ticking
variable {clock : T.Heap → Nat} (ticks : E.Ticks clock) {fuel : Nat} (enough : JsInstant.bound ≤ fuel)
include ticks enough

end Ticking

/-! One job of the worker. -/

def sends (w : World T) (message : Except MechanicsError T.Json) : World T :=
  {w with reply := {w.reply with sent := w.reply.sent ++ [message]}}

end MechanicsCore.Runtime
