import MechanicsCore.Runtime.RunSource

/-! A runtime is idle between jobs. Three exits of a run leave before anything is
set up, all others pass the cleanup; so whatever a job did, the next one starts
from the same scheduler state. -/
namespace MechanicsCore.Runtime
open MechanicsCore.Executor MechanicsCore.Library
variable {T : Types}

/-- The state of the runtime that a run must not leave behind. -/
structure Scheduler (T : Types) where
  queue : Queue T.Job
  pendingUnhandledRejections : Nat
  data : Option (MechanicsState T)
  realm : Realm

def schedulerOf (w : World T) : Scheduler T :=
  ⟨w.queue,w.pendingUnhandledRejections,w.context.data,w.context.realm⟩

def Scheduler.idle (base : Realm) : Scheduler T := ⟨.new,0,none,base⟩

def Idle (base : Realm) (w : World T) : Prop := schedulerOf w = .idle base

variable (E : Engine T)

theorem enterJob_previous (settings : Settings) (state : MechanicsState T) (deadline : JsInstant) (realm base : Realm) :
    Meets (Idle base) (enterJob E settings state deadline realm) (fun previous _ => previous = base)
      fun fault _ => Uncaught fault := by
  have entered : Meets (Idle base) (enterRealm realm : Exec T Realm) (fun previous _ => previous = base)
      fun fault _ => Uncaught fault := fun _ idle => congrArg Scheduler.realm idle
  refine entered.bind fun previous => ?_
  intro w same
  refine (perform_uncaught E.bundleBuiltinModules fun _ => True).bind (fun _ => ?_) w trivial
  exact fun _ _ => same

theorem leaveJob_idle (previous : Realm) :
    Meets (fun _ => True) (leaveJob previous : Exec T Unit) (fun _ => Idle previous) fun fault _ => Uncaught fault :=
  fun _ _ => rfl

theorem beginJob_idle (settings : Settings) (job : MechanicsJob T) (base : Realm) :
    Meets (Idle base) (beginJob E settings job)
      (fun begun w => match begun with
        | .error _ => Idle base w
        | .ok previous => previous = base)
      fun fault _ => Uncaught fault := by
  refine beginJob_meets E settings job ?_ (fun _ _ idle => idle) (fun _ _ idle => idle)
    fun state deadline realm => enterJob_previous E settings state deadline realm base
  intro w idle
  simp only [Idle,schedulerOf,Scheduler.idle,Scheduler.mk.injEq] at idle ⊢
  exact ⟨idle.1,trivial,idle.2.2⟩

theorem runSource_idle (settings : Settings) (fuel : Nat) (job : MechanicsJob T) (base : Realm) :
    Meets (Idle base) (runSourceWithEarlyReply E settings fuel job) (fun _ => Idle base)
      fun fault _ => Uncaught fault := by
  refine (beginJob_idle E settings job base).bind fun begun => ?_
  cases begun with
  | error err => exact fun _ idle => idle
  | ok previous =>
    rintro w rfl
    refine (runScript_uncaught E fuel job).bind (fun result => ?_) w trivial
    refine (leaveJob_idle previous).bind fun _ => ?_
    exact fun _ idle => idle

theorem runJobs_idle (settings : Settings) (fuel : Nat) (base : Realm) (jobs : List (MechanicsJob T)) :
    Meets (Idle base) (jobs.mapM (runSourceWithEarlyReply E settings fuel)) (fun _ => Idle base)
      fun fault _ => Uncaught fault := by
  induction jobs with
  | nil => exact fun _ idle => idle
  | cons job rest ih =>
    rw [List.mapM_cons]
    refine (runSource_idle E settings fuel job base).bind fun outcome => ?_
    refine ih.bind fun outcomes => ?_
    exact fun _ idle => idle

/-- However many jobs ran and however each of them ended, the runtime is idle
again when they return; only a panic keeps them from returning. -/
theorem idle_after_jobs (settings : Settings) (fuel : Nat) (base : Realm) (jobs : List (MechanicsJob T))
    (w : World T) (idle : Idle base w) :
    (∀ outcomes w', (jobs.mapM (runSourceWithEarlyReply E settings fuel)).run w = .ok outcomes w' → Idle base w') ∧
    ∀ fault w', (jobs.mapM (runSourceWithEarlyReply E settings fuel)).run w = .error fault w' → Uncaught fault := by
  have kept := runJobs_idle E settings fuel base jobs
  exact ⟨fun _ _ ran => kept.returned idle ran,fun _ _ ran => kept.threw idle ran⟩

/-- The main function leaves a timer, a rejection and another realm behind, and
its promise `5` never settles. -/
def littering : Engine plain :=
  {Engine.silent with
    callFunction := fun _ arg c =>
      .plain c [.enqueue (.timeoutJob 1 (10^15)) (.ofNanos c.heap),.track .reject,.enterRealm 9] (.ok arg)
    display := fun
      | .native _ message => message
      | _ => ""}

def litter : List (MechanicsJob plain) := [⟨"",5,[]⟩,⟨"",0,[]⟩]

theorem idle_after_jobs_at_littering : ∃ w', (litter.mapM (runSourceWithEarlyReply littering oneSecond 5)).run (.new 0) =
      .ok [.mainNotReplied (.execution "Default export promise did not settle"),.mainReplied] w' ∧ Idle 0 w' := by
  obtain ⟨outcomes,w',ran,passed⟩ := returnsWith_witness
    ((litter.mapM (runSourceWithEarlyReply littering oneSecond 5)).run (.new 0))
    (fun outcomes _ => outcomes ==
      [.mainNotReplied (.execution "Default export promise did not settle"),.mainReplied]) (by decide +kernel)
  have same : outcomes = _ := beq_iff_eq.mp passed
  subst same
  exact ⟨w',ran,(idle_after_jobs littering oneSecond 5 0 litter (.new 0) rfl).1 _ _ ran⟩

end MechanicsCore.Runtime
