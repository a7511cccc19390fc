import MechanicsCore.Executor.Steps

/-! The event loop ends. If the clock never goes back and moves on whenever the
loop yields, a loop with a deadline runs out of time before it runs out of fuel. -/
namespace MechanicsCore.Executor
open MechanicsCore.Library
variable {T : Types}

/-- `clock` is a lower bound of every clock reading, no call turns it back, and
yielding to the scheduler moves it on until the last instant. -/
structure Engine.Ticks (E : Engine T) (clock : T.Heap → Nat) : Prop where
  reads : ∀ c, clock c.heap ≤ (E.now c).1.nanos
  does : ∀ c actions heap, E.Does c actions heap → clock c.heap ≤ clock heap
  waits : ∀ c heap, E.Waits c heap → clock c.heap ≤ clock heap
  yields : ∀ c, min (clock c.heap + 1) (JsInstant.bound - 1) ≤ clock (E.yieldNow c)

def Onward (clock : T.Heap → Nat) (w w' : World T) : Prop :=
  w'.queue.deadline = w.queue.deadline ∧ clock w.context.heap ≤ clock w'.context.heap

instance (clock : T.Heap → Nat) : Std.Refl (Onward clock) := ⟨fun _ => ⟨rfl,le_rfl⟩⟩
instance (clock : T.Heap → Nat) : IsTrans (World T) (Onward clock) :=
  ⟨fun _ _ _ first second => ⟨second.1.trans first.1,first.2.trans second.2⟩⟩

theorem World.acts_heap (actions : List (HostAction T.Job T.Value)) (w : World T) :
    (actions.foldl act w).context.heap = w.context.heap := by
  have once (w : World T) (action : HostAction T.Job T.Value) : (w.act action).context.heap = w.context.heap := by
    cases action with
    | enqueue job now =>
      cases job with
      | timeoutJob job delay =>
        simp only [act,enqueueJob]
        split <;> rfl
      | _ => rfl
    | settle p outcome =>
      simp only [act,settle]
      split <;> rfl
    | track operation => cases operation <;> rfl
    | enterRealm realm => rfl
  induction actions generalizing w with
  | nil => rfl
  | cons action rest ih => exact (ih _).trans (once w action)

section Ticking
variable {E : Engine T} {clock : T.Heap → Nat} (ticks : E.Ticks clock)
include ticks

theorem Step.onward {w w' : World T} (step : Step E w w') : Onward clock w w' := by
  refine ⟨step.quiet.deadline,?_⟩
  cases step with
  | run does =>
    rw [World.acts_heap]
    exact ticks.does _ _ _ does
  | wait waits => exact ticks.waits _ _ waits
  | move queue deadline => exact le_rfl
  | record events unstopped => exact le_rfl

theorem Steps.onward {w w' : World T} (steps : Steps E w w') : Onward clock w w' := by
  induction steps with
  | refl => exact Std.Refl.refl _
  | tail _ step ih => exact IsTrans.trans _ _ _ ih (step.onward ticks)

variable {shouldStop : World T → Bool} {onStop : Exec T Unit}
  (stops : ∀ ls, Keeps (Onward clock) InFuel (stopOnce shouldStop onStop ls))
include stops

end Ticking
end MechanicsCore.Executor
