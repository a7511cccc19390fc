import Mathlib.Order.RelClasses

/-! Reasoning about stateful programs with exceptions. `Meets` is a triple with a
postcondition for each outcome, `Keeps` a relation between the state before a
program and the state it leaves behind, however it ends. -/
namespace MechanicsCore.Library
variable {ε σ α β : Type}

def Meets (before : σ → Prop) (x : EStateM ε σ α) (returns : α → σ → Prop) (throws : ε → σ → Prop) : Prop :=
  ∀ s, before s → match x.run s with
    | .ok a s' => returns a s'
    | .error e s' => throws e s'

/-- The state a program leaves behind is related to the one it began in, and what
it throws passes a test. -/
def Keeps (R : σ → σ → Prop) (faults : ε → Prop) (x : EStateM ε σ α) : Prop :=
  ∀ s, match x.run s with
    | .ok _ s' => R s s'
    | .error e s' => R s s' ∧ faults e

theorem run_bind_ok {x : EStateM ε σ α} {f : α → EStateM ε σ β} {s s'' : σ} {b : β} :
    (x >>= f).run s = .ok b s'' ↔ ∃ a s', x.run s = .ok a s' ∧ (f a).run s' = .ok b s'' := by
  rw [EStateM.run_bind]
  cases x.run s with
  | ok a s' => simp [and_assoc]
  | error e s' => simp

theorem run_bind_error {x : EStateM ε σ α} {f : α → EStateM ε σ β} {s s'' : σ} {e : ε} :
    (x >>= f).run s = .error e s'' ↔
      x.run s = .error e s'' ∨ ∃ a s', x.run s = .ok a s' ∧ (f a).run s' = .error e s'' := by
  rw [EStateM.run_bind]
  cases x.run s with
  | ok a s' => simp [and_assoc]
  | error e s' => simp

theorem run_tryCatch (x : EStateM ε σ α) (handler : ε → EStateM ε σ α) (s : σ) :
    (tryCatch x handler).run s =
      match x.run s with
      | .ok a s' => .ok a s'
      | .error e s' => (handler e).run s' := by
  change EStateM.tryCatch x handler s = _
  unfold EStateM.tryCatch EStateM.run
  cases x s with
  | ok a s' => rfl
  | error e s' => rfl

/-- The state in which a run ends, however it ends. -/
def stateAfter : EStateM.Result ε σ α → σ
  | .ok _ s => s
  | .error _ s => s

/-- Whether a run returned, with a value and a state that pass a check. -/
def returnsWith (check : α → σ → Bool) : EStateM.Result ε σ α → Bool
  | .ok a s => check a s
  | .error _ _ => false

theorem returnsWith_witness (r : EStateM.Result ε σ α) (check : α → σ → Bool)
    (passed : returnsWith check r = true) : ∃ a s, r = .ok a s ∧ check a s = true := by
  cases r with
  | ok a s => exact ⟨a,s,rfl,passed⟩
  | error e s => contradiction

/-- Whether a run threw, with a fault and a state that pass a check. -/
def throwsWith (check : ε → σ → Bool) : EStateM.Result ε σ α → Bool
  | .ok _ _ => false
  | .error e s => check e s

theorem throwsWith_witness (r : EStateM.Result ε σ α) (check : ε → σ → Bool)
    (passed : throwsWith check r = true) : ∃ e s, r = .error e s ∧ check e s = true := by
  cases r with
  | ok a s => contradiction
  | error e s => exact ⟨e,s,rfl,passed⟩

namespace Meets
variable {before : σ → Prop} {throws : ε → σ → Prop}

theorem returned {x : EStateM ε σ α} {returns : α → σ → Prop} (meets : Meets before x returns throws)
    {s s' : σ} {a : α} (holds : before s) (ran : x.run s = .ok a s') : returns a s' := by
  have outcome := meets s holds
  rwa [ran] at outcome

theorem threw {x : EStateM ε σ α} {returns : α → σ → Prop} (meets : Meets before x returns throws)
    {s s' : σ} {e : ε} (holds : before s) (ran : x.run s = .error e s') : throws e s' := by
  have outcome := meets s holds
  rwa [ran] at outcome

theorem bind {x : EStateM ε σ α} {f : α → EStateM ε σ β} {middle : α → σ → Prop} {returns : β → σ → Prop}
    (first : Meets before x middle throws) (second : ∀ a, Meets (middle a) (f a) returns throws) :
    Meets before (x >>= f) returns throws := by
  intro s holds
  have outcome := first s holds
  rw [EStateM.run_bind]
  cases ran : x.run s with
  | ok a s' =>
    rw [ran] at outcome
    exact second a s' outcome
  | error e s' =>
    rw [ran] at outcome
    exact outcome

theorem mono {x : EStateM ε σ α} {returns weaker : α → σ → Prop} (meets : Meets before x returns throws)
    (implies : ∀ a s, returns a s → weaker a s) : Meets before x weaker throws := by
  intro s holds
  cases ran : x.run s with
  | ok a s' => exact implies a s' (meets.returned holds ran)
  | error e s' => exact meets.threw holds ran

theorem weaken {x : EStateM ε σ α} {returns : α → σ → Prop} {others : ε → σ → Prop}
    (meets : Meets before x returns throws) (implies : ∀ e s, throws e s → others e s) :
    Meets before x returns others := by
  intro s holds
  cases ran : x.run s with
  | ok a s' => exact meets.returned holds ran
  | error e s' => exact implies e s' (meets.threw holds ran)

theorem trivially (before : σ → Prop) (x : EStateM ε σ α) : Meets before x (fun _ _ => True) fun _ _ => True := by
  intro s _
  cases x.run s <;> trivial

theorem get_bind {f : σ → EStateM ε σ α} {returns : α → σ → Prop}
    (each : ∀ s, Meets before (f s) returns throws) : Meets before (get >>= f) returns throws :=
  fun s holds => each s s holds

theorem read_bind {f : σ → EStateM ε σ α} {returns : α → σ → Prop}
    (each : ∀ s, before s → Meets (fun s' => s' = s) (f s) returns throws) :
    Meets before (get >>= f) returns throws :=
  fun s holds => each s holds s rfl

/-- A triple at one state that it covers. -/
theorem starting {x : EStateM ε σ α} {returns : α → σ → Prop} (meets : Meets before x returns throws) {s : σ}
    (holds : before s) : Meets (· = s) x returns throws := by
  rintro _ rfl
  exact meets _ holds

theorem each {x : EStateM ε σ α} {returns : α → σ → Prop}
    (meets : ∀ s, before s → Meets (· = s) x returns throws) : Meets before x returns throws :=
  fun s holds => meets s holds s rfl

/-- A program that begins in one state may be asked later what it returned. -/
theorem remembers {x : EStateM ε σ α} {returns : α → σ → Prop} {s : σ} (meets : Meets (· = s) x returns throws) :
    Meets (· = s) x (fun a s' => returns a s' ∧ x.run s = .ok a s') throws := by
  rintro _ rfl
  cases ran : x.run _ with
  | ok a s' => exact ⟨meets.returned rfl ran,rfl⟩
  | error e s' => exact meets.threw rfl ran

/-- A fact in the precondition that is not about the state. -/
theorem given {fact : Prop} {x : EStateM ε σ α} {returns : α → σ → Prop}
    (meets : fact → Meets before x returns throws) : Meets (fun s => before s ∧ fact) x returns throws :=
  fun s holds => meets holds.2 s holds.1

theorem after {P : σ → Prop} {x : EStateM ε σ α} (meets : Meets before x (fun _ => P) fun _ => P) {s : σ}
    (holds : before s) : P (stateAfter (x.run s)) := by
  cases ran : x.run s with
  | ok a s' => exact meets.returned holds ran
  | error e s' => exact meets.threw holds ran

/-- A loop over a list, with an invariant on the elements still to come. -/
theorem forM {f : β → EStateM ε σ PUnit} (invariant : List β → σ → Prop)
    (step : ∀ b rest, Meets (invariant (b::rest)) (f b) (fun _ => invariant rest) throws) (list : List β) :
    Meets (invariant list) (list.forM f) (fun _ => invariant []) throws := by
  induction list with
  | nil => exact fun s holds => holds
  | cons b rest ih =>
    change Meets _ (f b >>= fun _ => rest.forM f) _ _
    exact (step b rest).bind fun _ => ih

end Meets

namespace Keeps
variable {R : σ → σ → Prop} {faults : ε → Prop}

theorem returned {x : EStateM ε σ α} (keeps : Keeps R faults x) {s s' : σ} {a : α}
    (ran : x.run s = .ok a s') : R s s' := by
  have related := keeps s
  rwa [ran] at related

theorem threw {x : EStateM ε σ α} (keeps : Keeps R faults x) {s s' : σ} {e : ε}
    (ran : x.run s = .error e s') : R s s' ∧ faults e := by
  have related := keeps s
  rwa [ran] at related

theorem pure [Std.Refl R] (a : α) : Keeps R faults (Pure.pure a) := fun s => Std.Refl.refl s

theorem get [Std.Refl R] : Keeps R faults MonadState.get := fun s => Std.Refl.refl s

theorem throw [Std.Refl R] {e : ε} (allowed : faults e) : Keeps R faults (MonadExcept.throw e : EStateM ε σ α) :=
  fun s => ⟨Std.Refl.refl s,allowed⟩

theorem modify {f : σ → σ} (related : ∀ s, R s (f s)) : Keeps R faults (modify f) := related

theorem modifyGet {f : σ → α × σ} (related : ∀ s, R s (f s).2) : Keeps R faults (modifyGet f) := related

theorem bind [IsTrans σ R] {x : EStateM ε σ α} {f : α → EStateM ε σ β} (first : Keeps R faults x)
    (second : ∀ a, Keeps R faults (f a)) : Keeps R faults (x >>= f) := by
  intro s
  rw [EStateM.run_bind]
  cases ran : x.run s with
  | error e s' => exact first.threw ran
  | ok a s' =>
    have before := first.returned ran
    dsimp only
    cases after : (f a).run s' with
    | ok b s'' => exact IsTrans.trans _ _ _ before ((second a).returned after)
    | error e s'' =>
      obtain ⟨related,allowed⟩ := (second a).threw after
      exact ⟨IsTrans.trans _ _ _ before related,allowed⟩

theorem forM [Std.Refl R] [IsTrans σ R] {f : β → EStateM ε σ PUnit} (step : ∀ b, Keeps R faults (f b))
    (list : List β) : Keeps R faults (list.forM f) := by
  induction list with
  | nil => exact Keeps.pure _
  | cons b rest ih =>
    change Keeps R faults (f b >>= fun _ => rest.forM f)
    exact (step b).bind fun _ => ih

theorem mono {S : σ → σ → Prop} {others : ε → Prop} {x : EStateM ε σ α} (keeps : Keeps R faults x)
    (weaker : ∀ s s', R s s' → S s s') (more : ∀ e, faults e → others e) : Keeps S others x := by
  intro s
  cases ran : x.run s with
  | ok a s' => exact weaker s s' (keeps.returned ran)
  | error e s' =>
    obtain ⟨related,allowed⟩ := keeps.threw ran
    exact ⟨weaker s s' related,more e allowed⟩

end Keeps
end MechanicsCore.Library
