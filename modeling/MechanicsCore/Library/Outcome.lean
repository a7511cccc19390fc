import Mathlib.Data.List.Forall2

/-! Successful runs of fallible computations, taken apart step by step. -/
namespace MechanicsCore.Library.Outcome
variable {ε α β : Type}

theorem bind_ok_iff {x : Except ε α} {f : α → Except ε β} {b : β} :
    (x >>= f) = .ok b ↔ ∃ a, x = .ok a ∧ f a = .ok b := by
  cases x with
  | error e => simp [bind,Except.bind]
  | ok a => simp [bind,Except.bind]

theorem map_ok_iff {x : Except ε α} {f : α → β} {b : β} : x.map f = .ok b ↔ ∃ a, x = .ok a ∧ f a = b := by
  cases x with
  | error e => simp [Except.map]
  | ok a => simp [Except.map]

theorem pure_ok_iff {a b : α} : (pure a : Except ε α) = .ok b ↔ a = b := by simp [pure,Except.pure]

theorem toOption_map_some {x : Except ε α} {f : α → β} {b : β} (known : x.toOption.map f = some b) :
    ∃ a, x = .ok a ∧ f a = b := by
  cases x with
  | error e => contradiction
  | ok a => exact ⟨a,rfl,Option.some.inj known⟩

theorem exists_right {R : α → β → Prop} {xs : List α} {ys : List β} (all : List.Forall₂ R xs ys) {x : α}
    (member : x ∈ xs) : ∃ y ∈ ys, R x y := by
  induction all with
  | nil => contradiction
  | cons first later ih =>
    rcases List.mem_cons.mp member with rfl | inside
    · exact ⟨_,List.mem_cons_self,first⟩
    · obtain ⟨y,found,related⟩ := ih inside
      exact ⟨y,List.mem_cons_of_mem _ found,related⟩

theorem exists_left {R : α → β → Prop} {xs : List α} {ys : List β} (all : List.Forall₂ R xs ys) {y : β}
    (member : y ∈ ys) : ∃ x ∈ xs, R x y := exists_right all.flip member

theorem mapM_ok_iff {f : α → Except ε β} {xs : List α} {ys : List β} :
    xs.mapM f = .ok ys ↔ List.Forall₂ (fun x y => f x = .ok y) xs ys := by
  induction xs generalizing ys with
  | nil =>
    rw [List.mapM_nil,pure_ok_iff,List.forall₂_nil_left_iff]
    exact eq_comm
  | cons x xs ih =>
    simp only [List.mapM_cons,bind_ok_iff,pure_ok_iff,ih]
    constructor
    · rintro ⟨y,first,rest,later,rfl⟩
      exact .cons first later
    · intro all
      cases all with
      | cons first later => exact ⟨_,first,_,later,rfl⟩

/-- Computations that fail with an error or do not return: a run that returns has
returned at each of its steps. -/
theorem run_bind_iff {x : ExceptT ε Option α} {f : α → ExceptT ε Option β} {b : β} :
    (x >>= f).run = some (.ok b) ↔ ∃ a, x.run = some (.ok a) ∧ (f a).run = some (.ok b) := by
  change (x.run >>= ExceptT.bindCont f) = some (.ok b) ↔ _
  cases x.run with
  | none => simp
  | some result =>
    cases result with
    | error e => simp [ExceptT.bindCont]
    | ok a => simp [ExceptT.bindCont,ExceptT.run]

theorem run_pure_iff {a b : α} : (pure a : ExceptT ε Option α).run = some (.ok b) ↔ a = b := by
  simp [ExceptT.run,pure,ExceptT.pure,ExceptT.mk]

end MechanicsCore.Library.Outcome
