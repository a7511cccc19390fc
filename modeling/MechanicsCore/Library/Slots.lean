import Mathlib.Algebra.Order.Ring.Nat

/-! Lists as tables of slots: what is found in a table after one slot is written or one
is added, and what a write does to a sum over the table. -/
namespace MechanicsCore.Library
variable {α : Type} {l : List α} {i k : Nat} {x y : α}

theorem found_set (found : (l.set i x)[k]? = some y) : i = k ∧ y = x ∨ i ≠ k ∧ l[k]? = some y := by
  by_cases same : i = k
  · subst same
    rw [List.getElem?_set_self'] at found
    obtain ⟨_,_,rfl⟩ := Option.map_eq_some_iff.mp found
    exact .inl ⟨rfl,rfl⟩
  · exact .inr ⟨same,by rwa [List.getElem?_set_ne same] at found⟩

theorem found_append (found : (l ++ [x])[k]? = some y) : l[k]? = some y ∨ k = l.length ∧ y = x := by
  rcases Nat.lt_trichotomy k l.length with known | here | beyond
  · exact .inl (by rwa [List.getElem?_append_left known] at found)
  · subst here
    exact .inr ⟨rfl,by simpa using found.symm⟩
  · rw [List.getElem?_eq_none (by simp; omega)] at found
    contradiction

/-- A write trades the summand of the old entry for that of the new one. -/
theorem sum_map_set (f : α → Nat) (new : α) (found : l[i]? = some x) :
    ((l.set i new).map f).sum + f x = (l.map f).sum + f new := by
  induction l generalizing i with
  | nil => simp at found
  | cons first rest ih =>
    cases i with
    | zero =>
      cases found
      simp only [List.set_cons_zero,List.map_cons,List.sum_cons]
      omega
    | succ i =>
      have smaller := ih (i := i) (by simpa using found)
      simp only [List.set_cons_succ,List.map_cons,List.sum_cons]
      omega

theorem countP_eq_sum (test : α → Bool) (l : List α) : l.countP test = (l.map fun a => (test a).toNat).sum := by
  induction l with
  | nil => rfl
  | cons a l ih =>
    rw [List.countP_cons,ih,List.map_cons,List.sum_cons]
    cases test a <;> simp [Nat.add_comm]

theorem countP_set (test : α → Bool) (new : α) (found : l[i]? = some x) :
    (l.set i new).countP test + (test x).toNat = l.countP test + (test new).toNat := by
  rw [countP_eq_sum,countP_eq_sum]
  exact sum_map_set _ new found

end MechanicsCore.Library
