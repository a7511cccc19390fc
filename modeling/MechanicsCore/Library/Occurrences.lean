import Mathlib.Algebra.Order.Ring.Nat
import Mathlib.Data.Finset.Card
import Mathlib.Data.List.Infix

/-! How many words texts can hold. Words of which none ends with another are told
apart by where they end, so texts hold no more of them than they have symbols, and
a long enough series of such words has one that does not occur. -/
namespace MechanicsCore.Library
variable {α : Type}

/-- The beginnings of the texts, one for each symbol a word may end with. -/
def endings (texts : List (List α)) : List (List α) := texts.flatMap fun text => text.inits.tail

theorem length_endings (texts : List (List α)) : (endings texts).length = (texts.map List.length).sum := by
  rw [endings,List.length_flatMap]
  congr 1
  apply List.map_congr_left
  intro text _
  rw [List.length_tail,List.length_inits,Nat.add_sub_cancel]

theorem mem_endings {texts : List (List α)} {text ending : List α} (member : text ∈ texts) (start : ending <+: text)
    (nonempty : ending ≠ []) : ending ∈ endings texts := by
  apply List.mem_flatMap.mpr
  refine ⟨text,member,?_⟩
  have listed : ending ∈ text.inits := (List.mem_inits ending text).mpr start
  cases text with
  | nil => exact absurd (List.prefix_nil.mp start) nonempty
  | cons a text =>
    rw [List.inits_cons] at listed ⊢
    exact (List.mem_cons.mp listed).resolve_left nonempty

theorem exists_ending {texts : List (List α)} {text word : List α} (member : text ∈ texts) (occurs : word <:+: text)
    (nonempty : word ≠ []) : ∃ ending ∈ endings texts, word <:+ ending := by
  obtain ⟨before,after,split⟩ := occurs
  refine ⟨before ++ word,mem_endings member ⟨after,split⟩ ?_,List.suffix_append _ _⟩
  exact fun empty => nonempty (List.append_eq_nil_iff.mp empty).2

/-- Of words none of which ends with another, one of the first `n + 1` does not occur in
texts of `n` symbols. -/
theorem exists_absent {word : Nat → List α} (apart : ∀ i j, word i <:+ word j → i = j) (nonempty : ∀ i, word i ≠ [])
    (texts : List (List α)) : ∃ n ≤ (texts.map List.length).sum, ∀ text ∈ texts, ¬ word n <:+: text := by
  classical
  by_contra crowded
  push Not at crowded
  have ends : ∀ n ≤ (texts.map List.length).sum, ∃ ending ∈ endings texts, word n <:+ ending := by
    intro n within
    obtain ⟨text,member,occurs⟩ := crowded n within
    exact exists_ending member occurs (nonempty n)
  choose! ending listed last using ends
  let first := Finset.range ((texts.map List.length).sum + 1)
  have inside : ∀ n ∈ first, n ≤ (texts.map List.length).sum := fun n member =>
    Nat.le_of_lt_succ (Finset.mem_range.mp member)
  have maps : Set.MapsTo ending first (endings texts).toFinset := by
    intro n member
    exact List.mem_toFinset.mpr (listed n (inside n member))
  have injective : Set.InjOn ending first := by
    intro i left j right same
    have ends := last i (inside i left)
    rw [same] at ends
    rcases List.suffix_or_suffix_of_suffix ends (last j (inside j right)) with shorter | longer
    · exact apart i j shorter
    · exact (apart j i longer).symm
  have counted := (Finset.card_le_card_of_injOn ending maps injective).trans (List.toFinset_card_le _)
  rw [length_endings,Finset.card_range] at counted
  omega

end MechanicsCore.Library
