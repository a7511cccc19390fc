import Mathlib.Data.List.Pairwise
import MechanicsCore.Url.SearchParams

/-! The order of `URLSearchParams.sort`. The names are compared by code points; the
URL standard compares UTF-16 code units, and the two orders part where a surrogate
pair meets a character from U+E000 on. -/
namespace MechanicsCore.Url
open MechanicsCore.Library Text

def codeUnits (c : Char) : List Nat :=
  if c.toNat < 0x10000 then [c.toNat]
  else [0xD800 + (c.toNat - 0x10000) / 0x400,0xDC00 + (c.toNat - 0x10000) % 0x400]

def utf16 (s : Text) : List Nat := s.flatMap codeUnits

/-- The sort of the standard: by the code units of the names, pairs of one name in their old order. -/
structure StablySorted (pairs sorted : List ParamPair) : Prop where
  perm : sorted.Perm pairs
  ordered : sorted.Pairwise fun left right => utf16 left.1 ≤ utf16 right.1
  stable : ∀ name, sorted.filter (·.1 = name) = pairs.filter (·.1 = name)

/-- Where two names first differ, one has a character from U+E000 to U+FFFF and the other one
beyond. -/
def Crossed (a b : Text) : Prop :=
  ∃ common c s d t, a = common ++ c :: s ∧ b = common ++ d :: t ∧ 0xE000 ≤ c.toNat ∧ c.toNat < 0x10000 ∧ 0x10000 ≤ d.toNat

section Orders

theorem not_surrogate (c : Char) : c.toNat < 0xD800 ∨ 0xE000 ≤ c.toNat := by
  have valid := c.valid
  change c.toNat < 0xD800 ∨ 0xDFFF < c.toNat ∧ c.toNat < 0x110000 at valid
  omega

/-- A smaller character has smaller code units, unless the two cross. -/
theorem codeUnits_lt {c d : Char} (below : c.toNat < d.toNat)
    (straight : ¬ (0xE000 ≤ c.toNat ∧ c.toNat < 0x10000 ∧ 0x10000 ≤ d.toNat)) (s t : List Nat) :
    codeUnits c ++ s < codeUnits d ++ t := by
  have scalar := not_surrogate c
  unfold codeUnits
  split
  · split
    · exact List.cons_lt_cons_iff.mpr (.inl below)
    · refine List.cons_lt_cons_iff.mpr (.inl ?_)
      omega
  · rename_i beyond
    rw [if_neg (by omega)]
    change _::_::s < _::_::t
    rw [List.cons_lt_cons_iff,List.cons_lt_cons_iff]
    omega

theorem codeUnits_crossed {c d : Char} (high : 0xE000 ≤ c.toNat) (plane : c.toNat < 0x10000) (beyond : 0x10000 ≤ d.toNat)
    (s t : List Nat) : codeUnits d ++ t < codeUnits c ++ s := by
  have scalar : d.toNat < 0x110000 := by
    have valid := d.valid
    change d.toNat < 0xD800 ∨ 0xDFFF < d.toNat ∧ d.toNat < 0x110000 at valid
    omega
  unfold codeUnits
  rw [if_pos plane,if_neg (by omega)]
  refine List.cons_lt_cons_iff.mpr (.inl ?_)
  omega

theorem utf16_cons (c : Char) (s : Text) : utf16 (c::s) = codeUnits c ++ utf16 s := List.flatMap_cons

theorem Crossed.cons {a b : Text} (crossed : Crossed a b) (c : Char) : Crossed (c::a) (c::b) := by
  obtain ⟨common,d,s,e,t,rfl,rfl,ranges⟩ := crossed
  exact ⟨c::common,d,s,e,t,rfl,rfl,ranges⟩

theorem utf16_lt {a b : Text} (below : a < b) (straight : ¬ Crossed a b) : utf16 a < utf16 b := by
  induction a generalizing b with
  | nil =>
    cases b with
    | nil => exact absurd below (lt_irrefl _)
    | cons d b =>
      rw [utf16_cons,codeUnits]
      split
      · exact List.nil_lt_cons _ _
      · exact List.nil_lt_cons _ _
  | cons c a ih =>
    cases b with
    | nil => exact absurd below (List.not_lt_nil _)
    | cons d b =>
      rw [utf16_cons,utf16_cons]
      rcases List.cons_lt_cons_iff.mp below with first | ⟨rfl,rest⟩
      · refine codeUnits_lt first (fun ranges => straight ?_) _ _
        exact ⟨[],c,a,d,b,rfl,rfl,ranges⟩
      · exact List.append_left_lt (ih rest fun crossed => straight (crossed.cons c))

theorem utf16_le {a b : Text} (le : a ≤ b) (straight : ¬ Crossed a b) : utf16 a ≤ utf16 b := by
  rcases le.eq_or_lt with rfl | below
  · exact le_rfl
  · exact (utf16_lt below straight).le

theorem Crossed.high {a b : Text} (crossed : Crossed a b) : ∃ c ∈ a, 0xE000 ≤ c.toNat := by
  obtain ⟨common,c,s,d,t,rfl,_,high,_⟩ := crossed
  exact ⟨c,by simp,high⟩

theorem Crossed.orders {a b : Text} (crossed : Crossed a b) : a < b ∧ utf16 b < utf16 a := by
  obtain ⟨common,c,s,d,t,rfl,rfl,high,plane,beyond⟩ := crossed
  constructor
  · refine List.append_left_lt (List.cons_lt_cons_iff.mpr (.inl ?_))
    change c.toNat < d.toNat
    omega
  · unfold utf16
    rw [List.flatMap_append,List.flatMap_append,List.flatMap_cons,List.flatMap_cons]
    exact List.append_left_lt (codeUnits_crossed high plane beyond _ _)

end Orders

section Sorted

def byName (left right : ParamPair) : Bool := decide (left.1 ≤ right.1)

theorem byName_trans (a b c : ParamPair) (first : byName a b = true) (second : byName b c = true) : byName a c = true :=
  decide_eq_true ((of_decide_eq_true first).trans (of_decide_eq_true second))

theorem byName_total (a b : ParamPair) : (byName a b || byName b a) = true := by
  rw [Bool.or_eq_true]
  exact (le_total a.1 b.1).imp decide_eq_true decide_eq_true

theorem filter_mergeSort (pairs : List ParamPair) (name : Text) :
    (pairs.mergeSort byName).filter (·.1 = name) = pairs.filter (·.1 = name) := by
  have equal : (pairs.filter (·.1 = name)).Pairwise fun a b => byName a b = true := by
    refine List.pairwise_of_forall_mem_list fun a left b right => decide_eq_true (le_of_eq ?_)
    have first : a.1 = name := by simpa using (List.mem_filter.mp left).2
    have second : b.1 = name := by simpa using (List.mem_filter.mp right).2
    rw [first,second]
  have within := (List.sublist_mergeSort byName_trans byName_total equal List.filter_sublist).filter (·.1 = name)
  rw [List.filter_filter] at within
  simp only [Bool.and_self] at within
  refine (within.eq_of_length ?_).symm
  exact ((List.mergeSort_perm pairs byName).filter _).length_eq.symm

/-- One of the two pairs comes first in both orders. -/
def Agreed (a b : ParamPair) : Prop := (a.1 ≤ b.1 ∧ utf16 a.1 ≤ utf16 b.1) ∨ b.1 ≤ a.1 ∧ utf16 b.1 ≤ utf16 a.1

instance : Std.Symm Agreed := ⟨fun _ _ => Or.symm⟩

end Sorted

/-- The pairs come out as the standard sorts them exactly when no two of the names cross. -/
theorem sort_by_code_units_iff {U : UrlCrate} (lawful : U.Lawful) (backing : ParamsBacking) (heap : Heap U) :
    StablySorted (snapshotPairs backing heap) (snapshotPairs backing (paramsSort backing heap)) ↔
      ∀ left ∈ snapshotPairs backing heap, ∀ right ∈ snapshotPairs backing heap, ¬ Crossed left.1 right.1 := by
  have sorted : snapshotPairs backing (paramsSort backing heap) = (snapshotPairs backing heap).mergeSort byName :=
    snapshot_withPairs lawful backing _ heap
  rw [sorted]
  generalize snapshotPairs backing heap = pairs
  have ordered := List.pairwise_mergeSort byName_trans byName_total pairs
  constructor
  · intro standard left inside right within crossed
    obtain ⟨below,above⟩ := crossed.orders
    have both : (pairs.mergeSort byName).Pairwise Agreed :=
      ordered.imp₂ (fun a b le units => .inl ⟨of_decide_eq_true le,units⟩) standard.ordered
    have other : left ≠ right := by
      rintro rfl
      exact lt_irrefl _ below
    have apart := both.forall (List.mem_mergeSort.mpr inside) (List.mem_mergeSort.mpr within) other
    rcases apart with ⟨_,units⟩ | ⟨names,_⟩
    · exact not_le.mpr above units
    · exact not_le.mpr below names
  · intro straight
    refine ⟨List.mergeSort_perm _ _,?_,filter_mergeSort pairs⟩
    refine List.Pairwise.imp_of_mem (fun {a b} left right le => ?_) ordered
    exact utf16_le (of_decide_eq_true le) (straight a (List.mem_mergeSort.mp left) b (List.mem_mergeSort.mp right))

theorem sort_by_code_units_iff_at_repeated :
    StablySorted [("b","1"),("a","2"),("b","")]
      (snapshotPairs (.owned 0) (paramsSort (.owned 0)
        (⟨fun _ => [("b","1"),("a","2"),("b","")],fun _ => none⟩ : Heap queryOnly))) := by
  refine (sort_by_code_units_iff queryOnly_lawful (.owned 0) ⟨fun _ => [("b","1"),("a","2"),("b","")],fun _ => none⟩).mpr ?_
  have low : ([("b","1"),("a","2"),("b","")] : List ParamPair).all
      (fun pair => pair.1.all fun c => decide (c.toNat < 0xE000)) = true := by decide
  intro left inside right _ crossed
  obtain ⟨c,member,high⟩ := crossed.high
  exact absurd high (Nat.not_le.mpr (List.all_iff_forall_prop.mp (List.all_eq_true.mp low left inside) c member))

/-- A ligature from above the surrogates, and an emoji, which is written as a pair of them. -/
def crossedPairs : List ParamPair := [([Char.ofNat 0xFB01],"1"),([Char.ofNat 0x1F600],"2")]

theorem crossedPairs_unsorted : ¬ StablySorted crossedPairs
    (snapshotPairs (.owned 0) (paramsSort (.owned 0) (⟨fun _ => crossedPairs,fun _ => none⟩ : Heap queryOnly))) := by
  intro standard
  have units := standard.ordered
  have sorted : crossedPairs.Pairwise fun a b => byName a b = true := by decide +kernel
  have kept : snapshotPairs (.owned 0) (paramsSort (.owned 0) (⟨fun _ => crossedPairs,fun _ => none⟩ : Heap queryOnly)) =
      crossedPairs :=
    (snapshot_withPairs queryOnly_lawful (.owned 0) _ _).trans (List.mergeSort_of_pairwise sorted)
  rw [kept] at units
  revert units
  decide

end MechanicsCore.Url
