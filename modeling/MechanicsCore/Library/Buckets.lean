import MechanicsCore.Library.OrdMap

/-! Maps of buckets as lists of pairs: every item with the key it is kept under,
in key order, the items of one key in the order of their bucket. -/
namespace MechanicsCore.Library.OrdMap
variable {K V : Type} [LinearOrder K]

def bucket (m : OrdMap K (List V)) (k : K) : List V := (m.entries.lookup k).getD []

def pairs (m : OrdMap K (List V)) : List (K × V) := m.entries.flatMap fun entry => entry.2.map (entry.1,·)

def Filled (m : OrdMap K (List V)) : Prop := ∀ entry ∈ m.entries, entry.2 ≠ []

theorem mem_pairs {m : OrdMap K (List V)} {pair : K × V} (member : pair ∈ m.pairs) :
    ∃ entry ∈ m.entries, entry.1 = pair.1 := by
  obtain ⟨entry,inside,member⟩ := List.mem_flatMap.mp member
  obtain ⟨x,_,rfl⟩ := List.mem_map.mp member
  exact ⟨entry,inside,rfl⟩

/-- A map without its least entry. -/
theorem pairs_cons {entry : K × List V} {rest : List (K × List V)}
    (ordered : (entry::rest).Pairwise fun a b => a.1 < b.1) :
    (OrdMap.mk (entry::rest) ordered).pairs =
      entry.2.map (entry.1,·) ++ (OrdMap.mk rest ordered.of_cons).pairs := rfl

theorem pairs_sorted (m : OrdMap K (List V)) : m.pairs.Pairwise fun a b => a.1 ≤ b.1 := by
  obtain ⟨entries,ordered⟩ := m
  induction entries with
  | nil => exact .nil
  | cons entry rest ih =>
    rw [pairs_cons]
    refine List.pairwise_append.mpr ⟨?_,ih ordered.of_cons,?_⟩
    · exact List.pairwise_map.mpr (List.pairwise_of_forall fun _ _ => le_refl entry.1)
    · intro pair member later above
      obtain ⟨x,_,rfl⟩ := List.mem_map.mp member
      obtain ⟨other,inside,same⟩ := mem_pairs above
      rw [← same]
      exact ((List.pairwise_cons.mp ordered).1 other inside).le

theorem bucket_eq_pairs (m : OrdMap K (List V)) (k : K) :
    m.bucket k = (m.pairs.filter fun pair => pair.1 = k).map Prod.snd := by
  obtain ⟨entries,ordered⟩ := m
  induction entries with
  | nil => rfl
  | cons entry rest ih =>
    have smaller := ih ordered.of_cons
    rw [pairs_cons,List.filter_append,List.map_append,← smaller]
    by_cases same : entry.1 = k
    · subst same
      -- every later key is above this one, so the rest keeps nothing under it
      have none : (OrdMap.mk rest ordered.of_cons).bucket entry.1 = [] := by
        rw [smaller,List.map_eq_nil_iff,List.filter_eq_nil_iff]
        intro pair member equal
        obtain ⟨other,inside,key⟩ := mem_pairs member
        have above := (List.pairwise_cons.mp ordered).1 other inside
        exact above.ne' (key.trans (of_decide_eq_true equal))
      rw [none]
      simp [bucket,lookup_entry,List.filter_map,Function.comp_def]
    · simp [bucket,lookup_entry,List.filter_map,Function.comp_def,same,Ne.symm same]

/-- A choice among the pairs, by the key and by the item, as one key sees it. -/
theorem filter_pairs_of_key (m : OrdMap K (List V)) (p : K → Bool) (q : V → Bool) (k : K) :
    ((m.pairs.filter fun pair => p pair.1 && q pair.2).filter fun pair => pair.1 = k).map Prod.snd =
      if p k then (m.bucket k).filter q else [] := by
  rw [bucket_eq_pairs,List.filter_map,List.filter_filter,List.filter_filter]
  split
  · rename_i passes
    apply congrArg
    apply List.filter_congr
    intro pair _
    by_cases same : pair.1 = k
    · simp [same,passes]
    · simp [same]
  · rename_i fails
    rw [List.map_eq_nil_iff,List.filter_eq_nil_iff]
    intro pair _ chosen
    simp only [Bool.and_eq_true,decide_eq_true_eq] at chosen
    obtain ⟨same,passes,_⟩ := chosen
    exact fails (same ▸ passes)

theorem retain_pairs (m : OrdMap K (List V)) (p : V → Bool) :
    (m.retain p).pairs = m.pairs.filter fun pair => p pair.2 := by
  simp only [pairs,retain,filterMapValues]
  induction m.entries with
  | nil => rfl
  | cons entry rest ih =>
    have kept : (entry.2.map (entry.1,·)).filter (fun pair => p pair.2) = (entry.2.filter p).map (entry.1,·) :=
      List.filter_map
    rw [List.filterMap_cons,List.flatMap_cons,List.filter_append,← ih,kept]
    cases entry.2.filter p with
    | nil => rfl
    | cons x others => rfl

theorem retain_filled (m : OrdMap K (List V)) (p : V → Bool) : (m.retain p).Filled := by
  intro entry member
  obtain ⟨old,_,image⟩ := List.mem_filterMap.mp member
  cases kept : old.2.filter p with
  | nil => simp [kept] at image
  | cons x others =>
    simp only [kept,Option.map_some,Option.some.injEq] at image
    simp [← image]

section Front
variable {p : K → Bool} (closed : ∀ a b, a < b → p b = true → p a = true)
include closed

/-- Where a test can only turn false once along the keys, popping splits the pairs by it. -/
theorem popWhile_pairs (m : OrdMap K (List V)) :
    (m.popWhile p).1.flatten = (m.pairs.filter fun pair => p pair.1).map Prod.snd ∧
    (m.popWhile p).2.pairs = m.pairs.filter fun pair => !p pair.1 := by
  obtain ⟨entries,ordered⟩ := m
  induction entries with
  | nil => exact ⟨rfl,rfl⟩
  | cons entry rest ih =>
    obtain ⟨popped,left⟩ := ih ordered.of_cons
    cases passes : p entry.1 with
    | true =>
      constructor
      · rw [pairs_cons,List.filter_append,List.map_append,← popped]
        simp [popWhile,passes,List.filter_map,Function.comp_def]
      · rw [pairs_cons,List.filter_append,← left]
        simp [popWhile,passes,pairs,List.filter_map,Function.comp_def]
    | false =>
      have stops : ∀ pair ∈ (OrdMap.mk (entry::rest) ordered).pairs, p pair.1 = false := by
        intro pair member
        obtain ⟨other,inside,same⟩ := mem_pairs member
        rw [← same]
        rcases List.mem_cons.mp inside with rfl | later
        · exact passes
        · refine Bool.eq_false_iff.mpr fun true => ?_
          have before := closed _ _ ((List.pairwise_cons.mp ordered).1 other later) true
          simp [passes] at before
      constructor
      · have nothing := List.filter_eq_nil_iff.mpr fun pair member => by
          simpa using stops pair member
        rw [nothing]
        simp [popWhile,passes]
      · rw [List.filter_eq_self.mpr fun pair member => by simp [stops pair member]]
        simp [popWhile,passes]

end Front

theorem Filled.popWhile {m : OrdMap K (List V)} (filled : m.Filled) (p : K → Bool) : (m.popWhile p).2.Filled :=
  fun entry member => filled entry ((List.dropWhile_sublist _).subset member)

theorem Filled.push {m : OrdMap K (List V)} (filled : m.Filled) (k : K) (x : V) : (m.push k x).Filled := by
  obtain ⟨entries,ordered⟩ := m
  change ∀ entry ∈ alterEntries k _ entries, _
  induction entries with
  | nil => simp [alterEntries]
  | cons entry rest ih =>
    have smaller := ih ordered.of_cons fun entry member => filled entry (List.mem_cons_of_mem _ member)
    intro found member
    rw [alterEntries] at member
    split at member
    · rcases List.mem_cons.mp member with rfl | old
      · simp
      · exact filled found old
    · split at member
      · rcases List.mem_cons.mp member with rfl | old
        · simp
        · exact filled found (List.mem_cons_of_mem _ old)
      · rcases List.mem_cons.mp member with rfl | old
        · exact filled _ List.mem_cons_self
        · exact smaller found old

theorem lookup_alterEntries (k : K) (f : Option V → V) {entries : List (K × V)}
    (ordered : entries.Pairwise fun a b => a.1 < b.1) (j : K) :
    (alterEntries k f entries).lookup j = if j = k then some (f (entries.lookup k)) else entries.lookup j := by
  induction entries with
  | nil => simp [alterEntries,lookup_entry]
  | cons entry rest ih =>
    obtain ⟨least,ordered⟩ := List.pairwise_cons.mp ordered
    rw [alterEntries,lookup_entry entry j]
    split
    · rename_i below
      -- the new key is below every other, so it was not there
      have absent : (entry::rest).lookup k = none := by
        rw [List.lookup_eq_none_iff]
        intro other member
        apply bne_iff_ne.mpr
        rcases List.mem_cons.mp member with rfl | later
        · exact below.ne
        · exact (below.trans (least other later)).ne
      rw [lookup_entry,lookup_entry entry j,absent]
    · split
      · rename_i same
        rw [lookup_entry,lookup_entry entry k,if_pos same,same]
        split
        · rfl
        · rfl
      · rename_i different
        rw [lookup_entry,ih ordered,lookup_entry entry k,if_neg different]
        split
        · rename_i here
          rw [here,if_neg (Ne.symm different)]
        · rfl

theorem bucket_push (m : OrdMap K (List V)) (k : K) (x : V) (j : K) :
    (m.push k x).bucket j = m.bucket j ++ if j = k then [x] else [] := by
  simp only [bucket,push,alter,lookup_alterEntries k _ m.ordered j]
  split
  · rename_i same
    rw [same]
    rfl
  · exact (List.append_nil _).symm

end MechanicsCore.Library.OrdMap
