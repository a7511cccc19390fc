import Mathlib.Algebra.Order.Ring.Nat
import Mathlib.Data.List.Pairwise
import Mathlib.Data.List.Sort

/-! Finite maps in key order, as an ordered list of entries. -/
namespace MechanicsCore.Library

theorem lookup_entry {α β : Type} [BEq α] [LawfulBEq α] [DecidableEq α] (first : α × β) (key : α)
    (entries : List (α × β)) :
    (first::entries).lookup key = if key = first.1 then some first.2 else entries.lookup key := by
  rw [List.lookup_cons]
  by_cases here : key = first.1
  · rw [here,beq_self_eq_true,if_pos rfl]
  · rw [beq_false_of_ne here,if_neg here]

structure OrdMap (K V : Type) [LinearOrder K] where
  entries : List (K × V)
  ordered : entries.Pairwise fun a b => a.1 < b.1

namespace OrdMap
variable {K V W : Type} [LinearOrder K]

def empty : OrdMap K V := ⟨[],.nil⟩

def isEmpty (m : OrdMap K V) : Bool := m.entries.isEmpty

def firstKey (m : OrdMap K V) : Option K := m.entries.head?.map Prod.fst

def keys (m : OrdMap K V) : List K := m.entries.map Prod.fst

def values (m : OrdMap K V) : List V := m.entries.map Prod.snd

def alterEntries (k : K) (f : Option V → V) : List (K × V) → List (K × V)
  | [] => [(k,f none)]
  | (key,v)::rest =>
    if k < key then (k,f none)::(key,v)::rest
    else if k = key then (key,f (some v))::rest
    else (key,v)::alterEntries k f rest

theorem alterEntries_keys {k : K} {f : Option V → V} {entries : List (K × V)} {entry : K × V}
    (member : entry ∈ alterEntries k f entries) : entry.1 = k ∨ ∃ v, (entry.1,v) ∈ entries := by
  induction entries with
  | nil => exact .inl (by simp_all [alterEntries])
  | cons head rest ih =>
    obtain ⟨key,v⟩ := head
    simp only [alterEntries] at member
    split at member
    · rcases List.mem_cons.mp member with same | old
      · exact .inl (by rw [same])
      · exact .inr ⟨entry.2,old⟩
    · split at member
      · rename_i same
        rcases List.mem_cons.mp member with new | old
        · exact .inl (by rw [new,same])
        · exact .inr ⟨entry.2,List.mem_cons_of_mem _ old⟩
      · rcases List.mem_cons.mp member with same | old
        · exact .inr ⟨v,by simp [same]⟩
        · rcases ih old with same | ⟨u,found⟩
          · exact .inl same
          · exact .inr ⟨u,List.mem_cons_of_mem _ found⟩

theorem alterEntries_ordered (k : K) (f : Option V → V) {entries : List (K × V)}
    (ordered : entries.Pairwise fun a b => a.1 < b.1) :
    (alterEntries k f entries).Pairwise fun a b => a.1 < b.1 := by
  induction entries with
  | nil => simp [alterEntries]
  | cons head rest ih =>
    obtain ⟨key,v⟩ := head
    obtain ⟨least,ordered⟩ := List.pairwise_cons.mp ordered
    simp only [alterEntries]
    split
    · rename_i below
      refine .cons ?_ (.cons least ordered)
      intro entry member
      rcases List.mem_cons.mp member with same | old
      · rw [same]
        exact below
      · exact below.trans (least entry old)
    · split
      · exact .cons least ordered
      · rename_i notBelow different
        refine .cons ?_ (ih ordered)
        intro entry member
        rcases alterEntries_keys member with same | ⟨u,found⟩
        · rw [same]
          exact lt_of_le_of_ne (not_lt.mp notBelow) (Ne.symm different)
        · exact least (entry.1,u) found

def alter (m : OrdMap K V) (k : K) (f : Option V → V) : OrdMap K V :=
  ⟨alterEntries k f m.entries,alterEntries_ordered k f m.ordered⟩

def insert (m : OrdMap K V) (k : K) (v : V) : OrdMap K V := m.alter k fun _ => v

/-- The entries put in one after the other. -/
def ofEntries (entries : List (K × V)) : OrdMap K V := entries.foldl (fun m entry => m.insert entry.1 entry.2) empty

theorem ext_mem {m m' : OrdMap K V} (same : ∀ entry, entry ∈ m.entries ↔ entry ∈ m'.entries) : m = m' := by
  have irreflexive : Std.Irrefl fun a b : K × V => a.1 < b.1 := ⟨fun a => lt_irrefl a.1⟩
  have antisymmetric : Std.Antisymm fun a b : K × V => a.1 < b.1 := ⟨fun a b below above => absurd below above.asymm⟩
  obtain ⟨entries,ordered⟩ := m
  obtain ⟨entries',ordered'⟩ := m'
  cases ordered.eq_of_mem_iff ordered' same
  rfl

theorem mem_alterEntries {k : K} {v : V} {entries : List (K × V)} (ordered : entries.Pairwise fun a b => a.1 < b.1)
    (entry : K × V) : entry ∈ alterEntries k (fun _ => v) entries ↔ entry = (k,v) ∨ entry ∈ entries ∧ entry.1 ≠ k := by
  induction entries with
  | nil => simp [alterEntries]
  | cons head rest ih =>
    obtain ⟨key,old⟩ := head
    obtain ⟨least,ordered⟩ := List.pairwise_cons.mp ordered
    have above : ∀ other ∈ rest, key < other.1 := least
    rw [alterEntries]
    split
    · rename_i below
      have apart : ∀ other ∈ (key,old)::rest, other.1 ≠ k := by
        intro other member
        rcases List.mem_cons.mp member with rfl | later
        · exact below.ne'
        · exact (below.trans (above other later)).ne'
      rw [List.mem_cons,and_iff_left_of_imp (apart entry)]
    · split
      · rename_i same
        subst same
        constructor
        · intro member
          rcases List.mem_cons.mp member with rfl | later
          · exact .inl rfl
          · exact .inr ⟨List.mem_cons_of_mem _ later,(above entry later).ne'⟩
        · rintro (rfl | ⟨member,other⟩)
          · exact List.mem_cons_self
          · rcases List.mem_cons.mp member with rfl | later
            · exact absurd rfl other
            · exact List.mem_cons_of_mem _ later
      · rename_i different
        rw [List.mem_cons,ih ordered,List.mem_cons]
        constructor
        · rintro (rfl | new | ⟨later,other⟩)
          · exact .inr ⟨.inl rfl,Ne.symm different⟩
          · exact .inl new
          · exact .inr ⟨.inr later,other⟩
        · rintro (new | ⟨rfl | later,other⟩)
          · exact .inr (.inl new)
          · exact .inl rfl
          · exact .inr (.inr ⟨later,other⟩)

theorem mem_insert {m : OrdMap K V} {k : K} {v : V} (entry : K × V) :
    entry ∈ (m.insert k v).entries ↔ entry = (k,v) ∨ entry ∈ m.entries ∧ entry.1 ≠ k :=
  mem_alterEntries m.ordered entry

/-- With one entry for each key none replaces another. -/
theorem mem_ofEntries {entries : List (K × V)} (distinct : (entries.map Prod.fst).Nodup) (entry : K × V) :
    entry ∈ (ofEntries entries).entries ↔ entry ∈ entries := by
  have fold : ∀ m : OrdMap K V, (∀ old ∈ m.entries, old.1 ∉ entries.map Prod.fst) →
      (entry ∈ (entries.foldl (fun m entry => m.insert entry.1 entry.2) m).entries ↔ entry ∈ m.entries ∨ entry ∈ entries) := by
    induction entries with
    | nil => simp
    | cons head rest ih =>
      intro m apart
      obtain ⟨first,distinct⟩ := List.nodup_cons.mp distinct
      have later : ∀ old ∈ (m.insert head.1 head.2).entries, old.1 ∉ rest.map Prod.fst := by
        intro old member
        rcases (mem_insert old).mp member with rfl | ⟨kept,_⟩
        · exact first
        · exact fun inside => apart old kept (List.mem_cons_of_mem _ inside)
      have kept : entry ∈ m.entries → entry.1 ≠ head.1 := fun member same =>
        apart entry member (same ▸ List.mem_cons_self)
      rw [List.foldl_cons,ih distinct _ later,mem_insert,List.mem_cons,and_iff_left_of_imp kept,or_assoc,or_left_comm]
  have none : entry ∉ (empty : OrdMap K V).entries := List.not_mem_nil
  exact (fold empty (by simp [empty])).trans (or_iff_right none)

theorem ofEntries_entries (m : OrdMap K V) : ofEntries m.entries = m := by
  have distinct : (m.entries.map Prod.fst).Nodup := List.pairwise_map.mpr (m.ordered.imp fun below => below.ne)
  exact ext_mem fun entry => mem_ofEntries distinct entry

theorem ofEntries_perm {entries entries' : List (K × V)} (permuted : entries.Perm entries')
    (distinct : (entries.map Prod.fst).Nodup) : (ofEntries entries : OrdMap K V) = ofEntries entries' := by
  have distinct' : (entries'.map Prod.fst).Nodup := (permuted.map _).nodup_iff.mp distinct
  exact ext_mem fun entry => by rw [mem_ofEntries distinct,mem_ofEntries distinct',permuted.mem_iff]

theorem firstKey_mem_keys {m : OrdMap K V} {k : K} (first : m.firstKey = some k) : k ∈ m.keys := by
  obtain ⟨entry,head,rfl⟩ := Option.map_eq_some_iff.mp first
  exact List.mem_map_of_mem (List.mem_of_mem_head? head)

theorem mem_keys_alter {m : OrdMap K V} {key k : K} {f : Option V → V} (member : k ∈ (m.alter key f).keys) :
    k = key ∨ k ∈ m.keys := by
  obtain ⟨entry,inside,rfl⟩ := List.mem_map.mp member
  rcases alterEntries_keys inside with same | ⟨v,found⟩
  · exact .inl same
  · exact .inr (List.mem_map.mpr ⟨_,found,rfl⟩)

/-- Maps every value, dropping the entries whose value becomes `none`. -/
def filterMapValues (m : OrdMap K V) (f : V → Option W) : OrdMap K W :=
  ⟨m.entries.filterMap fun entry => (f entry.2).map (entry.1,·),by
    refine List.Pairwise.filterMap _ ?_ m.ordered
    intro a b below c image d image'
    obtain ⟨_,_,rfl⟩ := Option.map_eq_some_iff.mp image
    obtain ⟨_,_,rfl⟩ := Option.map_eq_some_iff.mp image'
    exact below⟩

/-- Pops entries from the front as long as their keys pass a test. -/
def popWhile (m : OrdMap K V) (p : K → Bool) : List V × OrdMap K V :=
  ((m.entries.takeWhile fun entry => p entry.1).map Prod.snd,
    ⟨m.entries.dropWhile fun entry => p entry.1,m.ordered.sublist (List.dropWhile_sublist _)⟩)

theorem mem_keys_popWhile {m : OrdMap K V} {p : K → Bool} {k : K} (member : k ∈ (m.popWhile p).2.keys) : k ∈ m.keys :=
  ((List.dropWhile_sublist _).map Prod.fst).subset member

theorem mem_keys_filterMapValues {m : OrdMap K V} {f : V → Option W} {k : K} (member : k ∈ (m.filterMapValues f).keys) :
    k ∈ m.keys := by
  obtain ⟨entry,inside,rfl⟩ := List.mem_map.mp member
  obtain ⟨old,found,image⟩ := List.mem_filterMap.mp inside
  obtain ⟨_,_,rfl⟩ := Option.map_eq_some_iff.mp image
  exact List.mem_map_of_mem found

/-! Maps of buckets: each key holds a list of items. -/

def items (m : OrdMap K (List V)) : List V := m.values.flatten

def push (m : OrdMap K (List V)) (k : K) (x : V) : OrdMap K (List V) :=
  m.alter k fun bucket => bucket.getD [] ++ [x]

/-- Keeps the items that pass a test, and only the buckets that keep one. -/
def retain (m : OrdMap K (List V)) (p : V → Bool) : OrdMap K (List V) :=
  m.filterMapValues fun bucket =>
    match bucket.filter p with
    | [] => none
    | kept => some kept

theorem isEmpty_items {m : OrdMap K (List V)} (none : m.isEmpty = true) : m.items = [] := by
  have nil : m.entries = [] := by simpa [isEmpty] using none
  simp [items,values,nil]

theorem popWhile_items (m : OrdMap K (List V)) (p : K → Bool) :
    (m.popWhile p).1.flatten ++ (m.popWhile p).2.items = m.items := by
  simp only [items,values,popWhile,← List.flatten_append,← List.map_append,List.takeWhile_append_dropWhile]

theorem retain_items (m : OrdMap K (List V)) (p : V → Bool) : (m.retain p).items = m.items.filter p := by
  simp only [items,values,retain,filterMapValues]
  induction m.entries with
  | nil => rfl
  | cons entry rest ih =>
    rw [List.filterMap_cons,List.map_cons,List.flatten_cons,List.filter_append,← ih]
    cases kept : entry.2.filter p with
    | nil => rfl
    | cons x others => rfl

theorem push_items (m : OrdMap K (List V)) (k : K) (x : V) : (m.push k x).items.Perm (m.items ++ [x]) := by
  simp only [items,values,push,alter]
  induction m.entries with
  | nil => exact .refl _
  | cons entry rest ih =>
    obtain ⟨key,bucket⟩ := entry
    simp only [alterEntries]
    split
    · exact List.perm_append_comm
    · split
      · change ((bucket ++ [x]) ++ (rest.map Prod.snd).flatten).Perm ((bucket ++ (rest.map Prod.snd).flatten) ++ [x])
        rw [List.append_assoc,List.append_assoc]
        exact List.perm_append_comm.append_left bucket
      · simpa using ih.append_left bucket

end OrdMap
end MechanicsCore.Library
