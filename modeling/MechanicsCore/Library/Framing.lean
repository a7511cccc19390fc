import Mathlib.Logic.Function.Basic
import Mathlib.Data.List.Basic

/-! Nested framing by delimiter lines. A node writes its head, its parts each after
a marker line of its key, and a closing line; a reader takes the sections between
the markers of a key and reads each by itself. Such a reader inverts the writer
exactly on the frames in which no node repeats the key of a node around it, and
refuses all others. -/
namespace MechanicsCore.Library

/-- A tree of framed parts; a node has at least one. -/
inductive Frame (K L : Type)
  | leaf (tag : L)
  | node (key : K) (first : Frame K L) (rest : List (Frame K L))

namespace Frame
variable {K L : Type}

theorem induct {motive : Frame K L → Prop} (leaf : ∀ tag, motive (.leaf tag))
    (node : ∀ key first rest, (∀ p ∈ first::rest, motive p) → motive (.node key first rest)) :
    (f : Frame K L) → motive f
  | .leaf tag => leaf tag
  | .node key first rest => node key first rest fun p member =>
    match List.mem_cons.mp member with
    | .inl same => same ▸ induct leaf node first
    | .inr _ => induct leaf node p
termination_by f => sizeOf f
decreasing_by
  · simp only [Frame.node.sizeOf_spec]
    omega
  · rename_i later
    have smaller := List.sizeOf_lt_of_mem later
    simp only [Frame.node.sizeOf_spec]
    omega

/-- No node has the key of a node around it, nor one of the `outer` keys. -/
inductive Apart : List K → Frame K L → Prop
  | leaf (outer : List K) (tag : L) : Apart outer (.leaf tag)
  | node (outer : List K) (key : K) (first : Frame K L) (rest : List (Frame K L)) (new : key ∉ outer)
      (parts : ∀ p ∈ first::rest, Apart (key::outer) p) : Apart outer (.node key first rest)

end Frame

section Sections
variable {α : Type} [DecidableEq α]

/-- The lines between the markers, up to the closing line; what comes before the
first marker is skipped, and without a closing line there is no result. -/
def sections (marker closer : α) : (inside : Bool) → (current lines : List α) → Option (List (List α))
  | _, _, [] => none
  | inside, current, line::rest =>
    if line = marker then
      (sections marker closer true [] rest).map fun later => if inside then current::later else later
    else if line = closer then some (if inside then [current] else [])
    else sections marker closer inside (if inside then current ++ [line] else current) rest

variable {marker closer : α}

theorem sections_skip {plain : List α} (free : marker ∉ plain ∧ closer ∉ plain) (current tail : List α) :
    sections marker closer true current (plain ++ tail) = sections marker closer true (current ++ plain) tail := by
  induction plain generalizing current with
  | nil => simp
  | cons line plain ih =>
    obtain ⟨unmarked,unclosed⟩ := free
    rw [List.mem_cons,not_or] at unmarked unclosed
    simp only [List.cons_append,sections,Ne.symm unmarked.1,Ne.symm unclosed.1,if_false,if_true]
    rw [ih ⟨unmarked.2,unclosed.2⟩]
    simp

theorem sections_open (inside : Bool) (current tail : List α) :
    sections marker closer inside current (marker::tail) =
      (sections marker closer true [] tail).map fun later => if inside then current::later else later := by
  simp [sections]

theorem sections_ahead {plain : List α} (free : marker ∉ plain ∧ closer ∉ plain) (current tail : List α) :
    sections marker closer false current (plain ++ tail) = sections marker closer false current tail := by
  induction plain with
  | nil => rfl
  | cons line plain ih =>
    obtain ⟨unmarked,unclosed⟩ := free
    rw [List.mem_cons,not_or] at unmarked unclosed
    rw [List.cons_append,sections,if_neg (Ne.symm unmarked.1),if_neg (Ne.symm unclosed.1),if_neg Bool.false_ne_true]
    exact ih ⟨unmarked.2,unclosed.2⟩

/-- Blocks without delimiters are the sections, whatever follows the closing line. -/
theorem sections_blocks (distinct : closer ≠ marker) {blocks : List (List α)}
    (free : ∀ b ∈ blocks, marker ∉ b ∧ closer ∉ b) (inside : Bool) (current tail : List α) :
    sections marker closer inside current (blocks.flatMap (marker :: ·) ++ closer::tail) =
      some (if inside then current::blocks else blocks) := by
  induction blocks generalizing inside current with
  | nil => simp [sections,distinct]
  | cons b blocks ih =>
    rw [List.flatMap_cons,List.cons_append,List.cons_append,sections_open,List.append_assoc,
      sections_skip (free b List.mem_cons_self),List.nil_append,ih fun p member => free p (List.mem_cons_of_mem _ member)]
    rfl

theorem sections_free {inside : Bool} {current lines : List α} {all : List (List α)}
    (found : sections marker closer inside current lines = some all) (free : marker ∉ current ∧ closer ∉ current) :
    ∀ b ∈ all, marker ∉ b ∧ closer ∉ b := by
  induction lines generalizing inside current all with
  | nil => simp [sections] at found
  | cons line lines ih =>
    simp only [sections] at found
    split at found
    · obtain ⟨later,rest,rfl⟩ := Option.map_eq_some_iff.mp found
      have others := ih rest ⟨List.not_mem_nil,List.not_mem_nil⟩
      split
      · intro b member
        rcases List.mem_cons.mp member with rfl | member
        · exact free
        · exact others b member
      · exact others
    · rename_i unmarked
      split at found
      · cases found
        split
        · simpa using free
        · simp
      · rename_i unclosed
        refine ih found ?_
        split
        · simp [free,Ne.symm unmarked,Ne.symm unclosed]
        · exact free

theorem sections_first {lines current : List α} {all : List (List α)}
    (found : sections marker closer true current lines = some all) : ∃ more later, all = (current ++ more)::later := by
  induction lines generalizing current with
  | nil => simp [sections] at found
  | cons line lines ih =>
    simp only [sections,if_true] at found
    split at found
    · obtain ⟨later,_,rfl⟩ := Option.map_eq_some_iff.mp found
      exact ⟨[],later,by simp⟩
    · split at found
      · cases found
        exact ⟨[],[],by simp⟩
      · obtain ⟨more,later,same⟩ := ih found
        exact ⟨line::more,later,by simp [same]⟩

end Sections

/-- How frames are written: the delimiter lines of a key, the lines before the
parts of a node, the lines of a leaf, and what follows a closing line. The flag
tells the root from the parts. -/
structure Format (α K L : Type) where
  marker : K → α
  closer : K → α
  head : Bool → K → List α
  text : Bool → L → List α
  foot : List α
  marker_injective : Function.Injective marker
  closer_injective : Function.Injective closer
  closer_ne_marker : ∀ k k', closer k ≠ marker k'
  head_free : ∀ k top k', marker k ∉ head top k' ∧ closer k ∉ head top k'
  foot_free : ∀ k, marker k ∉ foot ∧ closer k ∉ foot

namespace Format
variable {α K L : Type} (F : Format α K L)

def Free (k : K) (lines : List α) : Prop := F.marker k ∉ lines ∧ F.closer k ∉ lines

theorem Free.append {F : Format α K L} {k : K} {a b : List α} (left : F.Free k a) (right : F.Free k b) :
    F.Free k (a ++ b) :=
  ⟨by simp [left.1,right.1],by simp [left.2,right.2]⟩

mutual

def lines (top : Bool) : Frame K L → List α
  | .leaf tag => F.text top tag
  | .node key first rest =>
    F.head top key ++ F.marker key :: (lines false first ++ partLines key rest)

def partLines (key : K) : List (Frame K L) → List α
  | [] => F.closer key :: F.foot
  | part::rest => F.marker key :: (lines false part ++ partLines key rest)

end

theorem lines_node (top : Bool) (key : K) (first : Frame K L) (rest : List (Frame K L)) :
    F.lines top (.node key first rest) = F.head top key ++ F.partLines key (first::rest) := by
  rw [lines,partLines]

theorem partLines_append (key : K) (before after : List (Frame K L)) :
    F.partLines key (before ++ after) =
      (before.flatMap fun p => F.marker key :: F.lines false p) ++ F.partLines key after := by
  induction before with
  | nil => rfl
  | cons p before ih => simp [partLines,ih]

/-- No leaf has a delimiter line of a node around it, nor of an `outer` key. -/
inductive Fresh : List K → Frame K L → Prop
  | leaf (outer : List K) (tag : L) (free : ∀ k ∈ outer, F.Free k (F.text false tag)) : Fresh outer (.leaf tag)
  | node (outer : List K) (key : K) (first : Frame K L) (rest : List (Frame K L))
      (parts : ∀ p ∈ first::rest, Fresh (key::outer) p) : Fresh outer (.node key first rest)

variable {F}

theorem free_delimiters {k key : K} (distinct : k ≠ key) : F.Free k [F.marker key] ∧ F.Free k (F.closer key :: F.foot) := by
  have markers : F.marker k ≠ F.marker key := fun same => distinct (F.marker_injective same)
  have closers : F.closer k ≠ F.closer key := fun same => distinct (F.closer_injective same)
  have foot := F.foot_free k
  refine ⟨⟨by simp [markers],by simp [F.closer_ne_marker]⟩,?_,?_⟩
  · simp [(F.closer_ne_marker key k).symm,foot.1]
  · simp [closers,foot.2]

theorem free_parts {k key : K} (distinct : k ≠ key) {parts : List (Frame K L)}
    (free : ∀ p ∈ parts, F.Free k (F.lines false p)) :
    F.Free k (parts.flatMap fun p => F.marker key :: F.lines false p) := by
  induction parts with
  | nil => exact ⟨by simp,by simp⟩
  | cons p parts ih =>
    have marker := (free_delimiters (F := F) distinct).1
    have first := free p List.mem_cons_self
    have later := ih fun q member => free q (List.mem_cons_of_mem _ member)
    simpa using (marker.append first).append later

theorem free_lines {outer : List K} {f : Frame K L} (fresh : F.Fresh outer f) (apart : f.Apart outer) (k : K)
    (member : k ∈ outer) : F.Free k (F.lines false f) := by
  induction f using Frame.induct generalizing outer with
  | leaf tag =>
    obtain ⟨_,_,free⟩ := fresh
    rw [lines]
    exact free k member
  | node key first rest ih =>
    cases fresh with | node _ _ _ _ fresh => ?_
    cases apart with | node _ _ _ _ new apart => ?_
    have distinct : k ≠ key := fun same => new (same ▸ member)
    have parts := free_parts (F := F) distinct fun p here =>
      ih p here (fresh p here) (apart p here) (List.mem_cons_of_mem _ member)
    have closing := (free_delimiters (F := F) distinct).2
    have split := F.partLines_append key (first::rest) []
    rw [List.append_nil] at split
    rw [lines_node,split]
    exact Free.append (F.head_free k false key) (parts.append closing)

section
variable [DecidableEq α]

theorem sections_parts {key : K} {parts : List (Frame K L)} (free : ∀ p ∈ parts, F.Free key (F.lines false p))
    (current : List α) : sections (F.marker key) (F.closer key) true current (F.partLines key parts) =
      some (current :: parts.map (F.lines false)) := by
  have blocks : ∀ b ∈ parts.map (F.lines false), F.marker key ∉ b ∧ F.closer key ∉ b := by
    intro b member
    obtain ⟨p,inside,rfl⟩ := List.mem_map.mp member
    exact free p inside
  have found := sections_blocks (F.closer_ne_marker key key) blocks true current F.foot
  have split := F.partLines_append key parts []
  rw [List.append_nil] at split
  rw [split,partLines]
  simpa [List.flatMap_map] using found

theorem sections_before {key : K} {before : List (Frame K L)} (free : ∀ p ∈ before, F.Free key (F.lines false p))
    (tail : List α) (inside : Bool) (current : List α) :
    sections (F.marker key) (F.closer key) inside current
        ((before.flatMap fun p => F.marker key :: F.lines false p) ++ F.marker key :: tail) =
      (sections (F.marker key) (F.closer key) true [] tail).map fun later =>
        (if inside then [current] else []) ++ before.map (F.lines false) ++ later := by
  induction before generalizing inside current with
  | nil =>
    rw [List.flatMap_nil,List.nil_append,sections_open]
    cases inside <;> simp
  | cons p before ih =>
    have first := free p List.mem_cons_self
    have later := ih (fun q member => free q (List.mem_cons_of_mem _ member)) true (F.lines false p)
    rw [List.flatMap_cons,List.cons_append,List.cons_append,sections_open,List.append_assoc,sections_skip first,
      List.nil_append,later,Option.map_map]
    congr 1
    funext more
    cases inside <;> simp

end
end Format

/-- A reader of a format: it reads leaves, it reads a node by reading the sections
of its body, and a head without a body is no node. -/
structure Reader {α K L : Type} [DecidableEq α] (F : Format α K L) (R : Type) where
  read : List α → Option R
  leaf : Bool → L → R
  node : Bool → K → List R → R
  read_text : ∀ top tag, read (F.text top tag) = some (leaf top tag)
  read_node : ∀ top key body, body ≠ [] → read (F.head top key ++ body) =
    ((sections (F.marker key) (F.closer key) false [] body).bind fun all => all.mapM read).map (node top key)
  read_head : ∀ top key, read (F.head top key) = none

namespace Reader
variable {α K L R : Type} [DecidableEq α] {F : Format α K L} (reader : Reader F R)

mutual

def value (top : Bool) : Frame K L → R
  | .leaf tag => reader.leaf top tag
  | .node key first rest => reader.node top key (value false first :: values rest)

def values : List (Frame K L) → List R
  | [] => []
  | part::rest => value false part :: values rest

end

theorem values_eq (parts : List (Frame K L)) : reader.values parts = parts.map (reader.value false) := by
  induction parts with
  | nil => rfl
  | cons p parts ih => simp [values,ih]

private theorem mapM_map_some {A B : Type} {write : A → B} {f : B → Option R} {g : A → R} {l : List A}
    (each : ∀ a ∈ l, f (write a) = some (g a)) : (l.map write).mapM f = some (l.map g) := by
  induction l with
  | nil => rfl
  | cons a l ih =>
    rw [List.map_cons,List.mapM_cons,each a List.mem_cons_self,ih fun b member => each b (List.mem_cons_of_mem _ member)]
    rfl

/-- A reader inverts the writer on frames whose nodes are apart. -/
theorem read_lines {outer : List K} {f : Frame K L} (fresh : F.Fresh outer f) (apart : f.Apart outer) (top : Bool) :
    reader.read (F.lines top f) = some (reader.value top f) := by
  induction f using Frame.induct generalizing outer top with
  | leaf tag =>
    rw [Format.lines,value]
    exact reader.read_text top tag
  | node key first rest ih =>
    cases fresh with | node _ _ _ _ fresh => ?_
    cases apart with | node _ _ _ _ new apart => ?_
    have free : ∀ p ∈ first::rest, F.Free key (F.lines false p) := fun p member =>
      Format.free_lines (fresh p member) (apart p member) key List.mem_cons_self
    have found : sections (F.marker key) (F.closer key) false [] (F.partLines key (first::rest)) =
        some ((first::rest).map (F.lines false)) := by
      rw [Format.partLines,sections_open,sections_skip (free first List.mem_cons_self),List.nil_append,
        Format.sections_parts fun p member => free p (List.mem_cons_of_mem _ member)]
      rfl
    have each : ((first::rest).map (F.lines false)).mapM reader.read =
        some ((first::rest).map (reader.value false)) :=
      mapM_map_some fun p member => ih p member (fresh p member) (apart p member) false
    rw [Format.lines_node,reader.read_node _ _ _ (by rw [Format.partLines]; simp),found,Option.bind_some,each,
      value,values_eq]
    rfl

private theorem mapM_none {A : Type} {f : A → Option R} {l : List A} {a : A} (member : a ∈ l)
    (fails : f a = none) : l.mapM f = none := by
  induction l with
  | nil => simp at member
  | cons b l ih =>
    rw [List.mapM_cons]
    rcases List.mem_cons.mp member with rfl | later
    · rw [fails]
      rfl
    · rw [ih later]
      cases f b <;> rfl

private theorem first_failing {A : Type} {holds : A → Prop} {l : List A} (fails : ¬ ∀ a ∈ l, holds a) :
    ∃ before a after, l = before ++ a::after ∧ (∀ b ∈ before, holds b) ∧ ¬ holds a := by
  induction l with
  | nil => simp at fails
  | cons a l ih =>
    by_cases here : holds a
    · have later : ¬ ∀ b ∈ l, holds b := fun all => fails (by simpa [here] using all)
      obtain ⟨before,b,after,split,earlier,bad⟩ := ih later
      refine ⟨a::before,b,after,by simp [split],?_,bad⟩
      simpa [here] using earlier
    · exact ⟨[],a,l,rfl,by simp,here⟩

private theorem read_spoiled {top : Bool} {key : K} {body : List α} (nonempty : body ≠ [])
    (spoiled : ∀ all, sections (F.marker key) (F.closer key) false [] body = some all →
      ∃ part ∈ all, reader.read part = none) : reader.read (F.head top key ++ body) = none := by
  rw [reader.read_node top key body nonempty]
  cases found : sections (F.marker key) (F.closer key) false [] body with
  | none => rfl
  | some all =>
    obtain ⟨part,member,fails⟩ := spoiled all found
    rw [Option.bind_some,mapM_none member fails]
    rfl

/-- Where a node repeats the key of a node around it, its first marker ends a
section too early. With `pre` the lines before that marker: the section that ends
there cannot be read if the key is one of the outer keys, and otherwise nothing
that begins with `pre` and the marker can be read. -/
theorem read_repeated {outer : List K} {f : Frame K L} (fresh : F.Fresh outer f) (repeats : ¬ f.Apart outer)
    (top : Bool) : ∃ pre d post, F.lines top f = pre ++ F.marker d :: post ∧ (∀ k ∈ outer, F.Free k pre) ∧
      (d ∈ outer ∧ reader.read pre = none ∨ d ∉ outer ∧ ∀ rest, reader.read (pre ++ F.marker d :: rest) = none) := by
  induction f using Frame.induct generalizing outer top with
  | leaf tag => exact absurd (.leaf outer tag) repeats
  | node key first rest ih =>
    by_cases here : key ∈ outer
    · refine ⟨F.head top key,key,_,by rw [Format.lines],fun k _ => F.head_free k top key,.inl ⟨here,?_⟩⟩
      exact reader.read_head top key
    · cases fresh with | node _ _ _ _ fresh => ?_
      have somewhere : ¬ ∀ p ∈ first::rest, p.Apart (key::outer) := fun all => repeats (.node _ _ _ _ here all)
      obtain ⟨before,p,after,split,earlier,bad⟩ := first_failing somewhere
      have inside : p ∈ first::rest := by simp [split]
      obtain ⟨pre,d,post,lines,free,outcome⟩ := ih p inside (fresh p inside) bad false
      have clear : ∀ q ∈ before, ∀ k ∈ key::outer, F.Free k (F.lines false q) := fun q member =>
        Format.free_lines (fresh q (by simp [split,member])) (earlier q member)
      have body := fun tail => Format.sections_before (F := F) (fun q member => clear q member key List.mem_cons_self)
        (pre ++ tail) false []
      have open_here := free key List.mem_cons_self
      refine ⟨F.head top key ++ ((before.flatMap fun q => F.marker key :: F.lines false q) ++ F.marker key :: pre),d,
        post ++ F.partLines key after,?_,?_,?_⟩
      · rw [Format.lines_node,split,Format.partLines_append,Format.partLines,lines]
        simp
      · intro k member
        have distinct : k ≠ key := fun same => here (same ▸ member)
        have later := List.mem_cons_of_mem key member
        have parts := Format.free_parts (F := F) distinct fun q found => clear q found k later
        have marker := (Format.free_delimiters (F := F) distinct).1
        refine Format.Free.append (F.head_free k top key) (parts.append ?_)
        simpa using marker.append (free k later)
      · rcases outcome with ⟨known,fails⟩ | ⟨unknown,fails⟩
        · rcases List.mem_cons.mp known with rfl | above
          · -- The marker of this node's own key ends the section after `pre`.
            refine .inr ⟨here,fun more => ?_⟩
            rw [List.append_assoc]
            refine reader.read_spoiled (by simp) fun all found => ⟨pre,?_,fails⟩
            rw [List.append_assoc,List.cons_append,body,sections_skip open_here,List.nil_append,sections_open] at found
            obtain ⟨_,taken,rfl⟩ := Option.map_eq_some_iff.mp found
            obtain ⟨later,_,rfl⟩ := Option.map_eq_some_iff.mp taken
            simp
          · refine .inl ⟨above,reader.read_spoiled (by simp) fun all found => ?_⟩
            have none := body []
            rw [List.append_nil,← List.append_nil pre,sections_skip open_here,List.append_nil] at none
            rw [none] at found
            simp [sections] at found
        · refine .inr ⟨fun above => unknown (List.mem_cons_of_mem _ above),fun more => ?_⟩
          rw [List.append_assoc]
          refine reader.read_spoiled (by simp) fun all found => ?_
          rw [List.mem_cons,not_or] at unknown
          have inner : F.Free key [F.marker d] := (Format.free_delimiters (Ne.symm unknown.1)).1
          rw [List.append_assoc,List.cons_append,body,List.append_cons pre,
            sections_skip (open_here.append inner)] at found
          obtain ⟨_,taken,rfl⟩ := Option.map_eq_some_iff.mp found
          obtain ⟨extra,later,rfl⟩ := sections_first taken
          exact ⟨pre ++ F.marker d :: extra,by simp,fails extra⟩

/-- A reader refuses every frame in which a node repeats the key of a node around it. -/
theorem read_clash {f : Frame K L} (fresh : F.Fresh [] f) (repeats : ¬ f.Apart []) (top : Bool) :
    reader.read (F.lines top f) = none := by
  obtain ⟨pre,d,post,lines,_,outcome⟩ := reader.read_repeated fresh repeats top
  rw [lines]
  rcases outcome with ⟨known,_⟩ | ⟨_,fails⟩
  · simp at known
  · exact fails post

end Reader
end MechanicsCore.Library
