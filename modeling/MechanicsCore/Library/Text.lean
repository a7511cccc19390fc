import Mathlib.Algebra.Order.Ring.Nat
import Mathlib.Data.Bool.AllAny
import Mathlib.Data.List.Infix
import Mathlib.Data.List.DropRight

/-! Unicode texts as lists of characters, with the string operations of the Rust
standard library, and the reading of all three line endings as line feeds. -/
namespace MechanicsCore.Library

abbrev Text := List Char

instance : Coe String Text := ⟨String.toList⟩

namespace Text

/-- `split_once`: what comes before and after the first occurrence of a pattern. -/
def splitOnce (pattern : Text) : Text → Option (Text × Text)
  | [] => if pattern.isEmpty then some ([],[]) else none
  | c::cs =>
    if pattern.isPrefixOf (c::cs) then some ([],(c::cs).drop pattern.length)
    else (splitOnce pattern cs).map fun (before,after) => (c::before,after)

def contains (s pattern : Text) : Bool := decide (pattern <:+: s)

/-- Replaces from left to right; `skip` characters belong to a pattern already replaced. -/
def replaceFrom (pattern new : Text) : (skip : Nat) → Text → Text
  | _, [] => []
  | skip + 1, _::cs => replaceFrom pattern new skip cs
  | 0, c::cs =>
    if pattern.isPrefixOf (c::cs) then new ++ replaceFrom pattern new (pattern.length - 1) cs
    else c :: replaceFrom pattern new 0 cs

def replace (s pattern new : Text) : Text := replaceFrom pattern new 0 s

/-- The characters with the Unicode property `White_Space`. -/
def isWhitespace (c : Char) : Bool :=
  let v := c.toNat
  (9 ≤ v && v ≤ 13) || v == 0x20 || v == 0x85 || v == 0xA0 || v == 0x1680 || (0x2000 ≤ v && v ≤ 0x200A) ||
    v == 0x2028 || v == 0x2029 || v == 0x202F || v == 0x205F || v == 0x3000

def trim (s : Text) : Text := (s.dropWhile isWhitespace).rdropWhile isWhitespace

/-- `Char.toLower` maps the ASCII letters only. -/
def toAsciiLowercase (s : Text) : Text := s.map Char.toLower

def eqIgnoreAsciiCase (a b : Text) : Bool := toAsciiLowercase a == toAsciiLowercase b

def isAscii (s : Text) : Bool := s.all fun c => c.toNat < 128

def utf8 (s : Text) : List UInt8 := s.flatMap String.utf8EncodeChar

def fromUtf8 (bytes : List UInt8) : Option Text := bytes.toByteArray.utf8Decode?.map Array.toList

/-- `strip_suffix` of one character, or the text as it is. -/
def stripSuffix? (s : Text) (c : Char) : Option Text := if s.getLast? = some c then some s.dropLast else none

/-- Line feeds for CRLF, CR and LF; the flag says that a CR has just been read. -/
def toLfFrom : (afterCr : Bool) → Text → Text
  | _, [] => []
  | afterCr, c::cs =>
    if c = '\r' then '\n' :: toLfFrom true cs
    else if afterCr && c == '\n' then toLfFrom false cs
    else c :: toLfFrom false cs

def toLf (s : Text) : Text := toLfFrom false s

theorem splitOnce_some {pattern s before after : Text} (found : splitOnce pattern s = some (before,after)) :
    s = before ++ pattern ++ after := by
  induction s generalizing before with
  | nil =>
    simp only [splitOnce] at found
    split at found
    · rename_i empty
      cases found
      simpa using empty
    · contradiction
  | cons c cs ih =>
    simp only [splitOnce] at found
    split at found
    · rename_i start
      obtain ⟨rest,same⟩ := List.isPrefixOf_iff_prefix.mp start
      cases found
      rw [← same,List.drop_left,List.nil_append]
    · obtain ⟨⟨earlier,later⟩,split,same⟩ := Option.map_eq_some_iff.mp found
      cases same
      rw [ih split]
      rfl

theorem splitOnce_length {pattern s before after : Text} (found : splitOnce pattern s = some (before,after)) :
    before.length + pattern.length + after.length = s.length := by
  rw [splitOnce_some found,List.length_append,List.length_append]

/-- A pattern that occurs is found, and no later than where it is known to occur. -/
theorem splitOnce_first {pattern s : Text} (a t : Text) (occurs : s = a ++ pattern ++ t) :
    ∃ before after, splitOnce pattern s = some (before,after) ∧ t <:+ after := by
  induction s generalizing a with
  | nil =>
    obtain ⟨rfl,rfl,rfl⟩ : a = [] ∧ pattern = [] ∧ t = [] := by simpa using occurs.symm
    exact ⟨[],[],rfl,List.suffix_rfl⟩
  | cons c s ih =>
    by_cases start : pattern.isPrefixOf (c::s) = true
    · refine ⟨[],(c::s).drop pattern.length,by rw [splitOnce,if_pos start],?_⟩
      have whole : t <:+ c::s := ⟨a ++ pattern,occurs.symm⟩
      refine List.suffix_of_suffix_length_le whole (List.drop_suffix _ _) ?_
      rw [List.length_drop,occurs]
      simp only [List.length_append]
      omega
    · cases a with
      | nil =>
        refine absurd (List.isPrefixOf_iff_prefix.mpr ⟨t,?_⟩) start
        rw [occurs,List.nil_append]
      | cons d a =>
        obtain ⟨rfl,rest⟩ : c = d ∧ s = a ++ pattern ++ t := by simpa using occurs
        obtain ⟨before,after,found,ends⟩ := ih a rest
        refine ⟨c::before,after,?_,ends⟩
        rw [splitOnce,if_neg start,found]
        rfl

theorem splitOnce_found (before pattern after : Text) {c : Char} (absent : c ∉ before) :
    splitOnce (c::pattern) (before ++ c::pattern ++ after) = some (before,after) := by
  induction before with
  | nil =>
    have start : (c::pattern).isPrefixOf (c::pattern ++ after) = true :=
      List.isPrefixOf_iff_prefix.mpr (List.prefix_append _ _)
    rw [List.nil_append,List.cons_append,splitOnce,← List.cons_append,if_pos start,List.drop_left]
  | cons d before ih =>
    rw [List.mem_cons,not_or] at absent
    rw [List.cons_append,List.cons_append,splitOnce,ih absent.2]
    simp [List.isPrefixOf,absent.1]

theorem splitOnce_char (before after : Text) {c : Char} (absent : c ∉ before) :
    splitOnce [c] (before ++ c::after) = some (before,after) := by
  have found := splitOnce_found before [] after absent
  rwa [List.append_assoc] at found

theorem splitOnce_char_some {c : Char} {s before after : Text} (found : splitOnce [c] s = some (before,after)) :
    s = before ++ c::after ∧ c ∉ before := by
  induction s generalizing before with
  | nil => simp [splitOnce] at found
  | cons d s ih =>
    by_cases here : c = d
    · subst here
      have split : some ([],s) = some (before,after) := by simpa [splitOnce] using found
      cases split
      simp
    · simp only [splitOnce,List.isPrefixOf,beq_false_of_ne here,Bool.false_and,if_neg Bool.false_ne_true] at found
      obtain ⟨⟨first,rest⟩,later,same⟩ := Option.map_eq_some_iff.mp found
      cases same
      obtain ⟨split,free⟩ := ih later
      exact ⟨by rw [split]; rfl,by simp [here,free]⟩

theorem splitOnce_absent {pattern s : Text} (absent : ¬ pattern <:+: s) : splitOnce pattern s = none := by
  induction s with
  | nil =>
    have nonempty : pattern ≠ [] := fun empty => absent (by simp [empty])
    simp [splitOnce,nonempty]
  | cons c s ih =>
    rw [List.infix_cons_iff,not_or] at absent
    have start : pattern.isPrefixOf (c::s) = false := by
      rw [Bool.eq_false_iff]
      exact fun start => absent.1 (List.isPrefixOf_iff_prefix.mp start)
    rw [splitOnce,start,if_neg Bool.false_ne_true,ih absent.2]
    rfl

theorem splitOnce_char_none {c : Char} {s : Text} (missing : splitOnce [c] s = none) : c ∉ s := by
  intro member
  obtain ⟨before,after,rfl,free⟩ := List.eq_append_cons_of_mem member
  rw [splitOnce_char before after free] at missing
  contradiction

theorem infix_trim (s : Text) : trim s <:+: s :=
  (List.rdropWhile_prefix _ _).isInfix.trans (List.dropWhile_suffix _).isInfix

theorem trim_eq_self_iff {s : Text} : trim s = s ↔
    (∀ c, s.head? = some c → isWhitespace c = false) ∧ ∀ c, s.getLast? = some c → isWhitespace c = false := by
  constructor
  · intro same
    have shorter := (List.rdropWhile_prefix isWhitespace (s.dropWhile isWhitespace)).length_le
    have front : s.dropWhile isWhitespace = s := by
      refine (List.dropWhile_suffix isWhitespace).eq_of_length_le ?_
      rw [← congrArg List.length same]
      exact shorter
    have back : s.rdropWhile isWhitespace = s := by rwa [trim,front] at same
    refine ⟨fun c first => ?_,fun c last => ?_⟩
    · obtain ⟨rest,rfl⟩ := List.head?_eq_some_iff.mp first
      by_contra white
      have shorter := (List.dropWhile_suffix (l := rest) isWhitespace).length_le
      have length := congrArg List.length front
      rw [List.dropWhile_cons_of_pos (by simpa using white),List.length_cons] at length
      omega
    · obtain ⟨before,rfl⟩ := List.getLast?_eq_some_iff.mp last
      by_contra white
      have shorter := (List.rdropWhile_prefix isWhitespace before).length_le
      have length := congrArg List.length back
      rw [List.rdropWhile_concat_pos _ _ _ (by simpa using white),List.length_append,List.length_singleton] at length
      omega
  · rintro ⟨first,last⟩
    have front : s.dropWhile isWhitespace = s := by
      cases s with
      | nil => rfl
      | cons c s => exact List.dropWhile_cons_of_neg (by simp [first c rfl])
    rw [trim,front,List.rdropWhile_eq_self_iff]
    intro nonempty
    simp [last _ (List.getLast?_eq_some_getLast nonempty)]

theorem trim_trim (s : Text) : trim (trim s) = trim s := by
  have back : (trim s).rdropWhile isWhitespace = trim s := List.rdropWhile_idempotent isWhitespace _
  have front : (trim s).dropWhile isWhitespace = trim s := by
    cases kept : trim s with
    | nil => rfl
    | cons c t =>
      have start : c::t <+: s.dropWhile isWhitespace := kept ▸ List.rdropWhile_prefix isWhitespace _
      obtain ⟨rest,same⟩ := start
      have black : ¬ isWhitespace c = true := by
        have head := List.head?_dropWhile_not isWhitespace s
        simpa [← same] using head
      exact List.dropWhile_cons_of_neg black
  rw [trim,front,back]

theorem trim_between {c d : Char} (first : isWhitespace c = false) (last : isWhitespace d = false) (s : Text) :
    trim (c :: (s ++ [d])) = c :: (s ++ [d]) := by
  have front : (c :: (s ++ [d])).dropWhile isWhitespace = c :: (s ++ [d]) := by simp [first]
  rw [trim,front,List.rdropWhile_eq_self_iff]
  intro nonempty
  simp [last]

theorem trim_cons {s : Text} {c : Char} (white : isWhitespace c = true) : trim (c::s) = trim s := by
  simp [trim,white]

theorem trim_append {blank : Text} (white : ∀ c ∈ blank, isWhitespace c = true) (s : Text) : trim (blank ++ s) = trim s := by
  induction blank with
  | nil => rfl
  | cons c blank ih =>
    rw [List.cons_append,trim_cons (white c List.mem_cons_self)]
    exact ih fun d member => white d (List.mem_cons_of_mem _ member)

theorem splitOn_cons (c d : Char) (s : Text) :
    (d::s).splitOn c = if d = c then [] :: s.splitOn c else (s.splitOn c).modifyHead (d :: ·) := by
  rw [List.splitOn,List.splitOnP_cons_eq_if_modifyHead]
  simp [List.splitOn]

theorem splitOn_flatMap {c : Char} {first : Text} (free : c ∉ first) {pieces : List Text}
    (others : ∀ piece ∈ pieces, c ∉ piece) : (first ++ pieces.flatMap (c :: ·)).splitOn c = first::pieces := by
  induction pieces generalizing first with
  | nil => rw [List.flatMap_nil,List.append_nil,List.splitOn_eq_singleton free]
  | cons piece pieces ih =>
    have later := ih (others piece List.mem_cons_self) fun other member => others other (List.mem_cons_of_mem _ member)
    rw [List.flatMap_cons,List.cons_append,List.splitOn_append_cons_self_of_not_mem free,later]

theorem splitOn_length (c : Char) (s : Text) :
    ((s.splitOn c).map fun line => line.length + 1).sum = s.length + 1 := by
  induction s with
  | nil => rfl
  | cons d s ih =>
    rw [splitOn_cons]
    cases pieces : s.splitOn c with
    | nil => simp [pieces] at ih
    | cons first rest =>
      rw [pieces] at ih
      split
      · simp only [List.map_cons,List.sum_cons,List.length_nil,List.length_cons] at ih ⊢
        omega
      · simp only [List.modifyHead_cons,List.map_cons,List.sum_cons,List.length_cons] at ih ⊢
        omega

theorem of_mem_splitOn {c : Char} {s piece : Text} (member : piece ∈ s.splitOn c) :
    c ∉ piece ∧ ∀ d ∈ piece, d ∈ s := by
  induction s generalizing piece with
  | nil =>
    rw [List.splitOn_nil,List.mem_singleton] at member
    simp [member]
  | cons d s ih =>
    rw [splitOn_cons] at member
    have longer : ∀ {piece : Text}, piece ∈ s.splitOn c → c ∉ piece ∧ ∀ e ∈ piece, e ∈ d::s := fun found =>
      ⟨(ih found).1,fun e within => List.mem_cons_of_mem _ ((ih found).2 e within)⟩
    split at member
    · rcases List.mem_cons.mp member with rfl | later
      · simp
      · exact longer later
    · rename_i other
      cases pieces : s.splitOn c with
      | nil => exact absurd pieces (List.splitOn_ne_nil c s)
      | cons first rest =>
        rw [pieces,List.modifyHead_cons] at member
        rcases List.mem_cons.mp member with rfl | later
        · obtain ⟨free,within⟩ := longer (pieces ▸ List.mem_cons_self : first ∈ s.splitOn c)
          refine ⟨by simp [free,Ne.symm other],fun e found => ?_⟩
          rcases List.mem_cons.mp found with rfl | found
          · exact List.mem_cons_self
          · exact within e found
        · exact longer (pieces ▸ List.mem_cons_of_mem _ later)

theorem replace_char (s : Text) (c : Char) (new : Text) :
    replace s [c] new = s.flatMap fun d => if d = c then new else [d] := by
  unfold replace
  induction s with
  | nil => rfl
  | cons d s ih =>
    simp only [replaceFrom,List.isPrefixOf,Bool.and_true,beq_iff_eq,List.length_singleton,Nat.sub_self,
      List.flatMap_cons,ih]
    by_cases same : d = c
    · simp [same]
    · simp [same,Ne.symm same]

private theorem toLfFrom_true {s : Text} (start : s.head? ≠ some '\n') : toLfFrom true s = toLfFrom false s := by
  cases s with
  | nil => rfl
  | cons c s =>
    have other : c ≠ '\n' := by simpa using start
    simp [toLfFrom,other]

/-- Replacing CRLF and then CR by LF reads every line ending as a line feed. -/
theorem replace_crlf_cr (s : Text) :
    replace (replace s ['\r','\n'] ['\n']) ['\r'] ['\n'] = toLf s := by
  rw [replace_char]
  unfold replace toLf
  induction s using List.twoStepInduction with
  | nil => rfl
  | singleton c =>
    by_cases cr : c = '\r'
    · simp [replaceFrom,toLfFrom,cr,List.isPrefixOf]
    · simp [replaceFrom,toLfFrom,cr,List.isPrefixOf]
  | cons_cons c d s ih ihd =>
    by_cases cr : c = '\r'
    · by_cases lf : d = '\n'
      · simp only [replaceFrom,cr,lf,List.isPrefixOf,beq_self_eq_true,Bool.and_true,if_true,List.length_cons,
          List.length_nil,toLfFrom]
        simpa [replaceFrom] using ih
      · have next : toLfFrom true (d::s) = toLfFrom false (d::s) := toLfFrom_true (by simp [lf])
        rw [toLfFrom,if_pos cr,next,← ihd d,replaceFrom]
        simp [cr,List.isPrefixOf,Ne.symm lf]
    · rw [toLfFrom,if_neg cr,Bool.false_and,if_neg Bool.false_ne_true,← ihd d,replaceFrom]
      simp [cr,Ne.symm cr,List.isPrefixOf]

theorem toLfFrom_crlf (afterCr : Bool) (a b : Text) :
    toLfFrom afterCr (a ++ '\r' :: '\n' :: b) = toLfFrom afterCr a ++ '\n' :: toLfFrom false b := by
  induction a generalizing afterCr with
  | nil => simp [toLfFrom]
  | cons c a ih =>
    simp only [List.cons_append,toLfFrom,ih]
    split
    · rfl
    · split <;> rfl

theorem toLf_crlf (a b : Text) : toLf (a ++ '\r' :: '\n' :: b) = toLf a ++ '\n' :: toLf b := toLfFrom_crlf false a b

theorem toLf_append {a : Text} (plain : '\r' ∉ a) (b : Text) : toLf (a ++ b) = a ++ toLf b := by
  unfold toLf
  induction a with
  | nil => rfl
  | cons c a ih =>
    rw [List.mem_cons,not_or] at plain
    simp [toLfFrom,Ne.symm plain.1,ih plain.2]

theorem toLf_plain {s : Text} (plain : '\r' ∉ s) : toLf s = s := by
  simpa [toLf,toLfFrom] using toLf_append plain []

theorem not_mem_toLfFrom (afterCr : Bool) (s : Text) : '\r' ∉ toLfFrom afterCr s := by
  induction s generalizing afterCr with
  | nil => simp [toLfFrom]
  | cons c s ih =>
    simp only [toLfFrom]
    split
    · simp [ih]
    · rename_i other
      split
      · exact ih false
      · simp [ih,Ne.symm other]

theorem not_mem_toLf (s : Text) : '\r' ∉ toLf s := not_mem_toLfFrom false s

def toCrlf (s : Text) : Text := s.flatMap fun c => if c = '\n' then ['\r','\n'] else [c]

theorem toLf_toCrlf {s : Text} (plain : '\r' ∉ s) : toLf (toCrlf s) = s := by
  induction s with
  | nil => rfl
  | cons c s ih =>
    rw [List.mem_cons,not_or] at plain
    have later := ih plain.2
    unfold toCrlf at later ⊢
    rw [List.flatMap_cons]
    split
    · rename_i lf
      have split := toLf_crlf [] (s.flatMap fun c => if c = '\n' then ['\r','\n'] else [c])
      rw [later] at split
      rw [lf]
      exact split
    · simp only [List.singleton_append,toLf,toLfFrom,if_neg (Ne.symm plain.1),Bool.false_and,if_neg Bool.false_ne_true]
      exact congrArg (c :: ·) later

theorem isAscii_toLf {s : Text} (ascii : isAscii s = true) : isAscii (toLf s) = true := by
  have step : ∀ (afterCr : Bool) (s : Text), isAscii s = true → isAscii (toLfFrom afterCr s) = true := by
    intro afterCr s ascii
    unfold isAscii at *
    induction s generalizing afterCr with
    | nil => rfl
    | cons c s ih =>
      rw [List.all_cons,Bool.and_eq_true] at ascii
      simp only [toLfFrom]
      split
      · simpa using ih true ascii.2
      · split
        · exact ih false ascii.2
        · rw [List.all_cons,ascii.1,ih false ascii.2]
          rfl
  exact step false s ascii

theorem isAscii_toCrlf {s : Text} (ascii : isAscii s = true) : isAscii (toCrlf s) = true := by
  unfold isAscii toCrlf at *
  rw [List.all_flatMap]
  rw [List.all_eq_true] at ascii ⊢
  intro c member
  have small := ascii c member
  split <;> simp_all

private theorem toLfFrom_pieces (afterCr : Bool) (s : Text) : ∃ first rest,
    (toLfFrom afterCr s).splitOn '\n' = first::rest ∧ (afterCr = false → first <+: s) ∧ first <:+: s ∧
      ∀ line ∈ rest, line <:+: s := by
  induction s generalizing afterCr with
  | nil => exact ⟨[],[],by simp [toLfFrom,List.splitOn],by simp,by simp,by simp⟩
  | cons c s ih =>
    have longer : ∀ {line : Text}, line <:+: s → line <:+: c::s := List.infix_cons
    -- behind a line break the pieces of the rest follow an empty one
    have broken : ∀ flag, ∃ first rest, ('\n' :: toLfFrom flag s).splitOn '\n' = first::rest ∧
        (afterCr = false → first <+: c::s) ∧ first <:+: c::s ∧ ∀ line ∈ rest, line <:+: c::s := by
      intro flag
      obtain ⟨first,rest,split,_,within,later⟩ := ih flag
      refine ⟨[],first::rest,by simp [splitOn_cons,split],by simp,by simp,?_⟩
      intro line member
      rcases List.mem_cons.mp member with rfl | member
      · exact longer within
      · exact longer (later line member)
    simp only [toLfFrom]
    split
    · exact broken true
    · split
      · rename_i skipped
        obtain ⟨first,rest,split,_,within,later⟩ := ih false
        refine ⟨first,rest,split,?_,longer within,fun line member => longer (later line member)⟩
        intro unflagged
        simp [unflagged] at skipped
      · by_cases lf : c = '\n'
        · subst lf
          exact broken false
        · obtain ⟨first,rest,split,start,_,later⟩ := ih false
          have extended : c::first <+: c::s := List.cons_prefix_cons.mpr ⟨rfl,start rfl⟩
          refine ⟨c::first,rest,?_,fun _ => extended,extended.isInfix,fun line member => longer (later line member)⟩
          simp [splitOn_cons,lf,split]

theorem infix_of_mem_lines {s line : Text} (member : line ∈ (toLf s).splitOn '\n') : line <:+: s := by
  obtain ⟨first,rest,split,_,within,later⟩ := toLfFrom_pieces false s
  rw [toLf,split] at member
  rcases List.mem_cons.mp member with rfl | member
  · exact within
  · exact later line member

theorem infix_splitOn {c : Char} {a s : Text} (free : c ∉ a) (within : a <:+: s) : ∃ part ∈ s.splitOn c, a <:+: part := by
  have start : ∀ {a s : Text}, c ∉ a → a <+: s → ∃ first rest, s.splitOn c = first::rest ∧ a <+: first := by
    intro a s free start
    induction s generalizing a with
    | nil => exact ⟨[],[],List.splitOn_nil c,start⟩
    | cons d s ih =>
      cases a with
      | nil =>
        obtain ⟨first,rest,split⟩ := List.exists_cons_of_ne_nil (List.splitOn_ne_nil c (d::s))
        exact ⟨first,rest,split,List.nil_prefix⟩
      | cons e a =>
        obtain ⟨rfl,later⟩ := List.cons_prefix_cons.mp start
        rw [List.mem_cons,not_or] at free
        obtain ⟨first,rest,split,found⟩ := ih free.2 later
        exact ⟨e::first,rest,by simp [splitOn_cons,Ne.symm free.1,split],List.cons_prefix_cons.mpr ⟨rfl,found⟩⟩
  induction s with
  | nil => exact ⟨[],by simp,within⟩
  | cons d s ih =>
    rcases List.infix_cons_iff.mp within with here | later
    · obtain ⟨first,rest,split,found⟩ := start free here
      exact ⟨first,by simp [split],found.isInfix⟩
    · obtain ⟨part,member,found⟩ := ih later
      rw [splitOn_cons]
      split
      · exact ⟨part,List.mem_cons_of_mem _ member,found⟩
      · cases split : s.splitOn c with
        | nil => simp [split] at member
        | cons first rest =>
          rw [split] at member
          rw [List.modifyHead_cons]
          rcases List.mem_cons.mp member with rfl | member
          · exact ⟨d::part,List.mem_cons_self,List.infix_cons found⟩
          · exact ⟨part,List.mem_cons_of_mem _ member,found⟩

private theorem start_append_cons {c : Char} {p a b : Text} (free : c ∉ p) (start : p <+: a ++ c::b) : p <+: a := by
  induction a generalizing p with
  | nil =>
    cases p with
    | nil => exact List.nil_prefix
    | cons d p =>
      have same := (List.cons_prefix_cons.mp start).1
      simp [same] at free
  | cons d a ih =>
    cases p with
    | nil => exact List.nil_prefix
    | cons e p =>
      rw [List.mem_cons,not_or] at free
      obtain ⟨rfl,later⟩ := List.cons_prefix_cons.mp start
      exact List.cons_prefix_cons.mpr ⟨rfl,ih free.2 later⟩

theorem infix_append_cons {c : Char} {p a b : Text} (free : c ∉ p) (within : p <:+: a ++ c::b) :
    p <:+: a ∨ p <:+: b := by
  induction a with
  | nil =>
    rcases List.infix_cons_iff.mp within with here | later
    · exact .inl (start_append_cons free here).isInfix
    · exact .inr later
  | cons d a ih =>
    rcases List.infix_cons_iff.mp within with here | later
    · exact .inl (start_append_cons free here).isInfix
    · exact (ih later).imp_left List.infix_cons

theorem ofNat_nibbles (byte : UInt8) : UInt8.ofNat (byte.toNat / 16) <<< 4 ||| UInt8.ofNat (byte.toNat % 16) = byte := by
  have table : ∀ n < 256, UInt8.ofNat (n / 16) <<< 4 ||| UInt8.ofNat (n % 16) = UInt8.ofNat n := by decide +kernel
  have entry := table byte.toNat byte.toNat_lt
  rwa [UInt8.ofNat_toNat] at entry

theorem fromUtf8_utf8 (s : Text) : fromUtf8 (utf8 s) = some s := by
  have decoded : (utf8 s).toByteArray.utf8Decode? = some s.toArray := List.utf8Decode?_utf8Encode
  simp [fromUtf8,decoded]

theorem utf8_of_fromUtf8 {bytes : List UInt8} {s : Text} (decoded : fromUtf8 bytes = some s) : utf8 s = bytes := by
  obtain ⟨chars,read,rfl⟩ := Option.map_eq_some_iff.mp decoded
  have valid : bytes.toByteArray.utf8Decode?.isSome = true := by
    rw [read]
    rfl
  have same := ByteArray.utf8Encode_get_utf8Decode? (b := bytes.toByteArray) (h := valid)
  simp only [read,Option.get_some] at same
  have arrays := congrArg (fun b => b.data.toList) same
  simpa [List.utf8Encode,utf8] using arrays

theorem utf8_append (a b : Text) : utf8 (a ++ b) = utf8 a ++ utf8 b := List.flatMap_append

theorem utf8_cons (c : Char) (s : Text) : utf8 (c::s) = String.utf8EncodeChar c ++ utf8 s := List.flatMap_cons

theorem utf8_intercalate (separator : Text) (pieces : List Text) :
    utf8 (separator.intercalate pieces) = (utf8 separator).intercalate (pieces.map utf8) := by
  induction pieces with
  | nil => rfl
  | cons piece pieces ih =>
    cases pieces with
    | nil => simp [List.intercalate]
    | cons next pieces =>
      rw [List.intercalate_cons_cons,utf8_append,utf8_append,ih]
      simp only [List.map_cons,List.intercalate_cons_cons]

theorem length_le_utf8 (s : Text) : s.length ≤ (utf8 s).length := by
  induction s with
  | nil => exact Nat.le_refl _
  | cons c s ih =>
    have positive := Char.utf8Size_pos c
    rw [utf8_cons,List.length_cons,List.length_append,String.length_utf8EncodeChar]
    omega

theorem utf8EncodeChar_ascii {c : Char} (ascii : c.toNat < 128) :
    String.utf8EncodeChar c = [UInt8.ofNat c.toNat] := by
  have small : c.val.toNat ≤ 127 := Nat.le_of_lt_succ ascii
  unfold String.utf8EncodeChar
  rw [if_pos small]
  rfl

theorem utf8EncodeChar_high {c : Char} (high : 128 ≤ c.toNat) (b : UInt8) (member : b ∈ String.utf8EncodeChar c) :
    128 ≤ b.toNat := by
  have large : ¬ c.val.toNat ≤ 127 := Nat.not_le.mpr high
  unfold String.utf8EncodeChar at member
  rw [if_neg large] at member
  have offset : ∀ n m : Nat, 128 ≤ m → n + m < 256 → 128 ≤ (UInt8.ofNat (n + m)).toNat := by
    intro n m lead fits
    rw [UInt8.toNat_ofNat_of_lt' fits]
    omega
  split at member
  · simp only [List.mem_cons,List.not_mem_nil,or_false] at member
    rcases member with rfl | rfl <;> exact offset _ _ (by omega) (by omega)
  · split at member
    · simp only [List.mem_cons,List.not_mem_nil,or_false] at member
      rcases member with rfl | rfl | rfl <;> exact offset _ _ (by omega) (by omega)
    · simp only [List.mem_cons,List.not_mem_nil,or_false] at member
      rcases member with rfl | rfl | rfl | rfl <;> exact offset _ _ (by omega) (by omega)

theorem toNat_asciiByte {c : Char} (ascii : c.toNat < 128) : (UInt8.ofNat c.toNat).toNat = c.toNat :=
  UInt8.toNat_ofNat_of_lt' (Nat.lt_trans ascii (by decide))

theorem all_utf8 {s : Text} (ascii : isAscii s = true) : ((utf8 s).all (· < 128)) = true := by
  unfold utf8
  rw [List.all_flatMap]
  unfold isAscii at ascii
  rw [List.all_eq_true] at ascii ⊢
  intro c member
  have small : c.toNat < 128 := by simpa using ascii c member
  have byte : UInt8.ofNat c.toNat < 128 := by
    rw [UInt8.lt_iff_toNat_lt,toNat_asciiByte small]
    exact small
  rw [utf8EncodeChar_ascii small]
  simp [byte]

private theorem ascii_inj {a c : Char} (first : a.toNat < 128) (second : c.toNat < 128)
    (same : UInt8.ofNat a.toNat = UInt8.ofNat c.toNat) : a = c := by
  have bytes := congrArg UInt8.toNat same
  rw [toNat_asciiByte first,toNat_asciiByte second] at bytes
  exact Char.toNat_inj.mp bytes

/-- Bytes of a longer encoding are skipped in the search for an ASCII text. -/
private theorem ascii_skip {c : Char} (ascii : c.toNat < 128) {rest high bytes : List UInt8}
    (lead : ∀ b ∈ high, 128 ≤ b.toNat) (within : UInt8.ofNat c.toNat :: rest <:+: high ++ bytes) :
    UInt8.ofNat c.toNat :: rest <:+: bytes := by
  induction high with
  | nil => exact within
  | cons b high ih =>
    rw [List.cons_append,List.infix_cons_iff] at within
    rcases within with start | later
    · have same := (List.cons_prefix_cons.mp start).1
      have large := lead b List.mem_cons_self
      rw [← same,toNat_asciiByte ascii] at large
      omega
    · exact ih (fun b member => lead b (List.mem_cons_of_mem _ member)) later

private theorem prefix_of_utf8 {a s : Text} (ascii : ∀ c ∈ a, c.toNat < 128) (start : utf8 a <+: utf8 s) : a <+: s := by
  induction a generalizing s with
  | nil => exact List.nil_prefix
  | cons c a ih =>
    have small := ascii c List.mem_cons_self
    rw [utf8_cons,utf8EncodeChar_ascii small] at start
    cases s with
    | nil => simp [utf8] at start
    | cons d s =>
      rw [utf8_cons] at start
      by_cases low : d.toNat < 128
      · rw [utf8EncodeChar_ascii low] at start
        obtain ⟨same,later⟩ := List.cons_prefix_cons.mp start
        rw [ascii_inj small low same]
        exact List.cons_prefix_cons.mpr ⟨rfl,ih (fun e member => ascii e (List.mem_cons_of_mem _ member)) later⟩
      · cases bytes : String.utf8EncodeChar d with
        | nil => exact absurd bytes String.utf8EncodeChar_ne_nil
        | cons b more =>
          have large := utf8EncodeChar_high (Nat.not_lt.mp low) b (by simp [bytes])
          rw [bytes] at start
          rw [← (List.cons_prefix_cons.mp start).1,toNat_asciiByte small] at large
          omega

theorem infix_utf8 {a s : Text} (within : a <:+: s) : utf8 a <:+: utf8 s := by
  obtain ⟨before,after,rfl⟩ := within
  exact ⟨utf8 before,utf8 after,by rw [utf8_append,utf8_append]⟩

/-- An ASCII text found in the bytes of a text is found in its characters. -/
theorem infix_of_utf8 {a s : Text} (ascii : ∀ c ∈ a, c.toNat < 128) (within : utf8 a <:+: utf8 s) : a <:+: s := by
  cases a with
  | nil => exact List.nil_infix
  | cons c a =>
    have small := ascii c List.mem_cons_self
    induction s with
    | nil =>
      rw [utf8_cons,utf8EncodeChar_ascii small] at within
      simp [utf8] at within
    | cons d s ih =>
      rw [List.infix_cons_iff]
      by_cases low : d.toNat < 128
      · rw [utf8_cons d,utf8EncodeChar_ascii low,List.singleton_append,List.infix_cons_iff] at within
        rcases within with start | later
        · refine .inl (prefix_of_utf8 ascii ?_)
          rw [utf8_cons d,utf8EncodeChar_ascii low]
          exact start
        · exact .inr (ih later)
      · rw [utf8_cons d,utf8_cons c,utf8EncodeChar_ascii small,List.singleton_append] at within
        refine .inr (ih ?_)
        rw [utf8_cons c,utf8EncodeChar_ascii small]
        exact ascii_skip small (utf8EncodeChar_high (Nat.not_lt.mp low)) within

theorem mem_of_utf8 {c : Char} {s : Text} (ascii : c.toNat < 128) (member : UInt8.ofNat c.toNat ∈ utf8 s) : c ∈ s := by
  refine (List.singleton_infix_iff c s).mp (infix_of_utf8 (by simpa using ascii) ?_)
  rw [utf8_cons,utf8EncodeChar_ascii ascii]
  exact (List.singleton_infix_iff _ _).mpr member

theorem mem_utf8 {c : Char} {s : Text} (ascii : c.toNat < 128) (member : c ∈ s) : UInt8.ofNat c.toNat ∈ utf8 s :=
  List.mem_flatMap.mpr ⟨c,member,by simp [utf8EncodeChar_ascii ascii]⟩

theorem ascii_of_utf8 {s : Text} (bytes : ∀ b ∈ utf8 s, b.toNat < 128) : ∀ c ∈ s, c.toNat < 128 := by
  intro c member
  by_contra high
  obtain ⟨b,rest,encoded⟩ := List.exists_cons_of_ne_nil (String.utf8EncodeChar_ne_nil (c := c))
  have first : b ∈ String.utf8EncodeChar c := by simp [encoded]
  have large := utf8EncodeChar_high (Nat.not_lt.mp high) b first
  have small := bytes b (List.mem_flatMap.mpr ⟨c,member,first⟩)
  omega

def asciiText (bytes : List UInt8) : Text := bytes.map fun b => Char.ofNat b.toNat

theorem toNat_asciiChar (b : UInt8) : (Char.ofNat b.toNat).toNat = b.toNat := by
  have valid : b.toNat.isValidChar := .inl (Nat.lt_trans b.toNat_lt (by decide))
  rw [Char.ofNat,dif_pos valid]
  rfl

theorem utf8_asciiText {bytes : List UInt8} (ascii : bytes.all (· < 128) = true) : utf8 (asciiText bytes) = bytes := by
  induction bytes with
  | nil => rfl
  | cons b bytes ih =>
    rw [List.all_cons,Bool.and_eq_true,decide_eq_true_eq,UInt8.lt_iff_toNat_lt] at ascii
    have small : (Char.ofNat b.toNat).toNat < 128 := by
      rw [toNat_asciiChar]
      exact ascii.1
    have later := ih ascii.2
    rw [asciiText,List.map_cons,utf8_cons,utf8EncodeChar_ascii small,toNat_asciiChar,UInt8.ofNat_toNat]
    exact congrArg (b :: ·) later

end Text
end MechanicsCore.Library
