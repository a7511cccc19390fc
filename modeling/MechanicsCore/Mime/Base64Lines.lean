import MechanicsCore.Mime.Codec
import MechanicsCore.Mime.QpLines

/-! The lines of wrapped base64. A line is broken only before a character that does
not fit, so every line but the last is full; the decoder skips the breaks, in
whatever form they reach it. -/
namespace MechanicsCore.Mime
open MechanicsCore.Library Text

/-- Lines of at most `width` characters, the first one behind `lineLen` others. A line
that another one follows is full, and the one that follows is not empty. -/
inductive Wrapped (width : Nat) : (lineLen : Nat) → List Text → Prop
  | last {lineLen : Nat} {line : Text} (fits : lineLen + line.length ≤ width) : Wrapped width lineLen [line]
  | full {lineLen : Nat} {line next : Text} {rest : List Text} (filled : lineLen + line.length = width)
      (nonempty : next ≠ []) (later : Wrapped width 0 (next::rest)) : Wrapped width lineLen (line::next::rest)

namespace Wrapped
variable {width lineLen : Nat} {lines : List Text}

theorem push {first : Text} {rest : List Text} (wrapped : Wrapped width (lineLen + 1) (first::rest)) (c : Char) :
    Wrapped width lineLen ((c::first)::rest) := by
  cases wrapped with
  | last fits =>
    apply Wrapped.last
    rw [List.length_cons]
    omega
  | full filled nonempty later =>
    refine .full ?_ nonempty later
    rw [List.length_cons]
    omega

theorem length_dropLast (wrapped : Wrapped width lineLen lines) (start : lineLen = 0) :
    ∀ line ∈ lines.dropLast, line.length = width := by
  induction wrapped with
  | last fits => simp
  | full filled nonempty later ih =>
    intro line member
    rw [List.dropLast_cons_cons] at member
    rcases List.mem_cons.mp member with rfl | inside
    · omega
    · exact ih rfl line inside

theorem length_getLast (wrapped : Wrapped width lineLen lines) : ∀ line ∈ lines.getLast?, line.length ≤ width := by
  induction wrapped with
  | last fits =>
    intro line final
    rw [List.getLast?_singleton,Option.mem_some_iff] at final
    rw [← final]
    omega
  | full filled nonempty later ih =>
    intro line final
    rw [List.getLast?_cons_cons] at final
    exact ih line final

theorem nil_not_mem_tail (wrapped : Wrapped width lineLen lines) : [] ∉ lines.tail := by
  induction wrapped with
  | last fits => simp
  | full filled nonempty later ih =>
    intro member
    rcases List.mem_cons.mp member with here | inside
    · exact nonempty here.symm
    · exact ih inside

end Wrapped

section Lines

theorem crlfLines_cons {c : Char} (plain : c ≠ '\r') (text : Text) :
    crlfLines (c::text) = (crlfLines text).modifyHead (c :: ·) :=
  pairLines_append (a := [c]) (fun member => plain (List.mem_singleton.mp member).symm) text

theorem crlfLines_exists_cons (text : Text) : ∃ first rest, crlfLines text = first::rest :=
  List.exists_cons_of_ne_nil (pairLines_ne_nil text)

variable {width : Nat}

theorem wrapped_crlfLines (positive : 0 < width) {s : Text} (plain : ∀ c ∈ s, c ≠ '\r') (single : ∀ c ∈ s, c.utf8Size = 1)
    (lineLen : Nat) (within : lineLen ≤ width) : Wrapped width lineLen (crlfLines (wrapAsciiLineFrom width lineLen s)) := by
  induction s generalizing lineLen with
  | nil => exact .last within
  | cons c s ih =>
    have rest := ih (fun d member => plain d (List.mem_cons_of_mem _ member))
      fun d member => single d (List.mem_cons_of_mem _ member)
    have pushed : ∀ n, n < width → Wrapped width n (crlfLines (c :: wrapAsciiLineFrom width (n + 1) s)) := by
      intro n room
      have later := rest (n + 1) room
      obtain ⟨first,others,lines⟩ := crlfLines_exists_cons (wrapAsciiLineFrom width (n + 1) s)
      rw [lines] at later
      rw [crlfLines_cons (plain c List.mem_cons_self),lines]
      exact later.push c
    rw [wrapAsciiLineFrom,single c List.mem_cons_self]
    split
    · have later := pushed 0 positive
      have broken : crlfLines ("\r\n" ++ c :: wrapAsciiLineFrom width 1 s) =
          [] :: crlfLines (c :: wrapAsciiLineFrom width 1 s) := pairLines_break _
      rw [broken]
      rw [crlfLines_cons (plain c List.mem_cons_self)] at later ⊢
      obtain ⟨first,others,lines⟩ := crlfLines_exists_cons (wrapAsciiLineFrom width 1 s)
      rw [lines,List.modifyHead_cons] at later ⊢
      refine .full ?_ (List.cons_ne_nil _ _) later
      rw [List.length_nil]
      omega
    · exact pushed lineLen (by omega)

/-- The wrapper writes nothing but breaks between the characters. -/
theorem flatten_crlfLines_wrap {s : Text} (plain : ∀ c ∈ s, c ≠ '\r') (lineLen : Nat) :
    (crlfLines (wrapAsciiLineFrom width lineLen s)).flatten = s := by
  induction s generalizing lineLen with
  | nil => rfl
  | cons c s ih =>
    have pushed : ∀ n, (crlfLines (c :: wrapAsciiLineFrom width n s)).flatten = c::s := by
      intro n
      have later := ih (fun d member => plain d (List.mem_cons_of_mem _ member)) n
      obtain ⟨first,others,lines⟩ := crlfLines_exists_cons (wrapAsciiLineFrom width n s)
      rw [lines] at later
      rw [crlfLines_cons (plain c List.mem_cons_self),lines,List.modifyHead_cons,List.flatten_cons,List.cons_append,
        ← List.flatten_cons,later]
    rw [wrapAsciiLineFrom]
    split
    · have broken : crlfLines ("\r\n" ++ c :: wrapAsciiLineFrom width c.utf8Size s) =
          [] :: crlfLines (c :: wrapAsciiLineFrom width c.utf8Size s) := pairLines_break _
      rw [broken,List.flatten_cons,List.nil_append]
      exact pushed _
    · exact pushed _

end Lines

section Decoding

/-- Line endings are white space, so the decoder does not see how they are written. -/
theorem base64DecodeLiberal_toLf [Base64] (text : Text) : base64DecodeLiberal (toLf text) = base64DecodeLiberal text := by
  have filtered : ∀ afterCr, (toLfFrom afterCr text).filter (fun c => !isAsciiWhitespace c) =
      text.filter fun c => !isAsciiWhitespace c := by
    induction text with
    | nil => exact fun _ => rfl
    | cons c text ih =>
      intro afterCr
      rw [toLfFrom]
      split
      · rename_i cr
        rw [cr,List.filter_cons_of_neg (by decide),List.filter_cons_of_neg (by decide),ih]
      · split
        · rename_i lf
          rw [Bool.and_eq_true,beq_iff_eq] at lf
          rw [lf.2,List.filter_cons_of_neg (by decide),ih]
        · rw [List.filter_cons,List.filter_cons,ih]
  unfold base64DecodeLiberal toLf
  rw [filtered false]

end Decoding

theorem Base64.encode_char [Base64] {bytes : List UInt8} {c : Char} (member : c ∈ encode bytes) :
    c ≠ '\r' ∧ c ≠ '\n' ∧ c.utf8Size = 1 := by
  obtain ⟨ascii,ink,_⟩ := encode_symbol member
  refine ⟨?_,?_,?_⟩
  · rintro rfl
    exact absurd ink (by decide)
  · rintro rfl
    exact absurd ink (by decide)
  · rw [Char.utf8Size_eq_one_iff]
    exact Nat.le_of_lt_succ ascii

theorem flatten_base64Lines [Base64] (bytes : List UInt8) :
    (crlfLines (base64EncodeWrapped bytes)).flatten = Base64.encode bytes :=
  flatten_crlfLines_wrap (fun _ member => (Base64.encode_char member).1) 0

theorem paired_base64EncodeWrapped [Base64] (bytes : List UInt8) : Paired '\r' '\n' (base64EncodeWrapped bytes) := by
  refine paired_of_pairLines (by decide) fun line member => ?_
  have inside : ∀ c ∈ line, c ∈ Base64.encode bytes := by
    intro c found
    rw [← flatten_base64Lines]
    exact List.mem_flatten_of_mem member found
  exact ⟨fun found => (Base64.encode_char (inside _ found)).1 rfl,fun found => (Base64.encode_char (inside _ found)).2.1 rfl⟩

/-- Wrapped base64 is the base64 text in lines of 76 characters, the last one perhaps
shorter and none empty; the liberal decoder gives the bytes back, also after the
parser's rewrite of the line endings. -/
theorem wrapped_base64_inverted [Base64] (bytes : List UInt8) :
    (crlfLines (base64EncodeWrapped bytes)).flatten = Base64.encode bytes ∧
    Paired '\r' '\n' (base64EncodeWrapped bytes) ∧
    (∀ line ∈ (crlfLines (base64EncodeWrapped bytes)).dropLast, line.length = 76) ∧
    (∀ line ∈ (crlfLines (base64EncodeWrapped bytes)).getLast?, line.length ≤ 76) ∧
    ([] ∈ crlfLines (base64EncodeWrapped bytes) ↔ bytes = []) ∧
    base64DecodeLiberal (base64EncodeWrapped bytes) = .ok bytes ∧
    base64DecodeLiberal (normalizeRawMessage (base64EncodeWrapped bytes)) = .ok bytes := by
  have whole := flatten_base64Lines bytes
  have wrapped : Wrapped 76 0 (crlfLines (base64EncodeWrapped bytes)) :=
    wrapped_crlfLines (by decide) (fun c member => (Base64.encode_char member).1)
      (fun c member => (Base64.encode_char member).2.2) 0 (Nat.zero_le _)
  have decoded := base64DecodeLiberal_wrapped bytes
  refine ⟨whole,paired_base64EncodeWrapped bytes,wrapped.length_dropLast rfl,wrapped.length_getLast,?_,?_,?_⟩
  · obtain ⟨first,rest,lines⟩ := crlfLines_exists_cons (base64EncodeWrapped bytes)
    rw [lines] at wrapped whole ⊢
    constructor
    · intro member
      rcases List.mem_cons.mp member with here | inside
      · -- An empty first line is not full, so it is the only one.
        subst here
        cases wrapped with
        | last fits => exact Base64.encode_eq_nil.mp whole.symm
        | full filled nonempty later => contradiction
      · exact absurd inside wrapped.nil_not_mem_tail
    · rintro rfl
      rw [Base64.encode_nil] at whole
      have empty := List.append_eq_nil_iff.mp whole
      exact List.mem_cons.mpr (.inl empty.1.symm)
  · rw [← base64DecodeLiberal_toLf]
    exact decoded
  · rw [normalizeRawMessage_eq]
    exact decoded

end MechanicsCore.Mime
