import MechanicsCore.Library.Lines
import MechanicsCore.Mime.Parse

/-! Quoted-printable texts with line feeds as line endings: what the encoder writes
is one of them, the decoder reads each, and their lines without escapes are pieces
of what they stand for. -/
namespace MechanicsCore.Mime
open MechanicsCore.Library Text

/-- `QpText bytes text`: the text stands for the bytes. -/
inductive QpText : List UInt8 → Text → Prop
  | nil : QpText [] []
  | hardBreak {bytes : List UInt8} {text : Text} (later : QpText bytes text) : QpText (10::bytes) ('\n' :: text)
  | softBreak {bytes : List UInt8} {text : Text} (later : QpText bytes text) : QpText bytes ('=' :: '\n' :: text)
  | literal {bytes : List UInt8} {text : Text} (c : Char) (ascii : c.toNat < 128) (plain : c ≠ '=' ∧ c ≠ '\n')
      (later : QpText bytes text) : QpText (UInt8.ofNat c.toNat :: bytes) (c::text)
  | escaped {bytes : List UInt8} {text : Text} (byte : UInt8) (later : QpText bytes text) :
      QpText (byte::bytes) ('=' :: (hexPair byte ++ text))

theorem hexDigit_mem (nibble : Nat) : hexDigit nibble ∈ ("0123456789ABCDEF" : Text) := by
  unfold hexDigit
  rw [List.getD_eq_getElem?_getD]
  cases found : ("0123456789ABCDEF" : Text)[nibble]? with
  | none => simp
  | some c => exact List.mem_of_getElem? found

theorem hexDigit_ne (nibble : Nat) {c : Char} (other : c ∉ ("0123456789ABCDEF" : Text)) : hexDigit nibble ≠ c := by
  rintro rfl
  exact other (hexDigit_mem nibble)

def Printable (c : Char) : Prop := c = '\t' ∨ 32 ≤ c.toNat ∧ c.toNat ≤ 126

instance (c : Char) : Decidable (Printable c) := inferInstanceAs (Decidable (_ ∨ _))

theorem Printable.ascii {c : Char} (printable : Printable c) : c.toNat < 128 := by
  rcases printable with rfl | ⟨_,high⟩
  · decide
  · omega

/-- A token is a printable character that stands for itself, or an escape. -/
theorem qpToken_cases (byte : UInt8) :
    (∃ c : Char, qpToken byte = [c] ∧ c.toNat = byte.toNat ∧ Printable c ∧ c ≠ '=') ∨
      qpToken byte = '=' :: hexPair byte ∧ byte ≠ 9 ∧ byte ≠ 32 := by
  unfold qpToken
  split
  · rename_i printable
    simp only [Bool.or_eq_true,Bool.and_eq_true,beq_iff_eq,decide_eq_true_eq,UInt8.le_iff_toNat_le,
      ← UInt8.toNat_inj,UInt8.reduceToNat] at printable
    have same := toNat_asciiChar byte
    have equal : ∀ c : Char, byte.toNat = c.toNat ↔ Char.ofNat byte.toNat = c := fun c => by rw [← Char.toNat_inj,same]
    refine .inl ⟨_,rfl,same,?_,?_⟩
    · rcases printable with (tab | low) | high
      · exact .inl ((equal '\t').mp tab)
      · exact .inr ⟨by omega,by omega⟩
      · exact .inr ⟨by omega,by omega⟩
    · rw [Ne,← equal]
      change byte.toNat ≠ 61
      omega
  · rename_i special
    refine .inr ⟨rfl,?_,?_⟩
    · rintro rfl
      exact special rfl
    · rintro rfl
      exact special rfl

theorem break_not_mem_qpToken (byte : UInt8) {c : Char} (isBreak : c = '\r' ∨ c = '\n') : c ∉ qpToken byte := by
  rcases qpToken_cases byte with ⟨d,token,_,printable,_⟩ | ⟨token,_,_⟩
  · rw [token,List.mem_singleton]
    rintro rfl
    rcases isBreak with rfl | rfl
    · exact absurd printable (by decide)
    · exact absurd printable (by decide)
  · have digits : ∀ n, c ≠ hexDigit n := fun n => (hexDigit_ne n (by rcases isBreak with rfl | rfl <;> decide)).symm
    have equals : c ≠ '=' := by rcases isBreak with rfl | rfl <;> decide
    simp [token,hexPair,digits,equals]

theorem qpDecodeBytes_escape (encodedWord : Bool) (byte : UInt8) (rest : List UInt8) :
    qpDecodeBytes encodedWord (utf8 ('=' :: hexPair byte) ++ rest) =
      (qpDecodeBytes encodedWord rest).map (byte :: ·) := by
  have digits : ∀ n < 16, String.utf8EncodeChar (hexDigit n) = [UInt8.ofNat (hexDigit n).toNat] ∧
      UInt8.ofNat (hexDigit n).toNat ≠ 13 ∧ UInt8.ofNat (hexDigit n).toNat ≠ 10 ∧
      hexValue (UInt8.ofNat (hexDigit n).toNat) = some (UInt8.ofNat n) := by decide
  have small := byte.toNat_lt
  obtain ⟨hiText,hiCr,hiLf,hi⟩ := digits (byte.toNat / 16) (by omega)
  obtain ⟨loText,_,_,lo⟩ := digits (byte.toNat % 16) (by omega)
  have whole := ofNat_nibbles byte
  have bytes : utf8 ('=' :: hexPair byte) ++ rest = 61 :: UInt8.ofNat (hexDigit (byte.toNat / 16)).toNat ::
      UInt8.ofNat (hexDigit (byte.toNat % 16)).toNat :: rest := by
    simp [utf8,hexPair,hiText,loText]
    rfl
  rw [bytes,qpDecodeBytes]
  simp [hiCr,hiLf,hi,lo,whole]

namespace QpText

theorem of_token (byte : UInt8) {bytes : List UInt8} {text : Text} (later : QpText bytes text) :
    QpText (byte::bytes) (qpToken byte ++ text) := by
  rcases qpToken_cases byte with ⟨c,token,same,printable,equals⟩ | ⟨token,_,_⟩
  · have lf : c ≠ '\n' := by
      rintro rfl
      exact absurd printable (by decide)
    have read := QpText.literal c printable.ascii ⟨equals,lf⟩ later
    rw [same,UInt8.ofNat_toNat] at read
    rw [token]
    exact read
  · rw [token]
    exact .escaped byte later

theorem of_pushed (lineLen : Nat) (byte : UInt8) {bytes : List UInt8} {text : Text} (later : QpText bytes (toLf text)) :
    QpText (byte::bytes) (toLf ((qpPushToken lineLen (qpToken byte)).1 ++ text)) := by
  have token := of_token byte later
  rw [← toLf_append (break_not_mem_qpToken byte (.inl rfl))] at token
  unfold qpPushToken
  split
  · have soft := toLf_crlf ['='] (qpToken byte ++ text)
    rw [toLf_plain (s := ['=']) (by simp)] at soft
    exact soft ▸ .softBreak token
  · exact token

/-- The encoder writes CRLF in the bytes as a line break, and everything else as it is. -/
theorem of_bytes (lineLen : Nat) (bytes : List UInt8) :
    QpText (unpair 13 10 bytes) (toLf (qpEncodeFrom lineLen bytes)) := by
  induction bytes using List.twoStepInduction generalizing lineLen with
  | nil => exact .nil
  | singleton byte =>
    have token : QpText [byte] (toLf ((qpPushToken lineLen (qpToken byte)).1 ++ [])) := of_pushed lineLen byte .nil
    rwa [List.append_nil] at token
  | cons_cons byte next rest ih ihd =>
    rw [unpair,qpEncodeFrom]
    by_cases pair : byte = 13 ∧ next = 10
    · have broken := toLf_crlf [] (qpEncodeFrom 0 rest)
      rw [if_pos pair,if_pos (by simp [pair])]
      exact broken ▸ .hardBreak (ih 0)
    · rw [if_neg pair,if_neg (by simpa using pair)]
      exact of_pushed lineLen byte (ihd next _)

theorem unpair_utf8_toCrlf {s : Text} (plain : '\r' ∉ s) : unpair 13 10 (utf8 (toCrlf s)) = utf8 s := by
  induction s with
  | nil => rfl
  | cons c s ih =>
    rw [List.mem_cons,not_or] at plain
    have later := ih plain.2
    rw [utf8_cons]
    by_cases lf : c = '\n'
    · subst lf
      exact congrArg (10 :: ·) later
    · have bytes : utf8 (toCrlf (c::s)) = String.utf8EncodeChar c ++ utf8 (toCrlf s) := by
        rw [toCrlf,List.flatMap_cons,if_neg lf]
        rfl
      have free : 13 ∉ String.utf8EncodeChar c := by
        intro member
        have found : '\r' ∈ [c] := mem_of_utf8 (by decide) (by simpa [utf8] using member)
        exact plain.1 (List.mem_singleton.mp found)
      rw [bytes,unpair_append free,later]

theorem of_encode {s : Text} (plain : '\r' ∉ s) (lineLen : Nat) :
    QpText (utf8 s) (toLf (qpEncodeFrom lineLen (utf8 (toCrlf s)))) := by
  have read := of_bytes lineLen (utf8 (toCrlf s))
  rwa [unpair_utf8_toCrlf plain] at read

private theorem decode_literal {byte : UInt8} (other : byte ≠ 61) (rest : List UInt8) :
    qpDecodeBytes false (byte::rest) = (qpDecodeBytes false rest).map (byte :: ·) := by
  rw [qpDecodeBytes.eq_def]
  simp [other]

/-- The decoder reads every quoted-printable text. -/
theorem decode {bytes : List UInt8} {text : Text} (known : QpText bytes text) : qpDecode text false = .ok bytes := by
  unfold qpDecode
  induction known with
  | nil => rfl
  | @hardBreak bytes text later ih =>
    rw [utf8_cons,utf8EncodeChar_ascii (by decide),List.singleton_append,decode_literal (by decide),ih]
    rfl
  | @softBreak bytes text later ih =>
    rw [utf8_cons,utf8_cons,utf8EncodeChar_ascii (by decide),utf8EncodeChar_ascii (by decide)]
    cases rest : utf8 text with
    | nil =>
      rw [rest] at ih
      exact ih
    | cons next more =>
      rw [rest] at ih
      exact ih
  | @literal bytes text c ascii plain later ih =>
    have other : UInt8.ofNat c.toNat ≠ 61 := fun same => by
      have equal := congrArg UInt8.toNat same
      rw [toNat_asciiByte ascii] at equal
      exact plain.1 (Char.toNat_inj.mp equal)
    rw [utf8_cons,utf8EncodeChar_ascii ascii,List.singleton_append,decode_literal other,ih]
    rfl
  | @escaped bytes text byte later ih =>
    rw [← List.cons_append,utf8_append,qpDecodeBytes_escape,ih]
    rfl

/-- A line without an escape is a piece of the bytes. -/
theorem infix_of_mem_qpLines {bytes : List UInt8} {text line : Text} (known : QpText bytes text)
    (member : line ∈ text.splitOn '\n') (plain : '=' ∉ line) : utf8 line <:+: bytes := by
  have pieces : ∃ first rest, text.splitOn '\n' = first::rest ∧ ('=' ∉ first → utf8 first <+: bytes) ∧
      ∀ line ∈ rest, '=' ∉ line → utf8 line <:+: bytes := by
    clear member
    induction known with
    | nil => exact ⟨[],[],by simp,by simp [utf8],by simp⟩
    | @hardBreak bytes text later ih =>
      obtain ⟨first,rest,split,start,within⟩ := ih
      refine ⟨[],first::rest,by simp [splitOn_cons,split],by simp [utf8],fun line member free => ?_⟩
      apply List.infix_cons
      rcases List.mem_cons.mp member with rfl | member
      · exact (start free).isInfix
      · exact within line member free
    | @softBreak bytes text later ih =>
      obtain ⟨first,rest,split,start,within⟩ := ih
      refine ⟨['='],first::rest,by simp [splitOn_cons,split],by simp,fun line member free => ?_⟩
      rcases List.mem_cons.mp member with rfl | member
      · exact (start free).isInfix
      · exact within line member free
    | @literal bytes text c ascii other later ih =>
      obtain ⟨first,rest,split,start,within⟩ := ih
      refine ⟨c::first,rest,by simp [splitOn_cons,split,other.2],fun free => ?_,fun line member free => ?_⟩
      · rw [utf8_cons,utf8EncodeChar_ascii ascii]
        exact List.cons_prefix_cons.mpr ⟨rfl,start fun inside => free (List.mem_cons_of_mem _ inside)⟩
      · exact List.infix_cons (within line member free)
    | @escaped bytes text byte later ih =>
      obtain ⟨first,rest,split,_,within⟩ := ih
      have digits : ∀ n, hexDigit n ≠ '\n' := fun n => hexDigit_ne n (by decide)
      refine ⟨'=' :: (hexPair byte ++ first),rest,by simp [hexPair,splitOn_cons,split,digits],by simp,
        fun line member free => ?_⟩
      exact List.infix_cons (within line member free)
  obtain ⟨first,rest,split,start,within⟩ := pieces
  rw [split] at member
  rcases List.mem_cons.mp member with rfl | later
  · exact (start plain).isInfix
  · exact within line later plain

private theorem decode_token (byte : UInt8) (rest : List UInt8) :
    qpDecodeBytes false (utf8 (qpToken byte) ++ rest) = (qpDecodeBytes false rest).map (byte :: ·) := by
  rcases qpToken_cases byte with ⟨c,token,same,printable,equals⟩ | ⟨token,_,_⟩
  · have single : utf8 [c] = [byte] := by
      rw [utf8_cons,utf8EncodeChar_ascii printable.ascii,same,UInt8.ofNat_toNat]
      rfl
    have other : byte ≠ 61 := by
      rintro rfl
      exact equals (Char.toNat_inj.mp same)
    rw [token,single,List.singleton_append]
    exact decode_literal other rest
  · rw [token]
    exact qpDecodeBytes_escape false byte rest

private theorem decode_pushed (lineLen : Nat) (byte : UInt8) (rest : List UInt8) :
    qpDecodeBytes false (utf8 (qpPushToken lineLen (qpToken byte)).1 ++ rest) =
      (qpDecodeBytes false rest).map (byte :: ·) := by
  unfold qpPushToken
  split
  · have soft : ∀ more, qpDecodeBytes false (61::13::10::more) = qpDecodeBytes false more := fun more => by
      rw [qpDecodeBytes]
      simp
    rw [utf8_append,List.append_assoc]
    exact (soft _).trans (decode_token byte rest)
  · exact decode_token byte rest

theorem decode_encodeFrom (lineLen : Nat) (bytes : List UInt8) :
    qpDecodeBytes false (utf8 (qpEncodeFrom lineLen bytes)) = .ok bytes := by
  induction bytes using List.twoStepInduction generalizing lineLen with
  | nil => rfl
  | singleton byte =>
    have pushed := decode_pushed lineLen byte []
    rw [List.append_nil] at pushed
    exact pushed
  | cons_cons byte next rest ih ihd =>
    rw [qpEncodeFrom]
    by_cases pair : byte = 13 ∧ next = 10
    · obtain ⟨rfl,rfl⟩ := pair
      have kept : qpDecodeBytes false (13::10::utf8 (qpEncodeFrom 0 rest)) = .ok (13::10::rest) := by
        rw [decode_literal (by decide),decode_literal (by decide),ih 0]
        rfl
      exact kept
    · rw [if_neg (by simpa using pair)]
      dsimp only
      rw [utf8_append,decode_pushed,ihd next]
      rfl

end QpText

/-- What is encoded is decoded to the same bytes; with the line endings of the encoded
text normalized in between, CRLF in the bytes comes back as LF. -/
theorem quoted_printable_round_trips (bytes : List UInt8) : qpDecode (qpEncode bytes) false = .ok bytes ∧
    qpDecode (normalizeRawMessage (qpEncode bytes)) false = .ok (unpair 13 10 bytes) := by
  refine ⟨QpText.decode_encodeFrom 0 bytes,?_⟩
  rw [normalizeRawMessage_eq]
  exact (QpText.of_bytes 0 bytes).decode

end MechanicsCore.Mime
