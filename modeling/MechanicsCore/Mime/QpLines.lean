import MechanicsCore.Mime.QuotedPrintable

/-! The lines of a quoted-printable text. The encoder keeps the line breaks of the
bytes and cuts every line between them into pieces, with a soft break after each
piece but the last. -/
namespace MechanicsCore.Mime
open MechanicsCore.Library Text

/-- The lines of a text split at CRLF. -/
def crlfLines (s : Text) : List Text := pairLines '\r' '\n' s

/-- The pieces of a line, the first one behind `lineLen` characters. -/
def qpPieces : (lineLen : Nat) → List UInt8 → List (List UInt8)
  | _, [] => [[]]
  | lineLen, byte::line =>
    if 75 < lineLen + (qpToken byte).length then [] :: (qpPieces (qpToken byte).length line).modifyHead (byte :: ·)
    else (qpPieces (lineLen + (qpToken byte).length) line).modifyHead (byte :: ·)

def qpLines : List (List UInt8) → List Text
  | [] => []
  | [last] => [last.flatMap qpToken]
  | piece::next::pieces => (piece.flatMap qpToken ++ ['=']) :: qpLines (next::pieces)

section Lines

theorem qpPieces_cons (lineLen : Nat) (line : List UInt8) : ∃ first rest, qpPieces lineLen line = first::rest := by
  induction line generalizing lineLen with
  | nil => exact ⟨[],[],rfl⟩
  | cons byte line ih =>
    rw [qpPieces]
    split
    · exact ⟨_,_,rfl⟩
    · obtain ⟨first,rest,pieces⟩ := ih (lineLen + (qpToken byte).length)
      rw [pieces]
      exact ⟨_,_,rfl⟩

theorem qpLines_modifyHead (byte : UInt8) (pieces : List (List UInt8)) :
    qpLines (pieces.modifyHead (byte :: ·)) = (qpLines pieces).modifyHead (qpToken byte ++ ·) := by
  match pieces with
  | [] => rfl
  | [last] => rfl
  | piece::next::pieces =>
    change ((byte::piece).flatMap qpToken ++ ['=']) :: _ = (qpToken byte ++ (piece.flatMap qpToken ++ ['='])) :: _
    rw [List.flatMap_cons,List.append_assoc]

theorem crlfLines_token (byte : UInt8) (text : Text) :
    crlfLines (qpToken byte ++ text) = (crlfLines text).modifyHead (qpToken byte ++ ·) :=
  pairLines_append (break_not_mem_qpToken byte (.inl rfl)) text

theorem crlfLines_softBreak (text : Text) : crlfLines ("=\r\n" ++ text) = ['='] :: crlfLines text := by
  have cut : crlfLines (['='] ++ '\r' :: '\n' :: text) = ([] :: crlfLines text).modifyHead (['='] ++ ·) := by
    unfold crlfLines
    rw [pairLines_append (by simp),pairLines_break]
  exact cut

/-- The lines written for the rest of a line of bytes, when those of the bytes behind
its first byte are known. -/
theorem crlfLines_pushed (lineLen : Nat) (byte : UInt8) {line : List UInt8} {text : Text} {later : List Text}
    (known : crlfLines text = qpLines (qpPieces (qpPushToken lineLen (qpToken byte)).2 line) ++ later) :
    crlfLines ((qpPushToken lineLen (qpToken byte)).1 ++ text) = qpLines (qpPieces lineLen (byte::line)) ++ later := by
  have head : ∀ n, ((qpLines (qpPieces n line) ++ later).modifyHead (qpToken byte ++ ·)) =
      qpLines ((qpPieces n line).modifyHead (byte :: ·)) ++ later := by
    intro n
    obtain ⟨first,rest,pieces⟩ := qpPieces_cons n line
    rw [qpLines_modifyHead,pieces]
    cases rest with
    | nil => rfl
    | cons next rest => rfl
  rw [qpPieces]
  unfold qpPushToken at known ⊢
  split at known
  · rename_i overrun
    obtain ⟨first,rest,pieces⟩ := qpPieces_cons (qpToken byte).length line
    rw [if_pos overrun,if_pos overrun,List.append_assoc,crlfLines_softBreak,crlfLines_token,known,head,pieces]
    rfl
  · rename_i room
    rw [if_neg room,if_neg room,crlfLines_token,known,head]

theorem crlfLines_qpEncodeFrom (lineLen : Nat) (bytes : List UInt8) :
    ∃ first rest, pairLines 13 10 bytes = first::rest ∧
      crlfLines (qpEncodeFrom lineLen bytes) =
        qpLines (qpPieces lineLen first) ++ rest.flatMap fun line => qpLines (qpPieces 0 line) := by
  induction bytes using List.twoStepInduction generalizing lineLen with
  | nil => exact ⟨[],[],rfl,rfl⟩
  | singleton byte =>
    have none : crlfLines [] = qpLines (qpPieces (qpPushToken lineLen (qpToken byte)).2 []) ++ [] := rfl
    have pushed := crlfLines_pushed lineLen byte none
    rw [List.append_nil] at pushed
    exact ⟨[byte],[],rfl,pushed⟩
  | cons_cons byte next bytes ih ihd =>
    rw [pairLines,qpEncodeFrom]
    by_cases pair : byte = 13 ∧ next = 10
    · obtain ⟨first,rest,split,lines⟩ := ih 0
      rw [if_pos pair,if_pos (by simp [pair]),split]
      refine ⟨[],first::rest,rfl,?_⟩
      have broken : crlfLines ("\r\n" ++ qpEncodeFrom 0 bytes) = [] :: crlfLines (qpEncodeFrom 0 bytes) := pairLines_break _
      rw [broken,lines,List.flatMap_cons]
      rfl
    · obtain ⟨first,rest,split,lines⟩ := ihd next (qpPushToken lineLen (qpToken byte)).2
      rw [if_neg pair,if_neg (by simpa using pair),split]
      exact ⟨byte::first,rest,rfl,crlfLines_pushed lineLen byte lines⟩

theorem crlfLines_qpEncode (bytes : List UInt8) :
    crlfLines (qpEncode bytes) = (pairLines 13 10 bytes).flatMap fun line => qpLines (qpPieces 0 line) := by
  obtain ⟨first,rest,split,lines⟩ := crlfLines_qpEncodeFrom 0 bytes
  rw [split,List.flatMap_cons]
  exact lines

end Lines

section Pieces

theorem qpToken_length (byte : UInt8) : (qpToken byte).length ≤ 3 := by
  rcases qpToken_cases byte with ⟨c,token,_⟩ | ⟨token,_⟩
  · simp [token]
  · simp [token,hexPair]

/-- The tokens of a piece and its soft break fill at most 76 characters, together with
what stands before the first piece. -/
theorem qpPieces_length {lineLen : Nat} (room : lineLen ≤ 75) (line : List UInt8) :
    ∃ first rest, qpPieces lineLen line = first::rest ∧ lineLen + (first.flatMap qpToken).length ≤ 75 ∧
      ∀ piece ∈ rest, (piece.flatMap qpToken).length ≤ 75 := by
  induction line generalizing lineLen with
  | nil => exact ⟨[],[],rfl,room,by simp⟩
  | cons byte line ih =>
    have short := qpToken_length byte
    rw [qpPieces]
    split
    · obtain ⟨first,rest,pieces,start,others⟩ := ih (show (qpToken byte).length ≤ 75 by omega)
      refine ⟨[],(byte::first)::rest,by rw [pieces]; rfl,room,fun piece member => ?_⟩
      rcases List.mem_cons.mp member with rfl | later
      · rw [List.flatMap_cons,List.length_append]
        exact start
      · exact others piece later
    · rename_i fits
      obtain ⟨first,rest,pieces,start,others⟩ := ih (show lineLen + (qpToken byte).length ≤ 75 by omega)
      refine ⟨byte::first,rest,by rw [pieces]; rfl,?_,others⟩
      rw [List.flatMap_cons,List.length_append,← Nat.add_assoc]
      exact start

/-- The last piece of a line ends where the line ends. -/
theorem qpPieces_last (lineLen : Nat) (line : List UInt8) :
    ∃ pieces last, qpPieces lineLen line = pieces ++ [last] ∧ last.getLast? = line.getLast? := by
  induction line generalizing lineLen with
  | nil => exact ⟨[],[],rfl,rfl⟩
  | cons byte line ih =>
    have extended : ∀ n, ∃ pieces last, (qpPieces n line).modifyHead (byte :: ·) = pieces ++ [last] ∧
        last.getLast? = (byte::line).getLast? := by
      intro n
      obtain ⟨pieces,last,split,ends⟩ := ih n
      cases pieces with
      | nil =>
        refine ⟨[],byte::last,by rw [split]; rfl,?_⟩
        rw [List.getLast?_cons,List.getLast?_cons,ends]
      | cons piece pieces =>
        refine ⟨(byte::piece)::pieces,last,by rw [split]; rfl,?_⟩
        cases line with
        | nil => simp [qpPieces] at split
        | cons next line => rw [ends,List.getLast?_cons_cons]
    rw [qpPieces]
    split
    · obtain ⟨pieces,last,split,ends⟩ := extended (qpToken byte).length
      exact ⟨[]::pieces,last,by rw [split]; rfl,ends⟩
    · exact extended _

theorem qpLines_append (pieces : List (List UInt8)) (last : List UInt8) :
    qpLines (pieces ++ [last]) = (pieces.map fun piece => piece.flatMap qpToken ++ ['=']) ++ [last.flatMap qpToken] := by
  induction pieces with
  | nil => rfl
  | cons piece pieces ih =>
    cases pieces with
    | nil => rfl
    | cons next pieces => exact congrArg ((piece.flatMap qpToken ++ ['=']) :: ·) ih

end Pieces

/-- Every `=` is the last character, or two upper-case hexadecimal digits follow it. -/
def Escaped (line : Text) : Prop := ∀ a b, line = a ++ '=' :: b →
  b = [] ∨ ∃ hi lo rest, b = hi::lo::rest ∧ hi ∈ ("0123456789ABCDEF" : Text) ∧ lo ∈ ("0123456789ABCDEF" : Text)

structure QpLine (line : Text) : Prop where
  short : line.length ≤ 76
  printable : ∀ c ∈ line, Printable c
  escaped : Escaped line

section WellFormed

theorem Escaped.literal {c : Char} (other : c ≠ '=') {line : Text} (later : Escaped line) : Escaped (c::line) := by
  intro a b split
  cases a with
  | nil => exact absurd (List.cons.inj split).1 other
  | cons d a => exact later a b (List.cons.inj split).2

theorem Escaped.escape (byte : UInt8) {line : Text} (later : Escaped line) : Escaped ('=' :: (hexPair byte ++ line)) := by
  have digit : ∀ n, hexDigit n ≠ '=' := fun n => hexDigit_ne n (by decide)
  intro a b split
  cases a with
  | nil => exact .inr ⟨_,_,line,(List.cons.inj split).2.symm,hexDigit_mem _,hexDigit_mem _⟩
  | cons d a => exact (later.literal (digit _)).literal (digit _) a b (List.cons.inj split).2

theorem Escaped.tokens (piece : List UInt8) {line : Text} (later : Escaped line) : Escaped (piece.flatMap qpToken ++ line) := by
  induction piece with
  | nil => exact later
  | cons byte piece ih =>
    rw [List.flatMap_cons,List.append_assoc]
    rcases qpToken_cases byte with ⟨c,token,_,_,other⟩ | ⟨token,_⟩
    · rw [token]
      exact ih.literal other
    · rw [token]
      exact ih.escape byte

theorem printable_token {byte : UInt8} {c : Char} (member : c ∈ qpToken byte) : Printable c := by
  rcases qpToken_cases byte with ⟨d,token,_,printable,_⟩ | ⟨token,_⟩
  · rw [token,List.mem_singleton] at member
    exact member ▸ printable
  · have digits : ∀ d ∈ ("0123456789ABCDEF" : Text), Printable d := List.all_iff_forall_prop.mp (by decide)
    rw [token,hexPair,List.mem_cons,List.mem_cons,List.mem_singleton] at member
    rcases member with rfl | rfl | rfl
    · decide
    · exact digits _ (hexDigit_mem _)
    · exact digits _ (hexDigit_mem _)

theorem qpLine_piece {piece : List UInt8} (short : (piece.flatMap qpToken).length ≤ 75) {tail : Text}
    (ends : tail = [] ∨ tail = ['=']) : QpLine (piece.flatMap qpToken ++ tail) := by
  have tokens : ∀ c ∈ piece.flatMap qpToken, Printable c := by
    intro c member
    obtain ⟨byte,_,inside⟩ := List.mem_flatMap.mp member
    exact printable_token inside
  rcases ends with rfl | rfl
  · rw [List.append_nil]
    refine ⟨by omega,tokens,?_⟩
    have none : Escaped [] := fun a b split => by simp at split
    have whole := none.tokens piece
    rwa [List.append_nil] at whole
  · have longer : (piece.flatMap qpToken ++ ['=']).length ≤ 76 := by
      rw [List.length_append]
      exact Nat.add_le_add_right short 1
    refine ⟨longer,fun c member => ?_,?_⟩
    · rcases List.mem_append.mp member with inside | last
      · exact tokens c inside
      · rw [List.mem_singleton.mp last]
        decide
    · refine Escaped.tokens piece fun a b split => .inl ?_
      cases a with
      | nil => exact (List.cons.inj split).2.symm
      | cons d a => simp at split

theorem qpLine_of_mem {line : List UInt8} {text : Text} (member : text ∈ qpLines (qpPieces 0 line)) : QpLine text := by
  obtain ⟨pieces,last,split,_⟩ := qpPieces_last 0 line
  have short : ∀ piece ∈ pieces ++ [last], (piece.flatMap qpToken).length ≤ 75 := by
    obtain ⟨first,rest,same,start,others⟩ := qpPieces_length (Nat.zero_le 75) line
    intro piece inside
    rw [← split,same] at inside
    rcases List.mem_cons.mp inside with rfl | later
    · omega
    · exact others piece later
  rw [split,qpLines_append] at member
  rcases List.mem_append.mp member with soft | hard
  · obtain ⟨piece,inside,rfl⟩ := List.mem_map.mp soft
    exact qpLine_piece (short piece (List.mem_append_left _ inside)) (.inr rfl)
  · rw [List.mem_singleton.mp hard,← List.append_nil (last.flatMap qpToken)]
    exact qpLine_piece (short last (by simp)) (.inl rfl)

theorem qpToken_ne_nil (byte : UInt8) : qpToken byte ≠ [] := by
  rcases qpToken_cases byte with ⟨c,token,_⟩ | ⟨token,_⟩ <;> simp [token]

/-- What the tokens of a piece end with is the end of its last byte's token. -/
theorem tokens_getLast (piece : List UInt8) :
    (piece.flatMap qpToken).getLast? = piece.getLast?.bind fun byte => (qpToken byte).getLast? := by
  rcases List.eq_nil_or_concat' piece with rfl | ⟨before,byte,rfl⟩
  · rfl
  · have ink := qpToken_ne_nil byte
    rw [List.flatMap_append,List.flatMap_singleton,List.getLast?_append_of_ne_nil _ ink,List.getLast?_concat]
    rfl

theorem qpToken_last {byte : UInt8} {c : Char} (last : (qpToken byte).getLast? = some c) :
    qpToken byte = [c] ∧ c.toNat = byte.toNat ∧ c ≠ '=' ∨ c ∈ ("0123456789ABCDEF" : Text) ∧ byte ≠ 9 ∧ byte ≠ 32 := by
  rcases qpToken_cases byte with ⟨d,token,same,_,other⟩ | ⟨token,blanks⟩
  · rw [token] at last
    cases last
    exact .inl ⟨token,same,other⟩
  · rw [token] at last
    cases last
    exact .inr ⟨hexDigit_mem _,blanks⟩

end WellFormed

theorem qpLine_qpEncode (bytes : List UInt8) : ∀ line ∈ crlfLines (qpEncode bytes), QpLine line := by
  intro text member
  rw [crlfLines_qpEncode] at member
  obtain ⟨line,_,inside⟩ := List.mem_flatMap.mp member
  exact qpLine_of_mem inside

theorem paired_qpEncode (bytes : List UInt8) : Paired '\r' '\n' (qpEncode bytes) := by
  refine paired_of_pairLines (by decide) fun line member => ?_
  have printable := (qpLine_qpEncode bytes line member).printable
  exact ⟨fun inside => absurd (printable _ inside) (by decide),fun inside => absurd (printable _ inside) (by decide)⟩

/-- The lines of what is encoded are short and printable, every break in it is CRLF, and
a `=` starts an escape or ends a line that another line follows. -/
theorem quoted_printable_well_formed (bytes : List UInt8) :
    (∀ line ∈ crlfLines (qpEncode bytes), QpLine line) ∧ Paired '\r' '\n' (qpEncode bytes) ∧
      ∀ last ∈ (crlfLines (qpEncode bytes)).getLast?, last.getLast? ≠ some '=' := by
  refine ⟨qpLine_qpEncode bytes,paired_qpEncode bytes,fun text final soft => ?_⟩
  rcases List.eq_nil_or_concat' (pairLines 13 10 bytes) with none | ⟨before,line,split⟩
  · exact absurd none (pairLines_ne_nil bytes)
  · obtain ⟨pieces,last,cut,_⟩ := qpPieces_last 0 line
    rw [crlfLines_qpEncode,split,List.flatMap_append,List.flatMap_singleton,cut,qpLines_append,← List.append_assoc,
      List.getLast?_concat] at final
    cases final
    rw [tokens_getLast,Option.bind_eq_some_iff] at soft
    obtain ⟨byte,_,token⟩ := soft
    rcases qpToken_last token with ⟨_,_,other⟩ | ⟨digit,_⟩
    · exact other rfl
    · exact absurd digit (by decide)

section TrailingBlanks

def EndsBlank (line : Text) : Prop := line.getLast? = some ' ' ∨ line.getLast? = some '\t'

theorem endsBlank_tokens (piece : List UInt8) :
    EndsBlank (piece.flatMap qpToken) ↔ piece.getLast? = some 32 ∨ piece.getLast? = some 9 := by
  rw [EndsBlank,tokens_getLast]
  cases last : piece.getLast? with
  | none => simp
  | some byte =>
    rw [Option.bind_some,Option.some_inj,Option.some_inj]
    constructor
    · rintro (space | tab)
      · rcases qpToken_last space with ⟨_,same,_⟩ | ⟨digit,_⟩
        · exact .inl (UInt8.toNat_inj.mp same.symm)
        · exact absurd digit (by decide)
      · rcases qpToken_last tab with ⟨_,same,_⟩ | ⟨digit,_⟩
        · exact .inr (UInt8.toNat_inj.mp same.symm)
        · exact absurd digit (by decide)
    · rintro (rfl | rfl)
      · exact .inl rfl
      · exact .inr rfl

/-- Of the lines written for one line of bytes only the last one can end with a blank. -/
theorem endsBlank_qpLines (line : List UInt8) :
    (∀ text ∈ qpLines (qpPieces 0 line), ¬ EndsBlank text) ↔ line.getLast? ≠ some 32 ∧ line.getLast? ≠ some 9 := by
  obtain ⟨pieces,last,cut,ends⟩ := qpPieces_last 0 line
  rw [cut,qpLines_append,← not_or,← ends,← endsBlank_tokens]
  constructor
  · intro clean
    exact clean _ (by simp)
  · intro clean text member
    rcases List.mem_append.mp member with soft | hard
    · obtain ⟨piece,_,rfl⟩ := List.mem_map.mp soft
      simp [EndsBlank]
    · rw [List.mem_singleton.mp hard]
      exact clean

end TrailingBlanks

/-- A line of what is encoded ends with a blank only where a line of the bytes does. -/
theorem trailing_blanks_iff (bytes : List UInt8) :
    (∀ line ∈ crlfLines (qpEncode bytes), ¬ EndsBlank line) ↔
      ∀ line ∈ pairLines 13 10 bytes, line.getLast? ≠ some 32 ∧ line.getLast? ≠ some 9 := by
  rw [crlfLines_qpEncode,List.forall_mem_flatMap]
  exact forall₂_congr fun line _ => endsBlank_qpLines line

/-- Nothing in the encoder looks at what follows a blank. -/
theorem blank_ends_line : ∃ line ∈ crlfLines (qpEncode (utf8 "a \r\nb")), EndsBlank line :=
  ⟨"a ",by decide,.inl rfl⟩

end MechanicsCore.Mime
