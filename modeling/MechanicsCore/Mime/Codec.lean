import MechanicsCore.Library.Outcome
import MechanicsCore.Mime.QuotedPrintable

/-! What is encoded is decoded: base64 through line wrapping and line endings, and
the encoded words of header values. -/
namespace MechanicsCore.Mime
open MechanicsCore.Library Text Outcome

section Wrapping

theorem of_mem_wrapAsciiLineFrom {width lineLen : Nat} {s : Text} {c : Char}
    (member : c ∈ wrapAsciiLineFrom width lineLen s) : c ∈ s ∨ c = '\r' ∨ c = '\n' := by
  induction s generalizing lineLen with
  | nil => exact .inl member
  | cons d s ih =>
    have rest : ∀ lineLen, c ∈ d :: wrapAsciiLineFrom width lineLen s → c ∈ d::s ∨ c = '\r' ∨ c = '\n' := by
      intro lineLen inside
      rcases List.mem_cons.mp inside with rfl | later
      · exact .inl List.mem_cons_self
      · exact (ih later).imp (List.mem_cons_of_mem _) id
    rw [wrapAsciiLineFrom] at member
    split at member
    · rcases List.mem_cons.mp member with cr | member
      · exact .inr (.inl cr)
      · rcases List.mem_cons.mp member with lf | member
        · exact .inr (.inr lf)
        · exact rest _ member
    · exact rest _ member

theorem dash_not_mem_base64EncodeWrapped [Base64] (bytes : List UInt8) : '-' ∉ base64EncodeWrapped bytes := by
  intro member
  rcases of_mem_wrapAsciiLineFrom member with inside | isBreak
  · exact (Base64.encode_symbol inside).2.2 rfl
  · exact absurd isBreak (by decide)

theorem toLf_wrapAsciiLineFrom (width : Nat) {s : Text} (free : ∀ c ∈ s, isAsciiWhitespace c = false) (lineLen : Nat) :
    (toLf (wrapAsciiLineFrom width lineLen s)).filter (fun c => !isAsciiWhitespace c) = s := by
  induction s generalizing lineLen with
  | nil => rfl
  | cons c s ih =>
    have here := free c List.mem_cons_self
    have later := ih fun d member => free d (List.mem_cons_of_mem _ member)
    have notCr : '\r' ∉ [c] := by
      intro member
      rw [← List.mem_singleton.mp member] at here
      contradiction
    have kept : ∀ lineLen, (toLf (c :: wrapAsciiLineFrom width lineLen s)).filter (fun c => !isAsciiWhitespace c) = c::s := by
      intro lineLen
      have read := toLf_append notCr (wrapAsciiLineFrom width lineLen s)
      rw [List.singleton_append] at read
      rw [read,List.singleton_append,List.filter_cons_of_pos (by simp [here]),later]
    rw [wrapAsciiLineFrom]
    split
    · have broken := toLf_crlf [] (c :: wrapAsciiLineFrom width c.utf8Size s)
      rw [List.nil_append] at broken
      change (toLf ('\r' :: '\n' :: c :: wrapAsciiLineFrom width c.utf8Size s)).filter _ = _
      rw [broken]
      exact kept _
    · exact kept _

/-- The liberal decoder reads wrapped base64 whatever became of its line endings. -/
theorem base64DecodeLiberal_wrapped [Base64] (bytes : List UInt8) :
    base64DecodeLiberal (toLf (base64EncodeWrapped bytes)) = .ok bytes := by
  have free : ∀ c ∈ Base64.encode bytes, isAsciiWhitespace c = false := fun _ member => (Base64.encode_symbol member).2.1
  unfold base64DecodeLiberal base64EncodeWrapped wrapAsciiLine
  rw [toLf_wrapAsciiLineFrom 76 free 0,Base64.decode_encode]

end Wrapping

section EncodedWords

private theorem decode_qEncodeByte (byte : UInt8) (rest : List UInt8) :
    qpDecodeBytes true (utf8 (qEncodeByte byte) ++ rest) = (qpDecodeBytes true rest).map (byte :: ·) := by
  unfold qEncodeByte
  split
  · rename_i space
    rw [beq_iff_eq.mp space]
    change qpDecodeBytes true (95::rest) = _
    rw [qpDecodeBytes.eq_def]
    rfl
  · split
    · rename_i literal
      have table : ∀ n < 256, (65 ≤ UInt8.ofNat n && UInt8.ofNat n ≤ 90 || 97 ≤ UInt8.ofNat n && UInt8.ofNat n ≤ 122 ||
          48 ≤ UInt8.ofNat n && UInt8.ofNat n ≤ 57 || [33,42,43,45,47].contains (UInt8.ofNat n)) = true →
          UInt8.ofNat n < 128 ∧ UInt8.ofNat n ≠ 95 ∧ UInt8.ofNat n ≠ 61 := by decide +kernel
      have known := table byte.toNat byte.toNat_lt
      rw [UInt8.ofNat_toNat] at known
      obtain ⟨ascii,underscore,equals⟩ := known literal
      have low : [byte].all (· < 128) = true := by simpa using ascii
      have single : utf8 [Char.ofNat byte.toNat] = [byte] := utf8_asciiText low
      rw [single,List.singleton_append,qpDecodeBytes.eq_def]
      simp [underscore,equals]
    · exact qpDecodeBytes_escape true byte rest

theorem qpDecodeBytes_qEncode (bytes : List UInt8) : qpDecodeBytes true (utf8 (bytes.flatMap qEncodeByte)) = .ok bytes := by
  induction bytes with
  | nil => rfl
  | cons byte bytes ih =>
    rw [List.flatMap_cons,utf8_append,decode_qEncodeByte,ih]
    rfl

theorem qEncodeByte_chars (byte : UInt8) : ∀ c ∈ qEncodeByte byte, 0x21 ≤ c.toNat ∧ c.toNat ≤ 0x7E ∧ c ≠ '?' := by
  have table : ∀ n < 256, (qEncodeByte (UInt8.ofNat n)).all
      (fun c => decide (0x21 ≤ c.toNat ∧ c.toNat ≤ 0x7E ∧ c ≠ '?')) = true := by decide +kernel
  have known := table byte.toNat byte.toNat_lt
  rw [UInt8.ofNat_toNat] at known
  exact List.all_iff_forall_prop.mp known

theorem qEncodeHeader_chars (value : Text) : ∀ c ∈ qEncodeHeader value, 0x21 ≤ c.toNat ∧ c.toNat ≤ 0x7E := by
  have literals : ∀ c ∈ ("=?UTF-8?Q?" ++ "?=" : Text), 0x21 ≤ c.toNat ∧ c.toNat ≤ 0x7E :=
    List.all_iff_forall_prop.mp (by decide)
  intro c member
  rcases List.mem_append.mp member with inside | last
  · rcases List.mem_append.mp inside with first | middle
    · exact literals c (List.mem_append_left _ first)
    · obtain ⟨byte,_,found⟩ := List.mem_flatMap.mp middle
      obtain ⟨low,high,_⟩ := qEncodeByte_chars byte c found
      exact ⟨low,high⟩
  · exact literals c (List.mem_append_right _ last)

theorem qEncodeHeader_ends (value : Text) : ∃ inner, qEncodeHeader value = '=' :: (inner ++ ['=']) := by
  refine ⟨"?UTF-8?Q?" ++ (utf8 value).flatMap qEncodeByte ++ "?",?_⟩
  unfold qEncodeHeader
  simp

/-- An encoded word as the scanner cuts it out of a text, between what is before it and what is left to scan. -/
structure EncodedWord where
  before : Text
  charset : Text
  encoding : Text
  encoded : Text
  later : Text

def EncodedWord.text (w : EncodedWord) : Text :=
  w.before ++ "=?" ++ (w.charset ++ "?" ++ (w.encoding ++ "?" ++ (w.encoded ++ "?=" ++ w.later)))

def EncodedWord.decode [Base64] (w : EncodedWord) : JsResult Text := decodeEncodedWord w.charset w.encoding w.encoded

def nextWord (s : Text) : Option EncodedWord := do
  let (before,afterStart) ← splitOnce "=?" s
  let (charset,afterCharset) ← splitOnce "?" afterStart
  let (encoding,afterEncoding) ← splitOnce "?" afterCharset
  let (encoded,later) ← splitOnce "?=" afterEncoding
  return ⟨before,charset,encoding,encoded,later⟩

theorem nextWord_some_iff {s : Text} {w : EncodedWord} : nextWord s = some w ↔
    ∃ afterStart afterCharset afterEncoding, splitOnce "=?" s = some (w.before,afterStart) ∧
      splitOnce "?" afterStart = some (w.charset,afterCharset) ∧
      splitOnce "?" afterCharset = some (w.encoding,afterEncoding) ∧
      splitOnce "?=" afterEncoding = some (w.encoded,w.later) := by
  constructor
  · intro found
    obtain ⟨⟨before,afterStart⟩,start,found⟩ := Option.bind_eq_some_iff.mp found
    obtain ⟨⟨charset,afterCharset⟩,second,found⟩ := Option.bind_eq_some_iff.mp found
    obtain ⟨⟨encoding,afterEncoding⟩,third,found⟩ := Option.bind_eq_some_iff.mp found
    obtain ⟨⟨encoded,later⟩,last,found⟩ := Option.bind_eq_some_iff.mp found
    cases found
    exact ⟨afterStart,afterCharset,afterEncoding,start,second,third,last⟩
  · rintro ⟨afterStart,afterCharset,afterEncoding,start,second,third,last⟩
    unfold nextWord
    simp only [start,second,third,last,Option.bind_eq_bind,Option.bind_some]
    rfl

theorem nextWord_text {s : Text} {w : EncodedWord} (found : nextWord s = some w) : s = w.text := by
  obtain ⟨_,_,_,start,second,third,last⟩ := nextWord_some_iff.mp found
  rw [EncodedWord.text,← splitOnce_some last,← splitOnce_some third,← splitOnce_some second]
  exact splitOnce_some start

/-- Induction along the rounds of the scanner. -/
theorem nextWord_induction {motive : Text → Prop} (plain : ∀ s, nextWord s = none → motive s)
    (word : ∀ s w, nextWord s = some w → motive w.later → motive s) (s : Text) : motive s := by
  induction length : s.length using Nat.strong_induction_on generalizing s with
  | _ n ih =>
    cases found : nextWord s with
    | none => exact plain s found
    | some w =>
      have shorter : w.later.length < n := by
        have whole := congrArg List.length (nextWord_text found)
        have mark : ("=?" : Text).length = 2 := rfl
        simp only [EncodedWord.text,List.length_append] at whole
        omega
      exact word s w found (ih _ shorter w.later rfl)

/-- One round of the scanner. -/
theorem decodeEncodedWords_eq [Base64] (s : Text) : decodeEncodedWords s = (nextWord s).elim (.ok s) fun w => do
    let decoded ← w.decode
    return w.before ++ decoded ++ (← decodeEncodedWords w.later) := by
  rw [decodeEncodedWords,nextWord]
  split
  · rename_i start
    rw [start]
    rfl
  · rename_i start
    simp only [start,Option.bind_eq_bind,Option.bind_some]
    split
    · rename_i charset
      rw [charset]
      rfl
    · rename_i charset
      simp only [charset,Option.bind_some]
      split
      · rename_i encoding
        rw [encoding]
        rfl
      · rename_i encoding
        simp only [encoding,Option.bind_some]
        split
        · rename_i text
          rw [text]
          rfl
        · rename_i text
          rw [text]
          rfl

theorem decodeEncodedWords_none [Base64] {s : Text} (none : nextWord s = none) : decodeEncodedWords s = .ok s := by
  rw [decodeEncodedWords_eq,none]
  rfl

theorem decodeEncodedWords_some [Base64] {s decoded : Text} {w : EncodedWord} (found : nextWord s = some w)
    (known : decodeEncodedWords s = .ok decoded) :
    ∃ text rest, w.decode = .ok text ∧ decodeEncodedWords w.later = .ok rest ∧ decoded = w.before ++ text ++ rest := by
  rw [decodeEncodedWords_eq,found,Option.elim_some] at known
  obtain ⟨text,read,known⟩ := bind_ok_iff.mp known
  obtain ⟨rest,scanned,known⟩ := bind_ok_iff.mp known
  exact ⟨text,rest,read,scanned,(pure_ok_iff.mp known).symm⟩

theorem decodeEncodedWords_absent [Base64] {value : Text} (absent : ¬ ("=?" : Text) <:+: value) :
    decodeEncodedWords value = .ok value := by
  have start : splitOnce "=?" value = none := splitOnce_absent absent
  refine decodeEncodedWords_none ?_
  rw [nextWord,start]
  rfl

theorem nextWord_qEncode {before : Text} (plain : '=' ∉ before) (value later : Text) :
    nextWord (before ++ qEncodeHeader value ++ later) =
      some ⟨before,"UTF-8","Q",(utf8 value).flatMap qEncodeByte,later⟩ := by
  let encoded := (utf8 value).flatMap qEncodeByte
  have free : '?' ∉ encoded := by
    intro member
    obtain ⟨byte,_,found⟩ := List.mem_flatMap.mp member
    exact (qEncodeByte_chars byte '?' found).2.2 rfl
  have shape : before ++ qEncodeHeader value ++ later =
      before ++ "=?" ++ ("UTF-8" ++ '?' :: ("Q" ++ '?' :: (encoded ++ "?=" ++ later))) := by
    unfold qEncodeHeader
    rw [List.append_assoc,List.append_assoc,List.append_assoc,List.append_assoc,List.append_assoc encoded]
    exact congrArg (before ++ ·) rfl
  have start : splitOnce "=?" (before ++ qEncodeHeader value ++ later) =
      some (before,"UTF-8" ++ '?' :: ("Q" ++ '?' :: (encoded ++ "?=" ++ later))) := by
    rw [shape]
    exact splitOnce_found before ['?'] _ plain
  have charset : splitOnce "?" ("UTF-8" ++ '?' :: ("Q" ++ '?' :: (encoded ++ "?=" ++ later))) =
      some (("UTF-8" : Text),"Q" ++ '?' :: (encoded ++ "?=" ++ later)) :=
    splitOnce_char "UTF-8" _ (by decide)
  have encoding : splitOnce "?" ("Q" ++ '?' :: (encoded ++ "?=" ++ later)) =
      some (("Q" : Text),encoded ++ "?=" ++ later) :=
    splitOnce_char "Q" _ (by decide)
  have text : splitOnce "?=" (encoded ++ "?=" ++ later) = some (encoded,later) :=
    splitOnce_found encoded ['='] later free
  exact nextWord_some_iff.mpr ⟨_,_,_,start,charset,encoding,text⟩

/-- A word the encoder wrote is decoded to the value, whatever follows it. -/
theorem decodeEncodedWords_word [Base64] {before : Text} (plain : '=' ∉ before) (value later : Text) :
    decodeEncodedWords (before ++ qEncodeHeader value ++ later) =
      (decodeEncodedWords later).map fun rest => before ++ value ++ rest := by
  let encoded := (utf8 value).flatMap qEncodeByte
  have word : decodeEncodedWord "UTF-8" "Q" encoded = .ok value := by
    have bytes : qpDecode encoded true = .ok (utf8 value) := qpDecodeBytes_qEncode (utf8 value)
    have known : (toAsciiLowercase "UTF-8" != ("utf-8" : Text) && toAsciiLowercase "UTF-8" != ("utf8" : Text)) = false ∧
        (toAsciiLowercase "Q" == ("b" : Text)) = false ∧ (toAsciiLowercase "Q" == ("q" : Text)) = true := by decide
    unfold decodeEncodedWord
    simp only [known.1,known.2.1,known.2.2,bytes,fromUtf8_utf8,bind,Except.bind]
    rfl
  rw [decodeEncodedWords_eq,nextWord_qEncode plain]
  change (decodeEncodedWord "UTF-8" "Q" encoded >>= fun decoded => _) = _
  rw [word]
  cases decodeEncodedWords later <;> rfl

/-- An encoded header value is decoded to the value. -/
theorem decodeEncodedWords_qEncode [Base64] (value : Text) : decodeEncodedWords (qEncodeHeader value) = .ok value := by
  have rest : decodeEncodedWords [] = .ok [] := decodeEncodedWords_absent (by simp)
  have free : '=' ∉ ([] : Text) := by simp
  have word := decodeEncodedWords_word free value []
  rw [rest,List.nil_append,List.append_nil] at word
  rw [word]
  exact congrArg Except.ok (List.append_nil value)

end EncodedWords

end MechanicsCore.Mime
