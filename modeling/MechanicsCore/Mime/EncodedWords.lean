import MechanicsCore.Mime.LeafRoundTrip

/-! Encoded words in header values. The encoder writes a value with characters
beyond ASCII as one word, which the scanner reads back; the scanner also takes
ASCII text of the same shape for a word, and keeps what stands between two words. -/
namespace MechanicsCore.Mime
open MechanicsCore.Library Text Line Outcome

/-- A value with characters beyond ASCII comes back from its rendered header, once the
line feed that ends the block is off, as `split_header_body` hands the block over. -/
theorem encoded_header_round_trips [Base64] (name value : Text) (named : validateHeaderName name = .ok ())
    (noLf : '\n' ∉ value) (noCr : '\r' ∉ value) (unicode : isAscii value = false) :
    ∃ out raw, renderHeaders [⟨name,value⟩] = .ok out ∧ normalizeRawMessage out = raw ++ "\n" ∧
      parseHeaders raw = .ok [⟨name,value⟩] := by
  have valid : ∀ header ∈ [Header.mk name value], header.Valid := by
    intro header member
    rw [List.mem_singleton.mp member]
    exact ⟨named,validateHeaderValue_plain noLf noCr⟩
  obtain ⟨blocks,rendered,matched⟩ := renderHeaders_blocks valid
  cases matched with
  | cons first none =>
    cases none
    obtain ⟨same,writes⟩ := first
    rename_i b
    have encoded : maybeEncodeHeaderValue value = qEncodeHeader value := by simp [maybeEncodeHeaderValue,unicode]
    rw [encoded] at writes
    have read : b.read = .ok ⟨name,value⟩ := by
      rw [HeaderBlock.read_encoded writes,same]
    refine ⟨_,join b.lines,rendered,?_,?_⟩
    · rw [List.flatMap_singleton,normalizeRawMessage_wire,join_append b.lines_ne_nil (List.cons_ne_nil blank [])]
      rfl
    · rw [parseHeaders_block,read]
      rfl

theorem encoded_header_round_trips_at_greeting :
    ∃ out raw, renderHeaders [⟨"Subject"," Grüße =?_"⟩] = .ok out ∧ normalizeRawMessage out = raw ++ "\n" ∧
      parseHeaders raw = .ok [⟨"Subject"," Grüße =?_"⟩] :=
  encoded_header_round_trips "Subject" " Grüße =?_" (by decide) (by decide) (by decide) (by decide)

theorem rendered_block_refused : ∃ out, renderHeaders [⟨"Subject","é"⟩] = .ok out ∧
    parseHeaders (normalizeRawMessage out) ≠ .ok [⟨"Subject","é"⟩] := by
  have valid : ∀ header ∈ [Header.mk "Subject" "é"], header.Valid := by
    intro header member
    rw [List.mem_singleton.mp member]
    exact ⟨by decide,by decide⟩
  obtain ⟨blocks,rendered,_⟩ := renderHeaders_blocks valid
  exact ⟨_,rendered,parseHeaders_wire _ _⟩

section Shape

/-- The shape of an encoded word somewhere in a text. -/
def LooksEncoded (s : Text) : Prop := ∃ before charset encoding encoded later : Text,
  s = before ++ "=?" ++ (charset ++ "?" ++ (encoding ++ "?" ++ (encoded ++ "?=" ++ later)))

private theorem found_behind (a pattern : Text) {s t : Text} (ends : a ++ pattern ++ t <:+ s) :
    ∃ before after, splitOnce pattern s = some (before,after) ∧ t <:+ after := by
  obtain ⟨front,rfl⟩ := ends
  exact splitOnce_first (front ++ a) t (by simp)

theorem nextWord_none_iff {s : Text} : nextWord s = none ↔ ¬ LooksEncoded s := by
  constructor
  · rintro none ⟨before,charset,encoding,encoded,later,rfl⟩
    obtain ⟨before',_,start,behind⟩ := found_behind before "=?" List.suffix_rfl
    obtain ⟨charset',_,second,behind⟩ := found_behind charset "?" behind
    obtain ⟨encoding',_,third,behind⟩ := found_behind encoding "?" behind
    obtain ⟨encoded',later',last,_⟩ := found_behind encoded "?=" behind
    have found := nextWord_some_iff (w := ⟨before',charset',encoding',encoded',later'⟩).mpr ⟨_,_,_,start,second,third,last⟩
    rw [found] at none
    contradiction
  · intro plain
    rw [Option.eq_none_iff_forall_ne_some]
    intro w found
    exact plain ⟨w.before,w.charset,w.encoding,w.encoded,w.later,nextWord_text found⟩

end Shape

section Lengths

theorem qpDecodeBytes_length {encodedWord : Bool} {bytes decoded : List UInt8}
    (known : qpDecodeBytes encodedWord bytes = .ok decoded) : decoded.length ≤ bytes.length := by
  fun_induction qpDecodeBytes encodedWord bytes generalizing decoded with
  | case1 | case5 =>
    cases known
    simp
  | case4 | case6 | case10 => contradiction
  | case2 _ _ _ ih | case3 _ _ _ _ ih =>
    obtain ⟨later,found,rfl⟩ := map_ok_iff.mp known
    have shorter := ih found
    simp only [List.length_cons]
    omega
  | case7 _ _ _ _ _ _ _ ih | case8 _ _ _ _ _ _ _ _ ih =>
    have shorter := ih known
    simp only [List.length_cons] at shorter ⊢
    omega
  | case9 _ _ _ _ _ _ _ _ _ _ _ _ ih =>
    obtain ⟨later,found,rfl⟩ := map_ok_iff.mp known
    have shorter := ih found
    simp only [List.length_cons]
    omega

/-- The bytes an encoded word stands for, whatever its charset. -/
def wordBytes [Base64] (encoding encoded : Text) : JsResult (List UInt8) :=
  if toAsciiLowercase encoding == "b" then base64DecodeLiberal encoded
  else if toAsciiLowercase encoding == "q" then qpDecode encoded true
  else .error "unsupported RFC 2047 encoding"

theorem decodeEncodedWord_bytes [Base64] {charset encoding encoded decoded : Text}
    (known : decodeEncodedWord charset encoding encoded = .ok decoded) :
    wordBytes encoding encoded = .ok (utf8 decoded) := by
  unfold decodeEncodedWord at known
  dsimp only at known
  unfold wordBytes
  split at known
  · contradiction
  · split at known
    · rename_i coded
      obtain ⟨bytes,read,known⟩ := bind_ok_iff.mp known
      split at known
      · rename_i valid
        rw [if_pos coded,read,← pure_ok_iff.mp known,utf8_of_fromUtf8 valid]
      · contradiction
    · rename_i other
      split at known
      · rename_i coded
        obtain ⟨bytes,read,known⟩ := bind_ok_iff.mp known
        split at known
        · rename_i valid
          rw [if_neg other,if_pos coded,read,← pure_ok_iff.mp known,utf8_of_fromUtf8 valid]
        · contradiction
      · contradiction

theorem wordBytes_length [Base64] {encoding encoded : Text} {bytes : List UInt8}
    (known : wordBytes encoding encoded = .ok bytes) : bytes.length ≤ (utf8 encoded).length := by
  unfold wordBytes at known
  split at known
  · unfold base64DecodeLiberal at known
    split at known
    · rename_i read
      cases known
      calc bytes.length ≤ (encoded.filter fun c => !isAsciiWhitespace c).length := Base64.decode_length read
        _ ≤ encoded.length := List.length_filter_le _ _
        _ ≤ (utf8 encoded).length := length_le_utf8 encoded
    · contradiction
  · split at known
    · exact qpDecodeBytes_length known
    · contradiction

theorem decodeEncodedWords_length [Base64] {s decoded : Text} (known : decodeEncodedWords s = .ok decoded) :
    (utf8 decoded).length ≤ (utf8 s).length ∧ (nextWord s ≠ none → (utf8 decoded).length < (utf8 s).length) := by
  induction s using nextWord_induction generalizing decoded with
  | plain s none =>
    rw [decodeEncodedWords_none none] at known
    cases known
    exact ⟨Nat.le_refl _,fun found => absurd none found⟩
  | word s w found ih =>
    obtain ⟨text,rest,read,scanned,rfl⟩ := decodeEncodedWords_some found known
    have shorter := (ih scanned).1
    have word := wordBytes_length (decodeEncodedWord_bytes read)
    have less : (utf8 (w.before ++ text ++ rest)).length < (utf8 s).length := by
      rw [nextWord_text found,EncodedWord.text]
      simp only [utf8_append,List.length_append]
      have mark : (utf8 "=?").length = 2 := rfl
      omega
    exact ⟨Nat.le_of_lt less,fun _ => less⟩

end Lengths

/-- An ASCII value is written as it is, and is read as written only where no part of
it has the shape of an encoded word. -/
theorem ascii_value_survives_iff [Base64] (value : Text) (ascii : isAscii value = true) :
    decodeEncodedWords (maybeEncodeHeaderValue value) = .ok value ↔ ¬ LooksEncoded value := by
  have same : maybeEncodeHeaderValue value = value := if_pos ascii
  rw [same,← nextWord_none_iff]
  constructor
  · intro kept
    by_contra found
    exact Nat.lt_irrefl _ ((decodeEncodedWords_length kept).2 found)
  · exact decodeEncodedWords_none

theorem ascii_value_survives_iff_at_comparison :
    isAscii "is x =? y" = true ∧ decodeEncodedWords (maybeEncodeHeaderValue "is x =? y") = .ok "is x =? y" :=
  ⟨by decide,(ascii_value_survives_iff "is x =? y" (by decide)).mpr (nextWord_none_iff.mp rfl)⟩

/-- An ASCII value that reads like the encoder's own word for another value. -/
def literalWord : Text := "=?UTF-8?Q?a?="

theorem literalWord_rewritten : isAscii literalWord = true ∧ validateHeaderValue literalWord = .ok () ∧
    decodeEncodedWords (maybeEncodeHeaderValue literalWord) ≠ .ok literalWord := by
  refine ⟨by decide,by decide,?_⟩
  have word : maybeEncodeHeaderValue literalWord = qEncodeHeader "a" := by decide
  rw [word,decodeEncodedWords_qEncode]
  intro same
  exact absurd (Except.ok.inj same) (by decide)

section Rows

/-- Blanks as a mailer puts them between two words. -/
def IsBlank (s : Text) : Prop := s ≠ [] ∧ ∀ c ∈ s, c = ' ' ∨ c = '\t'

/-- Encoded words in a row, each but the first with the blanks before it. -/
structure WordRow where
  first : Text
  rest : List (Text × Text)
  blank : ∀ word ∈ rest, IsBlank word.1

theorem IsBlank.white {s : Text} (blank : IsBlank s) : ∀ c ∈ s, isWhitespace c = true := by
  intro c member
  rcases blank.2 c member with rfl | rfl <;> decide

theorem IsBlank.not_mem {s : Text} (blank : IsBlank s) {c : Char} (other : ¬ (c = ' ' ∨ c = '\t')) : c ∉ s :=
  fun member => other (blank.2 c member)

namespace WordRow

def written (row : WordRow) : Text := qEncodeHeader row.first ++ row.rest.flatMap fun word => word.1 ++ qEncodeHeader word.2

def text (row : WordRow) : Text := row.first ++ row.rest.flatMap fun word => word.1 ++ word.2

/-- The row that is left of several lines of words when each fold is read as one space. -/
def unfolded (row : WordRow) (folds : List WordRow) : WordRow where
  first := row.first
  rest := row.rest ++ folds.flatMap fun fold => ([' '],fold.first) :: fold.rest
  blank := by
    intro word member
    rcases List.mem_append.mp member with own | later
    · exact row.blank word own
    · obtain ⟨fold,_,inside⟩ := List.mem_flatMap.mp later
      rcases List.mem_cons.mp inside with rfl | inside
      · exact ⟨by simp,by simp⟩
      · exact fold.blank word inside

theorem unfolded_written (row : WordRow) (folds : List WordRow) :
    (row.unfolded folds).written = row.written ++ folds.flatMap fun fold => ' ' :: fold.written := by
  simp [written,unfolded,List.flatMap_assoc]

theorem unfolded_text (row : WordRow) (folds : List WordRow) :
    (row.unfolded folds).text = row.text ++ folds.flatMap fun fold => ' ' :: fold.text := by
  simp [text,unfolded,List.flatMap_assoc]

theorem decode_written [Base64] (row : WordRow) : decodeEncodedWords row.written = .ok row.text := by
  have rest : ∀ words : List (Text × Text), (∀ word ∈ words, IsBlank word.1) →
      decodeEncodedWords (words.flatMap fun word => word.1 ++ qEncodeHeader word.2) =
        .ok (words.flatMap fun word => word.1 ++ word.2) := by
    intro words blank
    induction words with
    | nil => exact decodeEncodedWords_absent (by simp)
    | cons word words ih =>
      have free : '=' ∉ word.1 := (blank word List.mem_cons_self).not_mem (by decide)
      rw [List.flatMap_cons,decodeEncodedWords_word free,ih fun other member => blank other (List.mem_cons_of_mem _ member),
        List.flatMap_cons]
      rfl
  have free : '=' ∉ ([] : Text) := by simp
  have first := decodeEncodedWords_word free row.first (row.rest.flatMap fun word => word.1 ++ qEncodeHeader word.2)
  rw [rest row.rest row.blank] at first
  exact first

theorem trim_written (row : WordRow) : trim row.written = row.written := by
  obtain ⟨inner,ends⟩ := qEncodeHeader_ends row.first
  have last : ∀ (words : List (Text × Text)) (s : Text), s.getLast? = some '=' →
      (s ++ words.flatMap fun word => word.1 ++ qEncodeHeader word.2).getLast? = some '=' := by
    intro words
    induction words with
    | nil => simp
    | cons word words ih =>
      intro s _
      obtain ⟨inner,ends⟩ := qEncodeHeader_ends word.2
      rw [List.flatMap_cons,← List.append_assoc]
      exact ih _ (List.getLast?_eq_some_iff.mpr ⟨s ++ (word.1 ++ '=' :: inner),by simp [ends]⟩)
  rw [trim_eq_self_iff]
  constructor
  · intro c first
    rw [written,ends,List.cons_append,List.head?_cons] at first
    cases first
    decide
  · intro c final
    rw [written,last row.rest _ (List.getLast?_eq_some_iff.mpr ⟨'=' :: inner,ends⟩)] at final
    cases final
    decide

theorem not_mem_written (row : WordRow) {c : Char} (control : c.toNat < 0x21) (other : ¬ (c = ' ' ∨ c = '\t')) :
    c ∉ row.written := by
  have plain : ∀ value, c ∉ qEncodeHeader value := by
    intro value inside
    have visible := (qEncodeHeader_chars value c inside).1
    omega
  intro member
  rcases List.mem_append.mp member with first | later
  · exact plain _ first
  · obtain ⟨word,inside,here⟩ := List.mem_flatMap.mp later
    rcases List.mem_append.mp here with blank | coded
    · exact (row.blank word inside).not_mem other blank
    · exact plain _ coded

end WordRow

end Rows

/-- Encoded words in a row are decoded with the blanks between them kept, and words on
folded lines are read with one space at each fold. -/
theorem adjacent_words_keep_blanks [Base64] (row : WordRow) :
    decodeEncodedWords row.written = .ok row.text ∧
      ∀ (name : Text) (folds : List (Text × WordRow)), validateHeaderName name = .ok () →
        (∀ fold ∈ folds, IsBlank fold.1) →
        parseHeaders (name ++ ": " ++ row.written ++ folds.flatMap fun fold => '\n' :: (fold.1 ++ fold.2.written)) =
          .ok [⟨name,row.text ++ folds.flatMap fun fold => ' ' :: fold.2.text⟩] := by
  refine ⟨row.decode_written,fun name folds named blank => ?_⟩
  let b : HeaderBlock := ⟨name,named,⟨' ' :: row.written,by simp [row.not_mem_written],by simp [row.not_mem_written]⟩,[]⟩
  let pieces := folds.map fun fold => fold.1 ++ fold.2.written
  have lines : (name ++ ": " ++ row.written ++ folds.flatMap fun fold => '\n' :: (fold.1 ++ fold.2.written) : Text) =
      b.opening.text ++ pieces.flatMap ('\n' :: ·) := by
    simp [b,pieces,HeaderBlock.opening,List.flatMap_map]
  have plain : ∀ piece ∈ pieces, '\n' ∉ piece := by
    intro piece member
    obtain ⟨fold,inside,rfl⟩ := List.mem_map.mp member
    have free := (blank fold inside).not_mem (c := '\n') (by decide)
    simp [free,fold.2.not_mem_written]
  have continued : ∀ piece ∈ pieces, piece.head? = some ' ' ∨ piece.head? = some '\t' := by
    intro piece member
    obtain ⟨fold,inside,rfl⟩ := List.mem_map.mp member
    obtain ⟨nonempty,known⟩ := blank fold inside
    obtain ⟨c,more,start⟩ := List.exists_cons_of_ne_nil nonempty
    rw [start] at known ⊢
    simpa using known c List.mem_cons_self
  have collected : pieces.foldl (fun value fold => value ++ " " ++ trim fold) (trim b.first.text) =
      (row.unfolded (folds.map Prod.snd)).written := by
    have first : trim b.first.text = row.written := (trim_cons (by decide)).trans row.trim_written
    rw [foldl_trimmed,first,WordRow.unfolded_written,List.flatMap_map,List.flatMap_map]
    refine congrArg (row.written ++ ·) (List.flatMap_congr fun fold inside => ?_)
    rw [trim_append (blank fold inside).white,WordRow.trim_written]
  have read := parseHeaderLines_continued name continued [] (trim b.first.text)
  rw [List.append_nil,collected,parseHeaderLines,closeHeader,WordRow.trim_written,WordRow.decode_written,
    WordRow.unfolded_text,List.flatMap_map] at read
  rw [parseHeaders,lines,splitOn_flatMap b.opening.noLf plain,parseHeaderLines_opening,read]
  rfl

/-- The two halves of a word another mailer has split. -/
def splitWord : WordRow := ⟨"caf",[([' ','\t'],"é")],by simp [IsBlank]⟩

theorem adjacent_words_keep_blanks_at_splitWord :
    decodeEncodedWords splitWord.written = .ok "caf \té" ∧
      parseHeaders ("Subject" ++ ": " ++ splitWord.written ++
        [(['\t'],splitWord)].flatMap fun fold => '\n' :: (fold.1 ++ fold.2.written)) =
          .ok [⟨"Subject","caf \té caf \té"⟩] := by
  obtain ⟨decoded,read⟩ := adjacent_words_keep_blanks splitWord
  exact ⟨decoded,read "Subject" [(['\t'],splitWord)] (by decide) (by simp [IsBlank])⟩

theorem blank_between_words_kept :
    decodeEncodedWords (qEncodeHeader "a" ++ " " ++ qEncodeHeader "b") = .ok "a b" ∧
      decodeEncodedWords (qEncodeHeader "a" ++ " " ++ qEncodeHeader "b") ≠ .ok "ab" := by
  have decoded := (WordRow.mk "a" [([' '],"b")] (by simp [IsBlank])).decode_written
  have kept : decodeEncodedWords (qEncodeHeader "a" ++ " " ++ qEncodeHeader "b") = .ok "a b" := by
    simpa [WordRow.written,WordRow.text] using decoded
  refine ⟨kept,?_⟩
  rw [kept]
  intro same
  exact absurd (Except.ok.inj same) (by decide)

end MechanicsCore.Mime
