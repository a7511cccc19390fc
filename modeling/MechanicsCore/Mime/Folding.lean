import MechanicsCore.Mime.LeafRoundTrip

/-! Folded headers. From where `fold_header_line` cuts a line follows which physical
lines are longer than its limit, and which values are read back as they were: a
continuation line has a space more than the loop counts, and whitespace next to a cut
is lost. -/
namespace MechanicsCore.Mime
open MechanicsCore.Library Text Line Outcome

section Lines

theorem space_mem_dropSpaces (name value : Text) : ' ' ∈ dropSpaces (name ++ ": " ++ value) := by
  rw [List.append_assoc]
  induction name with
  | nil =>
    have kept : dropSpaces (": " ++ value) = ": " ++ value := List.dropWhile_cons_of_neg (by decide)
    rw [List.nil_append,kept]
    simp
  | cons c name ih =>
    by_cases space : c = ' '
    · subst space
      exact ih
    · have kept : dropSpaces (c :: (name ++ (": " ++ value))) = c :: (name ++ (": " ++ value)) :=
        List.dropWhile_cons_of_neg (by simpa using space)
      rw [List.cons_append,kept]
      simp

theorem toLf_chunks {chunk : Text} (noCr : '\r' ∉ chunk) {chunks : List Text} (others : ∀ other ∈ chunks, '\r' ∉ other) :
    toLf (("\r\n " : Text).intercalate (chunk::chunks)) = chunk ++ (chunks.map (' ' :: ·)).flatMap ('\n' :: ·) := by
  induction chunks generalizing chunk with
  | nil => simp [toLf_plain noCr]
  | cons next chunks ih =>
    have later := ih (others next List.mem_cons_self) fun other member => others other (List.mem_cons_of_mem _ member)
    have broken := toLf_crlf chunk (' ' :: ("\r\n " : Text).intercalate (next::chunks))
    have space : toLf ([' '] ++ ("\r\n " : Text).intercalate (next::chunks)) = _ := toLf_append (by simp) _
    rw [List.singleton_append,later] at space
    rw [toLf_plain noCr,space] at broken
    rw [List.intercalate_cons_cons]
    simpa using broken

/-- The physical lines of a header, without the line breaks. -/
def physicalLines (name value : Text) : List Text := (normalizeRawMessage (foldHeaderLine name value)).splitOn '\n'

theorem physicalLines_cut {name value : Text} (noLf : '\n' ∉ name ++ value) (noCr : '\r' ∉ name ++ value) :
    Uncut (dropSpaces (name ++ ": " ++ value)) ∧ physicalLines name value = [name ++ ": " ++ value] ∨
      ∃ chunk rest, Cut (dropSpaces (name ++ ": " ++ value)) chunk rest ∧
        physicalLines name value = chunk :: (chunksOf rest).map (' ' :: ·) := by
  have free : ∀ c, c ∉ name ++ value → c ≠ ':' → c ≠ ' ' → c ∉ (name ++ ": " ++ value : Text) := by
    intro c absent colon space
    rw [List.mem_append,not_or] at absent
    simp [absent.1,absent.2,colon,space]
  have lf := free '\n' noLf (by decide) (by decide)
  have cr := free '\r' noCr (by decide) (by decide)
  unfold physicalLines
  rw [normalizeRawMessage_eq]
  rcases foldHeaderLine_cut name value with ⟨uncut,same⟩ | ⟨chunk,rest,cut,same⟩
  · refine .inl ⟨uncut,?_⟩
    rw [same,toLf_plain cr,List.splitOn_eq_singleton lf]
  · refine .inr ⟨chunk,rest,cut,?_⟩
    have parts : ∀ c, c ∉ (name ++ ": " ++ value : Text) → c ∉ chunk ∧ c ∉ rest := by
      intro c absent
      have kept : c ∉ dropSpaces (name ++ ": " ++ value) := fun inside => absent (mem_of_dropSpaces inside)
      rw [cut.split,List.mem_append,List.mem_cons,not_or,not_or] at kept
      exact ⟨kept.1,kept.2.2⟩
    have others : ∀ c, c ∉ rest → ∀ other ∈ chunksOf rest, c ∉ other := fun c absent other member inside =>
      absent ((infix_chunksOf member).subset inside)
    have indented : ∀ piece ∈ (chunksOf rest).map (' ' :: ·), '\n' ∉ piece := by
      intro piece member
      obtain ⟨other,inside,rfl⟩ := List.mem_map.mp member
      simp [others '\n' (parts '\n' lf).2 other inside]
    rw [same,toLf_chunks (parts '\r' cr).1 (others '\r' (parts '\r' cr).2),splitOn_flatMap (parts '\n' lf).1 indented]

end Lines

section Limit

/-- The first line and every continuation line are within the limit, or are one word
that cannot be broken; a continuation line starts with the space that folds it. -/
def LinesFit : List Text → Prop
  | [] => True
  | first::folds => ((utf8 first).length ≤ 78 ∨ ' ' ∉ first) ∧
      ∀ fold ∈ folds, (utf8 fold).length ≤ 78 ∨ ' ' ∉ fold.tail

instance (lines : List Text) : Decidable (LinesFit lines) :=
  match lines with
  | [] => .isTrue trivial
  | _::_ => inferInstanceAs (Decidable (_ ∧ _))

/-- No several words at the start of what follows a fold fill 78 bytes exactly. -/
def Unfilled (rest : Text) : Prop := ∀ piece tail, dropSpaces rest = piece ++ tail →
  (tail = [] ∨ tail.head? = some ' ') → ' ' ∈ piece → (utf8 piece).length ≠ 78

/-- Several words are only taken together where they are within the limit. -/
theorem short_of_passed {current : Text} (several : ' ' ∈ current)
    (passed : ∀ a b, current = a ++ ' ' :: b → ¬ 78 < (utf8 a).length + 1 + (utf8 (firstWord b)).length) :
    (utf8 current).length ≤ 78 := by
  obtain ⟨b,a,same,word⟩ := List.eq_append_cons_of_mem (List.mem_reverse.mpr several)
  have shape : current = a.reverse ++ ' ' :: b.reverse := by
    have turned := congrArg List.reverse same
    simpa using turned
  have fits := passed _ _ shape
  rw [firstWord_word (by simpa using word)] at fits
  rw [shape,utf8_space]
  omega

theorem Uncut.short {s : Text} (uncut : Uncut s) (several : ' ' ∈ s) : (utf8 s).length ≤ 78 :=
  short_of_passed several uncut

theorem Cut.short {s chunk rest : Text} (cut : Cut s chunk rest) (several : ' ' ∈ chunk) : (utf8 chunk).length ≤ 78 := by
  refine short_of_passed several fun a b same => ?_
  have fits := cut.first a (b ++ ' ' :: rest) (by rw [cut.split,same]; simp) (by simp [same])
  rwa [Overruns,firstWord_append] at fits

theorem Uncut.filled {s piece tail : Text} (uncut : Uncut s) (same : s = piece ++ tail)
    (boundary : tail = [] ∨ tail.head? = some ' ') (filled : (utf8 piece).length = 78) : piece = s := by
  rcases boundary with rfl | space
  · rw [same,List.append_nil]
  · obtain ⟨t,rfl⟩ := List.head?_eq_some_iff.mp space
    refine absurd ?_ (uncut piece t same)
    unfold Overruns
    omega

theorem Cut.filled {s chunk rest piece tail : Text} (cut : Cut s chunk rest) (same : s = piece ++ tail)
    (boundary : tail = [] ∨ tail.head? = some ' ') (filled : (utf8 piece).length = 78) : piece = chunk := by
  rcases List.append_eq_append_iff.mp (same.symm.trans cut.split) with ⟨more,chunks,tails⟩ | ⟨more,pieces,rests⟩
  · cases more with
    | nil => rw [chunks,List.append_nil]
    | cons c more =>
      -- the space behind the piece would have been cut before
      have space : tail.head? = some ' ' := boundary.resolve_left (by simp [tails])
      obtain ⟨t,rfl⟩ := List.head?_eq_some_iff.mp space
      refine absurd ?_ (cut.first piece t same (by simp [chunks]))
      unfold Overruns
      omega
  · cases more with
    | nil => rw [pieces,List.append_nil]
    | cons c more =>
      -- the word behind the cut ends within the piece
      obtain ⟨rfl,behind⟩ : ' ' = c ∧ rest = more ++ tail := List.cons.inj rests
      have word : firstWord (more ++ tail) = firstWord more := by
        rcases boundary with rfl | space
        · rw [List.append_nil]
        · obtain ⟨t,rfl⟩ := List.head?_eq_some_iff.mp space
          exact firstWord_append more t
      have overrun := cut.overrun
      have within : (utf8 (firstWord more)).length ≤ (utf8 more).length := utf8_mono (List.takeWhile_prefix _)
      rw [Overruns,behind,word] at overrun
      rw [pieces,utf8_space] at filled
      omega

theorem unfilled_iff {rest chunk : Text} {chunks : List Text} (start : chunksOf rest = chunk::chunks) :
    Unfilled rest ↔ (utf8 (' ' :: chunk)).length ≤ 78 ∨ ' ' ∉ chunk := by
  have longer : (utf8 (' ' :: chunk)).length = 1 + (utf8 chunk).length := by
    have space := utf8_space [] chunk
    rw [List.nil_append] at space
    rw [space]
    rfl
  obtain ⟨tail,split,boundary,short,only⟩ : ∃ tail, dropSpaces rest = chunk ++ tail ∧
      (tail = [] ∨ tail.head? = some ' ') ∧ (' ' ∈ chunk → (utf8 chunk).length ≤ 78) ∧
      ∀ piece tail, dropSpaces rest = piece ++ tail → (tail = [] ∨ tail.head? = some ' ') →
        (utf8 piece).length = 78 → piece = chunk := by
    rcases chunksOf_cut rest with ⟨uncut,chunks'⟩ | ⟨chunk',rest',cut,chunks'⟩
    · obtain ⟨rfl,_⟩ := List.cons.inj (start.symm.trans chunks')
      exact ⟨[],by rw [List.append_nil],.inl rfl,uncut.short,fun _ _ same ends filled => uncut.filled same ends filled⟩
    · obtain ⟨rfl,_⟩ := List.cons.inj (start.symm.trans chunks')
      exact ⟨_,cut.split,.inr rfl,cut.short,fun _ _ same ends filled => cut.filled same ends filled⟩
  rw [longer]
  constructor
  · intro unfilled
    by_cases several : ' ' ∈ chunk
    · have limit := short several
      have other := unfilled chunk tail split boundary several
      exact .inl (by omega)
    · exact .inr several
  · intro fits piece tail same ends several filled
    obtain rfl := only piece tail same ends filled
    rcases fits with within | single
    · omega
    · exact single several

theorem folds_fit_iff (s : Text) : (∀ fold ∈ (chunksOf s).tail, (utf8 (' ' :: fold)).length ≤ 78 ∨ ' ' ∉ fold) ↔
    ∀ chunk rest, FoldedAt s chunk rest → Unfilled rest := by
  induction s using cut_induction with
  | whole s uncut chunks =>
    rw [chunks]
    constructor
    · intro _ chunk rest fold
      exact absurd fold uncut.not_folded
    · simp
  | cut s first next cut chunks ih =>
    obtain ⟨chunk,folds,start⟩ := List.exists_cons_of_ne_nil (chunksOf_ne_nil next)
    rw [chunks,List.tail_cons]
    rw [start,List.tail_cons] at ih
    rw [start,List.forall_mem_cons,← unfilled_iff start,ih]
    exact (cut.forall_folds fun _ rest => Unfilled rest).symm

end Limit

/-- The lines of a folded header are within the limit, or single words, exactly where
no fold is followed by several words of 78 bytes together, and the line is not long by
the spaces before its name alone. -/
theorem folded_lines_fit_iff (name value : Text) (noLf : '\n' ∉ name ++ value) (noCr : '\r' ∉ name ++ value) :
    LinesFit (physicalLines name value) ↔
      (78 < (utf8 (name ++ ": " ++ value)).length → 78 < (utf8 (dropSpaces (name ++ ": " ++ value))).length) ∧
      ∀ chunk rest, FoldedAt (name ++ ": " ++ value) chunk rest → Unfilled rest := by
  have inside : ' ' ∈ dropSpaces (name ++ ": " ++ value) := space_mem_dropSpaces name value
  have several : ' ' ∈ (name ++ ": " ++ value : Text) := mem_of_dropSpaces inside
  rcases physicalLines_cut noLf noCr with ⟨uncut,lines⟩ | ⟨chunk,rest,cut,lines⟩
  · have short := uncut.short inside
    rw [lines,LinesFit]
    constructor
    · rintro ⟨fits | single,_⟩
      · exact ⟨fun long => absurd fits (by omega),fun chunk rest fold => absurd fold uncut.not_folded⟩
      · exact absurd several single
    · rintro ⟨long,_⟩
      refine ⟨.inl ?_,by simp⟩
      by_contra overrun
      have stripped := long (by omega)
      omega
  · have first : (utf8 chunk).length ≤ 78 ∨ ' ' ∉ chunk := by
      by_cases words : ' ' ∈ chunk
      · exact .inl (cut.short words)
      · exact .inr words
    have stripped : 78 < (utf8 (dropSpaces (name ++ ": " ++ value))).length := by
      rw [cut.split]
      exact cut.overrun.long
    have folds := folds_fit_iff (name ++ ": " ++ value)
    rw [cut.chunks,List.tail_cons] at folds
    rw [lines,LinesFit,List.forall_mem_map,← folds]
    constructor
    · rintro ⟨_,fits⟩
      exact ⟨fun _ => stripped,fits⟩
    · rintro ⟨_,fits⟩
      exact ⟨first,fits⟩

/-- A value that is folded twice, between letters, with whitespace elsewhere. -/
def foldedTail : Text := "cccccccc  d\te"

def foldedRest : Text := List.replicate 70 'b' ++ ' ' :: foldedTail

def foldedValue : Text := List.replicate 75 'a' ++ ' ' :: foldedRest

theorem foldedValue_plain : (physicalLines "X" foldedValue).length = 3 ∧ '\n' ∉ foldedValue ∧ '\r' ∉ foldedValue ∧
    ¬ ("=?" : Text) <:+: foldedValue ∧ trim foldedValue = foldedValue ∧
    (utf8 ("X: " ++ List.replicate 75 'a')).length = 78 ∧ (utf8 (List.replicate 70 'b')).length = 70 := by
  decide +kernel

theorem foldedValue_cut : Cut (dropSpaces ("X" ++ ": " ++ foldedValue)) ("X: " ++ List.replicate 75 'a') foldedRest := by
  obtain ⟨_,_,_,_,_,full,_⟩ := foldedValue_plain
  rw [dropSpaces_named (by decide)]
  refine cut_of_short (Nat.le_of_eq full) ?_
  rw [Overruns,full]
  omega

theorem foldedRest_cut : Cut (dropSpaces foldedRest) (List.replicate 70 'b') foldedTail := by
  obtain ⟨_,_,_,_,_,_,short⟩ := foldedValue_plain
  have word : (utf8 (firstWord foldedTail)).length = 8 := by decide
  have overrun : Overruns (List.replicate 70 'b') foldedTail := by
    rw [Overruns,short,word]
    omega
  exact cut_of_short (Nat.le_of_lt (by rw [short]; decide)) overrun

theorem foldedValue_folds {P : Text → Text → Prop} (first : P ("X: " ++ List.replicate 75 'a') foldedRest)
    (second : P (List.replicate 70 'b') foldedTail) :
    ∀ chunk rest, FoldedAt ("X" ++ ": " ++ foldedValue) chunk rest → P chunk rest := by
  have ends : Uncut (dropSpaces foldedTail) := uncut_of_short (by decide)
  rw [foldedValue_cut.forall_folds,foldedRest_cut.forall_folds]
  exact ⟨first,second,fun _ _ fold => absurd fold ends.not_folded⟩

theorem folded_lines_fit_iff_at_foldedValue :
    (physicalLines "X" foldedValue).length = 3 ∧ LinesFit (physicalLines "X" foldedValue) := by
  obtain ⟨lines,noLf,noCr,_⟩ := foldedValue_plain
  have last : chunksOf foldedTail = [foldedTail] := by decide
  rw [folded_lines_fit_iff "X" foldedValue (by simp [noLf]) (by simp [noCr]),dropSpaces_named (by decide)]
  refine ⟨lines,id,foldedValue_folds ?_ ?_⟩
  · refine (unfilled_iff foldedRest_cut.chunks).mpr (.inr ?_)
    simp
  · exact (unfilled_iff last).mpr (.inl (by decide))

/-- A long word, and behind it two words of 78 bytes together. -/
def filledValue : Text := List.replicate 80 'a' ++ ' ' :: (List.replicate 38 'b' ++ ' ' :: List.replicate 39 'c')

theorem filledValue_overlong : '\n' ∉ filledValue ∧ '\r' ∉ filledValue ∧ ¬ LinesFit (physicalLines "X" filledValue) := by
  decide +kernel

section Values

/-- What is read of the chunks, each trimmed and behind one space. -/
def readChunks : List Text → Text
  | [] => []
  | chunk::chunks => trim chunk ++ chunks.flatMap fun fold => ' ' :: trim fold

/-- No whitespace stands next to the space a line is folded at. -/
def CleanFold (chunk rest : Text) : Prop :=
  (∀ c, chunk.getLast? = some c → isWhitespace c = false) ∧ ∀ c, rest.head? = some c → isWhitespace c = false

theorem CleanFold.of_ink {chunk rest : Text} (last head : Char) (ends : chunk.getLast? = some last)
    (starts : rest.head? = some head) (ink : isWhitespace last = false) (ink' : isWhitespace head = false) :
    CleanFold chunk rest :=
  ⟨fun _ same => Option.some.inj (ends.symm.trans same) ▸ ink,fun _ same => Option.some.inj (starts.symm.trans same) ▸ ink'⟩

theorem readChunks_cons (chunk : Text) {chunks : List Text} (nonempty : chunks ≠ []) :
    readChunks (chunk::chunks) = trim chunk ++ ' ' :: readChunks chunks := by
  obtain ⟨next,more,rfl⟩ := List.exists_cons_of_ne_nil nonempty
  simp [readChunks]

theorem trim_dropSpaces (s : Text) : trim (dropSpaces s) = trim s := by
  have white : ∀ c ∈ s.takeWhile (· == ' '), isWhitespace c = true := by
    intro c member
    have space := List.mem_takeWhile_imp member
    rw [beq_iff_eq.mp space]
    decide
  have same := trim_append white (dropSpaces s)
  rw [dropSpaces,List.takeWhile_append_dropWhile] at same
  exact same.symm

theorem trim_length (s : Text) : (trim s).length ≤ s.length := (infix_trim s).length_le

theorem trim_of_length {s : Text} (long : s.length ≤ (trim s).length) : trim s = s := (infix_trim s).eq_of_length_le long

theorem readChunks_length (s : Text) : (readChunks (chunksOf s)).length ≤ s.length := by
  induction s using cut_induction with
  | whole s _ chunks =>
    rw [chunks,readChunks,List.flatMap_nil,List.append_nil,trim_dropSpaces]
    exact trim_length s
  | cut s chunk rest cut chunks ih =>
    have shorter := dropSpaces_length s
    have first := trim_length chunk
    rw [cut.split,List.length_append,List.length_cons] at shorter
    rw [chunks,readChunks_cons chunk (chunksOf_ne_nil rest),List.length_append,List.length_cons]
    omega

theorem Cut.last {s chunk rest : Text} (cut : Cut (dropSpaces s) chunk rest)
    (ended : ∀ c, s.getLast? = some c → isWhitespace c = false) : ∀ c, rest.getLast? = some c → isWhitespace c = false := by
  intro c last
  apply ended
  obtain ⟨before,rfl⟩ := List.getLast?_eq_some_iff.mp last
  obtain ⟨spaces,same⟩ := List.dropWhile_suffix (l := s) (· == ' ')
  change spaces ++ dropSpaces s = s at same
  rw [← same,cut.split]
  exact List.getLast?_eq_some_iff.mpr ⟨spaces ++ (chunk ++ ' ' :: before),by simp⟩

/-- A text that ends without whitespace is read as it is where it also starts without,
and is folded between characters that are none. -/
theorem readChunks_iff {s : Text} (ended : ∀ c, s.getLast? = some c → isWhitespace c = false) :
    readChunks (chunksOf s) = s ↔ (∀ c, s.head? = some c → isWhitespace c = false) ∧
      ∀ chunk rest, FoldedAt s chunk rest → CleanFold chunk rest := by
  induction s using cut_induction with
  | whole s uncut chunks =>
    have vacuous : ∀ chunk rest, FoldedAt s chunk rest → CleanFold chunk rest := fun _ _ fold => absurd fold uncut.not_folded
    rw [chunks,readChunks,List.flatMap_nil,List.append_nil,trim_dropSpaces,trim_eq_self_iff]
    constructor
    · rintro ⟨starts,_⟩
      exact ⟨starts,vacuous⟩
    · rintro ⟨starts,_⟩
      exact ⟨starts,ended⟩
  | cut s chunk rest cut chunks ih =>
    have later := ih (cut.last ended)
    have starts : dropSpaces s = s → s.head? = chunk.head? := by
      intro kept
      obtain ⟨c,more,same⟩ := List.exists_cons_of_ne_nil cut.ink
      rw [← kept,cut.split,same]
      rfl
    rw [chunks,readChunks_cons chunk (chunksOf_ne_nil rest),cut.forall_folds CleanFold]
    constructor
    · intro same
      have whole := congrArg List.length same
      have shorter := dropSpaces_length s
      have first := trim_length chunk
      have bound := readChunks_length rest
      have split := congrArg List.length cut.split
      rw [List.length_append,List.length_cons] at whole split
      have kept : dropSpaces s = s := dropSpaces_eq (by omega)
      have trimmed : trim chunk = chunk := trim_of_length (by omega)
      have text : chunk ++ ' ' :: readChunks (chunksOf rest) = chunk ++ ' ' :: rest := by
        rw [← cut.split,kept,← same,trimmed]
      have rests := (List.cons.inj (List.append_cancel_left text)).2
      obtain ⟨head,others⟩ := later.mp rests
      obtain ⟨front,back⟩ := trim_eq_self_iff.mp trimmed
      rw [starts kept]
      exact ⟨front,⟨back,head⟩,others⟩
    · rintro ⟨head,⟨back,next⟩,others⟩
      have kept : dropSpaces s = s := by
        cases s with
        | nil => rfl
        | cons c s =>
          refine List.dropWhile_cons_of_neg fun space => ?_
          have black := head c rfl
          rw [beq_iff_eq.mp space] at black
          contradiction
      have trimmed : trim chunk = chunk := trim_eq_self_iff.mpr ⟨starts kept ▸ head,back⟩
      rw [trimmed,later.mpr ⟨next,others⟩,← cut.split,kept]

/-- A header without encoded words is read with its chunks trimmed. -/
theorem parse_folded [Base64] {name value : Text} (named : validateHeaderName name = .ok ()) (noLf : '\n' ∉ value)
    (noCr : '\r' ∉ value) (unmarked : ¬ ("=?" : Text) <:+: value) (trimmed : trim value = value) :
    Uncut (name ++ ": " ++ value) ∧
        parseHeaders (normalizeRawMessage (foldHeaderLine name value)) = .ok [⟨name,value⟩] ∨
      ∃ first rest, Cut (name ++ ": " ++ value) (name ++ ':' :: first) rest ∧
        parseHeaders (normalizeRawMessage (foldHeaderLine name value)) =
          .ok [⟨name,trim (trim first ++ ' ' :: readChunks (chunksOf rest))⟩] := by
  obtain ⟨b,rfl,wired,folded⟩ := foldHeaderLine_folds named noLf noCr
  have writes := folded.writes
  have parsed : parseHeaders (normalizeRawMessage (foldHeaderLine b.name value)) = .ok [⟨b.name,trim b.collected⟩] := by
    rw [normalizeRawMessage_of_wire b.lines_ne_nil wired,parseHeaders_block,HeaderBlock.read_unmarked writes unmarked]
    rfl
  rw [parsed]
  cases folded with
  | whole uncut _ single => exact .inl ⟨uncut,by rw [HeaderBlock.trim_collected writes single trimmed]⟩
  | @cut rest cut folds =>
    have collected : b.collected = trim b.first.text ++ ' ' :: readChunks (chunksOf rest) := by
      have glued := foldl_trimmed (b.folds.map Line.text) (trim b.first.text)
      obtain ⟨next,more,start⟩ := List.exists_cons_of_ne_nil (chunksOf_ne_nil rest)
      rw [List.foldl_map,folds,start,List.flatMap_cons,List.cons_append] at glued
      rw [start,readChunks]
      exact glued
    exact .inr ⟨b.first.text,rest,cut,by rw [collected]⟩

/-- Two texts joined by a space, the second no longer than it was: nothing is lost of
them by trimming exactly where they are kept. -/
theorem trim_rejoined_iff {f rest read : Text} (shorter : read.length ≤ rest.length)
    (trimmed : trim (f ++ ' ' :: rest) = f ++ ' ' :: rest) :
    trim (trim f ++ ' ' :: read) = f ++ ' ' :: rest ↔ trim f = f ∧ read = rest := by
  constructor
  · intro same
    have whole := congrArg List.length same
    have outer := trim_length (trim f ++ ' ' :: read)
    have inner := trim_length f
    rw [List.length_append,List.length_cons] at outer
    rw [List.length_append,List.length_cons] at whole
    have first : trim f = f := trim_of_length (by omega)
    have kept : trim (trim f ++ ' ' :: read) = trim f ++ ' ' :: read := trim_of_length (by
      rw [List.length_append,List.length_cons]
      omega)
    rw [kept,first] at same
    exact ⟨first,(List.cons.inj (List.append_cancel_left same)).2⟩
  · rintro ⟨first,rfl⟩
    rw [first,trimmed]

section Reading
variable {value first rest : Text} (text : ' ' :: value = first ++ ' ' :: rest) (trimmed : trim value = value)
include text trimmed

theorem rest_ended : ∀ c, rest.getLast? = some c → isWhitespace c = false := by
  intro c last
  obtain ⟨before,rfl⟩ := List.getLast?_eq_some_iff.mp last
  cases value with
  | nil =>
    have length := congrArg List.length text
    simp only [List.length_append,List.length_cons,List.length_nil] at length
    omega
  | cons d value =>
    refine (trim_eq_self_iff.mp trimmed).2 c ?_
    rw [← List.getLast?_cons_cons (a := ' '),text]
    exact List.getLast?_eq_some_iff.mpr ⟨first ++ ' ' :: before,by simp⟩

/-- The value that is read of a header cut behind its first line, whatever is read of
what follows. -/
theorem read_value_iff {read : Text} (shorter : read.length ≤ rest.length) (name : Text) :
    trim (trim first ++ ' ' :: read) = value ↔
      (∀ c, (name ++ ':' :: first).getLast? = some c → isWhitespace c = false) ∧ read = rest := by
  cases first with
  | nil =>
    -- folded behind the colon: the whole value is on the lines that follow
    have same : value = rest := (List.cons.inj text).2
    have spaced : trim (trim [] ++ ' ' :: read) = trim read := trim_cons (by decide)
    have colon : ∀ c, (name ++ [':']).getLast? = some c → isWhitespace c = false := by
      intro c last
      rw [List.getLast?_concat] at last
      cases last
      decide
    rw [spaced,same]
    constructor
    · intro found
      have whole := congrArg List.length found
      have kept : trim read = read := trim_of_length (by omega)
      exact ⟨colon,kept.symm.trans found⟩
    · rintro ⟨_,found⟩
      rw [found,← same,trimmed]
  | cons c f =>
    obtain ⟨rfl,same⟩ : ' ' = c ∧ value = f ++ ' ' :: rest := List.cons.inj text
    rw [same] at trimmed ⊢
    have front := (trim_eq_self_iff.mp trimmed).1
    have last_iff : (∀ c, (name ++ ':' :: ' ' :: f).getLast? = some c → isWhitespace c = false) ↔ trim f = f := by
      cases f with
      | nil => exact absurd (front ' ' rfl) (by decide)
      | cons d f =>
        have ends : (name ++ ':' :: ' ' :: d :: f).getLast? = (d::f).getLast? := by
          rw [List.getLast?_append_of_ne_nil _ (by simp),List.getLast?_cons_cons,List.getLast?_cons_cons]
        rw [ends,trim_eq_self_iff]
        exact ⟨fun back => ⟨fun e head => front e head,back⟩,fun ⟨_,back⟩ => back⟩
    rw [trim_cons (by decide),trim_rejoined_iff shorter trimmed,last_iff]

end Reading

end Values

/-- A trimmed value without encoded words comes back from its folded header exactly
where no fold has whitespace next to its space. -/
theorem folding_transparent_iff [Base64] (name value : Text) (named : validateHeaderName name = .ok ())
    (noLf : '\n' ∉ value) (noCr : '\r' ∉ value) (unmarked : ¬ ("=?" : Text) <:+: value) (trimmed : trim value = value) :
    parseHeaders (normalizeRawMessage (foldHeaderLine name value)) = .ok [⟨name,value⟩] ↔
      ∀ chunk rest, FoldedAt (name ++ ": " ++ value) chunk rest → CleanFold chunk rest := by
  have kept := dropSpaces_named named value
  rcases parse_folded named noLf noCr unmarked trimmed with ⟨uncut,read⟩ | ⟨first,rest,cut,read⟩
  · rw [← kept] at uncut
    exact ⟨fun _ chunk rest fold => absurd fold uncut.not_folded,fun _ => read⟩
  · have text := cut.text
    have value_iff : ∀ other : Text, (.ok [⟨name,other⟩] : JsResult (List Header)) = .ok [⟨name,value⟩] ↔ other = value := by
      simp
    rw [← kept] at cut
    rw [read,cut.forall_folds CleanFold,CleanFold,and_assoc,← readChunks_iff (rest_ended text trimmed),value_iff]
    exact read_value_iff text trimmed (readChunks_length rest) name

theorem folding_transparent_iff_at_foldedValue :
    (physicalLines "X" foldedValue).length = 3 ∧
      parseHeaders (normalizeRawMessage (foldHeaderLine "X" foldedValue)) = .ok [⟨"X",foldedValue⟩] := by
  obtain ⟨lines,noLf,noCr,unmarked,trimmed,_⟩ := foldedValue_plain
  refine ⟨lines,(folding_transparent_iff "X" foldedValue (by decide) noLf noCr unmarked trimmed).mpr
    (foldedValue_folds ?_ ?_)⟩
  · exact .of_ink 'a' 'b' (by simp) (by simp [foldedRest]) (by decide) (by decide)
  · exact .of_ink 'b' 'c' (by simp) (by decide) (by decide) (by decide)

/-- Two spaces where the line is full. -/
def spacedValue : Text := List.replicate 75 'a' ++ "  b"

theorem spacedValue_altered : isAscii spacedValue = true ∧ '\n' ∉ spacedValue ∧ '\r' ∉ spacedValue ∧
    ¬ ("=?" : Text) <:+: spacedValue ∧ trim spacedValue = spacedValue ∧
    parseHeaders (normalizeRawMessage (foldHeaderLine "X" spacedValue)) ≠ .ok [⟨"X",spacedValue⟩] := by
  have facts : isAscii spacedValue = true ∧ '\n' ∉ spacedValue ∧ '\r' ∉ spacedValue ∧
      ¬ ("=?" : Text) <:+: spacedValue ∧ trim spacedValue = spacedValue := by decide +kernel
  obtain ⟨ascii,noLf,noCr,unmarked,trimmed⟩ := facts
  refine ⟨ascii,noLf,noCr,unmarked,trimmed,?_⟩
  have named : validateHeaderName "X" = .ok () := by decide
  have chunks : chunksOf ("X" ++ ": " ++ spacedValue) = ["X" ++ ':' :: ' ' :: List.replicate 75 'a',"b"] := by decide +kernel
  rcases parse_folded named noLf noCr unmarked trimmed with ⟨uncut,_⟩ | ⟨first,rest,cut,read⟩
  · have full : 78 < (utf8 ("X: " ++ List.replicate 75 'a')).length + 1 + (utf8 (firstWord " b")).length := by decide
    exact absurd full (uncut _ _ (by decide))
  · rw [← dropSpaces_named named] at cut
    rw [cut.chunks] at chunks
    obtain ⟨opening,folds⟩ := List.cons.inj chunks
    have text : first = ' ' :: List.replicate 75 'a' := (List.cons.inj (List.append_cancel_left opening)).2
    rw [read,text,folds]
    intro same
    simp only [Except.ok.injEq,List.cons.injEq,Header.mk.injEq] at same
    exact absurd same.1.2 (by decide +kernel)

end MechanicsCore.Mime
