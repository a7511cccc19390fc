import MechanicsCore.Mime.EncodedWords
import MechanicsCore.Mime.Sections

/-! What the parser accepts. Header names are checked as they are read, header values
are not: they are fit for composing exactly where no encoded word stands for a line
break. A part without headers is refused, though a blank line marks its body. -/
namespace MechanicsCore.Mime
open MechanicsCore.Library Text Line Outcome

section Values

def Unbroken (s : Text) : Prop := '\n' ∉ s ∧ '\r' ∉ s

theorem unbroken_append (a b : Text) : Unbroken (a ++ b) ↔ Unbroken a ∧ Unbroken b := by
  simp only [Unbroken,List.mem_append,not_or]
  tauto

theorem validateHeaderValue_iff {value : Text} : validateHeaderValue value = .ok () ↔ Unbroken value :=
  ⟨validateHeaderValue_chars,fun ⟨noLf,noCr⟩ => validateHeaderValue_plain noLf noCr⟩

theorem unbroken_utf8 {s : Text} : Unbroken s ↔ 10 ∉ utf8 s ∧ 13 ∉ utf8 s := by
  have lf : '\n' ∈ s ↔ 10 ∈ utf8 s := ⟨mem_utf8 (by decide),mem_of_utf8 (c := '\n') (by decide)⟩
  have cr : '\r' ∈ s ↔ 13 ∈ utf8 s := ⟨mem_utf8 (by decide),mem_of_utf8 (c := '\r') (by decide)⟩
  rw [Unbroken,lf,cr]

/-- A text without line breaks in which no encoded word stands for bytes with a line break. -/
inductive SafeText [Base64] : Text → Prop
  | plain {s : Text} (none : nextWord s = none) (unbroken : Unbroken s) : SafeText s
  | word {s : Text} {w : EncodedWord} (found : nextWord s = some w) (before : Unbroken w.before)
      (bytes : ∀ bytes, wordBytes w.encoding w.encoded = .ok bytes → 10 ∉ bytes ∧ 13 ∉ bytes)
      (later : SafeText w.later) : SafeText s

theorem safeText_none [Base64] {s : Text} (none : nextWord s = none) : SafeText s ↔ Unbroken s := by
  constructor
  · intro safe
    cases safe with
    | plain _ unbroken => exact unbroken
    | word found =>
      rw [none] at found
      contradiction
  · exact SafeText.plain none

theorem safeText_some [Base64] {s : Text} {w : EncodedWord} (found : nextWord s = some w) : SafeText s ↔
    Unbroken w.before ∧ (∀ bytes, wordBytes w.encoding w.encoded = .ok bytes → 10 ∉ bytes ∧ 13 ∉ bytes) ∧
      SafeText w.later := by
  constructor
  · intro safe
    cases safe with
    | plain none =>
      rw [none] at found
      contradiction
    | word other before bytes later =>
      cases other.symm.trans found
      exact ⟨before,bytes,later⟩
  · rintro ⟨before,bytes,later⟩
    exact .word found before bytes later

theorem decoded_unbroken_iff [Base64] {s decoded : Text} (known : decodeEncodedWords s = .ok decoded) :
    Unbroken decoded ↔ SafeText s := by
  induction s using nextWord_induction generalizing decoded with
  | plain s none =>
    rw [decodeEncodedWords_none none] at known
    rw [← Except.ok.inj known,safeText_none none]
  | word s w found ih =>
    obtain ⟨text,rest,read,scanned,rfl⟩ := decodeEncodedWords_some found known
    have bytes : (∀ bytes, wordBytes w.encoding w.encoded = .ok bytes → 10 ∉ bytes ∧ 13 ∉ bytes) ↔ Unbroken text := by
      rw [unbroken_utf8,decodeEncodedWord_bytes read]
      simp
    rw [unbroken_append,unbroken_append,safeText_some found,bytes,ih scanned,and_assoc]

end Values

section Blocks

/-- The values of a header block as they are collected from its lines. -/
def fieldTexts : List Text → (pending : Option Text) → List Text
  | [], pending => pending.toList
  | line::lines, pending =>
    if line.head? = some ' ' || line.head? = some '\t' then
      fieldTexts lines (pending.map fun text => text ++ " " ++ trim line)
    else pending.toList ++ fieldTexts lines ((splitOnce ":" line).map fun field => trim field.2)

/-- A header as it is read from a collected value. -/
structure ReadsField [Base64] (text : Text) (header : Header) : Prop where
  name : validateHeaderName header.name = .ok ()
  value : decodeEncodedWords (trim text) = .ok header.value

theorem closeHeader_field [Base64] {current : Option Text} {collected : Text} {headers : List Header}
    (named : ∀ name, current = some name → validateHeaderName name = .ok ())
    (closed : closeHeader current collected = .ok headers) :
    List.Forall₂ ReadsField (current.map fun _ => collected).toList headers := by
  cases current with
  | none =>
    cases closed
    exact .nil
  | some name =>
    obtain ⟨value,decoded,same⟩ := bind_ok_iff.mp closed
    rw [pure_ok_iff] at same
    rw [← same]
    exact .cons ⟨named name rfl,decoded⟩ .nil

theorem parseHeaderLines_fields [Base64] {lines : List Text} {current : Option Text} {collected : Text}
    {headers : List Header} (named : ∀ name, current = some name → validateHeaderName name = .ok ())
    (parsed : parseHeaderLines lines current collected = .ok headers) :
    List.Forall₂ ReadsField (fieldTexts lines (current.map fun _ => collected)) headers := by
  induction lines generalizing current collected headers with
  | nil => exact closeHeader_field named parsed
  | cons line lines ih =>
    rw [parseHeaderLines] at parsed
    rw [fieldTexts]
    split at parsed
    · rename_i continued
      rw [if_pos continued]
      split at parsed
      · contradiction
      · have later := ih named parsed
        rwa [Option.map_map]
    · rename_i starts
      rw [if_neg starts]
      obtain ⟨closed,ended,parsed⟩ := bind_ok_iff.mp parsed
      split at parsed
      · contradiction
      · rename_i name value colon
        obtain ⟨_,valid,parsed⟩ := bind_ok_iff.mp parsed
        obtain ⟨rest,read,same⟩ := bind_ok_iff.mp parsed
        rw [pure_ok_iff] at same
        have next : ∀ other, some name = some other → validateHeaderName other = .ok () := by
          intro other same
          cases same
          exact valid
        have later := ih next read
        rw [colon,← same]
        exact List.rel_append (closeHeader_field named ended) later

/-- A header block whose values may be composed again. -/
def SafeBlock [Base64] (block : Text) : Prop := ∀ text ∈ fieldTexts (block.splitOn '\n') none, SafeText (trim text)

theorem headers_valid_iff [Base64] {block : Text} {headers : List Header} (parsed : parseHeaders block = .ok headers) :
    (∀ header ∈ headers, header.Valid) ↔ SafeBlock block := by
  have fields : List.Forall₂ ReadsField (fieldTexts (block.splitOn '\n') none) headers :=
    parseHeaderLines_fields (by simp) parsed
  have field : ∀ {text header}, ReadsField text header → (header.Valid ↔ SafeText (trim text)) := by
    intro text header read
    rw [← decoded_unbroken_iff read.value,← validateHeaderValue_iff]
    exact ⟨fun valid => valid.value,fun value => ⟨read.name,value⟩⟩
  constructor
  · intro valid text member
    obtain ⟨header,inside,read⟩ := exists_right fields member
    exact (field read).mp (valid header inside)
  · intro safe header member
    obtain ⟨text,inside,read⟩ := exists_left fields member
    exact (field read).mpr (safe text inside)

end Blocks

section Messages

/-- A header of a message or of one of its parts, at any depth. -/
inductive HeaderIn (header : Header) : ParsedMessage → Prop
  | own {m : ParsedMessage} (member : header ∈ m.headers) : HeaderIn header m
  | part {m p : ParsedMessage} (member : p ∈ m.parts) (inside : HeaderIn header p) : HeaderIn header m

theorem forall_headerIn {m : ParsedMessage} {P : Header → Prop} : (∀ header, HeaderIn header m → P header) ↔
    (∀ header ∈ m.headers, P header) ∧ ∀ p ∈ m.parts, ∀ header, HeaderIn header p → P header := by
  constructor
  · intro all
    exact ⟨fun header member => all header (.own member),fun p member header inside => all header (.part member inside)⟩
  · rintro ⟨own,parts⟩ header found
    cases found with
    | own member => exact own header member
    | part member inside => exact parts _ member header inside

/-- The boundary under which the parser looks for parts. -/
def partBoundary (headers : List Header) : Option Text :=
  let type := (headerValue headers contentType).getD defaultTextContentType
  if ("multipart/" : Text).isPrefixOf (toAsciiLowercase (contentTypeBase type)) then parseBoundary type else none

/-- The header block of a raw message, and those of its parts at every depth. -/
inductive BlockOf [Base64] : (raw block : Text) → Prop
  | own {raw block body : Text} (split : splitHeaderBody raw = .ok (block,body)) : BlockOf raw block
  | part {raw own body boundary piece block : Text} {headers : List Header} {all : List Text}
      (split : splitHeaderBody raw = .ok (own,body)) (known : parseHeaders own = .ok headers)
      (bound : partBoundary headers = some boundary) (taken : multipartSections body boundary = .ok all)
      (member : piece ∈ all) (inside : BlockOf piece block) : BlockOf raw block

section BlockOf
variable {raw block body : Text} {headers : List Header} {P : Text → Prop}

theorem forall_blockOf_single [Base64] (split : splitHeaderBody raw = .ok (block,body))
    (known : parseHeaders block = .ok headers) (single : partBoundary headers = none) :
    (∀ other, BlockOf raw other → P other) ↔ P block := by
  constructor
  · intro all
    exact all block (.own split)
  · intro here other found
    cases found with
    | own split' =>
      cases split.symm.trans split'
      exact here
    | part split' known' bound =>
      cases split.symm.trans split'
      cases known.symm.trans known'
      cases single.symm.trans bound

theorem forall_blockOf_parts [Base64] {boundary : Text} {all : List Text} (split : splitHeaderBody raw = .ok (block,body))
    (known : parseHeaders block = .ok headers) (bound : partBoundary headers = some boundary)
    (taken : multipartSections body boundary = .ok all) :
    (∀ other, BlockOf raw other → P other) ↔ P block ∧ ∀ piece ∈ all, ∀ other, BlockOf piece other → P other := by
  constructor
  · intro every
    exact ⟨every block (.own split),
      fun piece member other inside => every other (.part split known bound taken member inside)⟩
  · rintro ⟨here,parts⟩ other found
    cases found with
    | own split' =>
      cases split.symm.trans split'
      exact here
    | part split' known' bound' taken' member inside =>
      cases split.symm.trans split'
      cases known.symm.trans known'
      cases bound.symm.trans bound'
      cases taken.symm.trans taken'
      exact parts _ member other inside

end BlockOf

theorem parseBody_cases [Base64] {headers : List Header} {rawBody : Text} {m : ParsedMessage}
    (parsed : parseBody headers rawBody = .ok m) : m.headers = headers ∧
      (partBoundary headers = none ∧ m.parts = [] ∨
        ∃ boundary all, partBoundary headers = some boundary ∧ multipartSections rawBody boundary = .ok all ∧
          List.Forall₂ (fun piece p => parseMessageRaw piece = .ok p) all m.parts) := by
  unfold parseBody at parsed
  unfold partBoundary
  dsimp only at parsed ⊢
  split at parsed
  · rename_i multipart
    rw [if_pos multipart]
    cases bound : parseBoundary ((headerValue headers contentType).getD defaultTextContentType) with
    | none =>
      rw [bound] at parsed
      contradiction
    | some boundary =>
      rw [bound,Option.elim_some] at parsed
      obtain ⟨all,taken,parsed⟩ := bind_ok_iff.mp parsed
      obtain ⟨parts,read,rfl⟩ := map_ok_iff.mp parsed
      exact ⟨rfl,.inr ⟨boundary,all,rfl,taken,mapM_ok_iff.mp read⟩⟩
  · rename_i single
    obtain ⟨body,_,rfl⟩ := map_ok_iff.mp parsed
    exact ⟨rfl,.inl ⟨if_neg single,rfl⟩⟩

theorem parseMessageRaw_cases [Base64] {raw : Text} {m : ParsedMessage} (parsed : parseMessageRaw raw = .ok m) :
    ∃ block body, splitHeaderBody raw = .ok (block,body) ∧ parseHeaders block = .ok m.headers ∧
      (partBoundary m.headers = none ∧ m.parts = [] ∨
        ∃ boundary all, partBoundary m.headers = some boundary ∧ multipartSections body boundary = .ok all ∧
          List.Forall₂ (fun piece p => parseMessageRaw piece = .ok p) all m.parts) := by
  rw [parseMessageRaw_eq] at parsed
  obtain ⟨⟨block,body⟩,split,parsed⟩ := bind_ok_iff.mp parsed
  obtain ⟨headers,known,parsed⟩ := bind_ok_iff.mp parsed
  obtain ⟨rfl,parts⟩ := parseBody_cases parsed
  exact ⟨block,body,split,known,parts⟩

end Messages

/-- The headers of a parsed message are fit for composing, at every depth, exactly where
no encoded word of its header blocks stands for a line break. -/
theorem parsed_headers_valid_iff [Base64] (raw : Text) (message : ParsedMessage)
    (parsed : parseMessageRaw raw = .ok message) :
    (∀ header, HeaderIn header message → header.Valid) ↔ ∀ block, BlockOf raw block → SafeBlock block := by
  induction length : raw.length using Nat.strong_induction_on generalizing raw message with
  | _ n ih =>
    obtain ⟨block,body,split,known,parts⟩ := parseMessageRaw_cases parsed
    rw [forall_headerIn,headers_valid_iff known]
    rcases parts with ⟨single,none⟩ | ⟨boundary,all,bound,taken,read⟩
    · rw [forall_blockOf_single split known single,none]
      simp
    · have shorter : ∀ piece ∈ all, piece.length < n := by
        intro piece member
        have whole := splitHeaderBody_length split
        have part := multipartSections_length taken piece member
        omega
      rw [forall_blockOf_parts split known bound taken]
      refine and_congr Iff.rfl ⟨fun valid piece member => ?_,fun safe p member => ?_⟩
      · obtain ⟨p,inside,parsed⟩ := exists_right read member
        exact (ih _ (shorter piece member) piece p parsed rfl).mp (valid p inside)
      · obtain ⟨piece,inside,parsed⟩ := exists_left read member
        exact (ih _ (shorter piece inside) piece p parsed rfl).mpr (safe piece inside)

/-- A line break and a header behind it, in one encoded word. -/
def smuggledBreak : Text := "Subject: =?UTF-8?Q?a=0ABcc:_x?=\n\n"

theorem smuggledBreak_accepted : ∃ message header, parseMessageRaw smuggledBreak = .ok message ∧
    HeaderIn header message ∧ validateHeaderValue header.value ≠ .ok () := by
  have read : (parseMessageRaw smuggledBreak).toOption.map ParsedMessage.headers = some [⟨"Subject","a\nBcc: x"⟩] := by
    decide +kernel
  obtain ⟨message,parsed,headers⟩ := toOption_map_some read
  exact ⟨message,⟨"Subject","a\nBcc: x"⟩,parsed,.own (by simp [headers]),by decide⟩

/-- A word of a multipart's part that stands for no line break. -/
def plainWord : Text := "Content-Type: multipart/mixed; boundary=x\n\n--x\nSubject: =?UTF-8?B?w6k=?=\n\n\n--x--"

theorem parsed_headers_valid_iff_at_plainWord : ∃ message, parseMessageRaw plainWord = .ok message ∧
    message.parts.map ParsedMessage.headers = [[⟨"Subject","é"⟩]] ∧ ∀ block, BlockOf plainWord block → SafeBlock block := by
  have read : (parseMessageRaw plainWord).toOption.map (fun m => (m.headers,m.parts.map fun p => (p.headers,p.parts.length))) =
      some ([⟨"Content-Type","multipart/mixed; boundary=x"⟩],[([⟨"Subject","é"⟩],0)]) := by decide +kernel
  obtain ⟨message,parsed,known⟩ := toOption_map_some read
  obtain ⟨headers,parts⟩ := Prod.mk.inj known
  obtain ⟨part,only,inner⟩ := List.map_eq_singleton_iff.mp parts
  obtain ⟨subject,leaf⟩ := Prod.mk.inj inner
  have valid : ∀ header, HeaderIn header message → header.Valid := by
    rw [forall_headerIn,headers,only]
    refine ⟨by simpa using ⟨by decide,by decide⟩,?_⟩
    simp only [List.mem_singleton,forall_eq]
    rw [forall_headerIn,subject,List.length_eq_zero_iff.mp leaf]
    exact ⟨by simpa using ⟨by decide,by decide⟩,by simp⟩
  exact ⟨message,parsed,by simp [only,subject],(parsed_headers_valid_iff plainWord message parsed).mp valid⟩

section Bare

theorem parseHeaders_bare [Base64] {block : Text} (bare : block = [] ∨ block.head? = some '\n') :
    parseHeaders block = .error "malformed MIME header" := by
  have first : ∃ lines, block.splitOn '\n' = []::lines := by
    rcases bare with rfl | start
    · exact ⟨[],rfl⟩
    · obtain ⟨rest,rfl⟩ := List.head?_eq_some_iff.mp start
      exact ⟨_,by rw [splitOn_cons,if_pos rfl]⟩
  obtain ⟨lines,split⟩ := first
  rw [parseHeaders,split]
  rfl

/-- What starts with a line break is no message: the block before a blank line has an
empty line, or there is no blank line. -/
theorem parseMessageRaw_bare [Base64] (t : Text) : ∃ error, parseMessageRaw ('\n' :: t) = .error error := by
  cases split : splitHeaderBody ('\n' :: t) with
  | error error => exact ⟨error,parseMessageRaw_malformed split⟩
  | ok parts =>
    obtain ⟨block,body⟩ := parts
    have text : '\n' :: t = block ++ "\n\n" ++ body := by
      unfold splitHeaderBody at split
      split at split
      · rename_i found
        cases split
        exact splitOnce_some found
      · contradiction
    have bare : block = [] ∨ block.head? = some '\n' := by
      cases block with
      | nil => exact .inl rfl
      | cons c block => exact .inr (congrArg some (List.cons.inj text).1.symm)
    exact ⟨_,parseMessageRaw_headers split (parseHeaders_bare bare)⟩

/-- The body of a multipart with one part: an empty header block, a blank line and a text. -/
def bareMultipart (boundary t : Text) : Text := "--" ++ boundary ++ "\n" ++ "\n" ++ t ++ "\n--" ++ boundary ++ "--\n"

theorem bareMultipart_sections (b : Line) {t : Text} (noCr : '\r' ∉ t) (clear : Undelimited b.text t) :
    multipartSections (bareMultipart b.text t) b.text = .ok ['\n' :: t] := by
  have plain : toLf ('\n' :: t) = '\n' :: t := toLf_plain (by simp [noCr])
  have written : bareMultipart b.text t = toLf (framed b.text ['\n' :: t]) := by
    have closing : join [closerLine b,blank] = (closerLine b).text ++ ['\n'] := join_cons (List.cons_ne_nil blank []) _
    rw [toLf_framed,List.map_singleton,List.flatMap_singleton,List.cons_append,join_cons (by simp),
      join_append (ofText_ne_nil _) (by simp),join_ofText,plain,closing]
    unfold bareMultipart markerLine closerLine
    simp only [List.append_assoc,List.cons_append]
    rfl
  have parts : ∀ r ∈ ['\n' :: t], Undelimited b.text (toLf r) := by
    intro r member
    rw [List.mem_singleton.mp member,plain,Undelimited,splitOn_cons,if_pos rfl,List.forall_mem_cons]
    exact ⟨undelimited_nil b.text [] (by simp),clear⟩
  have taken := (multipartSections_framed b ['\n' :: t]).mpr parts
  rw [written,taken,List.map_singleton,plain]

end Bare

/-- A multipart message whose one part has an empty header block is refused, whatever
its text: it is never read as a part with no headers and that text. -/
theorem bare_part_refused [Base64] (boundary t raw block type : Text) (headers : List Header)
    (noLf : '\n' ∉ boundary) (noCr : '\r' ∉ boundary) (plain : '\r' ∉ t) (clear : Undelimited boundary t)
    (split : splitHeaderBody raw = .ok (block,bareMultipart boundary t)) (known : parseHeaders block = .ok headers)
    (typed : headerValue headers contentType = some type)
    (multipart : ("multipart/" : Text).isPrefixOf (toAsciiLowercase (contentTypeBase type)) = true)
    (bound : parseBoundary type = some boundary) :
    (∃ error, parseMessageRaw raw = .error error) ∧
      ¬ ∃ message part, parseMessageRaw raw = .ok message ∧ message.parts = [part] ∧ part.headers = [] ∧
        part.body = some (utf8 t) := by
  have taken := bareMultipart_sections ⟨boundary,noLf,noCr⟩ plain clear
  obtain ⟨error,failed⟩ := parseMessageRaw_bare t
  have refused : parseMessageRaw raw = .error error := by
    rw [parseMessageRaw_multipart split known typed multipart bound,taken]
    change ((['\n' :: t].mapM parseMessageRaw).map _) = _
    rw [List.mapM_cons,failed]
    rfl
  refine ⟨⟨error,refused⟩,?_⟩
  rintro ⟨message,part,parsed,_⟩
  rw [refused] at parsed
  contradiction

def bareMessage : Text := "Content-Type: multipart/mixed; boundary=b\n\n" ++ bareMultipart "b" "hi"

theorem bareMessage_refused : ¬ ∃ message part, parseMessageRaw bareMessage = .ok message ∧ message.parts = [part] ∧
    part.headers = [] ∧ part.body = some (utf8 "hi") := by
  have refused : (parseMessageRaw bareMessage).toOption.isSome = false := by decide +kernel
  rintro ⟨message,part,parsed,_⟩
  rw [parsed] at refused
  contradiction

theorem bare_part_refused_at_bareMessage : ∃ error, parseMessageRaw bareMessage = .error error := by
  have split : (splitHeaderBody bareMessage).toOption.map id =
      some (("Content-Type: multipart/mixed; boundary=b" : Text),bareMultipart "b" "hi") := by decide
  have read : (parseHeaders "Content-Type: multipart/mixed; boundary=b").toOption.map id =
      some [⟨"Content-Type","multipart/mixed; boundary=b"⟩] := by decide +kernel
  obtain ⟨_,split,rfl⟩ := toOption_map_some split
  obtain ⟨_,known,rfl⟩ := toOption_map_some read
  exact (bare_part_refused "b" "hi" bareMessage _ "multipart/mixed; boundary=b" _ (by decide) (by decide) (by decide)
    (by decide) split known (by decide) (by decide) (by decide)).1

end MechanicsCore.Mime
