import MechanicsCore.Mime.Codec
import MechanicsCore.Mime.Format

/-! `parse_message_raw` as a reader of the line format. -/
namespace MechanicsCore.Mime
open MechanicsCore.Library Text Line

section Sections

private theorem flatMap_lines {lines : List Line} (nonempty : lines ≠ []) :
    (lines.flatMap fun line => line.text ++ ['\n']) = join lines ++ ['\n'] := by
  induction lines with
  | nil => contradiction
  | cons line lines ih =>
    by_cases last : lines = []
    · subst last
      simp [join]
    · rw [List.flatMap_cons,ih last,join_cons last]
      simp

theorem trimPartSection_lines (lines : List Line) :
    trimPartSection (lines.flatMap fun line => line.text ++ ['\n']) = join lines := by
  by_cases empty : lines = []
  · subst empty
    rfl
  · have plain : (join lines).getLast? ≠ some '\r' := fun last => cr_not_mem_join lines (List.mem_of_getLast? last)
    rw [flatMap_lines empty]
    simp [trimPartSection,stripSuffix?,plain]

theorem sectionLoop_lines (marker closer : Line) (lines : List Line) (inside : Bool) (current : List Line) :
    sectionLoop marker.text closer.text (lines.map Line.text) inside
        (current.flatMap fun line => line.text ++ ['\n']) =
      (sections marker closer inside current lines).elim
        (.error "malformed multipart MIME body: missing closing boundary") fun all => .ok (all.map join) := by
  induction lines generalizing inside current with
  | nil => rfl
  | cons line lines ih =>
    have trimmed : line.text.rdropWhile (· == '\r') = line.text := by
      rw [List.rdropWhile_eq_self_iff]
      intro nonempty last
      exact line.noCr (by rw [← beq_iff_eq.mp last]; exact List.getLast_mem nonempty)
    have same : ∀ other : Line, line.text = other.text ↔ line = other := fun other =>
      ⟨fun texts => ext_text texts,fun lines => lines ▸ rfl⟩
    simp only [List.map_cons,sectionLoop,trimmed,same,sections]
    split
    · have later := ih true []
      rw [List.flatMap_nil] at later
      rw [later]
      cases sections marker closer true [] lines with
      | none => rfl
      | some all => cases inside <;> simp [trimPartSection_lines,bind,Except.bind,pure,Except.pure]
    · split
      · cases inside <;> simp [trimPartSection_lines]
      · cases inside
        · exact ih false current
        · have extended := ih true (current ++ [line])
          simpa using extended

theorem multipartSections_join (b : Boundary) {body : List Line} (nonempty : body ≠ []) :
    multipartSections (join body) b.text = (sections b.marker b.closer false [] body).elim
      (.error "malformed multipart MIME body: missing closing boundary") fun all => .ok (all.map join) := by
  rw [multipartSections,splitOn_join nonempty]
  exact sectionLoop_lines b.marker b.closer body false []

end Sections

section Headers

theorem validateHeaderName_chars {name : Text} (valid : validateHeaderName name = .ok ()) :
    name ≠ [] ∧ ∀ c ∈ name, 0x21 ≤ c.toNat ∧ c.toNat ≤ 0x7E ∧ c ≠ ':' := by
  unfold validateHeaderName at valid
  split at valid
  · contradiction
  · rename_i passed
    simp only [Bool.or_eq_true,not_or,List.isEmpty_iff,Bool.not_eq_true,Bool.not_eq_false',List.all_eq_true,
      Bool.and_eq_true,decide_eq_true_eq,bne_iff_ne,UInt8.le_iff_toNat_le,UInt8.reduceToNat] at passed
    obtain ⟨nonempty,bytes⟩ := passed
    have ascii := ascii_of_utf8 fun b member => by
      have range := (bytes b member).1
      omega
    refine ⟨nonempty,fun c member => ?_⟩
    obtain ⟨range,colon⟩ := bytes _ (mem_utf8 (ascii c member) member)
    rw [toNat_asciiByte (ascii c member)] at range
    refine ⟨by omega,by omega,?_⟩
    rintro rfl
    exact colon rfl

theorem validateHeaderName_start {name : Text} (valid : validateHeaderName name = .ok ()) :
    ∃ c rest, name = c::rest ∧ c ≠ ' ' ∧ c ≠ '\t' := by
  obtain ⟨nonempty,chars⟩ := validateHeaderName_chars valid
  obtain ⟨c,rest,start⟩ := List.exists_cons_of_ne_nil nonempty
  have known := chars c (by simp [start])
  have space : c ≠ ' ' := by
    rintro rfl
    exact absurd known.1 (by decide)
  have tab : c ≠ '\t' := by
    rintro rfl
    exact absurd known.1 (by decide)
  exact ⟨c,rest,start,space,tab⟩

/-- A header value that neither trimming nor the decoding of encoded words changes. -/
def Settled (value : Text) : Prop := trim value = value ∧ '?' ∉ value

theorem decodeEncodedWords_plain [Base64] {value : Text} (plain : '?' ∉ value) : decodeEncodedWords value = .ok value := by
  refine decodeEncodedWords_absent fun within => plain ?_
  exact within.subset (by decide : '?' ∈ ("=?" : Text))

theorem closeHeader_settled [Base64] {name value : Text} (settled : Settled value) :
    closeHeader (some name) value = .ok [⟨name,value⟩] := by
  simp [closeHeader,settled.1,decodeEncodedWords_plain settled.2,bind,Except.bind,pure,Except.pure]

/-- A line that opens a header closes the one before it. -/
theorem parseHeaderLines_opened [Base64] {name : Text} (value : Text) (valid : validateHeaderName name = .ok ())
    (lines : List Text) (current : Option Text) (collected : Text) :
    parseHeaderLines ((name ++ ':' :: value) :: lines) current collected = do
      let closed ← closeHeader current collected
      return closed ++ (← parseHeaderLines lines (some name) (trim value)) := by
  have free : ':' ∉ name := fun member => ((validateHeaderName_chars valid).2 ':' member).2.2 rfl
  have colon : splitOnce ":" (name ++ ':' :: value) = some (name,value) := splitOnce_char name value free
  obtain ⟨c,rest,same,space,tab⟩ := validateHeaderName_start valid
  rw [parseHeaderLines,if_neg (by simp [same,space,tab]),colon]
  simp only [valid]
  rfl

theorem parseHeaderLines_fold [Base64] (name value line : Text) (blank : line.head? = some ' ' ∨ line.head? = some '\t')
    (lines : List Text) : parseHeaderLines (line :: lines) (some name) value =
      parseHeaderLines lines (some name) (value ++ " " ++ trim line) := by
  rw [parseHeaderLines,if_pos (by simpa using blank),if_neg (by simp)]

theorem parseHeaderLines_name [Base64] (name value : Text) {collected : Text} {lines : List Text} {current : Option Text}
    {before after : List Header} (valid : validateHeaderName name = .ok ()) (trimmed : trim value = value)
    (closed : closeHeader current collected = .ok before)
    (later : parseHeaderLines lines (some name) value = .ok after) :
    parseHeaderLines ((name ++ ": " ++ value) :: lines) current collected = .ok (before ++ after) := by
  have blankless : trim (' ' :: value) = value := (trim_cons (by decide)).trans trimmed
  have opened := parseHeaderLines_opened (' ' :: value) valid lines current collected
  rw [closed,blankless,later] at opened
  rw [List.append_assoc]
  exact opened

def Header.line (header : Header) : Text := header.name ++ ": " ++ header.value

/-- Headers of one line each are read as they are written. -/
theorem parseHeaderLines_settled [Base64] {headers : List Header}
    (plain : ∀ header ∈ headers, validateHeaderName header.name = .ok () ∧ Settled header.value) {collected : Text}
    {current : Option Text} {before : List Header} (closed : closeHeader current collected = .ok before) :
    parseHeaderLines (headers.map Header.line) current collected = .ok (before ++ headers) := by
  induction headers generalizing collected current before with
  | nil =>
    rw [List.append_nil]
    exact closed
  | cons header headers ih =>
    obtain ⟨named,settled⟩ := plain header List.mem_cons_self
    have last : closeHeader (some header.name) header.value = .ok [header] := closeHeader_settled settled
    have later := ih (fun other member => plain other (List.mem_cons_of_mem _ member)) last
    exact parseHeaderLines_name header.name header.value named settled.1 closed later

theorem typeText_settled (b : Boundary) : Settled b.typeText := by
  refine ⟨?_,b.typeText_not_mem (by decide) (by decide)⟩
  exact trim_between (c := 'm') (d := '"') (by decide) (by decide) ("ultipart/mixed; boundary=\"" ++ b.text)

theorem trim_parameter (boundary : Text) :
    trim ("boundary=\"" ++ boundary ++ "\"") = "boundary=\"" ++ boundary ++ "\"" :=
  trim_between (c := 'b') (d := '"') (by decide) (by decide) ("oundary=\"" ++ boundary)

theorem parseHeaderLines_type [Base64] (b : Boundary) {collected : Text} {current : Option Text} {before : List Header}
    (closed : closeHeader current collected = .ok before) :
    parseHeaderLines ((typeLines b).map Line.text) current collected = .ok (before ++ [⟨contentType,b.typeText⟩]) := by
  have last : closeHeader (some contentType) b.typeText = .ok [⟨contentType,b.typeText⟩] :=
    closeHeader_settled (typeText_settled b)
  have settled := (typeText_settled b).1
  unfold typeLines
  split
  · exact parseHeaderLines_name contentType b.typeText (by decide) settled closed last
  · have whole : "multipart/mixed;" ++ " " ++ ("boundary=\"" ++ b.text ++ "\"") = b.typeText := by
      unfold Boundary.typeText
      simp
    have blankless : trim (' ' :: ("boundary=\"" ++ b.text ++ "\"")) = "boundary=\"" ++ b.text ++ "\"" :=
      (trim_cons (by decide)).trans (trim_parameter b.text)
    have folded := parseHeaderLines_fold contentType "multipart/mixed;" (' ' :: ("boundary=\"" ++ b.text ++ "\""))
      (.inl rfl) []
    rw [blankless,whole] at folded
    exact parseHeaderLines_name contentType "multipart/mixed;" (by decide) (by decide) closed (folded.trans last)

theorem parseHeaders_nodeHead [Base64] (top : Bool) (b : Boundary) :
    parseHeaders (join (nodeHead top b)) = .ok (nodeHeaders top b) := by
  rw [parseHeaders,splitOn_join (nodeHead_ne_nil top b),nodeHead,List.map_append]
  have opened : closeHeader none [] = .ok [] := rfl
  cases top with
  | false =>
    have only := parseHeaderLines_type b opened
    exact only
  | true =>
    have version : closeHeader (some mimeVersion) "1.0" = .ok [⟨mimeVersion,"1.0"⟩] :=
      closeHeader_settled ⟨by decide,by decide⟩
    have first := parseHeaderLines_name mimeVersion "1.0" (by decide) (by decide) opened
      (parseHeaderLines_type b version)
    exact first

theorem contentTypeBase_typeText (b : Boundary) : contentTypeBase b.typeText = "multipart/mixed" := by
  have split : splitOnce ";" b.typeText = some (("multipart/mixed" : Text)," boundary=\"" ++ b.text ++ "\"") :=
    splitOnce_char "multipart/mixed" (" boundary=\"" ++ b.text ++ "\"") (c := ';') (by decide)
  rw [contentTypeBase,split]
  change trim ("multipart/mixed" : Text) = "multipart/mixed"
  decide

private theorem boundaryOfParams_quoted (boundary : Text) :
    boundaryOfParams [" boundary=\"" ++ boundary ++ "\""] = some boundary := by
  have trimmed : trim (" boundary=\"" ++ boundary ++ "\"") = "boundary=\"" ++ boundary ++ "\"" :=
    (trim_cons (by decide)).trans (trim_parameter boundary)
  have split : splitOnce "=" ("boundary=\"" ++ boundary ++ "\"") = some (("boundary" : Text),'"' :: (boundary ++ ['"'])) :=
    splitOnce_char "boundary" ('"' :: (boundary ++ ['"'])) (c := '=') (by decide)
  have named : eqIgnoreAsciiCase (trim ("boundary" : Text)) "boundary" = true := by decide
  have quoted : trim ('"' :: (boundary ++ ['"'])) = '"' :: (boundary ++ ['"']) := trim_between (by decide) (by decide) _
  have last : ('"' :: (boundary ++ ['"'])).getLast? = some '"' := by
    rw [← List.cons_append,List.getLast?_append]
    rfl
  have long : 2 ≤ (utf8 ('"' :: (boundary ++ ['"']))).length := by
    have quote : (utf8 ['"']).length = 1 := by decide
    rw [utf8_cons,utf8_append,utf8EncodeChar_ascii (by decide)]
    simp only [List.length_append,quote,List.length_singleton]
    omega
  rw [boundaryOfParams,trimmed,split]
  simp only [named,quoted,last,long]
  simp

/-- A boundary written behind a type without parameters is read back. -/
theorem parseBoundary_parameter {base boundary : Text} (bare : ';' ∉ base) (free : ';' ∉ boundary) :
    parseBoundary (base ++ "; boundary=\"" ++ boundary ++ "\"") = some boundary := by
  have parameter : ';' ∉ " boundary=\"" ++ boundary ++ "\"" := by simp [free]
  have whole : base ++ "; boundary=\"" ++ boundary ++ "\"" = base ++ ';' :: (" boundary=\"" ++ boundary ++ "\"") := by simp
  rw [parseBoundary,whole,List.splitOn_append_cons_self_of_not_mem bare,List.splitOn_eq_singleton parameter]
  exact boundaryOfParams_quoted boundary

theorem parseBoundary_typeText (b : Boundary) : parseBoundary b.typeText = some b.text := by
  have whole : b.typeText = "multipart/mixed" ++ "; boundary=\"" ++ b.text ++ "\"" := by
    unfold Boundary.typeText
    simp
  rw [whole]
  exact parseBoundary_parameter (by decide) (b.not_mem (by decide))

end Headers

theorem splitHeaderBody_lines {head body : List Line} (first : head ≠ []) (second : body ≠ [])
    (inked : ∀ line ∈ head, line.text ≠ []) :
    splitHeaderBody (join (head ++ blank::body)) = .ok (join head,join body) := by
  have split := splitOnce_join first second inked
  unfold splitHeaderBody
  exact split ▸ rfl

theorem splitHeaderBody_head {head : List Line} (first : head ≠ []) (worded : ∀ line ∈ head, Worded line) :
    splitHeaderBody (join (head ++ [blank])) = .error "malformed MIME message: missing header/body separator" := by
  have split := splitOnce_join_none first fun line member => (worded line member).1
  unfold splitHeaderBody
  exact split ▸ rfl

section Parse
variable {raw rawHeaders rawBody : Text} {headers : List Header}

/-- What the parser makes of a body under the headers before it. -/
def parseBody [Base64] (headers : List Header) (rawBody : Text) : JsResult ParsedMessage :=
  let type := (headerValue headers contentType).getD defaultTextContentType
  if ("multipart/" : Text).isPrefixOf (toAsciiLowercase (contentTypeBase type)) then
    (parseBoundary type).elim (.error "multipart MIME message is missing boundary") fun boundary =>
      (multipartSections rawBody boundary).bind fun all =>
        (all.mapM parseMessageRaw).map fun parts => ⟨headers,none,parts,false⟩
  else (decodeBody rawBody headers).map fun (body,textBody) => ⟨headers,some body,[],textBody⟩

theorem parseMessageRaw_eq [Base64] (raw : Text) : parseMessageRaw raw =
    splitHeaderBody raw >>= fun split => parseHeaders split.1 >>= fun headers => parseBody headers split.2 := by
  rw [parseMessageRaw]
  split
  · rename_i split
    rw [split]
    rfl
  · rename_i rawHeaders rawBody split
    rw [split]
    change _ = parseHeaders rawHeaders >>= fun headers => parseBody headers rawBody
    cases parseHeaders rawHeaders with
    | error error => rfl
    | ok headers =>
      change _ = parseBody headers rawBody
      unfold parseBody
      dsimp only
      split
      · cases parseBoundary ((headerValue headers contentType).getD defaultTextContentType) with
        | none => rfl
        | some boundary =>
          dsimp only [Option.elim_some]
          split
          · rename_i failed
            rw [failed]
            rfl
          · rename_i all found
            -- the recursion over the attached sections is a recursion over the sections
            have values := List.mapM_subtype (l := all.attach) (f := fun part => parseMessageRaw part.1)
              (g := parseMessageRaw) fun _ _ => rfl
            rw [List.unattach_attach] at values
            rw [found,values]
            rfl
      · rfl

theorem parseMessageRaw_malformed [Base64] {error : String} (split : splitHeaderBody raw = .error error) :
    parseMessageRaw raw = .error error := by
  rw [parseMessageRaw_eq,split]
  rfl

theorem parseMessageRaw_headers [Base64] {error : String} (split : splitHeaderBody raw = .ok (rawHeaders,rawBody))
    (malformed : parseHeaders rawHeaders = .error error) : parseMessageRaw raw = .error error := by
  rw [parseMessageRaw_eq,split]
  change (parseHeaders rawHeaders >>= fun headers => parseBody headers rawBody) = _
  rw [malformed]
  rfl

theorem parseMessageRaw_body [Base64] (split : splitHeaderBody raw = .ok (rawHeaders,rawBody))
    (known : parseHeaders rawHeaders = .ok headers) : parseMessageRaw raw = parseBody headers rawBody := by
  rw [parseMessageRaw_eq,split]
  change (parseHeaders rawHeaders >>= fun headers => parseBody headers rawBody) = _
  rw [known]
  rfl

theorem parseMessageRaw_multipart [Base64] {type boundary : Text} (split : splitHeaderBody raw = .ok (rawHeaders,rawBody))
    (known : parseHeaders rawHeaders = .ok headers) (typed : headerValue headers contentType = some type)
    (multipart : ("multipart/" : Text).isPrefixOf (toAsciiLowercase (contentTypeBase type)) = true)
    (bound : parseBoundary type = some boundary) :
    parseMessageRaw raw = (multipartSections rawBody boundary).bind fun all =>
      (all.mapM parseMessageRaw).map fun parts => ⟨headers,none,parts,false⟩ := by
  rw [parseMessageRaw_body split known,parseBody,typed]
  dsimp only [Option.getD_some]
  rw [if_pos multipart,bound]
  rfl

theorem parseMessageRaw_single [Base64] {type : Text} (split : splitHeaderBody raw = .ok (rawHeaders,rawBody))
    (known : parseHeaders rawHeaders = .ok headers) (typed : headerValue headers contentType = some type)
    (single : ("multipart/" : Text).isPrefixOf (toAsciiLowercase (contentTypeBase type)) = false) :
    parseMessageRaw raw = (decodeBody rawBody headers).map fun (body,textBody) => ⟨headers,some body,[],textBody⟩ := by
  rw [parseMessageRaw_body split known,parseBody,typed]
  dsimp only [Option.getD_some]
  exact if_neg (Bool.eq_false_iff.mp single)

end Parse

theorem normalizeTextLines_eq (s : Text) : normalizeTextLines s = toCrlf (toLf s) := by
  unfold toCrlf
  rw [← replace_crlf_cr s]
  exact replace_char _ '\n' ['\r','\n']

theorem toLf_normalizeTextLines (s : Text) : toLf (normalizeTextLines s) = toLf s := by
  rw [normalizeTextLines_eq]
  exact toLf_toCrlf (not_mem_toLf s)

theorem qpText_normalizeTextLines (s : Text) : QpText (utf8 (toLf s)) (toLf (qpEncode (utf8 (normalizeTextLines s)))) := by
  rw [normalizeTextLines_eq]
  exact QpText.of_encode (not_mem_toLf s) 0

/-- A line that quoted-printable writes without escapes is a piece of the text. -/
theorem mem_qpEncode_text {content line : Text} (wordy : Wordy line)
    (member : line ∈ (toLf (qpEncode (utf8 (normalizeTextLines content)))).splitOn '\n') : line <:+: content := by
  have piece := (qpText_normalizeTextLines content).infix_of_mem_qpLines member (wordy.not_mem (by decide))
  obtain ⟨part,found,within⟩ := infix_splitOn (c := '\n') (wordy.not_mem (by decide)) (infix_of_utf8 wordy.ascii piece)
  exact within.trans (infix_of_mem_lines found)

theorem toLf_bodyText_ascii {content : Text} (ascii : isAscii content = true) : toLf (bodyText content) = toLf content := by
  have encoding : textEncoding content = .sevenBit := if_pos ascii
  rw [bodyText,encoding]
  exact toLf_normalizeTextLines content

theorem qpText_bodyText {content : Text} (high : isAscii content = false) :
    QpText (utf8 (toLf content)) (toLf (bodyText content)) := by
  have encoding : textEncoding content = .quotedPrintable := if_neg (by simp [high])
  rw [bodyText,encoding]
  exact qpText_normalizeTextLines content

theorem leafHead_text (top : Bool) (content : Text) :
    (leafHead top content).map Line.text = (leafHeaders top content).map Header.line := by
  unfold leafHead encodingLine leafHeaders textEncoding
  cases isAscii content <;> cases top <;> rfl

theorem leafHeaders_settled (top : Bool) (content : Text) :
    ∀ header ∈ leafHeaders top content, validateHeaderName header.name = .ok () ∧ Settled header.value := by
  unfold leafHeaders textEncoding Settled
  cases isAscii content <;> cases top <;> decide

theorem parseHeaders_leafHead [Base64] (top : Bool) (content : Text) :
    parseHeaders (join (leafHead top content)) = .ok (leafHeaders top content) := by
  have opened : closeHeader none [] = .ok [] := rfl
  rw [parseHeaders,splitOn_join (by simp [leafHead]),leafHead_text]
  exact parseHeaderLines_settled (leafHeaders_settled top content) opened

theorem headerValue_leaf (top : Bool) (content : Text) :
    headerValue (leafHeaders top content) contentType = some defaultTextContentType ∧
      ((headerValue (leafHeaders top content) contentTransferEncoding).bind TransferEncoding.parse).getD .sevenBit =
        textEncoding content := by
  unfold leafHeaders textEncoding
  cases isAscii content <;> cases top <;> decide +kernel

theorem headerValue_node (top : Bool) (b : Boundary) : headerValue (nodeHeaders top b) contentType = some b.typeText := by
  cases top <;> rfl

theorem decodeBody_leaf [Base64] (top : Bool) (content : Text) :
    decodeBody (toLf (bodyText content)) (leafHeaders top content) = .ok (utf8 (toLf content),true) := by
  obtain ⟨typed,encoded⟩ := headerValue_leaf top content
  unfold decodeBody
  rw [typed,encoded,Option.getD_some,isTextContentType_default]
  cases ascii : isAscii content with
  | true =>
    have encoding : textEncoding content = .sevenBit := if_pos ascii
    rw [encoding,toLf_bodyText_ascii ascii]
    rfl
  | false =>
    have encoding : textEncoding content = .quotedPrintable := if_neg (by simp [ascii])
    rw [encoding]
    simp only [(qpText_bodyText ascii).decode]
    rfl

def readLines [Base64] (lines : List Line) : Option ParsedMessage := (parseMessageRaw (join lines)).toOption

private theorem toOption_mapM [Base64] (l : List (List Line)) :
    ((l.map join).mapM parseMessageRaw).toOption = l.mapM readLines := by
  induction l with
  | nil => rfl
  | cons lines l ih =>
    rw [List.map_cons,List.mapM_cons,List.mapM_cons,← ih]
    unfold readLines
    cases parseMessageRaw (join lines) with
    | error e => rfl
    | ok first => cases (l.map join).mapM parseMessageRaw <;> rfl

/-- The parser as a reader of the format. -/
def mimeReader [Base64] : Reader mimeFormat ParsedMessage where
  read := readLines
  leaf top content := ⟨leafHeaders top content,some (utf8 (toLf content)),[],true⟩
  node top b parts := ⟨nodeHeaders top b,none,parts,false⟩
  read_text top content := by
    have split := splitHeaderBody_lines (by simp [leafHead]) (ofText_ne_nil (bodyText content))
      fun line member => (leafHead_worded top content line member).1
    rw [join_ofText] at split
    have parsed := parseMessageRaw_single split (parseHeaders_leafHead top content) (headerValue_leaf top content).1
      (by decide)
    rw [decodeBody_leaf] at parsed
    exact congrArg Except.toOption parsed
  read_node top b body nonempty := by
    have split := splitHeaderBody_lines (nodeHead_ne_nil top b) nonempty fun line member => (nodeHead_worded top b line member).1
    have multipart : ("multipart/" : Text).isPrefixOf (toAsciiLowercase (contentTypeBase b.typeText)) = true := by
      rw [contentTypeBase_typeText]
      decide
    have parsed := parseMessageRaw_multipart split (parseHeaders_nodeHead top b) (headerValue_node top b)
      multipart (parseBoundary_typeText b)
    rw [multipartSections_join b nonempty] at parsed
    change readLines (nodeHead top b ++ [blank] ++ body) = _
    rw [readLines,List.append_assoc,List.singleton_append,parsed]
    change _ = ((sections b.marker b.closer false [] body).bind fun all => all.mapM readLines).map _
    cases sections b.marker b.closer false [] body with
    | none => rfl
    | some all =>
      rw [Option.bind_some,← toOption_mapM]
      change (((all.map join).mapM parseMessageRaw).map _).toOption = _
      cases (all.map join).mapM parseMessageRaw <;> rfl
  read_head top b := by
    have split := splitHeaderBody_head (nodeHead_ne_nil top b) (nodeHead_worded top b)
    exact congrArg Except.toOption (parseMessageRaw_malformed split)

end MechanicsCore.Mime
