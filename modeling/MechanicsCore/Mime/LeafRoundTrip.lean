import MechanicsCore.Mime.Rendered

/-! Leaves read back. Among the headers of a rendered leaf the parser finds its
content type and its transfer encoding, and decodes the body with them: texts come
back with line feeds, bytes only as far as the line endings of the encoding allow. -/
namespace MechanicsCore.Mime
open MechanicsCore.Library Text Line Outcome

section Headers

/-- A header that is written on one line and read as it is. -/
structure Header.Short (header : Header) : Prop where
  ascii : isAscii header.value = true
  settled : Settled header.value
  fits : (utf8 (header.name ++ ": " ++ header.value)).length ≤ 78

/-- No encoded word starts in the value as it is written. -/
def Header.Unmarked (header : Header) : Prop := isAscii header.value = true → ¬ ("=?" : Text) <:+: header.value

/-- What may become of a header that is written and read. -/
structure Header.ReadAs (header read : Header) : Prop where
  name : read.name = header.name
  value : header.Short → read.value = header.value

namespace HeaderBlock
variable {b : HeaderBlock} {value : Text}

private theorem absent_folds {p : Text} (free : ' ' ∉ p) {folds : List Line}
    (absent : ∀ fold ∈ folds, ¬ p <:+: fold.text) {value : Text} (before : ¬ p <:+: value) :
    ¬ p <:+: folds.foldl (fun value fold => value ++ " " ++ trim fold.text) value := by
  induction folds generalizing value with
  | nil => exact before
  | cons fold folds ih =>
    refine ih (fun other member => absent other (List.mem_cons_of_mem _ member)) fun within => ?_
    have parts : p <:+: value ++ ' ' :: trim fold.text := by simpa using within
    rcases infix_append_cons free parts with left | right
    · exact before left
    · exact absent fold List.mem_cons_self (right.trans (infix_trim _))

theorem collected_absent (writes : b.Writes value) (absent : ¬ ("=?" : Text) <:+: value) :
    ¬ ("=?" : Text) <:+: b.collected := by
  have spaceless : ' ' ∉ ("=?" : Text) := by decide
  have written : ¬ ("=?" : Text) <:+: ' ' :: value := by
    intro within
    rcases infix_append_cons (a := []) spaceless within with empty | later
    · exact absurd (List.infix_nil.mp empty) (by decide)
    · exact absent later
  have start : ¬ ("=?" : Text) <:+: trim b.first.text := fun within =>
    written ((within.trans (infix_trim _)).trans writes.first.isInfix)
  exact absent_folds spaceless (fun fold member within => written (within.trans (writes.folds fold member))) start

theorem trim_collected (writes : b.Writes value) (single : b.folds = []) (trimmed : trim value = value) :
    trim b.collected = value := by
  have blankless : trim (' ' :: value) = value := (trim_cons (by decide)).trans trimmed
  rw [collected,single,writes.whole single,List.foldl_nil,blankless,trimmed]

theorem trim_collected_word (writes : b.Writes value) (spaceless : ' ' ∉ value) (trimmed : trim value = value) :
    trim b.collected = value := by
  rcases writes.word spaceless with single | ⟨first,folds⟩
  · exact trim_collected writes single trimmed
  · obtain ⟨fold,same,text⟩ := List.map_eq_singleton_iff.mp folds
    have nothing : trim ([] : Text) = [] := rfl
    rw [collected,same,first,nothing,List.foldl_cons,List.foldl_nil,text,trimmed]
    exact (trim_cons (by decide)).trans trimmed

theorem read_value [Base64] {decoded : Text} (known : decodeEncodedWords (trim b.collected) = .ok decoded) :
    b.read = .ok ⟨b.name,decoded⟩ := by
  rw [read,known]
  rfl

theorem read_unmarked [Base64] (writes : b.Writes value) (absent : ¬ ("=?" : Text) <:+: value) :
    b.read = .ok ⟨b.name,trim b.collected⟩ :=
  read_value (decodeEncodedWords_absent fun within => collected_absent writes absent (within.trans (infix_trim _)))

theorem read_settled [Base64] (writes : b.Writes value) (settled : Settled value)
    (fits : (utf8 (b.name ++ ": " ++ value)).length ≤ 78) : b.read = .ok ⟨b.name,value⟩ := by
  have whole := trim_collected writes (writes.short fits) settled.1
  have plain := decodeEncodedWords_plain settled.2
  exact read_value (by rw [whole,plain])

theorem read_encoded [Base64] (writes : b.Writes (qEncodeHeader value)) : b.read = .ok ⟨b.name,value⟩ := by
  have spaceless : ' ' ∉ qEncodeHeader value := fun member => absurd (qEncodeHeader_chars value _ member).1 (by decide)
  have trimmed : trim (qEncodeHeader value) = qEncodeHeader value := by
    obtain ⟨inner,ends⟩ := qEncodeHeader_ends value
    rw [ends]
    exact trim_between (by decide) (by decide) inner
  exact read_value (by rw [trim_collected_word writes spaceless trimmed,decodeEncodedWords_qEncode])

end HeaderBlock

variable {headers : List Header} {blocks : List HeaderBlock}

theorem HeaderBlock.read_ok [Base64] {b : HeaderBlock} {header : Header}
    (writes : b.Writes (maybeEncodeHeaderValue header.value)) (unmarked : header.Unmarked) : ∃ read, b.read = .ok read := by
  unfold maybeEncodeHeaderValue at writes
  split at writes
  · rename_i ascii
    exact ⟨_,HeaderBlock.read_unmarked writes (unmarked ascii)⟩
  · exact ⟨_,HeaderBlock.read_encoded writes⟩

theorem HeaderBlock.readAs [Base64] {b : HeaderBlock} {header read : Header} (named : b.name = header.name)
    (writes : b.Writes (maybeEncodeHeaderValue header.value)) (known : b.read = .ok read) : header.ReadAs read := by
  constructor
  · obtain ⟨value,_,same⟩ := bind_ok_iff.mp known
    rw [pure_ok_iff] at same
    rw [← same,named]
  · intro short
    have same : maybeEncodeHeaderValue header.value = header.value := if_pos short.ascii
    rw [same] at writes
    rw [HeaderBlock.read_settled writes short.settled (by rw [named]; exact short.fits)] at known
    rw [← Except.ok.inj known]

theorem read_blocks [Base64]
    (matched : List.Forall₂ (fun b header => b.name = header.name ∧ b.Writes (maybeEncodeHeaderValue header.value))
      blocks headers) {parsed : List Header} (known : blocks.mapM HeaderBlock.read = .ok parsed) :
    List.Forall₂ Header.ReadAs headers parsed := by
  rw [mapM_ok_iff] at known
  induction matched generalizing parsed with
  | nil =>
    cases known
    exact .nil
  | cons first _ ih =>
    cases known with
    | cons read others => exact .cons (HeaderBlock.readAs first.1 first.2 read) (ih others)

theorem read_blocks_ok [Base64]
    (matched : List.Forall₂ (fun b header => b.name = header.name ∧ b.Writes (maybeEncodeHeaderValue header.value))
      blocks headers) (unmarked : ∀ header ∈ headers, header.Unmarked) :
    ∃ parsed, blocks.mapM HeaderBlock.read = .ok parsed := by
  simp only [mapM_ok_iff]
  induction matched with
  | nil => exact ⟨[],.nil⟩
  | cons first _ ih =>
    obtain ⟨read,known⟩ := HeaderBlock.read_ok first.2 (unmarked _ List.mem_cons_self)
    obtain ⟨parsed,others⟩ := ih fun header member => unmarked header (List.mem_cons_of_mem _ member)
    exact ⟨read::parsed,.cons known others⟩

theorem namedHeaders_readAs {parsed : List Header} (all : List.Forall₂ Header.ReadAs headers parsed) (name : Text) :
    List.Forall₂ Header.ReadAs (namedHeaders headers name) (namedHeaders parsed name) := by
  unfold namedHeaders
  induction all with
  | nil => exact .nil
  | cons first _ ih =>
    rw [List.filter_cons,List.filter_cons,first.name]
    split
    · exact .cons first ih
    · exact ih

theorem headerValue_readAs {parsed : List Header} (all : List.Forall₂ Header.ReadAs headers parsed) {header : Header}
    {name : Text} (single : namedHeaders headers name = [header]) (short : header.Short) :
    headerValue parsed name = some header.value := by
  have named := namedHeaders_readAs all name
  rw [single] at named
  rw [headerValue_eq]
  cases named_eq : namedHeaders parsed name with
  | nil =>
    rw [named_eq] at named
    cases named
  | cons read others =>
    rw [named_eq] at named
    cases named with
    | cons first none =>
      cases none
      exact congrArg some (first.value short)

/-- Where the parser accepts rendered headers they are read as those that were rendered. -/
theorem split_rendered [Base64] {head : Text} (rendered : renderHeaders headers = .ok head) (nonempty : headers ≠ [])
    (text : Text) :
    ∃ rawHeaders, splitHeaderBody (normalizeRawMessage (head ++ "\r\n" ++ text)) = .ok (rawHeaders,toLf text) ∧
      (∀ parsed, parseHeaders rawHeaders = .ok parsed → List.Forall₂ Header.ReadAs headers parsed) ∧
      ((∀ header ∈ headers, header.Unmarked) → ∃ parsed, parseHeaders rawHeaders = .ok parsed) := by
  obtain ⟨blocks,matched,some,split⟩ := splitHeaderBody_rendered rendered nonempty
  refine ⟨join (blocks.flatMap HeaderBlock.lines),split text,?_,?_⟩
  · intro parsed known
    rw [parseHeaders_blocks some] at known
    exact read_blocks matched known
  · intro unmarked
    rw [parseHeaders_blocks some]
    exact read_blocks_ok matched unmarked

end Headers

section Leaves
variable {headers : List Header} {body : Option MimeBody} {encoding : Option Text} {top : Bool} {out : Text}

/-- The transfer encoding `decode_body` takes from the headers. -/
def readEncoding (headers : List Header) : TransferEncoding :=
  ((headerValue headers contentTransferEncoding).bind TransferEncoding.parse).getD .sevenBit

def decodeBytes [Base64] (encoding : TransferEncoding) (raw : Text) : JsResult (List UInt8) :=
  match encoding with
  | .sevenBit | .eightBit | .binary => .ok (utf8 raw)
  | .quotedPrintable => qpDecode raw false
  | .base64 => base64DecodeLiberal raw

theorem decodeBody_eq [Base64] (raw : Text) (headers : List Header) : decodeBody raw headers =
    (decodeBytes (readEncoding headers) raw).map fun bytes =>
      (bytes,isTextContentType ((headerValue headers contentType).getD defaultTextContentType)) := by
  unfold decodeBody
  change _ = (decodeBytes (readEncoding headers) raw).map _
  unfold readEncoding
  cases ((headerValue headers contentTransferEncoding).bind TransferEncoding.parse).getD .sevenBit <;> rfl

theorem parse_token (encoding : TransferEncoding) : TransferEncoding.parse encoding.token = some encoding := by
  cases encoding <;> decide

theorem readEncoding_token {headers : List Header} {chosen : TransferEncoding}
    (coded : headerValue headers contentTransferEncoding = some chosen.token) : readEncoding headers = chosen := by
  rw [readEncoding,coded,Option.bind_some,parse_token]
  rfl

theorem namedHeaders_versioned {name : Text} (apart : headerMatches mimeVersion name = false) :
    namedHeaders (versioned headers top) name = namedHeaders headers name := by
  unfold versioned namedHeaders
  split
  · rw [List.filter_cons_of_neg (by simp [apart])]
  · rfl

theorem namedHeaders_typed {name : Text} (apart : headerMatches contentType name = false) :
    namedHeaders (typed headers) name = namedHeaders headers name := by
  unfold typed
  split
  · rfl
  · exact namedHeaders_setHeader_other apart headers defaultTextContentType

theorem namedHeaders_type {header : Header}
    (known : namedHeaders headers contentType = [] ∧ header = ⟨contentType,defaultTextContentType⟩ ∨
      namedHeaders headers contentType = [header]) (chosen : TransferEncoding) :
    namedHeaders (emittedLeaf headers top chosen) contentType = [header] := by
  have apart : headerMatches mimeVersion contentType = false := by decide
  rw [emittedLeaf,namedHeaders_setHeader_other (by decide)]
  unfold typed
  rcases known with ⟨none,rfl⟩ | single
  · have absent : hasHeader (versioned headers top) contentType = false := by
      rw [← Bool.not_eq_true,hasHeader_iff,namedHeaders_versioned apart,none]
      simp
    rw [absent,if_neg Bool.false_ne_true,namedHeaders_setHeader,namedHeaders_versioned apart,none]
  · have present : hasHeader (versioned headers top) contentType = true := by
      rw [hasHeader_iff,namedHeaders_versioned apart,single]
      simp
    rw [present,if_pos rfl,namedHeaders_versioned apart,single]

theorem namedHeaders_encoding (none : namedHeaders headers contentTransferEncoding = []) (chosen : TransferEncoding) :
    namedHeaders (emittedLeaf headers top chosen) contentTransferEncoding = [⟨contentTransferEncoding,chosen.token⟩] := by
  rw [emittedLeaf,namedHeaders_setHeader,namedHeaders_typed (by decide),namedHeaders_versioned (by decide),none]

theorem encoding_short (chosen : TransferEncoding) : Header.Short ⟨contentTransferEncoding,chosen.token⟩ := by
  cases chosen <;> exact ⟨by decide,⟨by decide,by decide⟩,by decide⟩

theorem defaultType_short : Header.Short ⟨contentType,defaultTextContentType⟩ :=
  ⟨by decide,⟨by decide,by decide⟩,by decide⟩

theorem emittedLeaf_unmarked (unmarked : ∀ header ∈ headers, header.Unmarked) (chosen : TransferEncoding) :
    ∀ header ∈ emittedLeaf headers top chosen, header.Unmarked := by
  have version : ¬ ("=?" : Text) <:+: ("1.0" : Text) := by decide
  have type : ¬ ("=?" : Text) <:+: defaultTextContentType := by decide
  have token : ¬ ("=?" : Text) <:+: chosen.token := by cases chosen <;> decide
  intro header member ascii
  rcases of_mem_setHeader member with inside | same
  · have below : header ∈ versioned headers top ∨ header.value = defaultTextContentType := by
      unfold typed at inside
      split at inside
      · exact .inl inside
      · exact of_mem_setHeader inside
    rcases below with inside | same
    · unfold versioned at inside
      split at inside
      · rcases List.mem_cons.mp inside with rfl | own
        · exact version
        · exact unmarked header own ascii
      · exact unmarked header inside ascii
    · rwa [same]
  · rwa [same]

/-- A rendered leaf with a short content type is parsed: its body is decoded as it was encoded. -/
theorem parse_leaf [Base64] {type : Header} (rendered : (renderMessage ⟨headers,body,[],encoding⟩ top).run = some (.ok out))
    (known : namedHeaders headers contentType = [] ∧ type = ⟨contentType,defaultTextContentType⟩ ∨
      namedHeaders headers contentType = [type]) (short : type.Short)
    (single : ("multipart/" : Text).isPrefixOf (toAsciiLowercase (contentTypeBase type.value)) = false)
    (none : namedHeaders headers contentTransferEncoding = []) (unmarked : ∀ header ∈ headers, header.Unmarked) :
    ∃ chosen text parsed,
      chooseEncoding ⟨headers,body,[],encoding⟩ (typed (versioned headers top)) = .ok chosen ∧
      renderBody ⟨headers,body,[],encoding⟩ chosen = .ok text ∧
      parseMessageRaw (normalizeRawMessage out) = (decodeBytes chosen (toLf text)).map fun bytes =>
        ⟨parsed,some bytes,[],isTextContentType type.value⟩ := by
  obtain ⟨chosen,head,text,choice,heads,encoded,rfl⟩ := renderMessage_leaf_iff.mp rendered
  obtain ⟨rawHeaders,split,readAs,accepted⟩ := split_rendered heads (setHeader_ne_nil _ _ _) text
  obtain ⟨parsed,found⟩ := accepted (emittedLeaf_unmarked unmarked chosen)
  have all := readAs parsed found
  have typed := headerValue_readAs all (namedHeaders_type known chosen) short
  have coded := headerValue_readAs all (namedHeaders_encoding none chosen) (encoding_short chosen)
  refine ⟨chosen,text,parsed,choice,encoded,?_⟩
  rw [parseMessageRaw_single split found typed single,decodeBody_eq,readEncoding_token coded,typed,Option.getD_some]
  cases decodeBytes chosen (toLf text) <;> rfl

theorem decodeBytes_text [Base64] {chosen : TransferEncoding} {content text : Text}
    (rendered : renderBody ⟨headers,some (.text content),[],encoding⟩ chosen = .ok text) :
    ∃ read, decodeBytes chosen (toLf text) = .ok (utf8 read) ∧ toLf read = toLf content := by
  have twice : toLf (toLf content) = toLf content := toLf_plain (not_mem_toLf content)
  rcases renderBody_cases rendered with ⟨same,body,identity,rfl⟩ | ⟨bytes,body,_⟩ | ⟨rfl,rfl⟩ | ⟨rfl,rfl⟩
  · cases body
    refine ⟨toLf content,?_,twice⟩
    rw [toLf_normalizeTextLines]
    cases chosen with
    | sevenBit | eightBit | binary => rfl
    | quotedPrintable | base64 => contradiction
  · cases body
  · exact ⟨toLf content,(qpText_normalizeTextLines content).decode,twice⟩
  · exact ⟨normalizeTextLines content,base64DecodeLiberal_wrapped _,toLf_normalizeTextLines content⟩

end Leaves

/-- A text leaf is read back as a text leaf with line feeds for its line breaks, with any
transfer encoding and any further headers. -/
theorem text_leaf_round_trips [Base64] (content : Text) (encoding : Option Text) (headers : List Header) (top : Bool)
    (out : Text) (others : ∀ header ∈ headers, headerMatches header.name contentType = false ∧
      headerMatches header.name contentTransferEncoding = false)
    (words : ∀ header ∈ headers, isAscii header.value = true → Text.contains header.value "=?" = false)
    (rendered : (renderMessage ⟨headers,some (.text content),[],encoding⟩ top).run = some (.ok out)) :
    ∃ parsed body properties, parseMessageRaw (normalizeRawMessage out) = .ok ⟨parsed,some body,[],true⟩ ∧
      parsedToJs ⟨parsed,some body,[],true⟩ = .ok (.leaf properties (.text (normalizeRawMessage content))) := by
  have untyped : namedHeaders headers contentType = [] := namedHeaders_none fun header member => (others header member).1
  have uncoded : namedHeaders headers contentTransferEncoding = [] :=
    namedHeaders_none fun header member => (others header member).2
  have unmarked : ∀ header ∈ headers, header.Unmarked := fun header member ascii =>
    of_decide_eq_false (words header member ascii)
  obtain ⟨chosen,text,parsed,_,encoded,read⟩ :=
    parse_leaf rendered (.inl ⟨untyped,rfl⟩) defaultType_short (by decide) uncoded unmarked
  obtain ⟨content',decoded,same⟩ := decodeBytes_text encoded
  rw [decoded,isTextContentType_default] at read
  refine ⟨parsed,utf8 content',headersToJs parsed,read,?_⟩
  rw [parsedToJs]
  simp only [Option.getD_some,fromUtf8_utf8,if_true]
  rw [normalizeRawMessage_eq,normalizeRawMessage_eq,same]

/-- A text with each kind of line break and a header that must be encoded. -/
def greeting : MimeMessage := ⟨[⟨"Subject","Grüße"⟩],some (.text "a\r\nb\rc\nö"),[],none⟩

theorem text_leaf_round_trips_at_greeting :
    ∃ out parsed body properties, (renderMessage greeting true).run = some (.ok out) ∧
      parseMessageRaw (normalizeRawMessage out) = .ok ⟨parsed,some body,[],true⟩ ∧
      parsedToJs ⟨parsed,some body,[],true⟩ = .ok (.leaf properties (.text "a\nb\nc\nö")) := by
  obtain ⟨out,rendered,_⟩ := rendered_witness greeting true (fun _ => true) (by decide)
  obtain ⟨parsed,body,properties,read,shown⟩ :=
    text_leaf_round_trips "a\r\nb\rc\nö" none [⟨"Subject","Grüße"⟩] true out (by decide) (by decide) rendered
  exact ⟨out,parsed,body,properties,rendered,read,shown⟩

section Bytes

/-- The bytes a transfer encoding keeps: 7bit has CR for a line break, and
quoted-printable CRLF. -/
def KeepsBytes : TransferEncoding → List UInt8 → Prop
  | .sevenBit, bytes => 13 ∉ bytes
  | .quotedPrintable, bytes => ¬ [13,10] <:+: bytes
  | _, _ => True

theorem cr_mem_asciiText (bytes : List UInt8) : '\r' ∈ asciiText bytes ↔ 13 ∈ bytes := by
  rw [asciiText,List.mem_map]
  constructor
  · rintro ⟨byte,member,same⟩
    have value := toNat_asciiChar byte
    rw [same] at value
    exact (UInt8.toNat_inj.mp value : 13 = byte) ▸ member
  · intro member
    exact ⟨13,member,rfl⟩

theorem utf8_toLf_asciiText {bytes : List UInt8} (ascii : bytes.all (· < 128) = true) :
    utf8 (toLf (asciiText bytes)) = bytes ↔ 13 ∉ bytes := by
  constructor
  · intro same member
    rw [← same] at member
    exact not_mem_toLf _ (mem_of_utf8 (c := '\r') (by decide) member)
  · intro free
    rw [toLf_plain (fun member => free ((cr_mem_asciiText bytes).mp member)),utf8_asciiText ascii]

/-- Bytes are always decoded, and to themselves where the encoding keeps them. -/
theorem decodeBytes_bytes [Base64] {headers : List Header} {encoding : Option Text} {chosen : TransferEncoding}
    {bytes : List UInt8} {text : Text} (rendered : renderBody ⟨headers,some (.bytes bytes),[],encoding⟩ chosen = .ok text) :
    ∃ read, decodeBytes chosen (toLf text) = .ok read ∧ (read = bytes ↔ KeepsBytes chosen bytes) := by
  rcases renderBody_cases rendered with ⟨content,body,_⟩ | ⟨same,body,rfl,ascii,rfl⟩ | ⟨rfl,rfl⟩ | ⟨rfl,rfl⟩
  · cases body
  · cases body
    exact ⟨utf8 (toLf (asciiText bytes)),rfl,utf8_toLf_asciiText ascii⟩
  · exact ⟨unpair 13 10 bytes,(QpText.of_bytes 0 bytes).decode,unpair_eq_self_iff bytes⟩
  · exact ⟨bytes,base64DecodeLiberal_wrapped bytes,by simp [KeepsBytes]⟩

end Bytes

def binaryType : Header := ⟨contentType,"application/octet-stream"⟩

theorem parse_binary [Base64] {bytes : List UInt8} {explicit : Text} {encoding : TransferEncoding}
    (asked : TransferEncoding.parse explicit = some encoding) {top : Bool} {out : Text}
    (rendered : (renderMessage ⟨[binaryType],some (.bytes bytes),[],some explicit⟩ top).run = some (.ok out)) :
    ∃ parsed read, parseMessageRaw (normalizeRawMessage out) = .ok ⟨parsed,some read,[],false⟩ ∧
      (read = bytes ↔ KeepsBytes encoding bytes) := by
  have short : binaryType.Short := ⟨by decide,⟨by decide,by decide⟩,by decide⟩
  have unmarked : ∀ header ∈ [binaryType], header.Unmarked := by
    intro header member _
    rw [List.mem_singleton.mp member]
    decide
  obtain ⟨chosen,text,parsed,choice,encoded,back⟩ :=
    parse_leaf rendered (.inr (by decide)) short (by decide) (by decide) unmarked
  have same : encoding = chosen := by
    simp only [chooseEncoding,asked] at choice
    exact Except.ok.inj choice
  obtain ⟨read,decoded,kept⟩ := decodeBytes_bytes encoded
  have binary : isTextContentType binaryType.value = false := by decide
  rw [decoded,binary] at back
  exact ⟨parsed,read,back,same ▸ kept⟩

/-- Bytes sent under an explicit encoding come back exactly where the encoding keeps them. -/
theorem binary_leaf_round_trips_iff [Base64] (bytes : List UInt8) (explicit : Text) (encoding : TransferEncoding)
    (asked : TransferEncoding.parse explicit = some encoding) (top : Bool) (out : Text)
    (rendered : (renderMessage ⟨[binaryType],some (.bytes bytes),[],some explicit⟩ top).run = some (.ok out)) :
    (∃ parsed, parseMessageRaw (normalizeRawMessage out) = .ok ⟨parsed,some bytes,[],false⟩) ↔
      KeepsBytes encoding bytes := by
  obtain ⟨parsed,read,back,kept⟩ := parse_binary asked rendered
  rw [back,← kept]
  constructor
  · rintro ⟨other,whole⟩
    cases whole
    rfl
  · rintro rfl
    exact ⟨parsed,rfl⟩

def crlfBytes : MimeMessage := ⟨[binaryType],some (.bytes [13,10]),[],some "quoted-printable"⟩

theorem crlfBytes_lost : ∃ out, (renderMessage crlfBytes true).run = some (.ok out) ∧
    ¬ ∃ parsed, parseMessageRaw (normalizeRawMessage out) = .ok ⟨parsed,some [13,10],[],false⟩ := by
  obtain ⟨out,rendered,_⟩ := rendered_witness crlfBytes true (fun _ => true) (by decide)
  have asked : TransferEncoding.parse "quoted-printable" = some .quotedPrintable := by decide
  obtain ⟨parsed,read,back,kept⟩ := parse_binary asked rendered
  refine ⟨out,rendered,?_⟩
  rintro ⟨other,whole⟩
  rw [back] at whole
  cases whole
  exact kept.mp rfl List.infix_rfl

theorem binary_leaf_round_trips_iff_at_lineFeed : ∃ out,
    (renderMessage ⟨[binaryType],some (.bytes [10,0,255]),[],some "quoted-printable"⟩ true).run = some (.ok out) ∧
      ∃ parsed, parseMessageRaw (normalizeRawMessage out) = .ok ⟨parsed,some [10,0,255],[],false⟩ := by
  obtain ⟨out,rendered,_⟩ := rendered_witness
    ⟨[binaryType],some (.bytes [10,0,255]),[],some "quoted-printable"⟩ true (fun _ => true) (by decide)
  have kept : KeepsBytes .quotedPrintable [10,0,255] := by
    rw [KeepsBytes]
    decide
  exact ⟨out,rendered,(binary_leaf_round_trips_iff [10,0,255] "quoted-printable" .quotedPrintable (by decide) true out
    rendered).mpr kept⟩

theorem decodeBody_textBody [Base64] {raw : Text} {headers : List Header} {bytes : List UInt8} {textBody : Bool}
    (decoded : decodeBody raw headers = .ok (bytes,textBody)) :
    textBody = isTextContentType ((headerValue headers contentType).getD defaultTextContentType) := by
  rw [decodeBody_eq] at decoded
  obtain ⟨read,_,same⟩ := map_ok_iff.mp decoded
  exact (Prod.mk.inj same).2.symm

theorem parsedToJs_text {headers : List Header} {body : Option (List UInt8)} {js : JsMessage}
    (shown : parsedToJs ⟨headers,body,[],true⟩ = .ok js) :
    ∃ content, js = .leaf (headersToJs headers) (.text (normalizeRawMessage content)) := by
  rw [parsedToJs,if_pos rfl] at shown
  split at shown
  · rename_i content _
    exact ⟨content,(Except.ok.inj shown).symm⟩
  · contradiction

/-- A leaf without a content type is a text for the parser, whatever its body. -/
theorem parse_untyped [Base64] {headers : List Header} (untyped : namedHeaders headers contentType = [])
    {body : Option MimeBody} {encoding : Option Text} {top : Bool} {out : Text}
    (rendered : (renderMessage ⟨headers,body,[],encoding⟩ top).run = some (.ok out)) {js : JsMessage}
    (read : parse out = .ok js) : ∃ properties content, js = .leaf properties (.text content) := by
  obtain ⟨chosen,head,text,_,heads,_,rfl⟩ := renderMessage_leaf_iff.mp rendered
  obtain ⟨rawHeaders,split,readAs,_⟩ := split_rendered heads (setHeader_ne_nil _ _ _) text
  obtain ⟨parsed,raw,shown⟩ := bind_ok_iff.mp read
  cases found : parseHeaders rawHeaders with
  | error e =>
    rw [parseMessageRaw_headers split found] at raw
    contradiction
  | ok known =>
    have typed := headerValue_readAs (readAs known found) (namedHeaders_type (.inl ⟨untyped,rfl⟩) chosen) defaultType_short
    rw [parseMessageRaw_single split found typed (by decide)] at raw
    obtain ⟨⟨bytes,textBody⟩,decoded,rfl⟩ := map_ok_iff.mp raw
    have isText := decodeBody_textBody decoded
    rw [typed,Option.getD_some,isTextContentType_default] at isText
    subst isText
    obtain ⟨content,same⟩ := parsedToJs_text shown
    exact ⟨_,_,same⟩

/-- Bytes without a content type never come back as bytes. -/
theorem default_bytes_leaf_reads_no_bytes [Base64] (bytes : List UInt8) (headers : List Header) (top : Bool)
    (untyped : ∀ header ∈ headers, headerMatches header.name contentType = false) :
    ¬ ∃ out properties, (renderMessage ⟨headers,some (.bytes bytes),[],none⟩ top).run = some (.ok out) ∧
      parse out = .ok (.leaf properties (.bytes bytes)) := by
  rintro ⟨out,properties,rendered,read⟩
  obtain ⟨_,_,same⟩ := parse_untyped (namedHeaders_none untyped) rendered read
  cases same

def defaultBytes : MimeMessage := ⟨[],some (.bytes [0xFF]),[],none⟩

/-- The composed message is one that the parser refuses. -/
theorem defaultBytes_refused : ∃ out, (renderMessage defaultBytes true).run = some (.ok out) ∧
    parse out = .error "MIME text body is not UTF-8" := by
  obtain ⟨out,rendered,_⟩ := rendered_witness defaultBytes true (fun _ => true) (by decide)
  obtain ⟨chosen,text,parsed,choice,encoded,read⟩ :=
    parse_leaf rendered (.inl ⟨rfl,rfl⟩) defaultType_short (by decide) rfl (by simp)
  have base64 : chosen = .base64 := (Except.ok.inj choice).symm
  subst base64
  have body := (Except.ok.inj encoded).symm
  subst body
  have decoded : decodeBytes .base64 (toLf (base64EncodeWrapped [0xFF])) = .ok [0xFF] := base64DecodeLiberal_wrapped [0xFF]
  have invalid : fromUtf8 [0xFF] = none := by decide
  rw [decoded,isTextContentType_default] at read
  refine ⟨out,rendered,?_⟩
  have shown : parsedToJs ⟨parsed,some [0xFF],[],true⟩ = .error "MIME text body is not UTF-8" := by
    rw [parsedToJs,if_pos rfl,Option.getD_some,invalid]
  rw [parse,read]
  exact shown

theorem default_bytes_leaf_reads_no_bytes_at_defaultBytes :
    ¬ ∃ out properties, (renderMessage defaultBytes true).run = some (.ok out) ∧
      parse out = .ok (.leaf properties (.bytes [0xFF])) :=
  default_bytes_leaf_reads_no_bytes [0xFF] [] true (by simp)

end MechanicsCore.Mime
