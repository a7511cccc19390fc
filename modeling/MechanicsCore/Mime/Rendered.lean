import MechanicsCore.Mime.HeaderLines
import MechanicsCore.Mime.HeaderList

/-! What a rendering that returns is made of, for any message: the header lists it
emits, the framed renderings of its parts, or the encoded body. -/
namespace MechanicsCore.Mime
open MechanicsCore.Library Text Line Outcome

theorem MimeMessage.induct {motive : MimeMessage → Prop}
    (step : ∀ headers body parts encoding, (∀ p ∈ parts, motive p) → motive ⟨headers,body,parts,encoding⟩) :
    (m : MimeMessage) → motive m
  | ⟨headers,body,parts,encoding⟩ => step headers body parts encoding fun p member =>
    have : sizeOf p < sizeOf parts := List.sizeOf_lt_of_mem member
    induct step p
termination_by m => sizeOf m
decreasing_by
  simp only [MimeMessage.mk.sizeOf_spec]
  omega

/-- The headers of a message with `MIME-Version` in front at the top. -/
def versioned (headers : List Header) (top : Bool) : List Header :=
  if top && !hasHeader headers mimeVersion then ⟨mimeVersion,"1.0"⟩::headers else headers

def typed (headers : List Header) : List Header :=
  if hasHeader headers contentType then headers else setHeader headers contentType defaultTextContentType

def multipartBase (headers : List Header) : Text :=
  (headerValue headers contentType).elim defaultMultipartContentType contentTypeBase

def emittedLeaf (headers : List Header) (top : Bool) (encoding : TransferEncoding) : List Header :=
  setHeader (typed (versioned headers top)) contentTransferEncoding encoding.token

def emittedNode (headers : List Header) (top : Bool) (boundary : Text) : List Header :=
  setHeader (versioned headers top) contentType
    (contentTypeWithBoundary (multipartBase (versioned headers top)) boundary)

private theorem ofResult_run_iff {α : Type} {result : JsResult α} {a : α} :
    (Compose.ofResult result).run = some (.ok a) ↔ result = .ok a := by
  simp [Compose.ofResult,ExceptT.run,ExceptT.mk]

theorem splitHeaderBody_rendered {headers : List Header} {head : Text} (rendered : renderHeaders headers = .ok head)
    (nonempty : headers ≠ []) :
    ∃ blocks : List HeaderBlock,
      List.Forall₂ (fun b header => b.name = header.name ∧ b.Writes (maybeEncodeHeaderValue header.value))
        blocks headers ∧ blocks ≠ [] ∧
      ∀ text, splitHeaderBody (normalizeRawMessage (head ++ "\r\n" ++ text)) =
        .ok (join (blocks.flatMap HeaderBlock.lines),toLf text) := by
  obtain ⟨blocks,written,matched⟩ := renderHeaders_blocks (renderHeaders_valid rendered)
  have some : blocks ≠ [] := by
    rintro rfl
    cases matched
    exact nonempty rfl
  refine ⟨blocks,matched,some,fun text => ?_⟩
  have read : normalizeRawMessage (head ++ "\r\n" ++ text) =
      join (blocks.flatMap HeaderBlock.lines ++ blank :: ofText text) := by
    have later : toLf ("\r\n" ++ text) = join (blank :: ofText text) := by
      rw [join_cons (ofText_ne_nil text),join_ofText]
      exact toLf_crlf [] text
    have whole := toLf_wire (blocks.flatMap HeaderBlock.lines) (List.cons_ne_nil blank (ofText text)) later
    rw [rendered] at written
    rwa [← Except.ok.inj written,← List.append_assoc,← normalizeRawMessage_eq] at whole
  rw [read,splitHeaderBody_lines (flatMap_lines_ne_nil some) (ofText_ne_nil text) (flatMap_lines_inked blocks),join_ofText]

section Inversion
variable {headers : List Header} {body : Option MimeBody} {encoding : Option Text} {top : Bool} {out : Text}

theorem renderMessage_leaf_iff [Base64] : (renderMessage ⟨headers,body,[],encoding⟩ top).run = some (.ok out) ↔
    ∃ chosen head text, chooseEncoding ⟨headers,body,[],encoding⟩ (typed (versioned headers top)) = .ok chosen ∧
      renderHeaders (emittedLeaf headers top chosen) = .ok head ∧
      renderBody ⟨headers,body,[],encoding⟩ chosen = .ok text ∧ out = head ++ "\r\n" ++ text := by
  rw [renderMessage]
  simp only [List.isEmpty_nil,Bool.not_true,Bool.false_eq_true,if_false,run_bind_iff,ofResult_run_iff,run_pure_iff]
  constructor
  · rintro ⟨chosen,choice,head,rendered,text,encoded,rfl⟩
    exact ⟨chosen,head,text,choice,rendered,encoded,rfl⟩
  · rintro ⟨chosen,head,text,choice,rendered,encoded,rfl⟩
    exact ⟨chosen,choice,head,rendered,text,encoded,rfl⟩

theorem renderMessage_node_iff [Base64] {parts : List MimeMessage} (nonempty : parts ≠ []) :
    (renderMessage ⟨headers,body,parts,encoding⟩ top).run = some (.ok out) ↔
      ∃ boundary head text, (boundaryFor ⟨headers,body,parts,encoding⟩ (versioned headers top)).run = some (.ok boundary) ∧
        renderHeaders (emittedNode headers top boundary) = .ok head ∧
        (renderParts boundary parts).run = some (.ok text) ∧ out = head ++ "\r\n" ++ text := by
  have several : (!parts.isEmpty) = true := by simpa using nonempty
  rw [renderMessage]
  simp only [several,if_true,run_bind_iff,ofResult_run_iff,run_pure_iff]
  constructor
  · rintro ⟨boundary,bound,head,rendered,text,framed,rfl⟩
    exact ⟨boundary,head,text,bound,rendered,framed,rfl⟩
  · rintro ⟨boundary,head,text,bound,rendered,framed,rfl⟩
    exact ⟨boundary,bound,head,rendered,text,framed,rfl⟩

/-- Renderings of parts between the delimiters of a multipart. -/
def framed (boundary : Text) : List Text → Text
  | [] => "--" ++ boundary ++ "--\r\n"
  | r::rs => "--" ++ boundary ++ "\r\n" ++ r ++ "\r\n" ++ framed boundary rs

theorem renderParts_iff [Base64] {boundary : Text} {parts : List MimeMessage} :
    (renderParts boundary parts).run = some (.ok out) ↔
      ∃ rs, List.Forall₂ (fun p r => (renderMessage p false).run = some (.ok r)) parts rs ∧ out = framed boundary rs := by
  induction parts generalizing out with
  | nil =>
    rw [renderParts,run_pure_iff]
    constructor
    · rintro rfl
      exact ⟨[],.nil,rfl⟩
    · rintro ⟨rs,none,rfl⟩
      cases none
      rfl
  | cons part parts ih =>
    rw [renderParts]
    simp only [run_bind_iff,run_pure_iff,ih]
    constructor
    · rintro ⟨first,rendered,later,⟨rs,others,rfl⟩,rfl⟩
      exact ⟨first::rs,.cons rendered others,rfl⟩
    · rintro ⟨rs,all,rfl⟩
      cases all with
      | cons rendered others => exact ⟨_,rendered,_,⟨_,others,rfl⟩,rfl⟩

/-- The encodings that write a body as it is. -/
def TransferEncoding.isIdentity (encoding : TransferEncoding) : Bool :=
  encoding == .sevenBit || encoding == .eightBit || encoding == .binary

theorem renderBody_text [Base64] {m : MimeMessage} {chosen : TransferEncoding} {content text : Text}
    (plain : bodyBytesAndText m = (utf8 content,true)) (identity : chosen.isIdentity = true)
    (rendered : renderBody m chosen = .ok text) : text = content := by
  cases chosen with
  | sevenBit =>
    simp only [renderBody,plain,fromUtf8_utf8] at rendered
    split at rendered
    · contradiction
    · exact (Except.ok.inj rendered).symm
  | eightBit | binary =>
    simp only [renderBody,plain,fromUtf8_utf8] at rendered
    exact (Except.ok.inj rendered).symm
  | quotedPrintable | base64 => contradiction

theorem renderBody_bytes [Base64] {m : MimeMessage} {chosen : TransferEncoding} {bytes : List UInt8} {text : Text}
    (raw : bodyBytesAndText m = (bytes,false)) (identity : chosen.isIdentity = true)
    (rendered : renderBody m chosen = .ok text) :
    chosen = .sevenBit ∧ bytes.all (· < 128) = true ∧ text = asciiText bytes := by
  cases chosen with
  | sevenBit =>
    simp only [renderBody,raw] at rendered
    split at rendered
    · contradiction
    · rename_i ascii
      rw [Bool.not_eq_true,Bool.not_eq_false'] at ascii
      have decoded : fromUtf8 bytes = some (asciiText bytes) := by
        have whole := fromUtf8_utf8 (asciiText bytes)
        rwa [utf8_asciiText ascii] at whole
      rw [decoded] at rendered
      exact ⟨rfl,ascii,(Except.ok.inj rendered).symm⟩
  | eightBit | binary =>
    simp only [renderBody,raw] at rendered
    contradiction
  | quotedPrintable | base64 => contradiction

/-- A body as a text, if it is one; a missing body is empty. -/
def bodyContent : Option MimeBody → Option Text
  | some (.text content) => some content
  | some (.bytes _) => none
  | none => some []

/-- What a body that is rendered becomes: a text with CRLF line endings as it is, ASCII
bytes as they are, or one of the two encodings of its bytes. -/
theorem renderBody_cases [Base64] {parts : List MimeMessage} {chosen : TransferEncoding} {text : Text}
    (rendered : renderBody ⟨headers,body,parts,encoding⟩ chosen = .ok text) :
    (∃ content, bodyContent body = some content ∧ chosen.isIdentity = true ∧ text = normalizeTextLines content) ∨
    (∃ bytes, body = some (.bytes bytes) ∧ chosen = .sevenBit ∧ bytes.all (· < 128) = true ∧ text = asciiText bytes) ∨
    (chosen = .quotedPrintable ∧ text = qpEncode (bodyBytesAndText ⟨headers,body,parts,encoding⟩).1) ∨
    (chosen = .base64 ∧ text = base64EncodeWrapped (bodyBytesAndText ⟨headers,body,parts,encoding⟩).1) := by
  cases identity : chosen.isIdentity with
  | true =>
    rcases body with _ | content | bytes
    · exact .inl ⟨[],rfl,rfl,renderBody_text rfl identity rendered⟩
    · exact .inl ⟨content,rfl,rfl,renderBody_text rfl identity rendered⟩
    · exact .inr (.inl ⟨bytes,rfl,renderBody_bytes rfl identity rendered⟩)
  | false =>
    cases chosen with
    | quotedPrintable => exact .inr (.inr (.inl ⟨rfl,(Except.ok.inj rendered).symm⟩))
    | base64 => exact .inr (.inr (.inr ⟨rfl,(Except.ok.inj rendered).symm⟩))
    | _ => contradiction

end Inversion

theorem rendered_witness [Base64] (m : MimeMessage) (top : Bool) (check : Text → Bool)
    (passed : ((renderMessage m top).run.bind Except.toOption).any check = true) :
    ∃ out, (renderMessage m top).run = some (.ok out) ∧ check out = true := by
  cases returned : (renderMessage m top).run with
  | none => simp [returned] at passed
  | some result =>
    cases result with
    | error e => simp [returned,Except.toOption] at passed
    | ok out => exact ⟨out,rfl,by simpa [returned,Except.toOption] using passed⟩

/-- The messages without parts in a tree. -/
inductive LeafOf : MimeMessage → MimeMessage → Prop
  | self (headers : List Header) (body : Option MimeBody) (encoding : Option Text) :
      LeafOf ⟨headers,body,[],encoding⟩ ⟨headers,body,[],encoding⟩
  | part (leaf p : MimeMessage) (headers : List Header) (body : Option MimeBody) (parts : List MimeMessage)
      (encoding : Option Text) (member : p ∈ parts) (below : LeafOf leaf p) :
      LeafOf leaf ⟨headers,body,parts,encoding⟩

theorem LeafOf.single {leaf m : MimeMessage} (below : LeafOf leaf m) : leaf.parts = [] := by
  induction below with
  | self => rfl
  | part _ _ _ _ _ _ _ _ ih => exact ih

theorem LeafOf.eq {leaf : MimeMessage} {headers : List Header} {body : Option MimeBody} {encoding : Option Text}
    (below : LeafOf leaf ⟨headers,body,[],encoding⟩) : leaf = ⟨headers,body,[],encoding⟩ := by
  cases below with
  | self => rfl
  | part => contradiction

theorem LeafOf.inside {leaf first : MimeMessage} {headers : List Header} {body : Option MimeBody}
    {rest : List MimeMessage} {encoding : Option Text} (below : LeafOf leaf ⟨headers,body,first::rest,encoding⟩) :
    ∃ p ∈ first::rest, LeafOf leaf p := by
  cases below with
  | part leaf p headers body parts encoding member below => exact ⟨p,member,below⟩

section HeaderLists

theorem headerValue_versioned {name : Text} (apart : headerMatches mimeVersion name = false) (headers : List Header)
    (top : Bool) : headerValue (versioned headers top) name = headerValue headers name := by
  unfold versioned
  split
  · exact headerValue_cons_other apart headers
  · rfl

theorem headerValue_typed {name : Text} (apart : headerMatches contentType name = false) (headers : List Header) :
    headerValue (typed headers) name = headerValue headers name := by
  unfold typed
  split
  · rfl
  · exact headerValue_setHeader_other apart headers defaultTextContentType

/-- The transfer encoding asked for: the explicit one, or that of the last header. -/
def askedEncoding (m : MimeMessage) : Option TransferEncoding :=
  (m.encoding.or (headerValue m.headers contentTransferEncoding)).bind TransferEncoding.parse

theorem chooseEncoding_asked {m : MimeMessage} {top : Bool} {chosen : TransferEncoding}
    (choice : chooseEncoding m (typed (versioned m.headers top)) = .ok chosen) :
    askedEncoding m = some chosen ∨ m.encoding.or (headerValue m.headers contentTransferEncoding) = none ∧
      ∀ bytes, m.body = some (.bytes bytes) → chosen = .base64 := by
  have read : headerValue (typed (versioned m.headers top)) contentTransferEncoding =
      headerValue m.headers contentTransferEncoding := by
    rw [headerValue_typed (by decide),headerValue_versioned (by decide)]
  unfold chooseEncoding at choice
  rw [read] at choice
  unfold askedEncoding
  cases explicit : m.encoding with
  | some token =>
    simp only [explicit] at choice
    split at choice
    · rename_i parsed
      cases choice
      exact .inl (by simpa using parsed)
    · contradiction
  | none =>
    cases header : headerValue m.headers contentTransferEncoding with
    | some token =>
      simp only [explicit,header] at choice
      split at choice
      · rename_i parsed
        cases choice
        exact .inl (by simpa using parsed)
      · contradiction
    | none =>
      refine .inr ⟨rfl,fun bytes raw => ?_⟩
      simp only [explicit,header,raw] at choice
      exact (Except.ok.inj choice).symm

theorem contentTypeBase_semicolon (type : Text) : ';' ∉ contentTypeBase type := by
  unfold contentTypeBase
  intro member
  have inside := (infix_trim _).subset member
  cases split : splitOnce ";" type with
  | none =>
    rw [split] at inside
    exact splitOnce_char_none split inside
  | some parts =>
    rw [split] at inside
    exact (splitOnce_char_some split).2 inside

theorem multipartBase_semicolon (headers : List Header) : ';' ∉ multipartBase headers := by
  unfold multipartBase
  cases headerValue headers contentType with
  | none => decide
  | some type => exact contentTypeBase_semicolon type

theorem multipartBase_boundary (headers : List Header) : parseBoundary (multipartBase headers) = none := by
  rw [parseBoundary,List.splitOn_eq_singleton (multipartBase_semicolon headers)]
  rfl

theorem boundary_plain {headers : List Header} {top : Bool} {boundary head : Text}
    (rendered : renderHeaders (emittedNode headers top boundary) = .ok head) : '\n' ∉ boundary ∧ '\r' ∉ boundary := by
  obtain ⟨header,member,same⟩ := mem_setHeader (versioned headers top) contentType
    (contentTypeWithBoundary (multipartBase (versioned headers top)) boundary)
  have plain := validateHeaderValue_chars (renderHeaders_valid rendered header member).value
  have inside : ∀ c ∈ boundary, c ∈ header.value := by
    intro c found
    rw [same,contentTypeWithBoundary,multipartBase_boundary]
    simp [found]
  exact ⟨fun lf => plain.1 (inside _ lf),fun cr => plain.2 (inside _ cr)⟩

end HeaderLists

end MechanicsCore.Mime
