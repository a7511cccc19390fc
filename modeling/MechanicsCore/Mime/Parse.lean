import MechanicsCore.Mime.Encoding

/-! Parsing messages: line endings, header blocks, multipart sections and the
recursion over nested parts. -/
namespace MechanicsCore.Mime
open MechanicsCore.Library Text

def normalizeRawMessage (raw : Text) : Text := replace (replace raw "\r\n" "\n") "\r" "\n"

theorem normalizeRawMessage_eq (s : Text) : normalizeRawMessage s = toLf s := replace_crlf_cr s

def splitHeaderBody (raw : Text) : JsResult (Text × Text) :=
  match splitOnce "\n\n" raw with
  | some split => .ok split
  | none => .error "malformed MIME message: missing header/body separator"

def closeHeader [Base64] : Option Text → Text → JsResult (List Header)
  | none, _ => .ok []
  | some name, value => return [⟨name,← decodeEncodedWords (trim value)⟩]

def parseHeaderLines [Base64] : List Text → (currentName : Option Text) → (currentValue : Text) → JsResult (List Header)
  | [], currentName, currentValue => closeHeader currentName currentValue
  | line::lines, currentName, currentValue =>
    if line.head? = some ' ' || line.head? = some '\t' then
      if currentName.isNone then .error "malformed folded MIME header"
      else parseHeaderLines lines currentName (currentValue ++ " " ++ trim line)
    else do
      let closed ← closeHeader currentName currentValue
      match splitOnce ":" line with
      | none => throw "malformed MIME header"
      | some (name,value) =>
        validateHeaderName name
        return closed ++ (← parseHeaderLines lines (some name) (trim value))

def parseHeaders [Base64] (raw : Text) : JsResult (List Header) := parseHeaderLines (raw.splitOn '\n') none []

def decodeBody [Base64] (raw : Text) (headers : List Header) : JsResult (List UInt8 × Bool) := do
  let encoding := ((headerValue headers contentTransferEncoding).bind TransferEncoding.parse).getD .sevenBit
  let bytes ← match encoding with
    | .sevenBit | .eightBit | .binary => .ok (utf8 raw)
    | .quotedPrintable => qpDecode raw false
    | .base64 => base64DecodeLiberal raw
  return (bytes,isTextContentType ((headerValue headers contentType).getD defaultTextContentType))

def trimPartSection (part : Text) : Text :=
  let stripped := (stripSuffix? part '\n').getD part
  (stripSuffix? stripped '\r').getD stripped

def sectionLoop (marker closeMarker : Text) : List Text → (inside : Bool) → (current : Text) → JsResult (List Text)
  | [], _, _ => .error "malformed multipart MIME body: missing closing boundary"
  | line::lines, inside, current =>
    let trimmed := line.rdropWhile (· == '\r')
    if trimmed = marker then do
      let later ← sectionLoop marker closeMarker lines true []
      return if inside then trimPartSection current :: later else later
    else if trimmed = closeMarker then .ok (if inside then [trimPartSection current] else [])
    else sectionLoop marker closeMarker lines inside (if inside then current ++ line ++ "\n" else current)

def multipartSections (body boundary : Text) : JsResult (List Text) :=
  sectionLoop ("--" ++ boundary) ("--" ++ boundary ++ "--") (body.splitOn '\n') false []

structure ParsedMessage where
  headers : List Header
  body : Option (List UInt8)
  parts : List ParsedMessage
  textBody : Bool

theorem trimPartSection_length (part : Text) : (trimPartSection part).length ≤ part.length := by
  have strip : ∀ (s : Text) (c : Char), ((stripSuffix? s c).getD s).length ≤ s.length := by
    intro s c
    unfold stripSuffix?
    split <;> simp
  exact Nat.le_trans (strip _ _) (strip _ _)

theorem sectionLoop_length {marker closeMarker : Text} {lines : List Text} {inside : Bool} {current : Text}
    {sections : List Text} (found : sectionLoop marker closeMarker lines inside current = .ok sections)
    (part : Text) (member : part ∈ sections) :
    part.length ≤ current.length + (lines.map fun line => line.length + 1).sum := by
  induction lines generalizing inside current sections with
  | nil => simp [sectionLoop] at found
  | cons line lines ih =>
    simp only [sectionLoop] at found
    simp only [List.map_cons,List.sum_cons]
    split at found
    · cases later : sectionLoop marker closeMarker lines true [] with
      | error e => simp [later,bind,Except.bind] at found
      | ok rest =>
        simp only [later,bind,Except.bind,pure,Except.pure,Except.ok.injEq] at found
        have bound := ih later
        split at found
        · subst found
          rcases List.mem_cons.mp member with rfl | later
          · have trimmed := trimPartSection_length current
            omega
          · have shorter := bound later
            simp only [List.length_nil] at shorter
            omega
        · subst found
          have shorter := bound member
          simp only [List.length_nil] at shorter
          omega
    · split at found
      · cases found
        split at member
        · cases List.mem_singleton.mp member
          have trimmed := trimPartSection_length current
          omega
        · simp at member
      · have shorter := ih found member
        split at shorter
        · simp only [List.length_append] at shorter
          change _ ≤ current.length + line.length + 1 + _ at shorter
          omega
        · omega

theorem splitHeaderBody_length {raw rawHeaders rawBody : Text}
    (split : splitHeaderBody raw = .ok (rawHeaders,rawBody)) :
    rawHeaders.length + 2 + rawBody.length = raw.length := by
  unfold splitHeaderBody at split
  split at split
  · rename_i found
    cases split
    exact splitOnce_length found
  · contradiction

theorem multipartSections_length {body boundary : Text} {sections : List Text}
    (found : multipartSections body boundary = .ok sections) (part : Text) (member : part ∈ sections) :
    part.length ≤ body.length + 1 := by
  have bound := sectionLoop_length found part member
  rw [splitOn_length] at bound
  simpa using bound

def parseMessageRaw [Base64] (raw : Text) : JsResult ParsedMessage :=
  match _ : splitHeaderBody raw with
  | .error error => .error error
  | .ok (rawHeaders,rawBody) =>
    match parseHeaders rawHeaders with
    | .error error => .error error
    | .ok headers =>
      let contentType := (headerValue headers contentType).getD defaultTextContentType
      if ("multipart/" : Text).isPrefixOf (toAsciiLowercase (contentTypeBase contentType)) then
        match parseBoundary contentType with
        | none => .error "multipart MIME message is missing boundary"
        | some boundary =>
          match _ : multipartSections rawBody boundary with
          | .error error => .error error
          | .ok sections =>
            (sections.attach.mapM fun part => parseMessageRaw part.1).map fun parts => ⟨headers,none,parts,false⟩
      else (decodeBody rawBody headers).map fun (body,textBody) => ⟨headers,some body,[],textBody⟩
termination_by raw.length
decreasing_by
  rename_i split found
  have shorter := multipartSections_length found part.1 part.2
  have whole := splitHeaderBody_length split
  omega

inductive JsBody
  | text (text : Text)
  | bytes (bytes : List UInt8)

/-- What `parse` returns: a leaf object with a body, or a multipart object with parts. -/
inductive JsMessage
  | leaf (headers : List Header) (body : JsBody)
  | multipart (headers : List Header) (parts : List JsMessage)

/-- A property key that is an array index, which an object lists before the other keys. -/
def arrayIndex (name : Text) : Option Nat :=
  if name.all Char.isDigit && !name.isEmpty && (name == ['0'] || name.head? != some '0') then
    let index := name.foldl (fun index c => 10 * index + (c.toNat - '0'.toNat)) 0
    if index < 2^32 - 1 then some index else none
  else none

def listedBefore (a b : Text) : Bool :=
  match arrayIndex a, arrayIndex b with
  | some i, some j => i < j
  | some _, none => true
  | none, _ => false

/-- `object.set` on an object with the properties in the order it lists them. The setter
of `__proto__` takes no string. -/
def setProperty (properties : List Header) (header : Header) : List Header :=
  if header.name = "__proto__" then properties else insert properties
where
  insert : List Header → List Header
    | [] => [header]
    | property::properties =>
      if property.name = header.name then header::properties
      else if listedBefore header.name property.name then header::property::properties
      else property :: insert properties

/-- The properties of the headers object; a repeated name keeps the last value. -/
def headersToJs (headers : List Header) : List Header := headers.foldl setProperty []

theorem find_named (header : Header) (headers : List Header) (name : Text) :
    (header::headers).find? (·.name == name) = if header.name = name then some header else headers.find? (·.name == name) := by
  by_cases own : header.name = name
  · rw [if_pos own,List.find?_cons_of_pos (by simpa using own)]
  · rw [if_neg own,List.find?_cons_of_neg (by simpa using own)]

theorem find_setProperty {properties : List Header} {header : Header} {name : Text} (named : name ≠ "__proto__") :
    (setProperty properties header).find? (·.name == name) = (header::properties).find? (·.name == name) := by
  unfold setProperty
  split
  · rename_i proto
    rw [find_named,if_neg fun same => named (same.symm.trans proto)]
  · induction properties with
    | nil => rfl
    | cons property properties ih =>
      unfold setProperty.insert
      split
      · rename_i own
        rw [find_named,find_named header,find_named property,own]
        split <;> rfl
      · rename_i other
        split
        · rfl
        · rw [find_named,ih,find_named header,find_named header,find_named property]
          -- Two names of which at most one is looked for.
          split
          · rename_i here
            rw [if_neg fun same => other (here.trans same.symm)]
          · rfl

/-- Under every name but `__proto__` the headers object has the last header of that name. -/
theorem find_headersToJs (headers : List Header) {name : Text} (named : name ≠ "__proto__") :
    (headersToJs headers).find? (·.name == name) = headers.reverse.find? (·.name == name) := by
  unfold headersToJs
  induction headers using List.reverseRecOn with
  | nil => rfl
  | append_singleton headers header ih =>
    rw [List.foldl_concat,find_setProperty named,find_named,ih,List.reverse_append,List.reverse_singleton,
      List.singleton_append,find_named]

example : headersToJs [⟨"b","1"⟩,⟨"10","2"⟩,⟨"9","3"⟩,⟨"__proto__","4"⟩,⟨"b","5"⟩] = [⟨"9","3"⟩,⟨"10","2"⟩,⟨"b","5"⟩] := by
  decide

mutual

def parsedToJs : ParsedMessage → JsResult JsMessage
  | ⟨headers,body,[],textBody⟩ =>
    let body := body.getD []
    if textBody then
      match fromUtf8 body with
      | some text => .ok (.leaf (headersToJs headers) (.text (normalizeRawMessage text)))
      | none => .error "MIME text body is not UTF-8"
    else .ok (.leaf (headersToJs headers) (.bytes body))
  | ⟨headers,_,part::parts,_⟩ => do
    let first ← parsedToJs part
    return .multipart (headersToJs headers) (first :: (← partsToJs parts))

def partsToJs : List ParsedMessage → JsResult (List JsMessage)
  | [] => .ok []
  | part::parts => do
    let first ← parsedToJs part
    return first :: (← partsToJs parts)

end

/-- `parse` of a raw message string. -/
def parse [Base64] (raw : Text) : JsResult JsMessage := do
  let parsed ← parseMessageRaw (normalizeRawMessage raw)
  parsedToJs parsed

end MechanicsCore.Mime
