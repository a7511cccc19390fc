import MechanicsCore.Mime.Encoding

/-! Composing messages: header lines and their folding, the choice of a transfer
encoding, boundaries, and the rendering of a message tree. -/
namespace MechanicsCore.Mime
open MechanicsCore.Library Text

def foldWords : List Text → (folded current : Text) → Text × Text
  | [], folded, current => (folded,current)
  | word::words, folded, current =>
    let separator : Text := if current.isEmpty then [] else " "
    if !current.isEmpty && 78 < (utf8 current).length + separator.length + (utf8 word).length then
      foldWords words (if folded.isEmpty then current else folded ++ "\r\n " ++ current) word
    else foldWords words folded (current ++ separator ++ word)

def foldHeaderLine (name value : Text) : Text :=
  let line := name ++ ": " ++ value
  if (utf8 line).length ≤ 78 then line
  else
    let (folded,current) := foldWords (line.splitOn ' ') [] []
    if folded.isEmpty then line else folded ++ "\r\n " ++ current

def renderHeaders : List Header → JsResult Text
  | [] => .ok []
  | header::headers => do
    validateHeaderName header.name
    validateHeaderValue header.value
    let line := foldHeaderLine header.name (maybeEncodeHeaderValue header.value)
    return line ++ "\r\n" ++ (← renderHeaders headers)

def chooseEncoding (message : MimeMessage) (headers : List Header) : JsResult TransferEncoding :=
  match message.encoding, headerValue headers contentTransferEncoding with
  | some explicit, _ =>
    match TransferEncoding.parse explicit with
    | some encoding => .ok encoding
    | none => .error "MIME encoding must be 7bit, 8bit, binary, quoted-printable, or base64"
  | none, some header =>
    match TransferEncoding.parse header with
    | some encoding => .ok encoding
    | none => .error "invalid Content-Transfer-Encoding header"
  | none, none =>
    let isText := isTextContentType ((headerValue headers contentType).getD defaultTextContentType)
    match message.body with
    | some (.text text) =>
      .ok (if isText && isAscii text then .sevenBit else if isText then .quotedPrintable else .base64)
    | some (.bytes _) => .ok .base64
    | none => .ok .sevenBit

def bodyBytesAndText (message : MimeMessage) : List UInt8 × Bool :=
  match message.body with
  | some (.text text) => (utf8 (normalizeTextLines text),true)
  | some (.bytes bytes) => (bytes,false)
  | none => ([],true)

def renderBody [Base64] (message : MimeMessage) (encoding : TransferEncoding) : JsResult Text :=
  let (bytes,textBody) := bodyBytesAndText message
  let asText (error : String) : JsResult Text :=
    match fromUtf8 bytes with
    | some text => .ok text
    | none => .error error
  match encoding with
  | .sevenBit =>
    if !bytes.all (· < 128) then .error "7bit MIME bodies must be ASCII"
    else asText "7bit MIME body is not UTF-8"
  | .eightBit | .binary =>
    if textBody then asText "MIME body is not UTF-8"
    else .error "explicit 8bit/binary Uint8Array bodies cannot be represented in a JS string"
  | .quotedPrintable => .ok (qpEncode bytes)
  | .base64 => .ok (base64EncodeWrapped bytes)

/-- One round of the FNV-1a hash. -/
def seedByte (state : UInt64) (byte : UInt8) : UInt64 := (state ^^^ byte.toUInt64) * 0x100000001b3

def MimeBody.toBytes : MimeBody → List UInt8
  | .text content => utf8 content
  | .bytes content => content

mutual

def boundarySeed : MimeMessage → UInt64 → UInt64
  | ⟨headers,body,parts,_⟩, state =>
    let state := headers.foldl (fun state header => (utf8 header.name ++ utf8 header.value).foldl seedByte state) state
    let state := (body.elim [] MimeBody.toBytes).foldl seedByte state
    boundarySeedParts parts state

def boundarySeedParts : List MimeMessage → UInt64 → UInt64
  | [], state => state
  | part::parts, state => boundarySeedParts parts (boundarySeed part state)

end

def MimeBody.contains (boundary : Text) : MimeBody → Bool
  | .text content => Text.contains content boundary
  | .bytes content => decide (utf8 boundary <:+: content)

mutual

def messageContainsBoundary (boundary : Text) : MimeMessage → Bool
  | ⟨_,body,parts,_⟩ => body.any (MimeBody.contains boundary) || partsContainBoundary boundary parts

def partsContainBoundary (boundary : Text) : List MimeMessage → Bool
  | [] => false
  | part::parts => messageContainsBoundary boundary part || partsContainBoundary boundary parts

end

/-- Lower-case hexadecimal digits, with zeros in front up to a width. -/
def hexPadded (width n : Nat) : Text := (Nat.toDigits 16 n).leftpad width '0'

def boundaryCandidate (seed : UInt64) (attempt : Nat) : Text :=
  "mechanics-" ++ hexPadded 16 seed.toNat ++ "-" ++ hexPadded 4 attempt

/-- The search for a boundary no body contains. `attempt` saturates, so that a
search without success among the first `left` candidates never ends. -/
def searchBoundary (message : MimeMessage) (seed : UInt64) : (left attempt : Nat) → Option Text
  | 0, _ => none
  | left + 1, attempt =>
    let boundary := boundaryCandidate seed attempt
    if !messageContainsBoundary boundary message then some boundary
    else searchBoundary message seed left (attempt + 1)

/-- `generate_boundary`; `none` when its loop does not end. -/
def generateBoundary (message : MimeMessage) : Option Text :=
  searchBoundary message (boundarySeed message 0xcbf29ce484222325) (2^64) 0

abbrev Compose := ExceptT String Option

def Compose.ofResult {α : Type} (result : JsResult α) : Compose α := ExceptT.mk (some result)

def boundaryFor (message : MimeMessage) (headers : List Header) : Compose Text :=
  match (headerValue headers contentType).bind parseBoundary with
  | some boundary => return boundary
  | none => ExceptT.mk ((generateBoundary message).map .ok)

mutual

def renderMessage [Base64] : MimeMessage → (topLevel : Bool) → Compose Text
  | ⟨userHeaders,body,parts,encoding⟩, topLevel => do
    let message : MimeMessage := ⟨userHeaders,body,parts,encoding⟩
    let headers :=
      if topLevel && !hasHeader userHeaders mimeVersion then ⟨mimeVersion,"1.0"⟩::userHeaders else userHeaders
    if !parts.isEmpty then
      let boundary ← boundaryFor message headers
      let base := (headerValue headers contentType).elim defaultMultipartContentType contentTypeBase
      let headers := setHeader headers contentType (contentTypeWithBoundary base boundary)
      let head ← Compose.ofResult (renderHeaders headers)
      return head ++ "\r\n" ++ (← renderParts boundary parts)
    else
      let headers :=
        if hasHeader headers contentType then headers else setHeader headers contentType defaultTextContentType
      let encoding ← Compose.ofResult (chooseEncoding message headers)
      let headers := setHeader headers contentTransferEncoding encoding.token
      let head ← Compose.ofResult (renderHeaders headers)
      return head ++ "\r\n" ++ (← Compose.ofResult (renderBody message encoding))

def renderParts [Base64] (boundary : Text) : List MimeMessage → Compose Text
  | [] => return "--" ++ boundary ++ "--\r\n"
  | part::parts => do
    let first ← renderMessage part false
    let later ← renderParts boundary parts
    return "--" ++ boundary ++ "\r\n" ++ first ++ "\r\n" ++ later

end

end MechanicsCore.Mime
