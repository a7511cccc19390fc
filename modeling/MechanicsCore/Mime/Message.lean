import MechanicsCore.Library.Text

/-! MIME messages, header lists, content types and transfer encodings. Errors are
the messages of the `TypeError`s. Reading messages from script values is left out. -/
namespace MechanicsCore.Mime
open MechanicsCore.Library Text

abbrev JsResult := Except String

def mimeVersion : Text := "MIME-Version"
def contentType : Text := "Content-Type"
def contentTransferEncoding : Text := "Content-Transfer-Encoding"
def defaultTextContentType : Text := "text/plain; charset=utf-8"
def defaultMultipartContentType : Text := "multipart/mixed"

structure Header where
  name : Text
  value : Text
  deriving DecidableEq,Repr

inductive MimeBody
  | text (text : Text)
  | bytes (bytes : List UInt8)

structure MimeMessage where
  headers : List Header
  body : Option MimeBody
  parts : List MimeMessage
  encoding : Option Text

inductive TransferEncoding
  | sevenBit
  | eightBit
  | binary
  | quotedPrintable
  | base64
  deriving DecidableEq,Repr

namespace TransferEncoding

def token : TransferEncoding → Text
  | .sevenBit => "7bit"
  | .eightBit => "8bit"
  | .binary => "binary"
  | .quotedPrintable => "quoted-printable"
  | .base64 => "base64"

def parse (token : Text) : Option TransferEncoding :=
  [sevenBit,eightBit,binary,quotedPrintable,base64].find? fun encoding =>
    toAsciiLowercase token == encoding.token

end TransferEncoding

def headerMatches (name wanted : Text) : Bool := eqIgnoreAsciiCase name wanted

def headerValue (headers : List Header) (name : Text) : Option Text :=
  (headers.reverse.find? fun header => headerMatches header.name name).map Header.value

def setHeader : List Header → Text → Text → List Header
  | [], name, value => [⟨name,value⟩]
  | header::headers, name, value =>
    if headerMatches header.name name then {header with value := value}::headers
    else header :: setHeader headers name value

def hasHeader (headers : List Header) (name : Text) : Bool := (headerValue headers name).isSome

def validateHeaderName (name : Text) : JsResult Unit :=
  if name.isEmpty || !(utf8 name).all fun b => (0x21 ≤ b && b ≤ 0x39 || 0x3B ≤ b && b ≤ 0x7E) && b != 0x3A then
    .error "MIME header names must be non-empty RFC 5322 field names"
  else .ok ()

def validateHeaderValue (value : Text) : JsResult Unit :=
  if (utf8 value).any fun b => b == 0x0D || b == 0x0A then
    .error "MIME header values must not contain line breaks"
  else .ok ()

def contentTypeBase (contentType : Text) : Text :=
  trim ((splitOnce ";" contentType).elim contentType Prod.fst)

def isTextContentType (contentType : Text) : Bool :=
  ("text/" : Text).isPrefixOf (toAsciiLowercase (contentTypeBase contentType))

theorem isTextContentType_default : isTextContentType defaultTextContentType = true := by decide

def boundaryOfParams : List Text → Option Text
  | [] => none
  | param::params =>
    match splitOnce "=" (trim param) with
    | none => boundaryOfParams params
    | some (name,value) =>
      if eqIgnoreAsciiCase (trim name) "boundary" then
        let value := trim value
        if value.head? = some '"' && value.getLast? = some '"' && 2 ≤ (utf8 value).length then
          some (value.drop 1).dropLast
        else some value
      else boundaryOfParams params

def parseBoundary (contentType : Text) : Option Text := boundaryOfParams ((contentType.splitOn ';').drop 1)

def contentTypeWithBoundary (contentType boundary : Text) : Text :=
  if (parseBoundary contentType).isSome then contentType
  else contentType ++ "; boundary=\"" ++ boundary ++ "\""

def normalizeTextLines (text : Text) : Text :=
  replace (replace (replace text "\r\n" "\n") "\r" "\n") "\n" "\r\n"

end MechanicsCore.Mime
