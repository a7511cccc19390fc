import MechanicsCore.Mime.Base64

/-! Transfer encodings of bodies and encoded words of headers: wrapped base64,
quoted-printable and the Q and B forms of RFC 2047. -/
namespace MechanicsCore.Mime
open MechanicsCore.Library Text

/-- Breaks a line before the character that would follow `width` bytes. -/
def wrapAsciiLineFrom (width : Nat) : (lineLen : Nat) → Text → Text
  | _, [] => []
  | lineLen, c::cs =>
    if width ≤ lineLen then "\r\n" ++ c :: wrapAsciiLineFrom width c.utf8Size cs
    else c :: wrapAsciiLineFrom width (lineLen + c.utf8Size) cs

def wrapAsciiLine (input : Text) (width : Nat) : Text := wrapAsciiLineFrom width 0 input

def base64EncodeWrapped [Base64] (bytes : List UInt8) : Text := wrapAsciiLine (Base64.encode bytes) 76

def base64DecodeLiberal [Base64] (input : Text) : JsResult (List UInt8) :=
  match Base64.decode (input.filter fun c => !isAsciiWhitespace c) with
  | some bytes => .ok bytes
  | none => .error "invalid MIME base64 body"

def hexValue (byte : UInt8) : Option UInt8 :=
  if 48 ≤ byte && byte ≤ 57 then some (byte - 48)
  else if 97 ≤ byte && byte ≤ 102 then some (byte - 97 + 10)
  else if 65 ≤ byte && byte ≤ 70 then some (byte - 65 + 10)
  else none

def hexDigit (nibble : Nat) : Char := ("0123456789ABCDEF" : Text).getD nibble '0'

def hexPair (byte : UInt8) : Text := [hexDigit (byte.toNat / 16),hexDigit (byte.toNat % 16)]

/-- What `qp_push_token` appends, and the length of the line after it. -/
def qpPushToken (lineLen : Nat) (token : Text) : Text × Nat :=
  if 75 < lineLen + token.length then ("=\r\n" ++ token,token.length) else (token,lineLen + token.length)

def qpToken (byte : UInt8) : Text :=
  if byte == 9 || 32 ≤ byte && byte ≤ 60 || 62 ≤ byte && byte ≤ 126 then [Char.ofNat byte.toNat]
  else '=' :: hexPair byte

def qpEncodeFrom : (lineLen : Nat) → List UInt8 → Text
  | _, [] => []
  | lineLen, [byte] => (qpPushToken lineLen (qpToken byte)).1
  | lineLen, byte::next::rest =>
    if byte == 13 && next == 10 then "\r\n" ++ qpEncodeFrom 0 rest
    else
      let pushed := qpPushToken lineLen (qpToken byte)
      pushed.1 ++ qpEncodeFrom pushed.2 (next::rest)

def qpEncode (bytes : List UInt8) : Text := qpEncodeFrom 0 bytes

def qpDecodeBytes (encodedWord : Bool) : List UInt8 → JsResult (List UInt8)
  | [] => .ok []
  | byte::rest =>
    if encodedWord && byte == 95 then (qpDecodeBytes encodedWord rest).map (32 :: ·)
    else if byte != 61 then (qpDecodeBytes encodedWord rest).map (byte :: ·)
    else
      match rest with
      | [] => .error "invalid quoted-printable escape"
      | [next] => if next == 10 then .ok [] else .error "invalid quoted-printable escape"
      | next::after::rest =>
        if next == 13 && after == 10 then qpDecodeBytes encodedWord rest
        else if next == 10 then qpDecodeBytes encodedWord (after::rest)
        else
          match hexValue next, hexValue after with
          | some hi, some lo => (qpDecodeBytes encodedWord rest).map ((hi <<< 4 ||| lo) :: ·)
          | _, _ => .error "invalid quoted-printable escape"

def qpDecode (input : Text) (encodedWord : Bool) : JsResult (List UInt8) := qpDecodeBytes encodedWord (utf8 input)

def qEncodeByte (byte : UInt8) : Text :=
  if byte == 32 then ['_']
  else if 65 ≤ byte && byte ≤ 90 || 97 ≤ byte && byte ≤ 122 || 48 ≤ byte && byte ≤ 57 ||
      [33,42,43,45,47].contains byte then [Char.ofNat byte.toNat]
  else '=' :: hexPair byte

def qEncodeHeader (value : Text) : Text := "=?UTF-8?Q?" ++ (utf8 value).flatMap qEncodeByte ++ "?="

def maybeEncodeHeaderValue (value : Text) : Text := if isAscii value then value else qEncodeHeader value

def decodeEncodedWord [Base64] (charset encoding encoded : Text) : JsResult Text := do
  let charset := toAsciiLowercase charset
  if charset != "utf-8" && charset != "utf8" then
    throw "unsupported RFC 2047 charset"
  let encoding := toAsciiLowercase encoding
  let decoded ←
    if encoding == "b" then base64DecodeLiberal encoded
    else if encoding == "q" then qpDecode encoded true
    else .error "unsupported RFC 2047 encoding"
  match fromUtf8 decoded with
  | some text => return text
  | none => throw "invalid RFC 2047 UTF-8"

def decodeEncodedWords [Base64] (rest : Text) : JsResult Text :=
  match _ : splitOnce "=?" rest with
  | none => .ok rest
  | some (before,afterStart) =>
    match _ : splitOnce "?" afterStart with
    | none => .ok rest
    | some (charsetText,afterCharset) =>
      match _ : splitOnce "?" afterCharset with
      | none => .ok rest
      | some (encodingText,afterEncoding) =>
        match _ : splitOnce "?=" afterEncoding with
        | none => .ok rest
        | some (encoded,later) => do
          let decoded ← decodeEncodedWord charsetText encodingText encoded
          return before ++ decoded ++ (← decodeEncodedWords later)
termination_by rest.length
decreasing_by
  rename_i start charset encoding text
  have first := splitOnce_length start
  have second := splitOnce_length charset
  have third := splitOnce_length encoding
  have fourth := splitOnce_length text
  change before.length + 2 + afterStart.length = rest.length at first
  omega

end MechanicsCore.Mime
