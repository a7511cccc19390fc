import MechanicsCore.Builtins.Buffers

/-! The modules `mechanics:base64`, `mechanics:base32` and `mechanics:hex`. The encodings
are the data-encoding and hex crates' own, parameters here under the laws that the
modules rely on; an argument's text is what the lossy conversion of its code units
gives. -/
namespace MechanicsCore.Builtins
open MechanicsCore.Library

structure DataEncoding where
  encode : List UInt8 → Text
  decode : Text → Option (List UInt8)

/-- The encodings of the two crates that the modules use. -/
structure Encodings where
  base64 : DataEncoding
  base64Nopad : DataEncoding
  base64url : DataEncoding
  base64urlNopad : DataEncoding
  base32 : DataEncoding
  base32Nopad : DataEncoding
  base32hex : DataEncoding
  base32hexNopad : DataEncoding
  hex : DataEncoding

/-- An encoding with padding, and the same without: each reads what it writes, one writes
what the other does but for the padding, and what needs none they read alike. -/
structure DataEncoding.Pair (padded nopad : DataEncoding) : Prop where
  inverse : ∀ bytes, padded.decode (padded.encode bytes) = some bytes
  nopad_inverse : ∀ bytes, nopad.decode (nopad.encode bytes) = some bytes
  stripped : ∀ bytes, nopad.encode bytes = (padded.encode bytes).filter (· != '=')
  agree : ∀ bytes other, padded.decode (nopad.encode bytes) = some other → other = bytes

/-- What the crates promise: base32 is written in capital letters, and hexadecimal digits
are read in either case. -/
structure Encodings.Lawful (E : Encodings) : Prop where
  base64 : E.base64.Pair E.base64Nopad
  base64url : E.base64url.Pair E.base64urlNopad
  base32 : E.base32.Pair E.base32Nopad
  base32_upper : ∀ bytes, ∀ c ∈ E.base32.encode bytes, c.toUpper = c
  base32hex : E.base32hex.Pair E.base32hexNopad
  base32hex_upper : ∀ bytes, ∀ c ∈ E.base32hex.encode bytes, c.toUpper = c
  hex_inverse : ∀ bytes, E.hex.decode (E.hex.encode bytes) = some bytes
  hex_nopad : ∀ bytes, '=' ∉ E.hex.encode bytes
  hex_fold : ∀ a b : Text, a.map Char.toLower = b.map Char.toLower → E.hex.decode a = E.hex.decode b

inductive Base64Variant
  | base64
  | base64url

inductive Base32Variant
  | base32
  | base32hex

def parseVariant {V : Type} (args : List Value) (index : Nat) (default : V) (choices : List (Text × V))
    (mustBe : String) : Except NativeError V :=
  match args.getD index .undefined with
  | .undefined => .ok default
  | .string s =>
    match choices.lookup s with
    | some variant => .ok variant
    | none => .error (.typ mustBe)
  | _ => .error (.typ "variant must be a string")

def parseBase64Variant (args : List Value) (index : Nat) (default : Base64Variant) : Except NativeError Base64Variant :=
  parseVariant args index default [("base64",.base64),("base64url",.base64url)] "variant must be 'base64' or 'base64url'"

def parseBase32Variant (args : List Value) (index : Nat) (default : Base32Variant) : Except NativeError Base32Variant :=
  parseVariant args index default [("base32",.base32),("base32hex",.base32hex)] "variant must be 'base32' or 'base32hex'"

/-- The result of a decoder, its error wrapped. -/
def orRustError {α : Type} : Option α → Except NativeError α
  | some a => .ok a
  | none => .error .rust

section
variable (E : Encodings)

def base64Encode (h : Heap) (args : List Value) : Except NativeError Text := do
  let bytes ← requiredBufferLikeArg h args 0 "bufferLike"
  match ← parseBase64Variant args 1 .base64 with
  | .base64 => return E.base64.encode bytes
  | .base64url => return E.base64urlNopad.encode bytes

def base64Decode (h : Heap) (args : List Value) : Except NativeError (Value × Heap) := do
  let encoded ← requiredStringArg args 0 "encoded"
  let decoded ← match ← parseBase64Variant args 1 .base64 with
    | .base64 => orRustError ((E.base64.decode encoded).or (E.base64Nopad.decode encoded))
    | .base64url => orRustError ((E.base64url.decode encoded).or (E.base64urlNopad.decode encoded))
  return bytesToUint8ArrayValue h decoded

def base32Encode (h : Heap) (args : List Value) : Except NativeError Text := do
  let bytes ← requiredBufferLikeArg h args 0 "bufferLike"
  match ← parseBase32Variant args 1 .base32 with
  | .base32 => return E.base32.encode bytes
  | .base32hex => return E.base32hex.encode bytes

def base32Decode (h : Heap) (args : List Value) : Except NativeError (Value × Heap) := do
  let encoded ← requiredStringArg args 0 "encoded"
  let encodedUpper := encoded.map Char.toUpper
  let decoded ← match ← parseBase32Variant args 1 .base32 with
    | .base32 => orRustError ((E.base32.decode encodedUpper).or (E.base32Nopad.decode encodedUpper))
    | .base32hex => orRustError ((E.base32hex.decode encodedUpper).or (E.base32hexNopad.decode encodedUpper))
  return bytesToUint8ArrayValue h decoded

def hexEncode (h : Heap) (args : List Value) : Except NativeError Text := do
  let bytes ← requiredBufferLikeArg h args 0 "bufferLike"
  return E.hex.encode bytes

def hexDecode (h : Heap) (args : List Value) : Except NativeError (Value × Heap) := do
  let encoded ← requiredStringArg args 0 "encoded"
  let decoded ← orRustError (E.hex.decode encoded)
  return bytesToUint8ArrayValue h decoded

end

/-- The three modules, each with its `encode`, its `decode` and the case that `decode` reads. -/
inductive Codec
  | base64
  | base32
  | hex

def Codec.encode (E : Encodings) : Codec → Heap → List Value → Except NativeError Text
  | .base64 => base64Encode E
  | .base32 => base32Encode E
  | .hex => hexEncode E

def Codec.decode (E : Encodings) : Codec → Heap → List Value → Except NativeError (Value × Heap)
  | .base64 => base64Decode E
  | .base32 => base32Decode E
  | .hex => hexDecode E

def Codec.fold : Codec → Char → Char
  | .base64 => id
  | .base32 => Char.toUpper
  | .hex => Char.toLower

section Reading
variable {padded nopad : DataEncoding}

/-- The fallback decides nothing: what the encoding with padding reads of a text without
it is what was written. -/
theorem DataEncoding.Pair.reads_nopad (pair : padded.Pair nopad) (bytes : List UInt8) :
    (padded.decode (nopad.encode bytes)).or (nopad.decode (nopad.encode bytes)) = some bytes := by
  cases found : padded.decode (nopad.encode bytes) with
  | none => exact pair.nopad_inverse bytes
  | some other => exact congrArg some (pair.agree bytes other found)

theorem DataEncoding.Pair.reads (pair : padded.Pair nopad) {bytes : List UInt8} {text : Text}
    (spells : text = padded.encode bytes ∨ text = (padded.encode bytes).filter (· != '=')) :
    (padded.decode text).or (nopad.decode text) = some bytes := by
  rcases spells with rfl | rfl
  · rw [pair.inverse]
    rfl
  · rw [← pair.stripped]
    exact pair.reads_nopad bytes

end Reading

section Options
variable {E : Encodings}

end Options

end MechanicsCore.Builtins
