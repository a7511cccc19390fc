import MechanicsCore.Library.Text

/-! Name/value pairs in the format `application/x-www-form-urlencoded`: the
serializer, and the liberal parser, which reads back what is serialized. -/
namespace MechanicsCore.Library.FormUrlencoded
open Text

def unchanged (byte : UInt8) : Bool :=
  byte == 42 || byte == 45 || byte == 46 || 48 ≤ byte && byte ≤ 57 || 65 ≤ byte && byte ≤ 90 || byte == 95 ||
    97 ≤ byte && byte ≤ 122

def percentEncodeByte (byte : UInt8) : Text :=
  ['%',(Nat.digitChar (byte.toNat / 16)).toUpper,(Nat.digitChar (byte.toNat % 16)).toUpper]

def serializedByte (byte : UInt8) : Text :=
  if unchanged byte then [Char.ofNat byte.toNat]
  else if byte == 32 then ['+']
  else percentEncodeByte byte

def byteSerialize (bytes : List UInt8) : Text := bytes.flatMap serializedByte

def appendPair (string : Text) (pair : Text × Text) : Text :=
  (if string.isEmpty then string else string ++ ['&']) ++
    (byteSerialize (utf8 pair.1) ++ '=' :: byteSerialize (utf8 pair.2))

def extendPairs (string : Text) (pairs : List (Text × Text)) : Text := pairs.foldl appendPair string

/-- `char::to_digit(16)`. -/
def toDigit (byte : UInt8) : Option UInt8 :=
  if 48 ≤ byte && byte ≤ 57 then some (byte - 48)
  else if 65 ≤ byte && byte ≤ 70 then some (byte - 55)
  else if 97 ≤ byte && byte ≤ 102 then some (byte - 87)
  else none

/-- A percent sign without two digits behind it stands for itself. -/
def percentDecode : List UInt8 → List UInt8
  | a::b::c::rest =>
    if a == 37 then
      match toDigit b, toDigit c with
      | some hi, some lo => (hi <<< 4 ||| lo) :: percentDecode rest
      | _, _ => a :: percentDecode (b::c::rest)
    else a :: percentDecode (b::c::rest)
  | bytes => bytes

section Lossy

/-- The length of a character's encoding by its first byte; zero where none begins. -/
def width (first : UInt8) : Nat :=
  if first < 128 then 1
  else if 194 ≤ first && first ≤ 223 then 2
  else if 224 ≤ first && first ≤ 239 then 3
  else if 240 ≤ first && first ≤ 244 then 4
  else 0

def continues (byte : UInt8) : Bool := 128 ≤ byte && byte ≤ 191

/-- Whether the second byte can follow the first: no overlong form, no surrogate, nothing past U+10FFFF. -/
def follows (first second : UInt8) : Bool :=
  continues second &&
    !(first == 224 && second < 160 || first == 237 && 160 ≤ second || first == 240 && second < 144 ||
      first == 244 && 144 ≤ second)

/-- How many bytes at the start are the start of one encoded character, at least one. -/
def subpart : List UInt8 → Nat
  | first::second::rest =>
    if 2 ≤ width first && follows first second then
      2 + (((rest.take (width first - 2)).takeWhile continues).length)
    else 1
  | bytes => bytes.length

/-- A replacement character for each start of a character that is not completed. -/
def replaceInvalid : (skip : Nat) → List UInt8 → Text
  | _, [] => []
  | skip + 1, _::rest => replaceInvalid skip rest
  | 0, first::rest =>
    let length := subpart (first::rest)
    let replaced := if length = width first then fromUtf8 ((first::rest).take length) else none
    replaced.getD [Char.ofNat 0xFFFD] ++ replaceInvalid (length - 1) rest

/-- `String::from_utf8_lossy`. -/
def fromUtf8Lossy (bytes : List UInt8) : Text := (fromUtf8 bytes).getD (replaceInvalid 0 bytes)

theorem fromUtf8Lossy_utf8 (s : Text) : fromUtf8Lossy (utf8 s) = s := by
  rw [fromUtf8Lossy,fromUtf8_utf8]
  rfl

end Lossy

def decode (bytes : List UInt8) : Text :=
  fromUtf8Lossy (percentDecode (bytes.map fun byte => if byte == 43 then 32 else byte))

/-- The sequences between ampersands that are not empty, each cut at its first `=`. -/
def parse (input : List UInt8) : List (Text × Text) :=
  ((input.splitOn 38).filter fun sequence => !sequence.isEmpty).map fun sequence =>
    (decode (sequence.takeWhile (· != 61)),decode ((sequence.dropWhile (· != 61)).drop 1))

section RoundTrip

/-- The bytes of what is serialized are ASCII, and none of them separates or opens anything. -/
theorem serializedByte_plain (byte : UInt8) : ∀ c ∈ serializedByte byte,
    c.toNat < 128 ∧ c ≠ '&' ∧ c ≠ '=' ∧ c ≠ '?' := by
  have table : ∀ n < 256, (serializedByte (UInt8.ofNat n)).all
      (fun c => decide (c.toNat < 128 ∧ c ≠ '&' ∧ c ≠ '=' ∧ c ≠ '?')) = true := by decide +kernel
  have entry := table byte.toNat byte.toNat_lt
  rw [UInt8.ofNat_toNat] at entry
  exact List.all_iff_forall_prop.mp entry

theorem byteSerialize_plain (bytes : List UInt8) : ∀ c ∈ byteSerialize bytes,
    c.toNat < 128 ∧ c ≠ '&' ∧ c ≠ '=' ∧ c ≠ '?' := by
  intro c member
  obtain ⟨byte,_,inside⟩ := List.mem_flatMap.mp member
  exact serializedByte_plain byte c inside

theorem percentDecode_cons {byte : UInt8} (other : byte ≠ 37) (rest : List UInt8) :
    percentDecode (byte::rest) = byte :: percentDecode rest := by
  match rest with
  | [] => rfl
  | [_] => rfl
  | b::c::rest =>
    rw [percentDecode,if_neg (by simpa using other)]

/-- A serialized byte is decoded to itself, whatever follows. -/
theorem percentDecode_serialized (byte : UInt8) (rest : List UInt8) :
    percentDecode (((utf8 (serializedByte byte)).map fun byte => if byte == 43 then 32 else byte) ++ rest) =
      byte :: percentDecode rest := by
  unfold serializedByte
  split
  · rename_i kept
    have table : ∀ n < 256, unchanged (UInt8.ofNat n) = true → n < 128 ∧ n ≠ 37 ∧ n ≠ 43 := by decide +kernel
    have entry := table byte.toNat byte.toNat_lt
    rw [UInt8.ofNat_toNat] at entry
    obtain ⟨ascii,percent,plus⟩ := entry kept
    have low : [byte].all (· < 128) = true := by simpa [UInt8.lt_iff_toNat_lt] using ascii
    have single : utf8 [Char.ofNat byte.toNat] = [byte] := utf8_asciiText low
    have other : byte ≠ 43 := fun same => plus (congrArg UInt8.toNat same)
    rw [single,List.map_singleton,if_neg (by simpa using other),List.singleton_append]
    exact percentDecode_cons (fun same => percent (congrArg UInt8.toNat same)) rest
  · split
    · rename_i space
      rw [eq_of_beq space]
      exact percentDecode_cons (by decide) rest
    · have digits : ∀ n < 16, String.utf8EncodeChar (Nat.digitChar n).toUpper = [UInt8.ofNat (Nat.digitChar n).toUpper.toNat] ∧
          UInt8.ofNat (Nat.digitChar n).toUpper.toNat ≠ 43 ∧
          toDigit (UInt8.ofNat (Nat.digitChar n).toUpper.toNat) = some (UInt8.ofNat n) := by decide
      have small := byte.toNat_lt
      obtain ⟨hiText,hiPlus,hi⟩ := digits (byte.toNat / 16) (by omega)
      obtain ⟨loText,loPlus,lo⟩ := digits (byte.toNat % 16) (by omega)
      have bytes : utf8 (percentEncodeByte byte) = [37,UInt8.ofNat (Nat.digitChar (byte.toNat / 16)).toUpper.toNat,
          UInt8.ofNat (Nat.digitChar (byte.toNat % 16)).toUpper.toNat] := by
        simp [utf8,percentEncodeByte,hiText,loText]
        rfl
      have whole := ofNat_nibbles byte
      rw [bytes]
      simp [percentDecode,hiPlus,loPlus,hi,lo,whole]

theorem decode_byteSerialize (s : Text) : decode (utf8 (byteSerialize (utf8 s))) = s := by
  have bytes : ∀ bytes,
      percentDecode ((utf8 (byteSerialize bytes)).map fun byte => if byte == 43 then 32 else byte) = bytes := by
    intro bytes
    induction bytes with
    | nil => rfl
    | cons byte bytes ih =>
      rw [byteSerialize,List.flatMap_cons,utf8_append,List.map_append,percentDecode_serialized]
      exact congrArg (byte :: ·) ih
  rw [decode,bytes,fromUtf8Lossy_utf8]

def pairText (pair : Text × Text) : Text := byteSerialize (utf8 pair.1) ++ '=' :: byteSerialize (utf8 pair.2)

theorem extendPairs_append {string : Text} (begun : string ≠ []) (pairs : List (Text × Text)) :
    extendPairs string pairs = string ++ pairs.flatMap fun pair => '&' :: pairText pair := by
  induction pairs generalizing string with
  | nil => exact (List.append_nil string).symm
  | cons pair pairs ih =>
    have added : appendPair string pair = string ++ '&' :: pairText pair := by
      rw [appendPair,if_neg (by simpa using begun),List.append_assoc]
      rfl
    change extendPairs (appendPair string pair) pairs = _
    rw [added,ih (by simp),List.flatMap_cons,List.append_assoc]

theorem extendPairs_eq (pairs : List (Text × Text)) : extendPairs [] pairs = ['&'].intercalate (pairs.map pairText) := by
  cases pairs with
  | nil => rfl
  | cons pair pairs =>
    have begun : pairText pair ≠ [] := by simp [pairText]
    change extendPairs (pairText pair) pairs = _
    rw [extendPairs_append begun]
    induction pairs generalizing pair with
    | nil => simp [List.intercalate]
    | cons next pairs ih =>
      have later := ih next (by simp [pairText])
      rw [List.flatMap_cons,List.cons_append,List.map_cons,List.map_cons,List.intercalate_cons_cons,← List.map_cons,← later]
      simp

theorem byte_not_mem {c : Char} {s : Text} (ascii : c.toNat < 128) (absent : c ∉ s) : UInt8.ofNat c.toNat ∉ utf8 s :=
  fun inside => absent (mem_of_utf8 ascii inside)

theorem parse_pairText (pair : Text × Text) :
    (decode ((utf8 (pairText pair)).takeWhile (· != 61)),
      decode (((utf8 (pairText pair)).dropWhile (· != 61)).drop 1)) = pair := by
  have bytes : utf8 (pairText pair) = utf8 (byteSerialize (utf8 pair.1)) ++ 61 :: utf8 (byteSerialize (utf8 pair.2)) := by
    rw [pairText,utf8_append]
    rfl
  have free : (61 : UInt8) ∉ utf8 (byteSerialize (utf8 pair.1)) :=
    byte_not_mem (c := '=') (by decide) fun inside => (byteSerialize_plain _ _ inside).2.2.1 rfl
  have name : ∀ byte ∈ utf8 (byteSerialize (utf8 pair.1)), (byte != 61) = true := by
    intro byte member
    simpa using fun same : byte = 61 => free (same ▸ member)
  rw [bytes,List.takeWhile_append_of_pos name,List.dropWhile_append_of_pos name]
  simp [decode_byteSerialize]

/-- What is serialized is parsed to the same pairs. -/
theorem parse_extendPairs (pairs : List (Text × Text)) : parse (utf8 (extendPairs [] pairs)) = pairs := by
  rw [extendPairs_eq,utf8_intercalate]
  cases pairs with
  | nil => rfl
  | cons pair pairs =>
    have free : ∀ sequence ∈ ((pair::pairs).map pairText).map utf8, (38 : UInt8) ∉ sequence := by
      intro sequence member
      rw [List.map_map] at member
      obtain ⟨pair,_,rfl⟩ := List.mem_map.mp member
      refine byte_not_mem (c := '&') (by decide) fun inside => ?_
      rw [pairText,List.mem_append,List.mem_cons] at inside
      rcases inside with name | equals | value
      · exact (byteSerialize_plain _ _ name).2.1 rfl
      · exact absurd equals (by decide)
      · exact (byteSerialize_plain _ _ value).2.1 rfl
    have filled : ∀ sequence ∈ ((pair::pairs).map pairText).map utf8, (!sequence.isEmpty) = true := by
      intro sequence member
      rw [List.map_map] at member
      obtain ⟨pair,_,rfl⟩ := List.mem_map.mp member
      simp [pairText,utf8_append,utf8_cons]
    change (((([38] : List UInt8).intercalate (((pair::pairs).map pairText).map utf8)).splitOn 38).filter _).map _ = _
    rw [List.splitOn_intercalate 38 free (by simp),List.filter_eq_self.mpr filled,List.map_map,List.map_map]
    exact (List.map_congr_left fun pair _ => parse_pairText pair).trans (List.map_id _)

/-- No question mark is left to be taken for the start of a query. -/
theorem question_not_mem (pairs : List (Text × Text)) : '?' ∉ extendPairs [] pairs := by
  have absent : ∀ pair, '?' ∉ pairText pair := by
    intro pair inside
    rw [pairText,List.mem_append,List.mem_cons] at inside
    rcases inside with name | equals | value
    · exact (byteSerialize_plain _ _ name).2.2.2 rfl
    · exact absurd equals (by decide)
    · exact (byteSerialize_plain _ _ value).2.2.2 rfl
  cases pairs with
  | nil => exact List.not_mem_nil
  | cons pair pairs =>
    have begun : pairText pair ≠ [] := by simp [pairText]
    change '?' ∉ extendPairs (pairText pair) pairs
    rw [extendPairs_append begun,List.mem_append,List.mem_flatMap]
    rintro (first | ⟨next,_,inside⟩)
    · exact absent pair first
    · rcases List.mem_cons.mp inside with separator | later
      · exact absurd separator (by decide)
      · exact absent next later

end RoundTrip

end MechanicsCore.Library.FormUrlencoded
