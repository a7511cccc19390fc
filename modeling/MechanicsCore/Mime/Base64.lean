import MechanicsCore.Mime.Message

/-! The `BASE64` encoding of the data-encoding crate, by the laws that the module relies
on. The standard alphabet with padding keeps them; fixed messages are written and read so. -/
namespace MechanicsCore.Mime
open MechanicsCore.Library Text

def isAsciiWhitespace (c : Char) : Bool := c == '\t' || c == '\n' || c == '\x0c' || c == '\r' || c == ' '

/-- `data_encoding::BASE64`: what is encoded is decoded, its symbols are ASCII but no white
space and no dash, and a text stands for no more bytes than it has symbols. -/
class Base64 where
  encode : List UInt8 → Text
  decode : Text → Option (List UInt8)
  decode_encode : ∀ bytes, decode (encode bytes) = some bytes
  encode_nil : encode [] = []
  encode_symbol : ∀ {bytes c}, c ∈ encode bytes → c.toNat < 128 ∧ isAsciiWhitespace c = false ∧ c ≠ '-'
  decode_length : ∀ {text bytes}, decode text = some bytes → bytes.length ≤ text.length

theorem Base64.encode_eq_nil [Base64] {bytes : List UInt8} : encode bytes = [] ↔ bytes = [] := by
  constructor
  · intro empty
    have read := decode_encode bytes
    rw [empty,← encode_nil,decode_encode] at read
    exact (Option.some.inj read).symm
  · rintro rfl
    exact encode_nil

namespace StandardBase64

def alphabet : Text := "ABCDEFGHIJKLMNOPQRSTUVWXYZabcdefghijklmnopqrstuvwxyz0123456789+/"

def symbol (sextet : Nat) : Char := alphabet.getD sextet 'A'

def encode : List UInt8 → Text
  | [] => []
  | [a] =>
    let bits := a.toNat * 16
    [symbol (bits / 64),symbol (bits % 64),'=','=']
  | [a,b] =>
    let bits := (a.toNat * 256 + b.toNat) * 4
    [symbol (bits / 4096),symbol (bits / 64 % 64),symbol (bits % 64),'=']
  | a::b::c::rest =>
    let bits := (a.toNat * 256 + b.toNat) * 256 + c.toNat
    symbol (bits / 262144) :: symbol (bits / 4096 % 64) :: symbol (bits / 64 % 64) ::
      symbol (bits % 64) :: encode rest

def sextet (c : Char) : Option Nat := alphabet.findIdx? (· == c)

/-- Blocks of four symbols; a padded block must have zero trailing bits. -/
def decode : Text → Option (List UInt8)
  | [] => some []
  | a::b::c::d::rest => do
    let x ← sextet a
    let y ← sextet b
    let block ← if c == '=' then
        if d == '=' && y % 16 == 0 then some [x * 4 + y / 16] else none
      else do
        let z ← sextet c
        if d == '=' then
          if z % 4 == 0 then some [x * 4 + y / 16,y % 16 * 16 + z / 4] else none
        else do
          let u ← sextet d
          some [x * 4 + y / 16,y % 16 * 16 + z / 4,z % 4 * 64 + u]
    let later ← decode rest
    some (block.map UInt8.ofNat ++ later)
  | _ => none

theorem symbol_mem (sextet : Nat) : symbol sextet ∈ alphabet := by
  unfold symbol
  rw [List.getD_eq_getElem?_getD]
  cases found : alphabet[sextet]? with
  | none => exact (by decide : 'A' ∈ alphabet)
  | some c => exact List.mem_of_getElem? found

theorem encode_chars (bytes : List UInt8) : ∀ c ∈ encode bytes, c ∈ alphabet ∨ c = '=' := by
  induction bytes using encode.induct with
  | case1 => simp [encode]
  | case2 a => simp [encode,symbol_mem]
  | case3 a b => simp [encode,symbol_mem]
  | case4 a b c rest ih =>
    intro d member
    simp only [encode,List.mem_cons] at member
    rcases member with rfl | rfl | rfl | rfl | later
    · exact .inl (symbol_mem _)
    · exact .inl (symbol_mem _)
    · exact .inl (symbol_mem _)
    · exact .inl (symbol_mem _)
    · exact ih d later

theorem sextet_symbol {n : Nat} (small : n < 64) : sextet (symbol n) = some n := by
  have table : ∀ n < 64, sextet (symbol n) = some n := by decide +kernel
  exact table n small

theorem symbol_ne (n : Nat) : symbol n ≠ '=' := by
  intro same
  have member := symbol_mem n
  rw [same] at member
  exact absurd member (by decide)

private theorem decode_block {x y z u : Nat} (first : x < 64) (second : y < 64) (third : z < 64) (fourth : u < 64)
    (rest : Text) :
    decode (symbol x :: symbol y :: symbol z :: symbol u :: rest) =
      (decode rest).map fun later =>
        UInt8.ofNat (x * 4 + y / 16) :: UInt8.ofNat (y % 16 * 16 + z / 4) :: UInt8.ofNat (z % 4 * 64 + u) :: later := by
  rw [decode,sextet_symbol first,sextet_symbol second,sextet_symbol third,
    sextet_symbol fourth,beq_false_of_ne (symbol_ne z),beq_false_of_ne (symbol_ne u)]
  cases decode rest <;> rfl

private theorem decode_two {x y z : Nat} (first : x < 64) (second : y < 64) (third : z < 64) (padded : z % 4 = 0) :
    decode [symbol x,symbol y,symbol z,'='] =
      some [UInt8.ofNat (x * 4 + y / 16),UInt8.ofNat (y % 16 * 16 + z / 4)] := by
  rw [decode,sextet_symbol first,sextet_symbol second,sextet_symbol third,
    beq_false_of_ne (symbol_ne z)]
  simp [padded,decode]

private theorem decode_one {x y : Nat} (first : x < 64) (second : y < 64) (padded : y % 16 = 0) :
    decode [symbol x,symbol y,'=','='] = some [UInt8.ofNat (x * 4 + y / 16)] := by
  rw [decode,sextet_symbol first,sextet_symbol second]
  simp [padded,decode]

private theorem ofNat_eq {n : Nat} {byte : UInt8} (same : n = byte.toNat) : UInt8.ofNat n = byte := by
  rw [same,UInt8.ofNat_toNat]

theorem decode_encode (bytes : List UInt8) : decode (encode bytes) = some bytes := by
  induction bytes using encode.induct with
  | case1 => rfl
  | case2 a =>
    have small := a.toNat_lt
    rw [encode,decode_one (by omega) (by omega) (by omega),ofNat_eq]
    omega
  | case3 a b =>
    have smallA := a.toNat_lt
    have smallB := b.toNat_lt
    rw [encode,decode_two (by omega) (by omega) (by omega) (by omega)]
    have bytes : ∀ n m : Nat, n = a.toNat → m = b.toNat → some [UInt8.ofNat n,UInt8.ofNat m] = some [a,b] := by
      intro n m first second
      rw [ofNat_eq first,ofNat_eq second]
    apply bytes <;> omega
  | case4 a b c rest ih =>
    have smallA := a.toNat_lt
    have smallB := b.toNat_lt
    have smallC := c.toNat_lt
    rw [encode,decode_block (by omega) (by omega) (by omega) (by omega),ih,Option.map_some]
    have bytes : ∀ n m k : Nat, n = a.toNat → m = b.toNat → k = c.toNat →
        some (UInt8.ofNat n :: UInt8.ofNat m :: UInt8.ofNat k :: rest) = some (a::b::c::rest) := by
      intro n m k first second third
      rw [ofNat_eq first,ofNat_eq second,ofNat_eq third]
    apply bytes <;> omega

theorem decode_length {s : Text} {bytes : List UInt8} (known : decode s = some bytes) :
    bytes.length ≤ s.length := by
  fun_induction decode s generalizing bytes with
  | case1 =>
    cases known
    simp
  | case2 a b c d rest ih =>
    -- a block of four symbols gives three bytes at most
    have ends : ∀ block : List Nat, block.length ≤ 3 →
        ((decode rest).bind fun later => some (block.map UInt8.ofNat ++ later)) = some bytes →
        bytes.length ≤ (a::b::c::d::rest).length := by
      intro block small found
      obtain ⟨later,decoded,same⟩ := Option.bind_eq_some_iff.mp found
      cases same
      have shorter := ih decoded
      simp only [List.length_append,List.length_map,List.length_cons]
      omega
    obtain ⟨x,_,known⟩ := Option.bind_eq_some_iff.mp known
    obtain ⟨y,_,known⟩ := Option.bind_eq_some_iff.mp known
    dsimp only at known
    split at known
    · split at known
      · exact ends _ (by simp) known
      · contradiction
    · obtain ⟨z,_,known⟩ := Option.bind_eq_some_iff.mp known
      split at known
      · split at known
        · exact ends _ (by simp) known
        · contradiction
      · obtain ⟨u,_,known⟩ := Option.bind_eq_some_iff.mp known
        exact ends _ (by simp) known
  | case3 => contradiction

theorem encode_symbol {bytes : List UInt8} {c : Char} (member : c ∈ encode bytes) :
    c.toNat < 128 ∧ isAsciiWhitespace c = false ∧ c ≠ '-' := by
  have table : ∀ c ∈ alphabet ++ ['='], c.toNat < 128 ∧ isAsciiWhitespace c = false ∧ c ≠ '-' :=
    List.all_iff_forall_prop.mp (by decide)
  apply table
  rcases encode_chars bytes c member with symbol | rfl
  · exact List.mem_append_left _ symbol
  · exact List.mem_append_right _ (List.mem_singleton_self _)

end StandardBase64

instance standardBase64 : Base64 where
  encode := StandardBase64.encode
  decode := StandardBase64.decode
  decode_encode := StandardBase64.decode_encode
  encode_nil := rfl
  encode_symbol := StandardBase64.encode_symbol
  decode_length := StandardBase64.decode_length

end MechanicsCore.Mime
