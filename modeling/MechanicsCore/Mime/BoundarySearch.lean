import MechanicsCore.Library.Occurrences
import MechanicsCore.Mime.Generated

/-! The search for a boundary ends. The candidates of a message are told apart by
where they end, so a message has room for no more of them than its bodies have
bytes, and the search meets one that it does not hold. -/
namespace MechanicsCore.Mime
open MechanicsCore.Library Text

section Candidates

/-- The number that hexadecimal digits stand for. -/
def hexNumber (digits : Text) : Nat := digits.foldl (fun n c => n * 16 + hexDigits.idxOf c) 0

theorem hexNumber_toDigits (n : Nat) : hexNumber (Nat.toDigits 16 n) = n := by
  have digit : ∀ k < 16, hexDigits.idxOf k.digitChar = k := by decide
  induction n using Nat.strong_induction_on with
  | _ n ih =>
    by_cases small : n < 16
    · rw [Nat.toDigits_of_lt_base small]
      change 0 * 16 + hexDigits.idxOf n.digitChar = n
      rw [digit n small]
      omega
    · rw [Nat.toDigits_of_base_le (by decide) (Nat.not_lt.mp small),hexNumber,List.foldl_append]
      change hexNumber (Nat.toDigits 16 (n / 16)) * 16 + hexDigits.idxOf (n % 16).digitChar = n
      rw [ih (n / 16) (by omega),digit (n % 16) (Nat.mod_lt n (by decide))]
      omega

theorem hexNumber_hexPadded (width n : Nat) : hexNumber (hexPadded width n) = n := by
  have padded : ∀ k, hexNumber (List.replicate k '0' ++ Nat.toDigits 16 n) = n := by
    intro k
    induction k with
    | zero => exact hexNumber_toDigits n
    | succ k ih => exact ih
  exact padded _

/-- Zeros in front do not change the number, so candidates differ as their attempts do. -/
theorem boundaryCandidate_injective (seed : UInt64) : Function.Injective (boundaryCandidate seed) := by
  intro i j same
  have digits : hexPadded 4 i = hexPadded 4 j := List.append_cancel_left same
  rw [← hexNumber_hexPadded 4 i,digits,hexNumber_hexPadded]

theorem boundaryCandidate_eq_cons (seed : UInt64) (attempt : Nat) :
    ∃ rest, boundaryCandidate seed attempt = 'm'::rest ∧ 'm' ∉ rest := by
  refine ⟨"echanics-" ++ hexPadded 16 seed.toNat ++ "-" ++ hexPadded 4 attempt,rfl,?_⟩
  have digits : ∀ width n, 'm' ∉ hexPadded width n := fun width n member =>
    absurd (mem_hexPadded member) (by decide)
  simp only [List.mem_append,not_or]
  exact ⟨⟨⟨by decide,digits _ _⟩,by decide⟩,digits _ _⟩

/-- A candidate begins with a letter that it does not have again, so none ends with
another one. -/
theorem boundaryCandidate_apart (seed : UInt64) (i j : Nat)
    (ends : utf8 (boundaryCandidate seed i) <:+ utf8 (boundaryCandidate seed j)) : i = j := by
  obtain ⟨rest,same,_⟩ := boundaryCandidate_eq_cons seed i
  obtain ⟨rest',same',once⟩ := boundaryCandidate_eq_cons seed j
  obtain ⟨before,split⟩ := ends
  have letter : ∀ s, utf8 ('m'::s) = 109 :: utf8 s := fun s => utf8_cons 'm' s
  cases before with
  | nil =>
    have read := congrArg fromUtf8 split
    rw [List.nil_append,fromUtf8_utf8,fromUtf8_utf8] at read
    exact boundaryCandidate_injective seed (Option.some.inj read)
  | cons byte before =>
    rw [same,same',letter,letter] at split
    have later : (109 : UInt8) ∈ utf8 rest' := by
      rw [← (List.cons.inj split).2]
      exact List.mem_append_right _ List.mem_cons_self
    exact absurd (mem_of_utf8 (c := 'm') (by decide) later) once

end Candidates

section Bodies

mutual

/-- The bodies of a message at every depth. -/
def MimeMessage.bodies : MimeMessage → List MimeBody
  | ⟨_,body,parts,_⟩ => body.toList ++ partsBodies parts

def partsBodies : List MimeMessage → List MimeBody
  | [] => []
  | part::parts => part.bodies ++ partsBodies parts

end

def MimeMessage.bodySize (message : MimeMessage) : Nat := (message.bodies.map fun body => body.toBytes.length).sum

mutual

theorem messageContainsBoundary_eq_any (boundary : Text) (message : MimeMessage) :
    messageContainsBoundary boundary message = message.bodies.any (MimeBody.contains boundary) := by
  obtain ⟨headers,body,parts,encoding⟩ := message
  rw [messageContainsBoundary,MimeMessage.bodies,List.any_append,partsContainBoundary_eq_any]
  cases body with
  | none => rfl
  | some body => simp

theorem partsContainBoundary_eq_any (boundary : Text) (parts : List MimeMessage) :
    partsContainBoundary boundary parts = (partsBodies parts).any (MimeBody.contains boundary) := by
  cases parts with
  | nil => rfl
  | cons part parts =>
    rw [partsContainBoundary,partsBodies,List.any_append,messageContainsBoundary_eq_any,partsContainBoundary_eq_any]

end

theorem MimeBody.infix_of_contains {boundary : Text} {body : MimeBody} (found : body.contains boundary = true) :
    utf8 boundary <:+: body.toBytes := by
  cases body with
  | text content => exact infix_utf8 (of_decide_eq_true found)
  | bytes content => exact of_decide_eq_true found

end Bodies

section Search
variable {message : MimeMessage} {seed : UInt64}

/-- The search goes no further than to a candidate that the message does not hold. -/
theorem searchBoundary_finds (left attempt n : Nat) (within : n < left)
    (absent : messageContainsBoundary (boundaryCandidate seed (attempt + n)) message = false) :
    ∃ k ≤ n, searchBoundary message seed left attempt = some (boundaryCandidate seed (attempt + k)) := by
  induction left generalizing attempt n with
  | zero => contradiction
  | succ left ih =>
    rw [searchBoundary]
    cases held : messageContainsBoundary (boundaryCandidate seed attempt) message with
    | false => exact ⟨0,Nat.zero_le n,rfl⟩
    | true =>
      cases n with
      | zero =>
        rw [Nat.add_zero,held] at absent
        contradiction
      | succ n =>
        have shift : ∀ k, attempt + 1 + k = attempt + (k + 1) := by omega
        obtain ⟨k,below,found⟩ := ih (attempt + 1) n (by omega) (by rwa [shift])
        rw [shift] at found
        exact ⟨k + 1,by omega,found⟩

theorem exists_absent_candidate (message : MimeMessage) (seed : UInt64) :
    ∃ n ≤ message.bodySize, messageContainsBoundary (boundaryCandidate seed n) message = false := by
  have nonempty : ∀ i, utf8 (boundaryCandidate seed i) ≠ [] := by
    intro i
    obtain ⟨rest,same,_⟩ := boundaryCandidate_eq_cons seed i
    rw [same,utf8_cons]
    exact List.cons_ne_nil _ _
  obtain ⟨n,within,absent⟩ := exists_absent (boundaryCandidate_apart seed) nonempty
    (message.bodies.map MimeBody.toBytes)
  refine ⟨n,by rwa [List.map_map] at within,?_⟩
  rw [messageContainsBoundary_eq_any,List.any_eq_false]
  intro body member found
  exact absent _ (List.mem_map_of_mem member) (MimeBody.infix_of_contains found)

end Search

/-- For a message with less than 2^63 bytes in its bodies the search returns, with an
attempt no larger than that number and so far from saturating. What it returns is
in no body of the message, and no two attempts try the same candidate. -/
theorem boundary_search_ends (message : MimeMessage) (small : message.bodySize < 2^63) :
    (∃ attempt boundary, attempt ≤ message.bodySize ∧ attempt < 2^64 - 1 ∧
      boundary = boundaryCandidate (boundarySeed message 0xcbf29ce484222325) attempt ∧
      generateBoundary message = some boundary ∧
      ∀ body ∈ message.bodies, match body with
        | .text content => ¬ boundary <:+: content
        | .bytes content => ¬ utf8 boundary <:+: content) ∧
    ∀ seed, Function.Injective (boundaryCandidate seed) := by
  refine ⟨?_,boundaryCandidate_injective⟩
  obtain ⟨n,within,absent⟩ := exists_absent_candidate message (boundarySeed message 0xcbf29ce484222325)
  obtain ⟨attempt,below,found⟩ := searchBoundary_finds (2^64) 0 n (by omega) (by rwa [Nat.zero_add])
  rw [Nat.zero_add] at found
  have clear := generateBoundary_absent found
  refine ⟨attempt,_,by omega,by omega,rfl,found,fun body member => ?_⟩
  rw [messageContainsBoundary_eq_any,List.any_eq_false] at clear
  have free := clear body member
  cases body with
  | text content => exact fun inside => free (decide_eq_true inside)
  | bytes content => exact fun inside => free (decide_eq_true inside)

/-- A multipart with a text of its own and a part of bytes. -/
def textAndBytes : MimeMessage := ⟨[],some (.text "mechanics-é"),[⟨[],some (.bytes [109,0,255]),[],none⟩],none⟩

theorem boundary_search_ends_at_textAndBytes : textAndBytes.bodySize = 15 ∧
    ∃ boundary, generateBoundary textAndBytes = some boundary ∧ ¬ boundary <:+: ("mechanics-é" : Text) ∧
      ¬ utf8 boundary <:+: [109,0,255] := by
  have size : textAndBytes.bodySize = 15 := rfl
  obtain ⟨⟨attempt,boundary,_,_,_,found,free⟩,_⟩ := boundary_search_ends textAndBytes (by rw [size]; decide)
  exact ⟨size,boundary,found,free (.text "mechanics-é") List.mem_cons_self,
    free (.bytes [109,0,255]) (List.mem_cons_of_mem _ List.mem_cons_self)⟩

end MechanicsCore.Mime
