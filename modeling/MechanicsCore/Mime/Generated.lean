import MechanicsCore.Mime.Format

/-! Generated boundaries: their characters, and that no body of the message holds them. -/
namespace MechanicsCore.Mime
open MechanicsCore.Library Text

def hexDigits : Text := "0123456789abcdef"

private theorem mem_toDigits {n : Nat} {c : Char} (member : c ∈ Nat.toDigits 16 n) : c ∈ hexDigits := by
  have digit : ∀ k < 16, k.digitChar ∈ hexDigits := by decide
  induction n using Nat.strong_induction_on with
  | _ n ih =>
    by_cases small : n < 16
    · rw [Nat.toDigits_of_lt_base small,List.mem_singleton] at member
      rw [member]
      exact digit n small
    · rw [Nat.toDigits_of_base_le (by decide) (Nat.not_lt.mp small),List.mem_append,List.mem_singleton] at member
      rcases member with earlier | last
      · exact ih (n / 16) (by omega) earlier
      · rw [last]
        exact digit (n % 16) (Nat.mod_lt n (by decide))

theorem mem_hexPadded {width n : Nat} {c : Char} (member : c ∈ hexPadded width n) : c ∈ hexDigits := by
  unfold hexPadded List.leftpad at member
  rcases List.mem_append.mp member with zero | digit
  · rw [List.eq_of_mem_replicate zero]
    decide
  · exact mem_toDigits digit

theorem boundaryCandidate_chars (seed : UInt64) (attempt : Nat) (c : Char)
    (member : c ∈ boundaryCandidate seed attempt) : boundaryChar c = true := by
  have literals : ∀ c ∈ ("mechanics-" : Text), boundaryChar c = true := List.all_eq_true.mp (by decide)
  have hex : ∀ width n, c ∈ hexPadded width n → boundaryChar c = true := fun width n digit =>
    List.all_eq_true.mp (by decide : hexDigits.all boundaryChar = true) c (mem_hexPadded digit)
  unfold boundaryCandidate at member
  rw [List.mem_append,List.mem_append,List.mem_append] at member
  rcases member with ((name | seeded) | dash) | attempted
  · exact literals c name
  · exact hex _ _ seeded
  · rw [show c = '-' by simpa using dash]
    decide
  · exact hex _ _ attempted

theorem boundaryCandidate_ends (seed : UInt64) (attempt : Nat) :
    (boundaryCandidate seed attempt).getLast? ≠ some '-' := by
  have digits : (hexPadded 4 attempt).getLast? ≠ none := by
    simp [hexPadded,List.leftpad,Nat.toDigits_ne_nil]
  unfold boundaryCandidate
  rw [List.getLast?_append]
  cases last : (hexPadded 4 attempt).getLast? with
  | none => contradiction
  | some c =>
    have hex := mem_hexPadded (List.mem_of_getLast? last)
    rw [Option.some_or]
    rintro ⟨⟩
    exact absurd hex (by decide)

theorem partsContainBoundary_iff (boundary : Text) (parts : List MimeMessage) :
    partsContainBoundary boundary parts = false ↔ ∀ p ∈ parts, messageContainsBoundary boundary p = false := by
  induction parts with
  | nil => simp [partsContainBoundary]
  | cons part parts ih => simp [partsContainBoundary,ih]

theorem searchBoundary_found {message : MimeMessage} {seed : UInt64} {left attempt : Nat} {boundary : Text}
    (found : searchBoundary message seed left attempt = some boundary) :
    (∃ attempt, boundary = boundaryCandidate seed attempt) ∧ messageContainsBoundary boundary message = false := by
  induction left generalizing attempt with
  | zero => simp [searchBoundary] at found
  | succ left ih =>
    rw [searchBoundary] at found
    split at found
    · rename_i absent
      cases found
      exact ⟨⟨attempt,rfl⟩,by simpa using absent⟩
    · exact ih found

theorem generateBoundary_absent {message : MimeMessage} {boundary : Text}
    (found : generateBoundary message = some boundary) : messageContainsBoundary boundary message = false :=
  (searchBoundary_found found).2

theorem generateBoundary_chars {message : MimeMessage} {boundary : Text}
    (found : generateBoundary message = some boundary) :
    (∀ c ∈ boundary, boundaryChar c = true) ∧ boundary.getLast? ≠ some '-' := by
  obtain ⟨⟨attempt,rfl⟩,_⟩ := searchBoundary_found found
  exact ⟨boundaryCandidate_chars _ attempt,boundaryCandidate_ends _ attempt⟩

/-- The generated boundary of a message, with the facts the format asks for. -/
def boundaryOf (message : MimeMessage) : Option Boundary :=
  (generateBoundary message).pmap
    (fun text (known : (∀ c ∈ text, boundaryChar c = true) ∧ text.getLast? ≠ some '-') => ⟨text,known.1,known.2⟩)
    fun _ found => generateBoundary_chars found

theorem boundaryOf_text (message : MimeMessage) : (boundaryOf message).map Boundary.text = generateBoundary message := by
  unfold boundaryOf
  rw [Option.map_pmap,Option.pmap_eq_map]
  exact congrFun Option.map_id _

end MechanicsCore.Mime
