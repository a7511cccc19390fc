import MechanicsCore.Mime.Sections

/-! Generated boundaries against the leaves of a message. The search looks at bodies
as they are given; a line that could delimit a part, in whatever encoding the body
is written, already stands in the body. -/
namespace MechanicsCore.Mime
open MechanicsCore.Library Text Line

section Bodies

theorem Wordy.plain {line : Text} (wordy : Wordy line) : (10 : UInt8) ∉ utf8 line := fun member =>
  wordy.not_mem (c := '\n') (by decide) (mem_of_utf8 (by decide) member)

/-- Lines that quoted-printable writes without escapes are pieces of what it encodes. -/
theorem mem_qpEncode_bytes {bytes : List UInt8} {line : Text} (wordy : Wordy line)
    (member : line ∈ (toLf (qpEncode bytes)).splitOn '\n') : utf8 line <:+: bytes := by
  have piece := (QpText.of_bytes 0 bytes).infix_of_mem_qpLines member (wordy.not_mem (by decide))
  exact infix_of_unpair wordy.plain piece

theorem contains_of_mem_bodyLines [Base64] {p : MimeMessage} {chosen : TransferEncoding} {text line : Text}
    (rendered : renderBody p chosen = .ok text) (wordy : Wordy line) (member : line ∈ bodyLines p chosen) :
    p.body.any (MimeBody.contains line) = true := by
  obtain ⟨headers,body,parts,encoding⟩ := p
  rcases renderBody_cases rendered with ⟨content,known,identity,_⟩ | ⟨bytes,rfl,rfl,ascii,_⟩ | ⟨rfl,_⟩ | ⟨rfl,_⟩
  · rcases body with _ | text | bytes
    · cases chosen with
      | quotedPrintable | base64 => contradiction
      | _ => simp [bodyLines] at member
    · cases known
      cases chosen with
      | quotedPrintable | base64 => contradiction
      | _ => exact decide_eq_true (infix_of_mem_lines member)
    · cases known
  · have piece : line <:+: asciiText bytes := infix_of_mem_lines member
    have bytesPiece := infix_utf8 piece
    rw [utf8_asciiText ascii] at bytesPiece
    exact decide_eq_true bytesPiece
  · rcases body with _ | content | bytes
    · have empty : line ∈ [[]] := member
      exact absurd (List.mem_singleton.mp empty) wordy.1
    · exact decide_eq_true (mem_qpEncode_text wordy member)
    · exact decide_eq_true (mem_qpEncode_bytes wordy member)
  · simp [bodyLines] at member

end Bodies

section Leaves

theorem MimeBody.contains_mono {a line : Text} (within : a <:+: line) {body : MimeBody}
    (found : body.contains line = true) : body.contains a = true := by
  cases body with
  | text content => exact decide_eq_true (within.trans (of_decide_eq_true found))
  | bytes bytes => exact decide_eq_true ((infix_utf8 within).trans (of_decide_eq_true found))

theorem contains_of_leafOf {boundary : Text} {leaf m : MimeMessage} (below : LeafOf leaf m)
    (absent : messageContainsBoundary boundary m = false) : leaf.body.any (MimeBody.contains boundary) = false := by
  induction below with
  | self headers body encoding =>
    rw [messageContainsBoundary,Bool.or_eq_false_iff] at absent
    exact absent.1
  | part leaf p headers body parts encoding member below ih =>
    rw [messageContainsBoundary,Bool.or_eq_false_iff,partsContainBoundary_iff] at absent
    exact ih (absent.2 p member)

/-- The delimiter lines of a generated boundary hold the boundary, and only its characters. -/
theorem Delimits.wordy {b : Boundary} {line : Text} (delimits : Delimits b.text line) :
    Wordy line ∧ b.text <:+: line := by
  rcases delimits with rfl | rfl
  · exact ⟨b.marker_wordy,⟨"--",[],by simp⟩⟩
  · exact ⟨b.closer_wordy,⟨"--","--",rfl⟩⟩

theorem undelimited_header (b : Boundary) {header : Header} (valid : header.Valid) :
    Undelimited b.text (toLf header.written) := by
  obtain ⟨block,_,lines⟩ := written_lines valid
  intro line member delimits
  rw [lines] at member
  obtain ⟨physical,inside,rfl⟩ := List.mem_map.mp member
  have wordy := delimits.wordy.1
  rcases List.mem_cons.mp inside with rfl | fold
  · exact wordy.not_mem (c := ':') (by decide) (by simp [HeaderBlock.opening])
  · obtain ⟨text,_,rfl⟩ := List.mem_map.mp fold
    exact wordy.not_mem (c := ' ') (by decide) (by simp [HeaderBlock.indent])

end Leaves

/-- No rendered leaf of a message has a delimiter line of the message's generated boundary. -/
theorem generated_boundary_fresh [Base64] (m leaf : MimeMessage) (below : LeafOf leaf m) (boundary : Text)
    (generated : generateBoundary m = some boundary) (out : Text)
    (rendered : (renderMessage leaf false).run = some (.ok out)) :
    ∀ line ∈ (normalizeRawMessage out).splitOn '\n', line ≠ "--" ++ boundary ∧ line ≠ "--" ++ boundary ++ "--" := by
  obtain ⟨chars,ends⟩ := generateBoundary_chars generated
  let b : Boundary := ⟨boundary,chars,ends⟩
  have absent := contains_of_leafOf below (generateBoundary_absent generated)
  have single := below.single
  obtain ⟨headers,body,parts,encoding⟩ := leaf
  cases single
  obtain ⟨chosen,head,text,choice,heads,encoded,rfl⟩ := renderMessage_leaf_iff.mp rendered
  have clear : ClearOf boundary ⟨headers,body,[],encoding⟩ := by
    constructor
    · intro header member dash
      exact undelimited_header b (renderHeaders_valid heads header ((mem_emittedLeaf dash chosen).mpr member))
    · intro other same line member delimits
      have unique : chosen = other := Except.ok.inj (choice.symm.trans same)
      obtain ⟨wordy,holds⟩ := delimits.wordy (b := b)
      have found := contains_of_mem_bodyLines encoded wordy (unique ▸ member)
      cases body with
      | none => contradiction
      | some content =>
        have held : content.contains boundary = true := MimeBody.contains_mono holds found
        rw [show content.contains boundary = false from absent] at held
        contradiction
  have free := (undelimited_leaf boundary rendered).mpr clear
  intro line member
  rw [normalizeRawMessage_eq] at member
  exact not_or.mp (free line member)

/-- A part that begins like a boundary, inside a multipart inside a multipart. -/
def innerLeaf : MimeMessage := ⟨[⟨"--X","--mechanics-"⟩],some (.text "--mechanics-0000\né"),[],none⟩

def outerMessage : MimeMessage := ⟨[],none,[⟨[],none,[innerLeaf],none⟩],none⟩

theorem generated_boundary_fresh_at_innerLeaf :
    ∃ boundary out, generateBoundary outerMessage = some boundary ∧
      (renderMessage innerLeaf false).run = some (.ok out) ∧
      ∀ line ∈ (normalizeRawMessage out).splitOn '\n', line ≠ "--" ++ boundary ∧ line ≠ "--" ++ boundary ++ "--" := by
  have found : (generateBoundary outerMessage).isSome = true := by decide +kernel
  obtain ⟨boundary,generated⟩ := Option.isSome_iff_exists.mp found
  obtain ⟨out,rendered,_⟩ := rendered_witness innerLeaf false (fun _ => true) (by decide +kernel)
  have below : LeafOf innerLeaf outerMessage :=
    .part _ _ _ _ _ _ (List.mem_singleton.mpr rfl) (.part _ _ _ _ _ _ (List.mem_singleton.mpr rfl) (.self _ _ _))
  exact ⟨boundary,out,generated,rendered,
    generated_boundary_fresh outerMessage innerLeaf below boundary generated out rendered⟩

end MechanicsCore.Mime
