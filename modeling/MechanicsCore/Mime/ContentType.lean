import MechanicsCore.Mime.ReadBack

/-! The content type of a composed multipart. `render_message` rebuilds it from the
base type and the boundary: the boundary is read back, and no other parameter is
left. -/
namespace MechanicsCore.Mime
open MechanicsCore.Library Text

theorem contentTypeWithBoundary_base (type boundary : Text) :
    contentTypeWithBoundary (contentTypeBase type) boundary = contentTypeBase type ++ "; boundary=\"" ++ boundary ++ "\"" := by
  have bare : parseBoundary (contentTypeBase type) = none := by
    rw [parseBoundary,List.splitOn_eq_singleton (contentTypeBase_semicolon type)]
    rfl
  rw [contentTypeWithBoundary,bare]
  rfl

/-- The boundary parameter compose writes names the boundary it delimits with. -/
theorem written_boundary_read_back (type boundary : Text)
    (known : parseBoundary type = some boundary ∨
      parseBoundary type = none ∧ ∃ m, generateBoundary m = some boundary) :
    parseBoundary (contentTypeWithBoundary (contentTypeBase type) boundary) = some boundary := by
  have free : ';' ∉ boundary := by
    rcases known with explicit | ⟨_,m,generated⟩
    · exact parseBoundary_semicolon explicit
    · intro semicolon
      exact absurd ((generateBoundary_chars generated).1 _ semicolon) (by decide)
  rw [contentTypeWithBoundary_base]
  exact parseBoundary_parameter (contentTypeBase_semicolon type) free

/-- An unquoted boundary with quotes and spaces in it. -/
theorem written_boundary_read_back_at_quotes :
    parseBoundary "multipart/mixed ; Boundary = \"a b\" c\"" = some "a b\" c" ∧
      parseBoundary (contentTypeWithBoundary (contentTypeBase "multipart/mixed ; Boundary = \"a b\" c\"") "a b\" c") =
        some "a b\" c" := by
  have explicit : parseBoundary "multipart/mixed ; Boundary = \"a b\" c\"" = some "a b\" c" := by decide
  exact ⟨explicit,written_boundary_read_back _ _ (.inl explicit)⟩

section Parameters

/-- What stands behind the semicolons of a content type, the blank pieces left out. -/
def parameters (type : Text) : List Text := (((type.splitOn ';').drop 1).map trim).filter (· ≠ [])

/-- Whether `parse_boundary` takes a parameter for a boundary. -/
def isBoundaryParameter (param : Text) : Bool :=
  (splitOnce "=" param).any fun (name,_) => eqIgnoreAsciiCase (trim name) "boundary"

/-- Composing keeps the base type and every parameter but the boundary, and there is a boundary. -/
structure KeepsParameters (type written : Text) : Prop where
  base : contentTypeBase written = contentTypeBase type
  others : ∀ param ∈ parameters type, isBoundaryParameter param = false → param ∈ parameters written
  boundary : ∃ param ∈ parameters written, isBoundaryParameter param = true

variable {base boundary : Text}

theorem parameters_written (bare : ';' ∉ base) (free : ';' ∉ boundary) :
    parameters (base ++ "; boundary=\"" ++ boundary ++ "\"") = ["boundary=\"" ++ boundary ++ "\""] := by
  have parameter : ';' ∉ " boundary=\"" ++ boundary ++ "\"" := by simp [free]
  have whole : base ++ "; boundary=\"" ++ boundary ++ "\"" = base ++ ';' :: (" boundary=\"" ++ boundary ++ "\"") := by simp
  have trimmed : trim (" boundary=\"" ++ boundary ++ "\"") = "boundary=\"" ++ boundary ++ "\"" :=
    (trim_cons (by decide)).trans (trim_parameter boundary)
  rw [parameters,whole,List.splitOn_append_cons_self_of_not_mem bare,List.splitOn_eq_singleton parameter,List.drop_one,
    List.tail_cons,List.map_singleton,trimmed]
  exact List.filter_cons_of_pos (by simp)

theorem isBoundaryParameter_written (boundary : Text) :
    isBoundaryParameter ("boundary=\"" ++ boundary ++ "\"") = true := by
  have split : splitOnce "=" ("boundary=\"" ++ boundary ++ "\"") = some (("boundary" : Text),'"' :: (boundary ++ ['"'])) :=
    splitOnce_char "boundary" ('"' :: (boundary ++ ['"'])) (c := '=') (by decide)
  have named : eqIgnoreAsciiCase (trim ("boundary" : Text)) "boundary" = true := by decide
  rw [isBoundaryParameter,split]
  exact named

theorem contentTypeBase_written (type boundary : Text) :
    contentTypeBase (contentTypeBase type ++ "; boundary=\"" ++ boundary ++ "\"") = contentTypeBase type := by
  have whole : contentTypeBase type ++ "; boundary=\"" ++ boundary ++ "\"" =
      contentTypeBase type ++ ';' :: (" boundary=\"" ++ boundary ++ "\"") := by simp
  have split : splitOnce ";" (contentTypeBase type ++ ';' :: (" boundary=\"" ++ boundary ++ "\"")) =
      some (contentTypeBase type," boundary=\"" ++ boundary ++ "\"") :=
    splitOnce_char _ _ (contentTypeBase_semicolon type)
  rw [contentTypeBase,whole,split]
  exact trim_trim _

theorem keepsParameters_iff (type : Text) (free : ';' ∉ boundary) :
    KeepsParameters type (contentTypeWithBoundary (contentTypeBase type) boundary) ↔
      ∀ param ∈ parameters type, isBoundaryParameter param = true := by
  rw [contentTypeWithBoundary_base]
  have written := parameters_written (contentTypeBase_semicolon type) free
  have named := isBoundaryParameter_written boundary
  constructor
  · intro keeps param member
    by_contra other
    have kept := keeps.others param member (Bool.eq_false_iff.mpr other)
    rw [written,List.mem_singleton] at kept
    exact other (kept ▸ named)
  · intro all
    refine ⟨contentTypeBase_written type boundary,fun param member other => ?_,⟨_,?_,named⟩⟩
    · simp [all param member] at other
    · rw [written]
      exact List.mem_singleton_self _

end Parameters

/-- The content type a composed multipart has in place of the only one it was given. It
keeps the parameters exactly where there are none but boundaries. -/
theorem content_type_parameters_iff [Base64] (headers : List Header) (name type : Text) (body : Option MimeBody)
    (parts : List MimeMessage) (encoding : Option Text) (top : Bool) (out : Text)
    (single : namedHeaders headers contentType = [⟨name,type⟩]) (several : parts ≠ [])
    (rendered : (renderMessage ⟨headers,body,parts,encoding⟩ top).run = some (.ok out)) :
    ∃ boundary head rs written,
      (boundaryFor ⟨headers,body,parts,encoding⟩ (versioned headers top)).run = some (.ok boundary) ∧
      renderHeaders (emittedNode headers top boundary) = .ok head ∧ out = head ++ "\r\n" ++ framed boundary rs ∧
      namedHeaders (emittedNode headers top boundary) contentType = [⟨name,written⟩] ∧
      (KeepsParameters type written ↔ ∀ param ∈ parameters type, isBoundaryParameter param = true) := by
  obtain ⟨boundary,head,text,bound,heads,framing,rfl⟩ := (renderMessage_node_iff several).mp rendered
  obtain ⟨rs,_,rfl⟩ := renderParts_iff.mp framing
  have own : namedHeaders (versioned headers top) contentType = [⟨name,type⟩] := by
    rw [namedHeaders_versioned (by decide),single]
  have base : multipartBase (versioned headers top) = contentTypeBase type := by
    rw [multipartBase,headerValue_eq,own]
    rfl
  refine ⟨boundary,head,rs,contentTypeWithBoundary (contentTypeBase type) boundary,bound,heads,rfl,?_,
    keepsParameters_iff type (boundaryFor_semicolon bound)⟩
  rw [emittedNode,base,namedHeaders_setHeader,own]

/-- A related message names the type of its root part. -/
def relatedMessage : MimeMessage :=
  ⟨[⟨"Content-Type","multipart/related; type=\"text/html\"; boundary=x"⟩],none,[⟨[],some (.text "a"),[],none⟩],none⟩

theorem relatedMessage_loses_type :
    namedHeaders relatedMessage.headers contentType =
      [⟨"Content-Type","multipart/related; type=\"text/html\"; boundary=x"⟩] ∧
    ("type=\"text/html\"" : Text) ∈ parameters "multipart/related; type=\"text/html\"; boundary=x" ∧
    isBoundaryParameter "type=\"text/html\"" = false ∧
    ∃ out, (renderMessage relatedMessage true).run = some (.ok out) ∧
      Text.contains out "Content-Type: multipart/related; boundary=\"x\"\r\n\r\n--x\r\n" = true ∧
      Text.contains out "type=" = false := by
  obtain ⟨out,rendered,checked⟩ := rendered_witness relatedMessage true
    (fun out => Text.contains out "Content-Type: multipart/related; boundary=\"x\"\r\n\r\n--x\r\n" &&
      !Text.contains out "type=") (by decide +kernel)
  rw [Bool.and_eq_true,Bool.not_eq_true'] at checked
  exact ⟨by decide,by decide,by decide +kernel,out,rendered,checked⟩

/-- A type with a boundary and a blank piece behind its last semicolon. -/
def boundaryOnly : MimeMessage :=
  ⟨[⟨"content-type","Multipart/Mixed ; boundary=x; "⟩],none,[⟨[],some (.text "a"),[],none⟩],none⟩

theorem content_type_parameters_iff_at_boundaryOnly :
    ∃ boundary written, namedHeaders (emittedNode boundaryOnly.headers true boundary) contentType =
        [⟨"content-type",written⟩] ∧ KeepsParameters "Multipart/Mixed ; boundary=x; " written := by
  obtain ⟨out,rendered,_⟩ := rendered_witness boundaryOnly true (fun _ => true) (by decide +kernel)
  obtain ⟨boundary,_,_,written,_,_,_,own,keeps⟩ := content_type_parameters_iff boundaryOnly.headers "content-type"
    "Multipart/Mixed ; boundary=x; " none boundaryOnly.parts none true out (by decide +kernel) (List.cons_ne_nil _ _) rendered
  exact ⟨boundary,written,own,keeps.mpr (by decide +kernel)⟩

end MechanicsCore.Mime
