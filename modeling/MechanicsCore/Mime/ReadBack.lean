import MechanicsCore.Mime.LeafRoundTrip

/-! Headers that compose writes and headers that readers see. With two headers of
one name, in whatever case, `set_header` writes the first and `header_value` reads
the last, so that the encoding or boundary of a body may not be the one read. -/
namespace MechanicsCore.Mime
open MechanicsCore.Library Text Outcome

section Encoding
variable {headers : List Header} {body : Option MimeBody} {encoding : Option Text} {top : Bool}

theorem readEncoding_emitted (chosen : TransferEncoding) : readEncoding (emittedLeaf headers top chosen) =
    if (namedHeaders headers contentTransferEncoding).length ≤ 1 then chosen else readEncoding headers := by
  have named : namedHeaders (typed (versioned headers top)) contentTransferEncoding =
      namedHeaders headers contentTransferEncoding := by
    rw [namedHeaders_typed (by decide),namedHeaders_versioned (by decide)]
  split
  · rename_i single
    exact readEncoding_token (headerValue_setHeader_single (by rwa [named]) chosen.token)
  · rename_i several
    have seen := headerValue_setHeader_several (by rw [named]; omega) chosen.token
    rw [headerValue_eq (typed (versioned headers top)),named,← headerValue_eq] at seen
    unfold readEncoding emittedLeaf
    rw [seen]

/-- The encoding a body is written in is the one read back, unless an explicit encoding
meets two headers that say something else. -/
theorem readEncoding_emitted_iff {chosen : TransferEncoding}
    (choice : chooseEncoding ⟨headers,body,[],encoding⟩ (typed (versioned headers top)) = .ok chosen) :
    readEncoding (emittedLeaf headers top chosen) = chosen ↔
      (namedHeaders headers contentTransferEncoding).length ≤ 1 ∨ encoding = none ∨
        encoding.bind TransferEncoding.parse = some (readEncoding headers) := by
  rw [readEncoding_emitted]
  split
  · rename_i single
    simp [single]
  · rename_i several
    rw [or_iff_right several]
    rcases chooseEncoding_asked choice with asked | ⟨unknown,_⟩
    · cases encoding with
      | some token =>
        have parsed : TransferEncoding.parse token = some chosen := asked
        rw [Option.bind_some,parsed,Option.some_inj,or_iff_right (by simp)]
        exact eq_comm
      | none =>
        have parsed : (headerValue headers contentTransferEncoding).bind TransferEncoding.parse = some chosen := asked
        simp [readEncoding,parsed]
    · have nothing : headerValue headers contentTransferEncoding = none := (Option.or_eq_none_iff.mp unknown).2
      rw [headerValue_eq,Option.map_eq_none_iff,List.getLast?_eq_none_iff] at nothing
      simp [nothing] at several

end Encoding

section Boundary

def readBoundary (headers : List Header) : Option Text :=
  parseBoundary ((headerValue headers contentType).getD defaultTextContentType)

theorem readBoundary_eq (headers : List Header) :
    readBoundary headers = (headerValue headers contentType).bind parseBoundary := by
  unfold readBoundary
  cases headerValue headers contentType with
  | none => decide
  | some type => rfl

theorem boundaryOfParams_chars {params : List Text} {boundary : Text} (found : boundaryOfParams params = some boundary) :
    ∃ param ∈ params, ∀ c ∈ boundary, c ∈ param := by
  induction params with
  | nil => simp [boundaryOfParams] at found
  | cons param params ih =>
    have later : boundaryOfParams params = some boundary → ∃ other ∈ param::params, ∀ c ∈ boundary, c ∈ other := by
      intro rest
      obtain ⟨other,member,inside⟩ := ih rest
      exact ⟨other,List.mem_cons_of_mem _ member,inside⟩
    rw [boundaryOfParams] at found
    split at found
    · exact later found
    · rename_i name value split
      have inside : ∀ c ∈ trim value, c ∈ param := by
        intro c member
        have whole := (splitOnce_char_some split).1
        refine (infix_trim param).subset ?_
        rw [whole]
        exact List.mem_append_right _ (List.mem_cons_of_mem _ ((infix_trim value).subset member))
      dsimp only at found
      split at found
      · split at found
        · cases found
          exact ⟨param,List.mem_cons_self,fun c member => inside c (List.mem_of_mem_drop (List.mem_of_mem_dropLast member))⟩
        · cases found
          exact ⟨param,List.mem_cons_self,inside⟩
      · exact later found

theorem parseBoundary_semicolon {type boundary : Text} (found : parseBoundary type = some boundary) : ';' ∉ boundary := by
  obtain ⟨param,member,inside⟩ := boundaryOfParams_chars found
  exact fun semicolon => (of_mem_splitOn (List.mem_of_mem_drop member)).1 (inside _ semicolon)

theorem boundaryFor_cases {m : MimeMessage} {headers : List Header} {boundary : Text}
    (bound : (boundaryFor m headers).run = some (.ok boundary)) :
    readBoundary headers = some boundary ∨ readBoundary headers = none ∧ generateBoundary m = some boundary := by
  rw [readBoundary_eq]
  unfold boundaryFor at bound
  split at bound
  · rename_i explicit
    rw [← run_pure_iff.mp bound]
    exact .inl explicit
  · rename_i missing
    obtain ⟨found,generated,same⟩ := Option.map_eq_some_iff.mp bound
    cases same
    exact .inr ⟨missing,generated⟩

theorem boundaryFor_semicolon {m : MimeMessage} {headers : List Header} {boundary : Text}
    (bound : (boundaryFor m headers).run = some (.ok boundary)) : ';' ∉ boundary := by
  rcases boundaryFor_cases bound with explicit | ⟨_,generated⟩
  · exact parseBoundary_semicolon explicit
  · intro semicolon
    exact absurd ((generateBoundary_chars generated).1 _ semicolon) (by decide)

variable {headers : List Header} {top : Bool}

theorem readBoundary_emitted {boundary : Text} (free : ';' ∉ boundary) :
    readBoundary (emittedNode headers top boundary) =
      if (namedHeaders headers contentType).length ≤ 1 then some boundary else readBoundary headers := by
  have named : namedHeaders (versioned headers top) contentType = namedHeaders headers contentType :=
    namedHeaders_versioned (by decide)
  have type : contentTypeWithBoundary (multipartBase (versioned headers top)) boundary =
      multipartBase (versioned headers top) ++ "; boundary=\"" ++ boundary ++ "\"" := by
    rw [contentTypeWithBoundary,multipartBase_boundary]
    rfl
  split
  · rename_i single
    have seen := headerValue_setHeader_single (by rwa [named])
      (contentTypeWithBoundary (multipartBase (versioned headers top)) boundary)
    rw [readBoundary_eq,emittedNode,seen,Option.bind_some,type]
    exact parseBoundary_parameter (multipartBase_semicolon _) free
  · rename_i several
    have seen := headerValue_setHeader_several (by rw [named]; omega)
      (contentTypeWithBoundary (multipartBase (versioned headers top)) boundary)
    rw [readBoundary_eq,readBoundary_eq,emittedNode,seen,headerValue_versioned (by decide)]

/-- The boundary that delimits the parts is the one read back, unless two content types
meet and the last has none. -/
theorem readBoundary_emitted_iff {m : MimeMessage} {boundary : Text}
    (bound : (boundaryFor m (versioned headers top)).run = some (.ok boundary)) :
    readBoundary (emittedNode headers top boundary) = some boundary ↔
      (namedHeaders headers contentType).length ≤ 1 ∨ (readBoundary headers).isSome = true := by
  have same : readBoundary (versioned headers top) = readBoundary headers := by
    rw [readBoundary_eq,readBoundary_eq,headerValue_versioned (by decide)]
  rw [readBoundary_emitted (boundaryFor_semicolon bound)]
  split
  · rename_i single
    simp [single]
  · rename_i several
    rw [or_iff_right several]
    rcases boundaryFor_cases bound with explicit | ⟨missing,_⟩
    · rw [← same,explicit]
      simp
    · rw [← same,missing]
      simp

end Boundary

/-- What `set_header` sets is what `header_value` reads exactly where no second header
has the name or the last one has the value already. So a rendered leaf names the
encoding of its body and a rendered multipart the boundary of its parts exactly under
the conditions stated. -/
theorem set_header_read_back [Base64] (headers : List Header) (name value : Text) (body : Option MimeBody)
    (parts : List MimeMessage) (encoding : Option Text) (top : Bool) :
    (headerValue (setHeader headers name value) name = some value ↔
      (namedHeaders headers name).length ≤ 1 ∨ headerValue headers name = some value) ∧
    (∀ out, (renderMessage ⟨headers,body,[],encoding⟩ top).run = some (.ok out) →
      ∃ chosen head text, chooseEncoding ⟨headers,body,[],encoding⟩ (typed (versioned headers top)) = .ok chosen ∧
        renderHeaders (emittedLeaf headers top chosen) = .ok head ∧
        renderBody ⟨headers,body,[],encoding⟩ chosen = .ok text ∧ out = head ++ "\r\n" ++ text ∧
        (readEncoding (emittedLeaf headers top chosen) = chosen ↔
          (namedHeaders headers contentTransferEncoding).length ≤ 1 ∨ encoding = none ∨
            encoding.bind TransferEncoding.parse = some (readEncoding headers))) ∧
    (∀ out, parts ≠ [] → (renderMessage ⟨headers,body,parts,encoding⟩ top).run = some (.ok out) →
      ∃ boundary head rs,
        (boundaryFor ⟨headers,body,parts,encoding⟩ (versioned headers top)).run = some (.ok boundary) ∧
        renderHeaders (emittedNode headers top boundary) = .ok head ∧ out = head ++ "\r\n" ++ framed boundary rs ∧
        (readBoundary (emittedNode headers top boundary) = some boundary ↔
          (namedHeaders headers contentType).length ≤ 1 ∨ (readBoundary headers).isSome = true)) := by
  refine ⟨headerValue_setHeader_iff headers name value,?_,?_⟩
  · intro out rendered
    obtain ⟨chosen,head,text,choice,heads,encoded,same⟩ := renderMessage_leaf_iff.mp rendered
    exact ⟨chosen,head,text,choice,heads,encoded,same,readEncoding_emitted_iff choice⟩
  · intro out several rendered
    obtain ⟨boundary,head,text,bound,heads,framing,rfl⟩ := (renderMessage_node_iff several).mp rendered
    obtain ⟨rs,_,rfl⟩ := renderParts_iff.mp framing
    exact ⟨boundary,head,rs,bound,heads,rfl,readBoundary_emitted_iff bound⟩

/-- Names that differ in their case only, as a headers object may have them. -/
def caseVariants : List Header := [⟨"Content-Transfer-Encoding","7bit"⟩,⟨"content-transfer-encoding","7bit"⟩]

theorem caseVariants_misread :
    headerValue (setHeader caseVariants contentTransferEncoding "base64") contentTransferEncoding = some "7bit" ∧
      ∃ out, (renderMessage ⟨caseVariants,some (.text "hi"),[],some "base64"⟩ true).run = some (.ok out) ∧
        renderBody ⟨caseVariants,some (.text "hi"),[],some "base64"⟩ .base64 = .ok "aGk=" ∧
        (∃ head, renderHeaders (emittedLeaf caseVariants true .base64) = .ok head ∧ out = head ++ "\r\n" ++ "aGk=") ∧
        readEncoding (emittedLeaf caseVariants true .base64) = .sevenBit := by
  obtain ⟨out,rendered,_⟩ := rendered_witness ⟨caseVariants,some (.text "hi"),[],some "base64"⟩ true (fun _ => true)
    (by decide)
  have written : renderBody ⟨caseVariants,some (.text "hi"),[],some "base64"⟩ .base64 = .ok "aGk=" := by decide +kernel
  obtain ⟨chosen,head,text,choice,heads,encoded,same⟩ := renderMessage_leaf_iff.mp rendered
  have base64 : chosen = .base64 := (Except.ok.inj choice).symm
  subst base64
  rw [written] at encoded
  cases encoded
  exact ⟨by decide,out,rendered,written,⟨head,heads,same⟩,by decide⟩

def alternative : MimeMessage :=
  ⟨[⟨contentType,"multipart/alternative"⟩],none,[⟨caseVariants,some (.text "hi"),[],none⟩],none⟩

/-- Two headers that no explicit encoding contradicts, and a content type without a boundary. -/
theorem set_header_read_back_at_alternative :
    headerValue (setHeader alternative.headers "content-type" "text/html") "content-type" = some "text/html" ∧
    (∃ out chosen, (renderMessage ⟨caseVariants,some (.text "hi"),[],none⟩ false).run = some (.ok out) ∧
      chooseEncoding ⟨caseVariants,some (.text "hi"),[],none⟩ (typed caseVariants) = .ok chosen ∧
      readEncoding (emittedLeaf caseVariants false chosen) = chosen) ∧
    ∃ out boundary, (renderMessage alternative true).run = some (.ok out) ∧
      (boundaryFor alternative (versioned alternative.headers true)).run = some (.ok boundary) ∧
      readBoundary (emittedNode alternative.headers true boundary) = some boundary := by
  obtain ⟨out,rendered,_⟩ := rendered_witness ⟨caseVariants,some (.text "hi"),[],none⟩ false (fun _ => true)
    (by decide)
  obtain ⟨_,leaf,_⟩ := set_header_read_back caseVariants [] [] (some (.text "hi")) [] none false
  obtain ⟨chosen,_,_,choice,_,_,_,read⟩ := leaf out rendered
  obtain ⟨whole,composed,_⟩ := rendered_witness alternative true (fun _ => true) (by decide +kernel)
  obtain ⟨set,_,node⟩ := set_header_read_back alternative.headers "content-type" "text/html" none alternative.parts none true
  obtain ⟨boundary,_,_,bound,_,_,found⟩ := node whole (List.cons_ne_nil _ _) composed
  exact ⟨set.mpr (.inl (by decide)),⟨out,chosen,rendered,choice,read.mpr (.inr (.inl rfl))⟩,
    ⟨whole,boundary,composed,bound,found.mpr (.inl (by decide))⟩⟩

end MechanicsCore.Mime
