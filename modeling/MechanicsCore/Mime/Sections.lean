import MechanicsCore.Mime.Rendered

/-! Multipart bodies under any boundary: `multipart_sections` takes apart what is
framed by delimiter lines as long as no part has such a line itself, and a
composed multipart is one of these exactly when its parts are clear of them. -/
namespace MechanicsCore.Mime
open MechanicsCore.Library Text Line Outcome

section Delimiters

/-- The lines that end a part under a boundary. -/
def Delimits (boundary line : Text) : Prop := line = "--" ++ boundary ∨ line = "--" ++ boundary ++ "--"

/-- A text with line feeds that has no delimiter line. -/
def Undelimited (boundary text : Text) : Prop := ∀ line ∈ text.splitOn '\n', ¬ Delimits boundary line

instance (boundary line : Text) : Decidable (Delimits boundary line) := inferInstanceAs (Decidable (_ ∨ _))

instance (boundary text : Text) : Decidable (Undelimited boundary text) :=
  inferInstanceAs (Decidable (∀ line ∈ text.splitOn '\n', ¬ Delimits boundary line))

def markerLine (b : Line) : Line where
  text := "--" ++ b.text
  noLf := by simp [b.noLf]
  noCr := by simp [b.noCr]

def closerLine (b : Line) : Line where
  text := "--" ++ b.text ++ "--"
  noLf := by simp [b.noLf]
  noCr := by simp [b.noCr]

theorem closerLine_ne (b : Line) : closerLine b ≠ markerLine b := by
  intro same
  have lengths := congrArg (fun line : Line => line.text.length) same
  simp [closerLine,markerLine] at lengths

theorem Delimits.head {boundary line : Text} (delimits : Delimits boundary line) : line.head? = some '-' := by
  rcases delimits with rfl | rfl <;> rfl

theorem mem_ofText {line : Line} {s : Text} : line ∈ ofText s ↔ line.text ∈ (toLf s).splitOn '\n' := by
  rw [← ofText_text]
  constructor
  · exact fun member => List.mem_map_of_mem member
  · intro member
    obtain ⟨other,inside,same⟩ := List.mem_map.mp member
    exact ext_text same ▸ inside

theorem undelimited_ofText (b : Line) (s : Text) :
    Undelimited b.text (toLf s) ↔ markerLine b ∉ ofText s ∧ closerLine b ∉ ofText s := by
  rw [mem_ofText,mem_ofText]
  constructor
  · intro clear
    exact ⟨fun member => clear _ member (.inl rfl),fun member => clear _ member (.inr rfl)⟩
  · rintro ⟨unmarked,unclosed⟩ line member (rfl | rfl)
    · exact unmarked member
    · exact unclosed member

theorem undelimited_nil (boundary : Text) : Undelimited boundary [] := by
  intro line member delimits
  rw [List.splitOn_nil,List.mem_singleton] at member
  simpa [member] using delimits.head

theorem undelimited_join {b : Line} {lines : List Line} (free : markerLine b ∉ lines ∧ closerLine b ∉ lines) :
    Undelimited b.text (join lines) := by
  by_cases empty : lines = []
  · subst empty
    exact undelimited_nil b.text
  · intro line member delimits
    rw [splitOn_join empty] at member
    obtain ⟨other,inside,rfl⟩ := List.mem_map.mp member
    rcases delimits with isMarker | isCloser
    · have same : other = markerLine b := ext_text isMarker
      exact free.1 (same ▸ inside)
    · have same : other = closerLine b := ext_text isCloser
      exact free.2 (same ▸ inside)

end Delimiters

section Loop

theorem sectionLoop_append {marker closer : Text} {lines : List Text} {inside : Bool} {current : Text}
    {all : List Text} (found : sectionLoop marker closer lines inside current = .ok all) (tail : List Text) :
    sectionLoop marker closer (lines ++ tail) inside current = .ok all := by
  induction lines generalizing inside current all with
  | nil => simp [sectionLoop] at found
  | cons line lines ih =>
    simp only [List.cons_append,sectionLoop] at found ⊢
    split
    · rename_i marked
      rw [if_pos marked] at found
      obtain ⟨later,rest,same⟩ := bind_ok_iff.mp found
      rw [ih rest]
      exact same
    · rename_i unmarked
      rw [if_neg unmarked] at found
      split
      · rename_i closed
        rw [if_pos closed] at found
        exact found
      · rename_i unclosed
        rw [if_neg unclosed] at found
        exact ih found

theorem multipartSections_lines (b : Line) {body : Text} {front : List Line} {tail : List Text}
    {all : List (List Line)} (split : body.splitOn '\n' = front.map Line.text ++ tail)
    (found : sections (markerLine b) (closerLine b) false [] front = some all) :
    multipartSections body b.text = .ok (all.map join) := by
  have loop := sectionLoop_lines (markerLine b) (closerLine b) front false []
  rw [found] at loop
  rw [multipartSections,split]
  exact sectionLoop_append loop tail

end Loop

/-- `"--b\n" ++ p ++ "\n"` for each part. -/
def framedParts (boundary : Text) (parts : List Text) : Text :=
  parts.flatMap fun p => "--" ++ boundary ++ "\n" ++ p ++ "\n"

private theorem splitOn_framedParts (b : Line) {parts : List Text} (plain : ∀ p ∈ parts, '\r' ∉ p) (rest : Text) :
    (framedParts b.text parts ++ rest).splitOn '\n' =
      ((parts.map ofText).flatMap (markerLine b :: ·)).map Line.text ++ rest.splitOn '\n' := by
  induction parts with
  | nil => rfl
  | cons p parts ih =>
    have later := ih fun q member => plain q (List.mem_cons_of_mem _ member)
    have written : framedParts b.text (p::parts) ++ rest =
        (markerLine b).text ++ '\n' :: (p ++ '\n' :: (framedParts b.text parts ++ rest)) := by
      simp [framedParts,markerLine]
    have lines : (ofText p).map Line.text = p.splitOn '\n' := by
      rw [ofText_text,toLf_plain (plain p List.mem_cons_self)]
    rw [written,List.splitOn_append_cons_self_of_not_mem (markerLine b).noLf,List.splitOn_append_cons_self,later]
    simp [lines]

private theorem splitOn_preamble (b : Line) {preamble : Text} (plain : '\r' ∉ preamble)
    (clear : Undelimited b.text preamble) (ended : preamble = [] ∨ preamble.getLast? = some '\n') :
    ∃ before : List Line, (markerLine b ∉ before ∧ closerLine b ∉ before) ∧
      ∀ rest, (preamble ++ rest).splitOn '\n' = before.map Line.text ++ rest.splitOn '\n' := by
  rcases ended with rfl | last
  · exact ⟨[],by simp,fun rest => rfl⟩
  · obtain ⟨start,rfl⟩ := List.getLast?_eq_some_iff.mp last
    have noCr : '\r' ∉ start := fun member => plain (List.mem_append_left _ member)
    have clearStart : Undelimited b.text (toLf start) := by
      intro line member
      rw [toLf_plain noCr] at member
      refine clear line ?_
      rw [List.splitOn_append_cons_self]
      exact List.mem_append_left _ member
    refine ⟨ofText start,(undelimited_ofText b start).mp clearStart,fun rest => ?_⟩
    rw [List.append_assoc,List.singleton_append,List.splitOn_append_cons_self,ofText_text,toLf_plain noCr]

/-- Framing is inverted for any boundary on a line and any parts without delimiter lines,
between any preamble without them and any epilogue. -/
theorem framed_sections (b : Line) (parts : List Text) (plain : ∀ p ∈ parts, '\r' ∉ p)
    (clear : ∀ p ∈ parts, Undelimited b.text p) (preamble : Text) (ahead : '\r' ∉ preamble)
    (quiet : Undelimited b.text preamble) (ended : preamble = [] ∨ preamble.getLast? = some '\n') (epilogue : Text) :
    multipartSections (preamble ++ (framedParts b.text parts ++ ("--" ++ b.text ++ "--\n" ++ epilogue))) b.text =
      .ok parts := by
  have free : ∀ lines ∈ parts.map ofText, markerLine b ∉ lines ∧ closerLine b ∉ lines := by
    intro lines member
    obtain ⟨p,inside,rfl⟩ := List.mem_map.mp member
    refine (undelimited_ofText b p).mp ?_
    rw [toLf_plain (plain p inside)]
    exact clear p inside
  have closed : ("--" ++ b.text ++ "--\n" ++ epilogue).splitOn '\n' = (closerLine b).text :: epilogue.splitOn '\n' := by
    have written : "--" ++ b.text ++ "--\n" ++ epilogue = (closerLine b).text ++ '\n' :: epilogue := by simp [closerLine]
    rw [written,List.splitOn_append_cons_self_of_not_mem (closerLine b).noLf]
  obtain ⟨before,unmarked,front⟩ := splitOn_preamble b ahead quiet ended
  let lines := before ++ ((parts.map ofText).flatMap (markerLine b :: ·) ++ [closerLine b])
  have split : (preamble ++ (framedParts b.text parts ++ ("--" ++ b.text ++ "--\n" ++ epilogue))).splitOn '\n' =
      lines.map Line.text ++ epilogue.splitOn '\n' := by
    rw [front,splitOn_framedParts b plain,closed]
    simp [lines]
  have found : sections (markerLine b) (closerLine b) false [] lines = some (parts.map ofText) := by
    rw [sections_ahead unmarked,sections_blocks (closerLine_ne b) free]
    rfl
  have same : (parts.map ofText).map join = parts := by
    have each : ∀ p ∈ parts, join (ofText p) = p := fun p member => by rw [join_ofText,toLf_plain (plain p member)]
    rw [List.map_map]
    exact (List.map_congr_left each).trans (List.map_id parts)
  rw [multipartSections_lines b split found,same]

/-- Parts that are empty, that end in line feeds and that look like delimiters come back,
and a delimiter in the epilogue is not read. -/
theorem framed_sections_at_oddParts :
    multipartSections ("ahead\n--xy\n" ++ (framedParts "x" ["","a\n\n","--x-"] ++ ("--" ++ "x" ++ "--\n" ++ "--x\r"))) "x" =
      .ok ["","a\n\n","--x-"] :=
  framed_sections ⟨"x",by decide,by decide⟩ ["","a\n\n","--x-"] (by decide) (by decide) "ahead\n--xy\n" (by decide)
    (by decide) (by decide) "--x\r"

section Parts

theorem undelimited_crlf (boundary a b : Text) : Undelimited boundary (toLf (a ++ '\r' :: '\n' :: b)) ↔
    Undelimited boundary (toLf a) ∧ Undelimited boundary (toLf b) := by
  unfold Undelimited
  rw [toLf_crlf,List.splitOn_append_cons_self]
  simp [or_imp,forall_and]

def Header.written (header : Header) : Text := foldHeaderLine header.name (maybeEncodeHeaderValue header.value)

theorem undelimited_headers (boundary : Text) {headers : List Header} {head : Text}
    (rendered : renderHeaders headers = .ok head) (rest : Text) :
    Undelimited boundary (toLf (head ++ rest)) ↔
      (∀ header ∈ headers, Undelimited boundary (toLf header.written)) ∧ Undelimited boundary (toLf rest) := by
  induction headers generalizing head with
  | nil =>
    cases rendered
    simp
  | cons header headers ih =>
    simp only [renderHeaders,bind_ok_iff,pure_ok_iff] at rendered
    obtain ⟨_,_,_,_,later,others,rfl⟩ := rendered
    have split := undelimited_crlf boundary header.written (later ++ rest)
    rw [ih others] at split
    simpa [Header.written,and_assoc] using split

theorem written_lines {header : Header} (valid : header.Valid) : ∃ b : HeaderBlock, b.name = header.name ∧
    (toLf header.written).splitOn '\n' = b.lines.map Line.text := by
  obtain ⟨noLf,noCr⟩ := maybeEncodeHeaderValue_plain valid.value
  obtain ⟨b,named,line,_⟩ := foldHeaderLine_block valid.name noLf noCr
  refine ⟨b,named,?_⟩
  have ended : toLf (wire b.lines ++ []) = join (b.lines ++ [blank]) := toLf_wire b.lines (List.cons_ne_nil blank []) rfl
  have whole := toLf_crlf header.written []
  rw [List.append_nil,← line] at ended
  rw [show foldHeaderLine header.name (maybeEncodeHeaderValue header.value) ++ "\r\n" =
    header.written ++ '\r' :: '\n' :: [] from rfl,whole] at ended
  have lines := congrArg (List.splitOn '\n') ended
  rw [splitOn_join (by simp),List.splitOn_append_cons_self,List.map_append] at lines
  exact List.append_cancel_right lines

/-- Only the first line of a header could delimit anything, and only under a name that starts with a dash. -/
theorem undelimited_written (boundary : Text) {header : Header} (valid : header.Valid)
    (other : header.name.head? ≠ some '-') : Undelimited boundary (toLf header.written) := by
  obtain ⟨b,named,lines⟩ := written_lines valid
  obtain ⟨nonempty,_⟩ := validateHeaderName_chars valid.name
  intro line member delimits
  rw [lines] at member
  obtain ⟨physical,inside,rfl⟩ := List.mem_map.mp member
  have start := delimits.head
  rcases List.mem_cons.mp inside with rfl | fold
  · obtain ⟨c,rest,same⟩ := List.exists_cons_of_ne_nil nonempty
    change (b.name ++ ':' :: b.first.text).head? = some '-' at start
    rw [named,same] at start
    rw [same] at other
    exact other start
  · obtain ⟨text,_,rfl⟩ := List.mem_map.mp fold
    simp [HeaderBlock.indent] at start

theorem dash_apart {header : Header} (dash : header.name.head? = some '-') :
    headerMatches header.name contentType = false ∧ headerMatches header.name contentTransferEncoding = false := by
  have apart : ∀ wanted : Text, wanted.head? = some 'C' → headerMatches header.name wanted = false := by
    intro wanted start
    rw [← Bool.not_eq_true,headerMatches_iff]
    intro same
    have heads := congrArg List.head? same
    rw [toAsciiLowercase,toAsciiLowercase,List.head?_map,List.head?_map,dash,start] at heads
    exact absurd heads (by decide)
  exact ⟨apart _ rfl,apart _ rfl⟩

theorem mem_emittedLeaf {headers : List Header} {header : Header} (dash : header.name.head? = some '-')
    (chosen : TransferEncoding) : header ∈ emittedLeaf headers false chosen ↔ header ∈ headers := by
  obtain ⟨type,encoding⟩ := dash_apart dash
  rw [emittedLeaf,mem_setHeader_other encoding]
  unfold typed
  split
  · rfl
  · exact mem_setHeader_other type headers defaultTextContentType

/-- The lines of a body as its transfer encoding writes them; those of base64 are of no
interest here. -/
def bodyLines (p : MimeMessage) : TransferEncoding → List Text
  | .base64 => []
  | .quotedPrintable => (toLf (qpEncode (bodyBytesAndText p).1)).splitOn '\n'
  | .sevenBit | .eightBit | .binary =>
    match p.body with
    | some (.text content) => (toLf content).splitOn '\n'
    | some (.bytes bytes) => (toLf (asciiText bytes)).splitOn '\n'
    | none => []

/-- No header line and no body line of a part is a delimiter line. -/
structure ClearOf (boundary : Text) (p : MimeMessage) : Prop where
  headers : ∀ header ∈ p.headers, header.name.head? = some '-' → Undelimited boundary (toLf header.written)
  body : ∀ encoding, chooseEncoding p (typed p.headers) = .ok encoding →
    ∀ line ∈ bodyLines p encoding, ¬ Delimits boundary line

theorem undelimited_body [Base64] (boundary : Text) {p : MimeMessage} {chosen : TransferEncoding} {text : Text}
    (rendered : renderBody p chosen = .ok text) :
    Undelimited boundary (toLf text) ↔ ∀ line ∈ bodyLines p chosen, ¬ Delimits boundary line := by
  obtain ⟨headers,body,parts,encoding⟩ := p
  rcases renderBody_cases rendered with ⟨content,known,identity,rfl⟩ | ⟨bytes,rfl,rfl,_,rfl⟩ | ⟨rfl,rfl⟩ | ⟨rfl,rfl⟩
  · rw [toLf_normalizeTextLines]
    rcases body with _ | text | bytes
    · cases known
      cases chosen with
      | quotedPrintable | base64 => contradiction
      | _ => exact ⟨fun _ => by simp [bodyLines],fun _ => undelimited_nil boundary⟩
    · cases known
      cases chosen with
      | quotedPrintable | base64 => contradiction
      | _ => rfl
    · cases known
  · rfl
  · rfl
  · refine ⟨fun _ => by simp [bodyLines],fun _ line member delimits => ?_⟩
    have dash : '-' ∈ line := List.mem_of_mem_head? delimits.head
    exact dash_not_mem_base64EncodeWrapped _ ((infix_of_mem_lines member).subset dash)

theorem undelimited_leaf [Base64] (boundary : Text) {headers : List Header} {body : Option MimeBody}
    {encoding : Option Text} {out : Text} (rendered : (renderMessage ⟨headers,body,[],encoding⟩ false).run = some (.ok out)) :
    Undelimited boundary (toLf out) ↔ ClearOf boundary ⟨headers,body,[],encoding⟩ := by
  obtain ⟨chosen,head,text,choice,heads,encoded,rfl⟩ := renderMessage_leaf_iff.mp rendered
  have valid := renderHeaders_valid heads
  have lines := undelimited_headers boundary heads ("\r\n" ++ text)
  have ended := undelimited_crlf boundary [] text
  rw [List.append_assoc,lines,show ("\r\n" ++ text : Text) = [] ++ '\r' :: '\n' :: text from rfl,ended,
    undelimited_body boundary encoded]
  constructor
  · rintro ⟨headers,_,body⟩
    refine ⟨fun header member dash => headers header ((mem_emittedLeaf dash chosen).mpr member),fun other same => ?_⟩
    have unique : chosen = other := Except.ok.inj (choice.symm.trans same)
    exact unique ▸ body
  · intro clear
    refine ⟨fun header member => ?_,undelimited_nil boundary,clear.body chosen choice⟩
    by_cases dash : header.name.head? = some '-'
    · exact clear.headers header ((mem_emittedLeaf dash chosen).mp member) dash
    · exact undelimited_written boundary (valid header member) dash

end Parts

section Framed

theorem toLf_framed (b : Line) (rs : List Text) : toLf (framed b.text rs) =
    join ((rs.map ofText).flatMap (markerLine b :: ·) ++ [closerLine b,blank]) := by
  induction rs with
  | nil =>
    have closing := toLf_crlf (closerLine b).text []
    rw [toLf_plain (closerLine b).noCr] at closing
    have written : framed b.text [] = (closerLine b).text ++ '\r' :: '\n' :: [] := by
      unfold framed closerLine
      simp only [List.append_assoc]
      rfl
    rw [written,closing]
    exact (join_cons (List.cons_ne_nil blank []) (closerLine b)).symm
  | cons r rs ih =>
    have written : framed b.text (r::rs) =
        (markerLine b).text ++ '\r' :: '\n' :: (r ++ '\r' :: '\n' :: framed b.text rs) := by
      change "--" ++ b.text ++ "\r\n" ++ r ++ "\r\n" ++ framed b.text rs = _
      simp only [markerLine,List.append_assoc]
      rfl
    have lines : ((r::rs).map ofText).flatMap (markerLine b :: ·) ++ [closerLine b,blank] =
        markerLine b :: (ofText r ++ ((rs.map ofText).flatMap (markerLine b :: ·) ++ [closerLine b,blank])) := by
      simp
    rw [written,toLf_crlf,toLf_plain (markerLine b).noCr,toLf_crlf,ih,lines,join_cons (by simp),
      join_append (ofText_ne_nil r) (by simp),join_ofText]

/-- The sections are the parts exactly where no part has a delimiter line. -/
theorem multipartSections_framed (b : Line) (rs : List Text) :
    multipartSections (toLf (framed b.text rs)) b.text = .ok (rs.map toLf) ↔
      ∀ r ∈ rs, Undelimited b.text (toLf r) := by
  let lines := (rs.map ofText).flatMap (markerLine b :: ·) ++ [closerLine b,blank]
  have loop := sectionLoop_lines (markerLine b) (closerLine b) lines false []
  have body : (toLf (framed b.text rs)).splitOn '\n' = lines.map Line.text := by
    rw [toLf_framed,splitOn_join (by simp)]
  have read : multipartSections (toLf (framed b.text rs)) b.text =
      (sections (markerLine b) (closerLine b) false [] lines).elim
        (.error "malformed multipart MIME body: missing closing boundary") fun all => .ok (all.map join) := by
    rw [multipartSections,body]
    exact loop
  rw [read]
  constructor
  · intro taken r member
    cases found : sections (markerLine b) (closerLine b) false [] lines with
    | none =>
      rw [found] at taken
      contradiction
    | some all =>
      rw [found] at taken
      have texts : all.map join = rs.map toLf := Except.ok.inj taken
      have inside : toLf r ∈ all.map join := texts ▸ List.mem_map_of_mem member
      obtain ⟨part,among,same⟩ := List.mem_map.mp inside
      rw [← same]
      exact undelimited_join (sections_free found (by simp) part among)
  · intro clear
    have free : ∀ part ∈ rs.map ofText, markerLine b ∉ part ∧ closerLine b ∉ part := by
      intro part member
      obtain ⟨r,inside,rfl⟩ := List.mem_map.mp member
      exact (undelimited_ofText b r).mp (clear r inside)
    have found := sections_blocks (closerLine_ne b) free false [] [blank]
    rw [show sections (markerLine b) (closerLine b) false [] lines = some (rs.map ofText) from found]
    have texts : (rs.map ofText).map join = rs.map toLf := by
      rw [List.map_map]
      exact List.map_congr_left fun r _ => join_ofText r
    exact congrArg Except.ok texts

end Framed

/-- A composed multipart with a boundary of its own is read as its parts exactly where
every part is clear of its delimiter lines. -/
theorem explicit_boundary_sections_iff [Base64] (headers : List Header) (body : Option MimeBody) (parts : List MimeMessage)
    (encoding : Option Text) (top : Bool) (boundary out : Text)
    (explicit : (headerValue headers contentType).bind parseBoundary = some boundary)
    (several : parts ≠ []) (leaves : ∀ p ∈ parts, p.parts = [])
    (rendered : (renderMessage ⟨headers,body,parts,encoding⟩ top).run = some (.ok out)) :
    (∃ rawHeaders rawBody rs, splitHeaderBody (normalizeRawMessage out) = .ok (rawHeaders,rawBody) ∧
      List.Forall₂ (fun p r => (renderMessage p false).run = some (.ok r)) parts rs ∧
      multipartSections rawBody boundary = .ok (rs.map normalizeRawMessage)) ↔
    ∀ p ∈ parts, ClearOf boundary p := by
  obtain ⟨chosen,head,text,bound,heads,framing,rfl⟩ := (renderMessage_node_iff several).mp rendered
  have same : chosen = boundary := by
    rw [boundaryFor,headerValue_versioned (by decide),explicit] at bound
    exact (run_pure_iff.mp bound).symm
  subst same
  obtain ⟨noLf,noCr⟩ := boundary_plain heads
  let b : Line := ⟨chosen,noLf,noCr⟩
  obtain ⟨rs,all,rfl⟩ := renderParts_iff.mp framing
  obtain ⟨blocks,_,_,split⟩ := splitHeaderBody_rendered heads (setHeader_ne_nil _ _ _)
  have clear : (∀ r ∈ rs, Undelimited chosen (toLf r)) ↔ ∀ p ∈ parts, ClearOf chosen p := by
    have each : ∀ p r, p ∈ parts → (renderMessage p false).run = some (.ok r) →
        (Undelimited chosen (toLf r) ↔ ClearOf chosen p) := by
      rintro ⟨headers,body,parts,encoding⟩ r member rendered
      cases leaves _ member
      exact undelimited_leaf chosen rendered
    constructor
    · intro free p member
      obtain ⟨r,inside,rendered⟩ := exists_right all member
      exact (each p r member rendered).mp (free r inside)
    · intro free r member
      obtain ⟨p,inside,rendered⟩ := exists_left all member
      exact (each p r inside rendered).mpr (free p inside)
  have texts : ∀ all : List Text, all.map normalizeRawMessage = all.map toLf := fun all =>
    List.map_congr_left fun r _ => normalizeRawMessage_eq r
  have read : multipartSections (toLf (framed chosen rs)) chosen = .ok (rs.map toLf) ↔ _ := multipartSections_framed b rs
  rw [← clear,← read,split]
  constructor
  · rintro ⟨rawHeaders,rawBody,others,whole,known,taken⟩
    cases whole
    have unique : others = rs := by
      refine List.right_unique_forall₂' (fun p r r' first second => ?_) known all
      exact Except.ok.inj (Option.some.inj (first.symm.trans second))
    rw [unique,texts] at taken
    exact taken
  · intro taken
    exact ⟨_,_,rs,rfl,all,by rw [texts,taken]⟩

def boundedType : Header := ⟨contentType,"multipart/mixed; boundary=x"⟩

/-- One part whose text brings a delimiter line and a part behind it. -/
def forgedPart : MimeMessage := ⟨[boundedType],none,[⟨[],some (.text "a\n--x\n\nforged"),[],none⟩],none⟩

theorem forgedPart_read_as_two :
    ∃ out rawHeaders rawBody all, (renderMessage forgedPart true).run = some (.ok out) ∧
      splitHeaderBody (normalizeRawMessage out) = .ok (rawHeaders,rawBody) ∧
      multipartSections rawBody "x" = .ok all ∧ forgedPart.parts.length = 1 ∧ all.length = 2 := by
  have check : ∃ out, (renderMessage forgedPart true).run = some (.ok out) ∧
      (match splitHeaderBody (normalizeRawMessage out) with
        | .ok (_,rawBody) =>
          match multipartSections rawBody "x" with
          | .ok all => all.length == 2
          | .error _ => false
        | .error _ => false) = true := rendered_witness forgedPart true _ (by decide +kernel)
  obtain ⟨out,rendered,counted⟩ := check
  split at counted
  · rename_i rawHeaders rawBody split
    split at counted
    · rename_i all taken
      exact ⟨out,rawHeaders,rawBody,all,rendered,split,taken,rfl,beq_iff_eq.mp counted⟩
    · contradiction
  · contradiction

/-- A part with a line that only begins like a delimiter line. -/
def honestPart : MimeMessage := ⟨[],some (.text "--x-\n-- x"),[],none⟩

theorem explicit_boundary_sections_iff_at_honestPart :
    ∃ out rawHeaders rawBody rs, (renderMessage ⟨[boundedType],none,[honestPart],none⟩ true).run = some (.ok out) ∧
      splitHeaderBody (normalizeRawMessage out) = .ok (rawHeaders,rawBody) ∧
      List.Forall₂ (fun p r => (renderMessage p false).run = some (.ok r)) [honestPart] rs ∧
      multipartSections rawBody "x" = .ok (rs.map normalizeRawMessage) := by
  obtain ⟨out,rendered,_⟩ := rendered_witness ⟨[boundedType],none,[honestPart],none⟩ true (fun _ => true) (by decide)
  have clear : ∀ p ∈ [honestPart], ClearOf "x" p := by
    intro p member
    rw [List.mem_singleton.mp member]
    refine ⟨by simp [honestPart],fun encoding choice => ?_⟩
    have plain : encoding = .sevenBit := (Except.ok.inj choice).symm
    rw [plain]
    decide
  obtain ⟨rawHeaders,rawBody,rs,split,parts,taken⟩ := (explicit_boundary_sections_iff [boundedType] none [honestPart] none
    true "x" out (by decide) (by simp) (by simp [honestPart]) rendered).mpr clear
  exact ⟨out,rawHeaders,rawBody,rs,rendered,split,parts,taken⟩

end MechanicsCore.Mime
