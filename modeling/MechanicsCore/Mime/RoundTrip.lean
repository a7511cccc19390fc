import MechanicsCore.Mime.Frames

/-! Composing and parsing again. A plain message comes back with its shape and its
texts exactly when each multipart finds a boundary and none has the boundary of a
multipart around it. The seed hashes the texts alone, so that a multipart whose
only part is a multipart has the boundary of its part. -/
namespace MechanicsCore.Mime
open MechanicsCore.Library Text Line

/-- The bytes of a body, with line feeds for the line endings of a text. -/
def MimeBody.lfBytes : MimeBody → List UInt8
  | .text content => utf8 (toLf content)
  | .bytes content => content

mutual

/-- The same tree, with the bytes of each body. -/
def SameShape : MimeMessage → ParsedMessage → Prop
  | ⟨_,body,parts,_⟩, parsed => parsed.body = body.map MimeBody.lfBytes ∧ SameShapes parts parsed.parts

def SameShapes : List MimeMessage → List ParsedMessage → Prop
  | [], [] => True
  | part::parts, parsed::others => SameShape part parsed ∧ SameShapes parts others
  | _, _ => False

end

/-- The message is rendered, and what is rendered is parsed as the same tree. -/
def RoundTrips [Base64] (m : MimeMessage) : Prop :=
  ∃ out parsed, (renderMessage m true).run = some (.ok out) ∧ parseMessageRaw (normalizeRawMessage out) = .ok parsed ∧
    SameShape m parsed

mutual

/-- Every multipart finds a boundary other than those of the multiparts around it. -/
def BoundariesApart (outer : List Text) : MimeMessage → Prop
  | ⟨headers,body,parts,encoding⟩ => parts = [] ∨ ∃ boundary,
    generateBoundary ⟨headers,body,parts,encoding⟩ = some boundary ∧ boundary ∉ outer ∧
      PartsApart (boundary::outer) parts

def PartsApart (outer : List Text) : List MimeMessage → Prop
  | [] => True
  | part::parts => BoundariesApart outer part ∧ PartsApart outer parts

end

section Fresh

theorem infix_of_mem_bodyText {content : Text} {line : Line} (member : line ∈ ofText (bodyText content))
    (wordy : Wordy line.text) : line.text <:+: content := by
  have piece : line.text ∈ (toLf (bodyText content)).splitOn '\n' := by
    rw [← ofText_text]
    exact List.mem_map_of_mem member
  cases ascii : isAscii content with
  | true =>
    rw [toLf_bodyText_ascii ascii] at piece
    exact infix_of_mem_lines piece
  | false =>
    have encoding : textEncoding content = .quotedPrintable := if_neg (by simp [ascii])
    rw [bodyText,encoding] at piece
    exact mem_qpEncode_text wordy piece

theorem free_leaf {b : Boundary} {content : Text} (absent : ¬ b.text <:+: content) :
    mimeFormat.Free b (mimeFormat.text false content) := by
  have delimiter : ∀ line : Line, line.text.head? = some '-' → b.text <:+: line.text → Wordy line.text →
      line ∉ mimeFormat.text false content := by
    intro line starts holds wordy member
    rcases List.mem_append.mp member with head | later
    · exact (leafHead_worded false content line head).2 starts
    · rcases List.mem_cons.mp later with rfl | body
      · simp [blank] at starts
      · exact absent (holds.trans (infix_of_mem_bodyText body wordy))
  exact ⟨delimiter b.marker (by simp [Boundary.marker]) ⟨"--",[],by simp [Boundary.marker]⟩ b.marker_wordy,
    delimiter b.closer (by simp [Boundary.closer]) ⟨"--","--",rfl⟩ b.closer_wordy⟩

theorem fresh_frame {m : MimeMessage} (plain : Plain m) {outer : List Boundary}
    (absent : ∀ b ∈ outer, messageContainsBoundary b.text m = false) {f : Frame Boundary Text}
    (framed : frameOf m = some f) : mimeFormat.Fresh outer f := by
  induction plain generalizing outer f with
  | leaf content =>
    rw [frameOf] at framed
    cases framed
    refine .leaf outer content fun b member => free_leaf ?_
    simpa [messageContainsBoundary,partsContainBoundary,MimeBody.contains,Text.contains] using absent b member
  | node first rest parts ih =>
    obtain ⟨b,head,tail,bound,frames,rfl⟩ := frameOf_iff.mp framed
    refine .node outer b head tail fun f member => ?_
    obtain ⟨p,inside,known⟩ := framesOf_mem frames member
    refine ih p inside (fun k found => ?_) known
    have whole : messageContainsBoundary k.text ⟨[],none,first::rest,none⟩ = false := by
      rcases List.mem_cons.mp found with rfl | later
      · exact generateBoundary_absent (by rw [← boundaryOf_text,bound]; rfl)
      · exact absent k later
    rw [messageContainsBoundary,Bool.or_eq_false_iff,partsContainBoundary_iff] at whole
    exact whole.2 p inside

end Fresh

section Apart

theorem partsApart_iff {outer : List Boundary} {parts : List MimeMessage}
    (each : ∀ p ∈ parts, (BoundariesApart (outer.map Boundary.text) p ↔ ∃ f, frameOf p = some f ∧ f.Apart outer)) :
    PartsApart (outer.map Boundary.text) parts ↔ ∃ fs, framesOf parts = some fs ∧ ∀ f ∈ fs, f.Apart outer := by
  induction parts with
  | nil => simp [PartsApart,framesOf]
  | cons part parts ih =>
    rw [PartsApart,each part List.mem_cons_self,ih fun p member => each p (List.mem_cons_of_mem _ member)]
    constructor
    · rintro ⟨⟨f,framed,apart⟩,fs,frames,others⟩
      exact ⟨f::fs,framesOf_cons.mpr ⟨f,fs,framed,frames,rfl⟩,by simpa [apart] using others⟩
    · rintro ⟨_,frames,apart⟩
      obtain ⟨f,fs,framed,later,rfl⟩ := framesOf_cons.mp frames
      rw [List.forall_mem_cons] at apart
      exact ⟨⟨f,framed,apart.1⟩,fs,later,apart.2⟩

theorem boundariesApart_iff {m : MimeMessage} (plain : Plain m) (outer : List Boundary) :
    BoundariesApart (outer.map Boundary.text) m ↔ ∃ f, frameOf m = some f ∧ f.Apart outer := by
  induction plain generalizing outer with
  | leaf content =>
    rw [BoundariesApart,frameOf]
    exact ⟨fun _ => ⟨_,rfl,.leaf outer content⟩,fun _ => .inl rfl⟩
  | node first rest parts ih =>
    have inside : ∀ b : Boundary, PartsApart (b.text :: outer.map Boundary.text) (first::rest) ↔
        ∃ fs, framesOf (first::rest) = some fs ∧ ∀ f ∈ fs, f.Apart (b::outer) :=
      fun b => partsApart_iff fun p member => ih p member (b::outer)
    rw [BoundariesApart,← boundaryOf_text]
    constructor
    · rintro (empty | ⟨_,found,new,apart⟩)
      · contradiction
      · obtain ⟨b,bound,rfl⟩ := Option.map_eq_some_iff.mp found
        obtain ⟨fs,frames,each⟩ := (inside b).mp apart
        obtain ⟨head,tail,_,_,rfl⟩ := framesOf_cons.mp frames
        have other : b ∉ outer := fun member => new (List.mem_map_of_mem member)
        exact ⟨_,frameOf_iff.mpr ⟨b,head,tail,bound,frames,rfl⟩,.node outer b head tail other each⟩
    · rintro ⟨f,framed,apart⟩
      obtain ⟨b,head,tail,bound,frames,rfl⟩ := frameOf_iff.mp framed
      cases apart with
      | node _ _ _ _ new each =>
        refine .inr ⟨b.text,by rw [bound]; rfl,fun member => ?_,(inside b).mpr ⟨_,frames,each⟩⟩
        obtain ⟨other,known,same⟩ := List.mem_map.mp member
        exact new (Boundary.ext_text same ▸ known)

end Apart

section Shape

theorem sameShapes_values [Base64] {parts : List MimeMessage}
    (each : ∀ p ∈ parts, ∀ f, frameOf p = some f → SameShape p (mimeReader.value false f))
    {fs : List (Frame Boundary Text)} (framed : framesOf parts = some fs) : SameShapes parts (mimeReader.values fs) := by
  induction parts generalizing fs with
  | nil =>
    rw [framesOf] at framed
    cases framed
    trivial
  | cons part parts ih =>
    obtain ⟨f,rest,first,later,rfl⟩ := framesOf_cons.mp framed
    exact ⟨each part List.mem_cons_self f first,ih (fun p member => each p (List.mem_cons_of_mem _ member)) later⟩

theorem sameShape_value [Base64] {m : MimeMessage} (plain : Plain m) {f : Frame Boundary Text} (framed : frameOf m = some f)
    (top : Bool) : SameShape m (mimeReader.value top f) := by
  induction plain generalizing f top with
  | leaf content =>
    rw [frameOf] at framed
    cases framed
    rw [Reader.value,SameShape]
    exact ⟨rfl,trivial⟩
  | node first rest parts ih =>
    obtain ⟨b,head,tail,_,frames,rfl⟩ := frameOf_iff.mp framed
    have shapes := sameShapes_values (fun p member f known => ih p member known false) frames
    rw [Reader.value,SameShape]
    exact ⟨rfl,shapes⟩

end Shape

/-- A plain message round-trips exactly when its boundaries are apart. -/
theorem composed_round_trips_iff [Base64] (m : MimeMessage) (plain : Plain m) : RoundTrips m ↔ BoundariesApart [] m := by
  have rendered := renderMessage_frame plain true
  have apart := boundariesApart_iff plain []
  rw [List.map_nil] at apart
  rw [apart]
  cases framed : frameOf m with
  | none =>
    rw [framed] at rendered
    have endless : (renderMessage m true).run = none := rendered
    constructor
    · rintro ⟨out,_,returned,_⟩
      rw [endless] at returned
      contradiction
    · rintro ⟨_,known,_⟩
      contradiction
  | some f =>
    rw [framed] at rendered
    obtain ⟨out,returned,lines⟩ := rendered
    have fresh : mimeFormat.Fresh [] f := fresh_frame plain (by simp) framed
    have read : (parseMessageRaw (normalizeRawMessage out)).toOption = mimeReader.read (mimeFormat.lines true f) := by
      rw [normalizeRawMessage_eq,lines]
      rfl
    constructor
    · rintro ⟨other,parsed,known,ok,_⟩
      rw [returned] at known
      cases known
      refine ⟨f,rfl,Classical.byContradiction fun clash => ?_⟩
      rw [ok,mimeReader.read_clash fresh clash true] at read
      contradiction
    · rintro ⟨_,⟨⟩,separate⟩
      rw [mimeReader.read_lines fresh separate true] at read
      refine ⟨out,mimeReader.value true f,returned,?_,sameShape_value plain framed true⟩
      cases parsed : parseMessageRaw (normalizeRawMessage out) with
      | error e => simp [parsed,Except.toOption] at read
      | ok value =>
        rw [parsed] at read
        exact congrArg Except.ok (Option.some.inj read)

def textMessage (content : Text) : MimeMessage := ⟨[],some (.text content),[],none⟩

def multipartMessage (parts : List MimeMessage) : MimeMessage := ⟨[],none,parts,none⟩

/-- A multipart whose only part is a multipart. -/
def nestedMessage : MimeMessage := multipartMessage [multipartMessage [textMessage "x"]]

set_option maxRecDepth 100000 in
/-- Both levels of the nested message have one boundary: it is rendered, and what is
rendered is refused. -/
theorem nestedMessage_fails : Plain nestedMessage ∧ ¬ RoundTrips nestedMessage := by
  have inner : Plain (multipartMessage [textMessage "x"]) := .node _ [] (by simpa using .leaf "x")
  refine ⟨.node _ [] (by simpa using inner),?_⟩
  have refused : ((renderMessage nestedMessage true).run.bind Except.toOption).map
      (fun out => (parseMessageRaw (normalizeRawMessage out)).toBool) = some false := by decide +kernel
  rintro ⟨out,parsed,returned,ok,_⟩
  rw [returned] at refused
  simp [ok,Except.toOption,Except.toBool] at refused

/-- A letter with a multipart beside a text. -/
def letterMessage : MimeMessage :=
  multipartMessage [textMessage "dear\r\n--x",multipartMessage [textMessage "naïve",textMessage "y"]]

set_option maxRecDepth 100000 in
theorem letterMessage_round_trips : RoundTrips letterMessage := by
  have parts : Plain (multipartMessage [textMessage "naïve",textMessage "y"]) :=
    .node _ [textMessage "y"] (by simpa using ⟨.leaf "naïve",.leaf "y"⟩)
  have plain : Plain letterMessage := .node _ [_] (by simpa using ⟨.leaf "dear\r\n--x",parts⟩)
  refine (composed_round_trips_iff letterMessage plain).mpr ?_
  have outer : generateBoundary letterMessage = some ("mechanics-36364e9aa72c718d-0000" : Text) := by decide
  have inner : generateBoundary (multipartMessage [textMessage "naïve",textMessage "y"]) =
      some ("mechanics-401f545d268f5ad6-0000" : Text) := by decide
  exact .inr ⟨_,outer,by simp,.inl rfl,.inr ⟨_,inner,by decide,.inl rfl,.inl rfl,trivial⟩,trivial⟩

end MechanicsCore.Mime
