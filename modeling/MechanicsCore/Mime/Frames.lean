import MechanicsCore.Mime.Generated
import MechanicsCore.Mime.Reader

/-! Messages without headers and encodings of their own as frames, and their
rendering as the lines of these frames. -/
namespace MechanicsCore.Mime
open MechanicsCore.Library Text Line

def wire (lines : List Line) : Text := lines.flatMap fun line => line.text ++ "\r\n"

theorem toLf_wire (lines : List Line) {rest : Text} {more : List Line} (nonempty : more ≠ [])
    (later : toLf rest = join more) : toLf (wire lines ++ rest) = join (lines ++ more) := by
  induction lines with
  | nil => exact later
  | cons line lines ih =>
    have crlf := toLf_crlf line.text (wire lines ++ rest)
    rw [toLf_plain line.noCr,ih] at crlf
    rw [List.cons_append,join_cons (by simp [nonempty])]
    simpa [wire] using crlf

section Headers

theorem renderHeaders_leaf (top : Bool) (content : Text) :
    renderHeaders (leafHeaders top content) = .ok (wire (leafHead top content)) := by
  unfold leafHeaders leafHead encodingLine textEncoding
  cases isAscii content <;> cases top <;> decide

private theorem typeLine_split (b : Boundary) : contentType ++ ": " ++ b.typeText =
    "Content-Type:" ++ [' '] ++ ("multipart/mixed;" ++ [' '] ++ ("boundary=\"" ++ b.text ++ "\"")) := by
  unfold contentType Boundary.typeText
  simp

private theorem typeLine_words (b : Boundary) : (contentType ++ ": " ++ b.typeText).splitOn ' ' =
    [("Content-Type:" : Text),"multipart/mixed;","boundary=\"" ++ b.text ++ "\""] := by
  have free : ' ' ∉ "boundary=\"" ++ b.text ++ "\"" := by simp [b.not_mem (c := ' ') (by decide)]
  have pieces : ∀ piece ∈ [("Content-Type:" : Text),"multipart/mixed;","boundary=\"" ++ b.text ++ "\""],
      ' ' ∉ piece := by
    intro piece member
    simp only [List.mem_cons,List.not_mem_nil,or_false] at member
    rcases member with rfl | rfl | rfl
    · decide
    · decide
    · exact free
  have words := List.splitOn_intercalate ' ' pieces (by simp)
  rw [List.intercalate_cons_cons,List.intercalate_cons_cons,List.intercalate_singleton] at words
  rw [typeLine_split,words]

def overflows (current word : Text) : Bool := !current.isEmpty && 78 < (utf8 current).length + 1 + (utf8 word).length

def addWord (current word : Text) : Text := if current.isEmpty then word else current ++ ' ' :: word

theorem foldWords_cons (word : Text) (words : List Text) (folded current : Text) :
    foldWords (word::words) folded current =
      if overflows current word then
        foldWords words (if folded.isEmpty then current else folded ++ "\r\n " ++ current) word
      else foldWords words folded (addWord current word) := by
  unfold overflows addWord
  cases current with
  | nil => simp [foldWords]
  | cons c current => simp [foldWords]

/-- The type of a multipart is folded before its boundary, if at all. -/
theorem foldHeaderLine_type (b : Boundary) : foldHeaderLine contentType b.typeText ++ "\r\n" = wire (typeLines b) := by
  unfold foldHeaderLine typeLines
  by_cases short : (utf8 (contentType ++ ": " ++ b.typeText)).length ≤ 78
  · rw [if_pos short,if_pos short]
    exact (List.append_nil _).symm
  · have long : 78 < (utf8 ("Content-Type:" ++ " " ++ ("multipart/mixed;" : Text))).length + 1 +
        (utf8 ("boundary=\"" ++ b.text ++ "\"")).length := by
      have name : (utf8 ("Content-Type:" ++ [' '])).length = 14 := by decide
      have base : (utf8 ("multipart/mixed;" ++ [' '])).length = 17 := by decide
      have first : (utf8 ("Content-Type:" ++ " " ++ ("multipart/mixed;" : Text))).length = 30 := by decide
      rw [typeLine_split,utf8_append ("Content-Type:" ++ [' ']),utf8_append ("multipart/mixed;" ++ [' ']),
        List.length_append,List.length_append,name,base] at short
      omega
    have words : foldWords [("Content-Type:" : Text),"multipart/mixed;","boundary=\"" ++ b.text ++ "\""] [] [] =
        ("Content-Type:" ++ " " ++ ("multipart/mixed;" : Text),"boundary=\"" ++ b.text ++ "\"") := by
      have starts : overflows [] "Content-Type:" = false := rfl
      have name : addWord [] "Content-Type:" = ("Content-Type:" : Text) := rfl
      have fits : overflows "Content-Type:" "multipart/mixed;" = false := by decide
      have base : addWord "Content-Type:" "multipart/mixed;" = "Content-Type:" ++ " " ++ ("multipart/mixed;" : Text) := rfl
      have breaks : overflows ("Content-Type:" ++ " " ++ ("multipart/mixed;" : Text)) ("boundary=\"" ++ b.text ++ "\"") =
          true := decide_eq_true long
      rw [foldWords_cons,starts,if_neg Bool.false_ne_true,name,foldWords_cons,fits,if_neg Bool.false_ne_true,base,
        foldWords_cons,if_pos breaks,foldWords]
      rfl
    rw [if_neg short,if_neg short,typeLine_words,words]
    simp [wire,contentType_cons]

theorem isAscii_typeText (b : Boundary) : isAscii b.typeText = true := by
  have literals : isAscii "multipart/mixed; boundary=\"" = true ∧ isAscii "\"" = true := by decide
  have middle : isAscii b.text = true := by
    rw [isAscii,List.all_eq_true]
    exact fun c member => decide_eq_true (b.ascii c member)
  unfold Boundary.typeText isAscii at *
  rw [List.all_append,List.all_append,literals.1,literals.2,middle]
  rfl

theorem validateHeaderValue_plain {value : Text} (noLf : '\n' ∉ value) (noCr : '\r' ∉ value) :
    validateHeaderValue value = .ok () := by
  have free : ((utf8 value).any fun b => b == 0x0D || b == 0x0A) = false := by
    rw [List.any_eq_false]
    intro byte member
    rw [Bool.or_eq_true,not_or,beq_iff_eq,beq_iff_eq]
    refine ⟨?_,?_⟩
    · rintro rfl
      exact noCr (mem_of_utf8 (by decide) member)
    · rintro rfl
      exact noLf (mem_of_utf8 (by decide) member)
  unfold validateHeaderValue
  rw [free]
  rfl

theorem renderHeaders_cons {header : Header} {headers : List Header} {later : Text}
    (name : validateHeaderName header.name = .ok ()) (value : validateHeaderValue header.value = .ok ())
    (ascii : isAscii header.value = true) (rest : renderHeaders headers = .ok later) :
    renderHeaders (header::headers) = .ok (foldHeaderLine header.name header.value ++ "\r\n" ++ later) := by
  simp only [renderHeaders,name,value,maybeEncodeHeaderValue,ascii,if_true,rest]
  rfl

theorem renderHeaders_node (top : Bool) (b : Boundary) :
    renderHeaders (nodeHeaders top b) = .ok (wire (nodeHead top b)) := by
  have value := validateHeaderValue_plain (b.typeText_not_mem (c := '\n') (by decide) (by decide))
    (b.typeText_not_mem (c := '\r') (by decide) (by decide))
  have type : renderHeaders [⟨contentType,b.typeText⟩] = .ok (wire (typeLines b)) := by
    have name : validateHeaderName contentType = .ok () := by decide
    have rendered : renderHeaders [⟨contentType,b.typeText⟩] = _ :=
      renderHeaders_cons name value (isAscii_typeText b) rfl
    rw [rendered,List.append_nil,foldHeaderLine_type]
  cases top with
  | false => exact type
  | true =>
    have line : foldHeaderLine mimeVersion "1.0" ++ "\r\n" = wire (versionLines true) := by decide
    have rendered : renderHeaders (⟨mimeVersion,"1.0"⟩ :: [⟨contentType,b.typeText⟩]) = _ :=
      renderHeaders_cons (by decide) (by decide) (by decide) type
    rw [line] at rendered
    unfold nodeHead wire
    rw [List.flatMap_append]
    exact rendered

end Headers

/-- Messages without headers and encodings of their own: leaves with a text, and
nodes with parts and no body. -/
inductive Plain : MimeMessage → Prop
  | leaf (content : Text) : Plain ⟨[],some (.text content),[],none⟩
  | node (first : MimeMessage) (rest : List MimeMessage) (parts : ∀ p ∈ first::rest, Plain p) :
      Plain ⟨[],none,first::rest,none⟩

mutual

/-- The frame of a plain message, if the search for each of its boundaries ends. -/
def frameOf : MimeMessage → Option (Frame Boundary Text)
  | ⟨_,some (.text content),[],_⟩ => some (.leaf content)
  | ⟨_,_,[],_⟩ => none
  | ⟨headers,body,first::rest,encoding⟩ => do
    let b ← boundaryOf ⟨headers,body,first::rest,encoding⟩
    let frame ← frameOf first
    let frames ← framesOf rest
    return .node b frame frames

def framesOf : List MimeMessage → Option (List (Frame Boundary Text))
  | [] => some []
  | part::parts => do
    let frame ← frameOf part
    let frames ← framesOf parts
    return frame::frames

end

/-- The outcome of rendering: the given lines, or no return where there are none. -/
def RendersAs (outcome : Compose Text) (lines : Option (List Line)) : Prop :=
  match lines with
  | none => outcome.run = none
  | some lines => ∃ out, outcome.run = some (.ok out) ∧ toLf out = join lines

theorem Compose.ofResult_ok {α β : Type} (a : α) (next : α → Compose β) : (ofResult (.ok a) >>= next) = next a := rfl

private theorem initialHeaders (top : Bool) :
    (if top && !hasHeader [] mimeVersion then [⟨mimeVersion,"1.0"⟩] else []) = versionHeaders top := by
  cases top <;> decide

private theorem renderBody_leaf [Base64] (content : Text) :
    renderBody ⟨[],some (.text content),[],none⟩ (textEncoding content) = .ok (bodyText content) := by
  unfold bodyText
  cases ascii : isAscii content with
  | true =>
    have encoding : textEncoding content = .sevenBit := if_pos ascii
    have bytes : (utf8 (normalizeTextLines content)).all (· < 128) = true := by
      rw [normalizeTextLines_eq]
      exact all_utf8 (isAscii_toCrlf (isAscii_toLf ascii))
    rw [encoding]
    simp [renderBody,bodyBytesAndText,bytes,fromUtf8_utf8]
  | false =>
    have encoding : textEncoding content = .quotedPrintable := if_neg (by simp [ascii])
    rw [encoding]
    rfl

private theorem chooseEncoding_leaf (content : Text) (top : Bool) :
    chooseEncoding ⟨[],some (.text content),[],none⟩ (versionHeaders top ++ [⟨contentType,defaultTextContentType⟩]) =
      .ok (textEncoding content) := by
  have encoding : headerValue (versionHeaders top ++ [⟨contentType,defaultTextContentType⟩]) contentTransferEncoding =
      none := by cases top <;> decide
  have type : headerValue (versionHeaders top ++ [⟨contentType,defaultTextContentType⟩]) contentType =
      some defaultTextContentType := by cases top <;> decide
  unfold chooseEncoding textEncoding
  rw [encoding,type]
  simp only [Option.getD_some,isTextContentType_default,Bool.true_and,if_true]

theorem renderMessage_leaf [Base64] (content : Text) (top : Bool) :
    renderMessage ⟨[],some (.text content),[],none⟩ top =
      Compose.ofResult (.ok (wire (leafHead top content) ++ "\r\n" ++ bodyText content)) := by
  have typed : (if hasHeader (versionHeaders top) contentType then versionHeaders top
      else setHeader (versionHeaders top) contentType defaultTextContentType) =
        versionHeaders top ++ [⟨contentType,defaultTextContentType⟩] := by cases top <;> decide
  have encoded : setHeader (versionHeaders top ++ [⟨contentType,defaultTextContentType⟩]) contentTransferEncoding
      (textEncoding content).token = leafHeaders top content := by
    unfold leafHeaders textEncoding
    cases isAscii content <;> cases top <;> decide
  simp only [renderMessage,initialHeaders,typed]
  rw [if_neg (by simp),chooseEncoding_leaf,Compose.ofResult_ok,encoded,renderHeaders_leaf,Compose.ofResult_ok,renderBody_leaf,
    Compose.ofResult_ok]
  rfl

theorem renderMessage_node [Base64] (first : MimeMessage) (rest : List MimeMessage) (top : Bool) :
    renderMessage ⟨[],none,first::rest,none⟩ top =
      match boundaryOf ⟨[],none,first::rest,none⟩ with
      | none => ExceptT.mk none
      | some b => do
        let parts ← renderParts b.text (first::rest)
        return wire (nodeHead top b) ++ "\r\n" ++ parts := by
  have untyped : headerValue (versionHeaders top) contentType = none := by cases top <;> decide
  have generated := boundaryOf_text ⟨[],none,first::rest,none⟩
  simp only [renderMessage,initialHeaders]
  rw [if_pos (by simp),boundaryFor,untyped,← generated]
  cases boundaryOf ⟨[],none,first::rest,none⟩ with
  | none => rfl
  | some b =>
    have type : contentTypeWithBoundary defaultMultipartContentType b.text = b.typeText := by
      unfold contentTypeWithBoundary
      rw [if_neg (by decide)]
      unfold defaultMultipartContentType Boundary.typeText
      simp
    have headers : setHeader (versionHeaders top) contentType b.typeText = nodeHeaders top b := by
      cases top <;> rfl
    simp only [Option.bind_none,Option.map_some,Option.elim_none]
    change (Compose.ofResult (.ok b.text) >>= fun boundary => _) = _
    rw [Compose.ofResult_ok,type,headers,renderHeaders_node,Compose.ofResult_ok]

private theorem bind_none {α β : Type} {first : Compose α} (endless : first.run = none) (next : α → Compose β) :
    (first >>= next).run = none := by
  have same : first = ExceptT.mk none := endless
  rw [same]
  rfl

private theorem bind_ok {α β : Type} {first : Compose α} {a : α} (returned : first.run = some (.ok a))
    (next : α → Compose β) : (first >>= next).run = (next a).run := by
  have same : first = Compose.ofResult (.ok a) := returned
  rw [same,Compose.ofResult_ok]

private theorem lines_ne_nil (top : Bool) (f : Frame Boundary Text) : mimeFormat.lines top f ≠ [] := by
  cases f <;> simp [Format.lines,mimeFormat]

private theorem partLines_ne_nil (b : Boundary) (fs : List (Frame Boundary Text)) : mimeFormat.partLines b fs ≠ [] := by
  cases fs <;> simp [Format.partLines]

private theorem wire_blank (lines : List Line) : wire lines ++ "\r\n" = wire (lines ++ [blank]) := by
  simp [wire,blank]

private theorem toLf_part (b : Boundary) {f : Frame Boundary Text} {fs : List (Frame Boundary Text)} {out later : Text}
    (first : toLf out = join (mimeFormat.lines false f)) (rest : toLf later = join (mimeFormat.partLines b fs)) :
    toLf ("--" ++ b.text ++ "\r\n" ++ out ++ "\r\n" ++ later) = join (mimeFormat.partLines b (f::fs)) := by
  have body : toLf (out ++ "\r\n" ++ later) = join (mimeFormat.lines false f ++ mimeFormat.partLines b fs) := by
    rw [join_append (lines_ne_nil false f) (partLines_ne_nil b fs),← first,← rest]
    simpa using toLf_crlf out later
  have written : "--" ++ b.text ++ "\r\n" ++ out ++ "\r\n" ++ later = wire [b.marker] ++ (out ++ "\r\n" ++ later) := by
    simp [wire,Boundary.marker]
  rw [Format.partLines,written]
  exact toLf_wire [b.marker] (by simp [lines_ne_nil]) body

private theorem toLf_closing (b : Boundary) : toLf ("--" ++ b.text ++ "--\r\n") = join (mimeFormat.partLines b []) := by
  have written : ("--" ++ b.text ++ "--\r\n" : Text) = wire [b.closer] ++ [] := by
    simp [wire,Boundary.closer]
  rw [Format.partLines,written]
  exact toLf_wire [b.closer] (List.cons_ne_nil blank []) rfl

theorem renderParts_frames [Base64] (b : Boundary) {parts : List MimeMessage}
    (each : ∀ p ∈ parts, RendersAs (renderMessage p false) ((frameOf p).map (mimeFormat.lines false))) :
    RendersAs (renderParts b.text parts) ((framesOf parts).map (mimeFormat.partLines b)) := by
  induction parts with
  | nil =>
    rw [renderParts,framesOf]
    exact ⟨_,rfl,toLf_closing b⟩
  | cons part parts ih =>
    have first := each part List.mem_cons_self
    have later := ih fun p member => each p (List.mem_cons_of_mem _ member)
    rw [renderParts,framesOf]
    cases framed : frameOf part with
    | none =>
      rw [framed] at first
      exact bind_none first _
    | some f =>
      rw [framed] at first
      obtain ⟨out,returned,read⟩ := first
      cases others : framesOf parts with
      | none =>
        rw [others] at later
        exact (bind_ok returned _).trans (bind_none later _)
      | some fs =>
        rw [others] at later
        obtain ⟨outs,returnedLater,readLater⟩ := later
        exact ⟨_,(bind_ok returned _).trans (bind_ok returnedLater _),toLf_part b read readLater⟩

theorem framesOf_cons {part : MimeMessage} {parts : List MimeMessage} {fs : List (Frame Boundary Text)} :
    framesOf (part::parts) = some fs ↔
      ∃ f rest, frameOf part = some f ∧ framesOf parts = some rest ∧ fs = f::rest := by
  rw [framesOf]
  constructor
  · intro framed
    obtain ⟨f,first,framed⟩ := Option.bind_eq_some_iff.mp framed
    obtain ⟨rest,later,framed⟩ := Option.bind_eq_some_iff.mp framed
    cases framed
    exact ⟨f,rest,first,later,rfl⟩
  · rintro ⟨f,rest,first,later,rfl⟩
    rw [first,later]
    rfl

theorem framesOf_mem {parts : List MimeMessage} {fs : List (Frame Boundary Text)} (framed : framesOf parts = some fs)
    {f : Frame Boundary Text} (member : f ∈ fs) : ∃ p ∈ parts, frameOf p = some f := by
  induction parts generalizing fs with
  | nil =>
    rw [framesOf] at framed
    cases framed
    simp at member
  | cons part parts ih =>
    obtain ⟨head,tail,first,later,rfl⟩ := framesOf_cons.mp framed
    rcases List.mem_cons.mp member with rfl | inside
    · exact ⟨part,List.mem_cons_self,first⟩
    · obtain ⟨p,found,framed⟩ := ih later inside
      exact ⟨p,List.mem_cons_of_mem _ found,framed⟩

theorem frameOf_iff {first : MimeMessage} {rest : List MimeMessage} {f : Frame Boundary Text} :
    frameOf ⟨[],none,first::rest,none⟩ = some f ↔ ∃ b head tail,
      boundaryOf ⟨[],none,first::rest,none⟩ = some b ∧ framesOf (first::rest) = some (head::tail) ∧
        f = .node b head tail := by
  rw [frameOf]
  constructor
  · intro framed
    obtain ⟨b,bound,framed⟩ := Option.bind_eq_some_iff.mp framed
    obtain ⟨head,headed,framed⟩ := Option.bind_eq_some_iff.mp framed
    obtain ⟨tail,tailed,framed⟩ := Option.bind_eq_some_iff.mp framed
    cases framed
    exact ⟨b,head,tail,bound,framesOf_cons.mpr ⟨head,tail,headed,tailed,rfl⟩,rfl⟩
  · rintro ⟨b,head,tail,bound,framed,rfl⟩
    obtain ⟨_,_,headed,tailed,same⟩ := framesOf_cons.mp framed
    cases same
    rw [bound,headed,tailed]
    rfl

theorem frameOf_node (first : MimeMessage) (rest : List MimeMessage) (top : Bool) :
    (frameOf ⟨[],none,first::rest,none⟩).map (mimeFormat.lines top) =
      (boundaryOf ⟨[],none,first::rest,none⟩).bind fun b =>
        ((framesOf (first::rest)).map (mimeFormat.partLines b)).map (nodeHead top b ++ [blank] ++ ·) := by
  rw [frameOf,framesOf]
  cases boundaryOf ⟨[],none,first::rest,none⟩ with
  | none => rfl
  | some b =>
    cases frameOf first with
    | none => rfl
    | some f =>
      cases framesOf rest with
      | none => rfl
      | some fs => exact congrArg some (mimeFormat.lines_node top b f fs)

/-- Rendering a plain message writes the lines of its frame. -/
theorem renderMessage_frame [Base64] {m : MimeMessage} (plain : Plain m) (top : Bool) :
    RendersAs (renderMessage m top) ((frameOf m).map (mimeFormat.lines top)) := by
  induction plain generalizing top with
  | leaf content =>
    rw [renderMessage_leaf,frameOf,Option.map_some,Format.lines,wire_blank]
    refine ⟨_,rfl,?_⟩
    have lines := toLf_wire (leafHead top content ++ [blank]) (ofText_ne_nil (bodyText content))
      (join_ofText (bodyText content)).symm
    rw [lines,List.append_assoc]
    rfl
  | node first rest parts ih =>
    have rendered := fun b => renderParts_frames b fun p member => ih p member false
    rw [renderMessage_node,frameOf_node]
    cases boundaryOf ⟨[],none,first::rest,none⟩ with
    | none => rfl
    | some b =>
      have body := rendered b
      rw [Option.bind_some]
      cases framed : framesOf (first::rest) with
      | none =>
        rw [framed] at body
        exact bind_none body _
      | some fs =>
        rw [framed] at body
        obtain ⟨out,returned,read⟩ := body
        refine ⟨_,bind_ok returned _,?_⟩
        rw [wire_blank]
        exact toLf_wire (nodeHead top b ++ [blank]) (partLines_ne_nil b fs) read

end MechanicsCore.Mime
