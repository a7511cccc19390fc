import MechanicsCore.Library.Outcome
import MechanicsCore.Mime.Codec
import MechanicsCore.Mime.Cuts

/-! Header blocks as physical lines. `fold_header_line` cuts a header into a first
line and continuation lines, each made of words of the value; `parse_headers`
reads every such block as one header under its name. -/
namespace MechanicsCore.Mime
open MechanicsCore.Library Text Line Outcome

section Names

theorem validateHeaderValue_chars {value : Text} (valid : validateHeaderValue value = .ok ()) :
    '\n' ∉ value ∧ '\r' ∉ value := by
  unfold validateHeaderValue at valid
  split at valid
  · contradiction
  · rename_i free
    have absent : ∀ c : Char, c.toNat < 128 → UInt8.ofNat c.toNat = 0x0D ∨ UInt8.ofNat c.toNat = 0x0A → c ∉ value := by
      intro c ascii isBreak member
      exact free (List.any_eq_true.mpr ⟨_,mem_utf8 ascii member,by simpa using isBreak⟩)
    exact ⟨absent '\n' (by decide) (by decide),absent '\r' (by decide) (by decide)⟩

end Names

section Blocks

/-- The physical lines of one header: its name, a colon and what follows it on the
first line, and what follows the space of each continuation line. -/
structure HeaderBlock where
  name : Text
  named : validateHeaderName name = .ok ()
  first : Line
  folds : List Line

namespace HeaderBlock

theorem name_not_mem (b : HeaderBlock) {c : Char} (other : c.toNat < 0x21 ∨ c = ':') : c ∉ b.name := by
  intro member
  have known := (validateHeaderName_chars b.named).2 c member
  rcases other with small | rfl
  · omega
  · exact known.2.2 rfl

def opening (b : HeaderBlock) : Line where
  text := b.name ++ ':' :: b.first.text
  noLf := by simp [b.name_not_mem (c := '\n') (by decide),b.first.noLf]
  noCr := by simp [b.name_not_mem (c := '\r') (by decide),b.first.noCr]

def indent (line : Line) : Line where
  text := ' ' :: line.text
  noLf := by simp [line.noLf]
  noCr := by simp [line.noCr]

def lines (b : HeaderBlock) : List Line := b.opening :: b.folds.map indent

theorem lines_ne_nil (b : HeaderBlock) : b.lines ≠ [] := List.cons_ne_nil b.opening _

def collected (b : HeaderBlock) : Text :=
  b.folds.foldl (fun value fold => value ++ " " ++ trim fold.text) (trim b.first.text)

/-- The lines write a value: their texts are pieces of it, and only a long line is folded. -/
structure Writes (b : HeaderBlock) (value : Text) : Prop where
  first : b.first.text <+: ' ' :: value
  folds : ∀ fold ∈ b.folds, fold.text <:+: ' ' :: value
  whole : b.folds = [] → b.first.text = ' ' :: value
  short : (utf8 (b.name ++ ": " ++ value)).length ≤ 78 → b.folds = []
  word : ' ' ∉ value → b.folds = [] ∨ b.first.text = [] ∧ b.folds.map Line.text = [value]

/-- The lines are those `fold_header_line` writes: the whole header, or its chunks. -/
inductive Folds (b : HeaderBlock) (value : Text) : Prop
  | whole (uncut : Uncut (b.name ++ ": " ++ value)) (first : b.first.text = ' ' :: value) (single : b.folds = [])
  | cut {rest : Text} (cut : Cut (b.name ++ ": " ++ value) (b.name ++ ':' :: b.first.text) rest)
      (folds : b.folds.map Line.text = chunksOf rest)

end HeaderBlock

theorem Cut.text {name value first rest : Text} (cut : Cut (name ++ ": " ++ value) (name ++ ':' :: first) rest) :
    ' ' :: value = first ++ ' ' :: rest := by
  have split := cut.split
  simpa using split

theorem HeaderBlock.Folds.writes {b : HeaderBlock} {value : Text} (folded : b.Folds value) : b.Writes value := by
  cases folded with
  | whole _ first single =>
    exact ⟨by rw [first],by simp [single],fun _ => first,fun _ => single,fun _ => .inl single⟩
  | cut cut folds =>
    have text := cut.text
    have several : b.folds ≠ [] := by
      intro none
      rw [none] at folds
      exact chunksOf_ne_nil _ folds.symm
    refine ⟨⟨_,text.symm⟩,?_,fun none => absurd none several,?_,?_⟩
    · intro fold member
      have chunk := folds ▸ List.mem_map_of_mem member
      rw [text]
      exact ((infix_chunksOf chunk).trans (List.suffix_cons _ _).isInfix).trans (List.suffix_append _ _).isInfix
    · intro short
      exact absurd cut (uncut_of_short short).not_cut
    · intro spaceless
      cases first : b.first.text with
      | nil =>
        rw [first] at text
        obtain rfl := (List.cons.inj text).2
        exact .inr ⟨rfl,by rw [folds,chunksOf_word spaceless]⟩
      | cons c f =>
        rw [first] at text
        have same := (List.cons.inj text).2
        exact absurd (by rw [same]; simp) spaceless

private theorem wire_chunks (first : Line) (folds : List Line) :
    ("\r\n " : Text).intercalate (first.text :: folds.map Line.text) ++ "\r\n" =
      wire (first :: folds.map HeaderBlock.indent) := by
  induction folds generalizing first with
  | nil => simp [wire]
  | cons fold folds ih =>
    have later := ih fold
    have next : wire (first :: (fold::folds).map HeaderBlock.indent) =
        first.text ++ "\r\n " ++ wire (fold :: folds.map HeaderBlock.indent) := by
      simp [wire,HeaderBlock.indent]
    rw [List.map_cons,List.intercalate_cons_cons,next,← later]
    simp

private theorem exists_lines {s : Text} (noLf : '\n' ∉ s) (noCr : '\r' ∉ s) {pieces : List Text}
    (within : ∀ piece ∈ pieces, piece <:+: s) : ∃ lines : List Line, lines.map Line.text = pieces := by
  induction pieces with
  | nil => exact ⟨[],rfl⟩
  | cons piece pieces ih =>
    obtain ⟨lines,texts⟩ := ih fun other member => within other (List.mem_cons_of_mem _ member)
    have inside := (within piece List.mem_cons_self).subset
    exact ⟨⟨piece,fun lf => noLf (inside lf),fun cr => noCr (inside cr)⟩::lines,by rw [List.map_cons,texts]⟩

theorem dropSpaces_named {name : Text} (named : validateHeaderName name = .ok ()) (value : Text) :
    dropSpaces (name ++ ": " ++ value) = name ++ ": " ++ value := by
  obtain ⟨nonempty,chars⟩ := validateHeaderName_chars named
  obtain ⟨c,rest,rfl⟩ := List.exists_cons_of_ne_nil nonempty
  refine List.dropWhile_cons_of_neg fun space => ?_
  have visible := (chars c List.mem_cons_self).1
  rw [beq_iff_eq.mp space] at visible
  exact absurd visible (by decide)

/-- The first cut of a header stands behind its colon. -/
theorem Cut.named {name value chunk rest : Text} (named : validateHeaderName name = .ok ())
    (cut : Cut (name ++ ": " ++ value) chunk rest) : ∃ first, chunk = name ++ ':' :: first := by
  have line : (name ++ ": " ++ value : Text) = (name ++ [':']) ++ ' ' :: value := by simp
  rcases space_cases (line.symm.trans cut.split) with ⟨c,before,_⟩ | ⟨same,_⟩ | ⟨c,same,_⟩
  · have member : ' ' ∈ name ++ [':'] := by
      rw [before]
      simp
    rcases List.mem_append.mp member with inside | colon
    · exact absurd ((validateHeaderName_chars named).2 ' ' inside).1 (by decide)
    · simp at colon
  · exact ⟨[],same⟩
  · exact ⟨' ' :: c,by rw [same]; simp⟩

theorem foldHeaderLine_folds {name : Text} (named : validateHeaderName name = .ok ()) {value : Text}
    (noLf : '\n' ∉ value) (noCr : '\r' ∉ value) :
    ∃ b : HeaderBlock, b.name = name ∧ foldHeaderLine name value ++ "\r\n" = wire b.lines ∧ b.Folds value := by
  have lf : '\n' ∉ ' ' :: value := by simp [noLf]
  have cr : '\r' ∉ ' ' :: value := by simp [noCr]
  have folded := foldHeaderLine_cut name value
  rw [dropSpaces_named named] at folded
  rcases folded with ⟨uncut,whole⟩ | ⟨chunk,rest,cut,glued⟩
  · refine ⟨⟨name,named,⟨' ' :: value,lf,cr⟩,[]⟩,rfl,?_,.whole uncut rfl rfl⟩
    rw [whole]
    simp [HeaderBlock.lines,HeaderBlock.opening,wire]
  · obtain ⟨first,rfl⟩ := cut.named named
    have within : ∀ piece ∈ first :: chunksOf rest, piece <:+: ' ' :: value := by
      intro piece member
      rw [cut.text]
      rcases List.mem_cons.mp member with rfl | later
      · exact (List.prefix_append _ _).isInfix
      · exact ((infix_chunksOf later).trans (List.suffix_cons _ _).isInfix).trans (List.suffix_append _ _).isInfix
    obtain ⟨lines,texts⟩ := exists_lines lf cr within
    obtain ⟨opening,folds,rfl,same,others⟩ := List.map_eq_cons_iff.mp texts
    subst same
    refine ⟨⟨name,named,opening,folds⟩,rfl,?_,.cut cut others⟩
    rw [glued,← others]
    exact wire_chunks (HeaderBlock.opening ⟨name,named,opening,folds⟩) folds

theorem foldHeaderLine_block {name : Text} (named : validateHeaderName name = .ok ()) {value : Text}
    (noLf : '\n' ∉ value) (noCr : '\r' ∉ value) :
    ∃ b : HeaderBlock, b.name = name ∧ foldHeaderLine name value ++ "\r\n" = wire b.lines ∧ b.Writes value := by
  obtain ⟨b,same,wired,folded⟩ := foldHeaderLine_folds named noLf noCr
  exact ⟨b,same,wired,folded.writes⟩

end Blocks

section Rendering

structure Header.Valid (header : Header) : Prop where
  name : validateHeaderName header.name = .ok ()
  value : validateHeaderValue header.value = .ok ()

theorem maybeEncodeHeaderValue_plain {value : Text} (valid : validateHeaderValue value = .ok ()) :
    '\n' ∉ maybeEncodeHeaderValue value ∧ '\r' ∉ maybeEncodeHeaderValue value := by
  unfold maybeEncodeHeaderValue
  split
  · exact validateHeaderValue_chars valid
  · exact ⟨fun lf => absurd (qEncodeHeader_chars value _ lf).1 (by decide),
      fun cr => absurd (qEncodeHeader_chars value _ cr).1 (by decide)⟩

theorem renderHeaders_valid {headers : List Header} {out : Text} (rendered : renderHeaders headers = .ok out) :
    ∀ header ∈ headers, header.Valid := by
  induction headers generalizing out with
  | nil => simp
  | cons header headers ih =>
    simp only [renderHeaders,bind_ok_iff] at rendered
    obtain ⟨_,name,_,value,rest,later,_⟩ := rendered
    intro other member
    rcases List.mem_cons.mp member with rfl | member
    · exact ⟨name,value⟩
    · exact ih later other member

/-- Valid headers are rendered as blocks of lines, one for each of them. -/
theorem renderHeaders_blocks {headers : List Header} (valid : ∀ header ∈ headers, header.Valid) :
    ∃ blocks : List HeaderBlock, renderHeaders headers = .ok (wire (blocks.flatMap HeaderBlock.lines)) ∧
      List.Forall₂ (fun b header => b.name = header.name ∧ b.Writes (maybeEncodeHeaderValue header.value))
        blocks headers := by
  induction headers with
  | nil => exact ⟨[],rfl,.nil⟩
  | cons header headers ih =>
    obtain ⟨blocks,rendered,matched⟩ := ih fun other member => valid other (List.mem_cons_of_mem _ member)
    have own := valid header List.mem_cons_self
    obtain ⟨noLf,noCr⟩ := maybeEncodeHeaderValue_plain own.value
    obtain ⟨b,name,line,writes⟩ := foldHeaderLine_block own.name noLf noCr
    refine ⟨b::blocks,?_,.cons ⟨name,writes⟩ matched⟩
    have joined : wire ((b::blocks).flatMap HeaderBlock.lines) = wire b.lines ++ wire (blocks.flatMap HeaderBlock.lines) := by
      simp [wire]
    rw [renderHeaders,own.name,own.value,rendered,joined,← line]
    rfl

end Rendering

section Parsing

/-- Whether `parse_headers` takes a line as the continuation of a header. -/
def continues (line : Line) : Bool := line.text.head? = some ' ' || line.text.head? = some '\t'

theorem HeaderBlock.opening_continues (b : HeaderBlock) : continues b.opening = false := by
  obtain ⟨c,rest,start,space,tab⟩ := validateHeaderName_start b.named
  simp [continues,HeaderBlock.opening,start,space,tab]

def HeaderBlock.read [Base64] (b : HeaderBlock) : JsResult Header := do
  return ⟨b.name,← decodeEncodedWords (trim b.collected)⟩

theorem parseHeaderLines_continued [Base64] (name : Text) {folds : List Text}
    (blank : ∀ fold ∈ folds, fold.head? = some ' ' ∨ fold.head? = some '\t') (lines : List Text) (value : Text) :
    parseHeaderLines (folds ++ lines) (some name) value =
      parseHeaderLines lines (some name) (folds.foldl (fun value fold => value ++ " " ++ trim fold) value) := by
  induction folds generalizing value with
  | nil => rfl
  | cons fold folds ih =>
    rw [List.cons_append,parseHeaderLines_fold name value fold (blank fold List.mem_cons_self)]
    exact ih (fun other member => blank other (List.mem_cons_of_mem _ member)) _

theorem foldl_trimmed (folds : List Text) (value : Text) :
    folds.foldl (fun value fold => value ++ " " ++ trim fold) value = value ++ folds.flatMap fun fold => ' ' :: trim fold := by
  induction folds generalizing value with
  | nil => simp
  | cons fold folds ih =>
    rw [List.foldl_cons,ih,List.flatMap_cons]
    simp

theorem parseHeaderLines_folds [Base64] (name : Text) (folds : List Line) (lines : List Text) (value : Text) :
    parseHeaderLines ((folds.map HeaderBlock.indent).map Line.text ++ lines) (some name) value =
      parseHeaderLines lines (some name) (folds.foldl (fun value fold => value ++ " " ++ trim fold.text) value) := by
  have blankless : ∀ fold : Line, trim (HeaderBlock.indent fold).text = trim fold.text := fun fold => trim_cons (by decide)
  rw [parseHeaderLines_continued name (by simp [HeaderBlock.indent])]
  simp only [List.map_map,List.foldl_map,Function.comp_apply,blankless]

theorem parseHeaderLines_opening [Base64] (b : HeaderBlock) (lines : List Text) (current : Option Text) (collected : Text) :
    parseHeaderLines (b.opening.text :: lines) current collected = do
      let closed ← closeHeader current collected
      return closed ++ (← parseHeaderLines lines (some b.name) (trim b.first.text)) :=
  parseHeaderLines_opened b.first.text b.named lines current collected

theorem parseHeaderLines_blocks [Base64] (blocks : List HeaderBlock) (current : Option Text) (collected : Text) :
    parseHeaderLines ((blocks.flatMap HeaderBlock.lines).map Line.text) current collected = do
      let closed ← closeHeader current collected
      return closed ++ (← blocks.mapM HeaderBlock.read) := by
  induction blocks generalizing current collected with
  | nil =>
    cases closed : closeHeader current collected <;> simp [parseHeaderLines,closed,bind,Except.bind,pure,Except.pure]
  | cons b blocks ih =>
    have later := parseHeaderLines_folds b.name b.folds ((blocks.flatMap HeaderBlock.lines).map Line.text)
      (trim b.first.text)
    rw [ih] at later
    rw [List.flatMap_cons,HeaderBlock.lines,List.cons_append,List.map_cons,parseHeaderLines_opening,List.map_append,
      List.mapM_cons]
    have closing : closeHeader (some b.name) b.collected = b.read.map fun header => [header] := by
      simp only [closeHeader,HeaderBlock.read]
      cases decodeEncodedWords (trim b.collected) <;> rfl
    unfold HeaderBlock.collected at closing
    simp only [later,closing]
    cases closeHeader current collected with
    | error e => rfl
    | ok closed =>
      cases b.read with
      | error e => rfl
      | ok header =>
        cases blocks.mapM HeaderBlock.read with
        | error e => rfl
        | ok rest => rfl

theorem flatMap_lines_ne_nil {blocks : List HeaderBlock} (nonempty : blocks ≠ []) :
    blocks.flatMap HeaderBlock.lines ≠ [] := by
  obtain ⟨b,rest,rfl⟩ := List.exists_cons_of_ne_nil nonempty
  simp [HeaderBlock.lines]

theorem flatMap_lines_inked (blocks : List HeaderBlock) : ∀ line ∈ blocks.flatMap HeaderBlock.lines, line.text ≠ [] := by
  intro line member
  obtain ⟨b,_,inside⟩ := List.mem_flatMap.mp member
  rcases List.mem_cons.mp inside with rfl | fold
  · simp [HeaderBlock.opening]
  · obtain ⟨text,_,rfl⟩ := List.mem_map.mp fold
    simp [HeaderBlock.indent]

theorem parseHeaders_blocks [Base64] {blocks : List HeaderBlock} (nonempty : blocks ≠ []) :
    parseHeaders (join (blocks.flatMap HeaderBlock.lines)) = blocks.mapM HeaderBlock.read := by
  rw [parseHeaders,splitOn_join (flatMap_lines_ne_nil nonempty),parseHeaderLines_blocks]
  cases blocks.mapM HeaderBlock.read <;> rfl

theorem parseHeaders_block [Base64] (b : HeaderBlock) :
    parseHeaders (join b.lines) = b.read.map fun header => [header] := by
  have blocks := parseHeaders_blocks (List.cons_ne_nil b [])
  rw [List.flatMap_singleton,List.mapM_cons,List.mapM_nil] at blocks
  rw [blocks]
  cases b.read <;> rfl

theorem normalizeRawMessage_wire (lines : List Line) : normalizeRawMessage (wire lines) = join (lines ++ [blank]) := by
  have read : toLf (wire lines ++ []) = _ := toLf_wire lines (List.cons_ne_nil blank []) rfl
  rwa [List.append_nil,← normalizeRawMessage_eq] at read

theorem normalizeRawMessage_of_wire {s : Text} {lines : List Line} (nonempty : lines ≠ [])
    (wired : s ++ "\r\n" = wire lines) : normalizeRawMessage s = join lines := by
  have ended := normalizeRawMessage_wire lines
  have broken := toLf_crlf s []
  rw [← wired,normalizeRawMessage_eq,join_append nonempty (List.cons_ne_nil blank [])] at ended
  rw [normalizeRawMessage_eq]
  exact List.append_cancel_right (broken.symm.trans ended)

theorem read_names [Base64] {blocks : List HeaderBlock} {parsed : List Header}
    (read : blocks.mapM HeaderBlock.read = .ok parsed) : parsed.map Header.name = blocks.map HeaderBlock.name := by
  rw [mapM_ok_iff] at read
  induction read with
  | nil => rfl
  | cons first later ih =>
    rw [HeaderBlock.read,bind_ok_iff] at first
    obtain ⟨value,_,same⟩ := first
    rw [pure_ok_iff] at same
    rw [List.map_cons,List.map_cons,ih,← same]

theorem parseHeaderLines_blank [Base64] (lines : List Text) (current : Option Text) (collected : Text)
    (parsed : List Header) : parseHeaderLines (lines ++ [[]]) current collected ≠ .ok parsed := by
  induction lines generalizing current collected parsed with
  | nil =>
    have colon : splitOnce ":" ([] : Text) = none := rfl
    rw [List.nil_append,parseHeaderLines,if_neg (by simp),colon]
    simp [bind_ok_iff,throw,throwThe,MonadExceptOf.throw]
  | cons line lines ih =>
    rw [List.cons_append,parseHeaderLines]
    split
    · split
      · simp
      · exact ih _ _ _
    · intro accepted
      obtain ⟨closed,_,accepted⟩ := bind_ok_iff.mp accepted
      split at accepted
      · contradiction
      · simp only [bind_ok_iff] at accepted
        obtain ⟨_,_,rest,later,_⟩ := accepted
        exact ih _ _ _ later

/-- Lines that are all ended leave an empty one behind, which is no header. -/
theorem parseHeaders_wire [Base64] (lines : List Line) (parsed : List Header) :
    parseHeaders (normalizeRawMessage (wire lines)) ≠ .ok parsed := by
  rw [normalizeRawMessage_wire,parseHeaders,splitOn_join (by simp),List.map_append]
  exact parseHeaderLines_blank _ _ _ _

theorem openings (blocks : List HeaderBlock) :
    ((blocks.flatMap HeaderBlock.lines).filter fun line => !continues line) = blocks.map HeaderBlock.opening := by
  induction blocks with
  | nil => rfl
  | cons b blocks ih =>
    have folded : (b.folds.map HeaderBlock.indent).filter (fun line => !continues line) = [] := by
      simp [List.filter_eq_nil_iff,continues,HeaderBlock.indent]
    rw [List.flatMap_cons,List.filter_append,ih,HeaderBlock.lines,List.filter_cons,b.opening_continues,folded]
    rfl

end Parsing

/-- Valid headers are rendered as physical lines, none of them blank, of which one for
each header is no continuation line and starts with its name and a colon; where the
block is accepted again, the names are the same. -/
theorem rendered_headers_keep_names [Base64] (headers : List Header)
    (names : ∀ header ∈ headers, validateHeaderName header.name = .ok ())
    (values : ∀ header ∈ headers, validateHeaderValue header.value = .ok ()) :
    ∃ lines : List Line, renderHeaders headers = .ok (wire lines) ∧ (∀ line ∈ lines, line.text ≠ []) ∧
      List.Forall₂ (fun line header => header.name ++ [':'] <+: line.text)
        (lines.filter fun line => !continues line) headers ∧
      ∀ raw parsed, normalizeRawMessage (wire lines) = raw ∨ normalizeRawMessage (wire lines) = raw ++ "\n" →
        parseHeaders raw = .ok parsed → parsed.map Header.name = headers.map Header.name := by
  obtain ⟨blocks,rendered,matched⟩ := renderHeaders_blocks fun header member => ⟨names header member,values header member⟩
  refine ⟨blocks.flatMap HeaderBlock.lines,rendered,flatMap_lines_inked blocks,?_,?_⟩
  · rw [openings,List.forall₂_map_left_iff]
    refine matched.imp fun b header known => ?_
    rw [← known.1]
    exact ⟨b.first.text,by simp [HeaderBlock.opening]⟩
  · intro raw parsed block accepted
    have same : blocks.map HeaderBlock.name = headers.map Header.name := by
      have pairs : List.Forall₂ (· = ·) (blocks.map HeaderBlock.name) (headers.map Header.name) := by
        rw [List.forall₂_map_left_iff,List.forall₂_map_right_iff]
        exact matched.imp fun _ _ known => known.1
      rwa [List.forall₂_eq_eq_eq] at pairs
    rcases block with rfl | stripped
    · exact absurd accepted (parseHeaders_wire _ _)
    · rw [normalizeRawMessage_wire] at stripped
      by_cases empty : blocks = []
      · subst empty
        simp [join,blank] at stripped
      · have lines : blocks.flatMap HeaderBlock.lines ≠ [] := flatMap_lines_ne_nil empty
        rw [join_append lines (List.cons_ne_nil blank [])] at stripped
        have whole : join (blocks.flatMap HeaderBlock.lines) = raw := List.append_cancel_right stripped
        rw [← whole,parseHeaders_blocks empty] at accepted
        rw [← same]
        exact read_names accepted

/-- Values that look like further headers, one of them folded just there, the other with
characters that must be encoded. -/
def smuggledHeaders : List Header :=
  [⟨"Subject","Re: " ++ List.replicate 64 'x' ++ " Bcc: mallory"⟩,⟨"X-Note","Grüße: Bcc"⟩]

theorem rendered_headers_keep_names_at_smuggledHeaders :
    ∃ lines : List Line, renderHeaders smuggledHeaders = .ok (wire lines) ∧ ("\r\n Bcc: mallory" : Text) <:+: wire lines ∧
      (∀ line ∈ lines, line.text ≠ []) ∧ (lines.filter fun line => !continues line).length = 2 := by
  have folded : (renderHeaders smuggledHeaders).toOption.all (fun text => ("\r\n Bcc: mallory" : Text) <:+: text) = true := by
    decide +kernel
  obtain ⟨lines,rendered,inked,openings,_⟩ :=
    rendered_headers_keep_names smuggledHeaders (by decide) (by decide)
  rw [rendered] at folded
  exact ⟨lines,rendered,of_decide_eq_true folded,inked,openings.length_eq⟩

end MechanicsCore.Mime
