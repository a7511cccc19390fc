import Mathlib.Data.List.Flatten
import MechanicsCore.Mime.Parsed

/-! Parsing comes to an end and does not amplify. The sections of a multipart body
are, one after the other, a subsequence of the body, whatever the boundary is; so
each nested call of `parse_message_raw` works on less. -/
namespace MechanicsCore.Mime
open MechanicsCore.Library Text Outcome

section Sections

theorem trimPartSection_sublist (part : Text) : (trimPartSection part).Sublist part := by
  have strip : ∀ (s : Text) (c : Char), ((stripSuffix? s c).getD s).Sublist s := by
    intro s c
    unfold stripSuffix?
    split
    · exact List.dropLast_sublist s
    · exact List.Sublist.refl s
  exact (strip _ _).trans (strip _ _)

theorem lines_sublist (line : Text) (lines : List Text) :
    (['\n'].intercalate lines).Sublist (['\n'].intercalate (line::lines)) := by
  by_cases last : lines = []
  · subst last
    exact List.nil_sublist _
  · rw [List.intercalate_cons_of_ne_nil last]
    exact List.sublist_append_right _ _

/-- The line feed that is put behind a line of a section is the one that ends the line in
the body: a delimiter line always comes after it. -/
theorem sectionLoop_sublist {marker closeMarker : Text} {lines : List Text} {inside : Bool} {current : Text}
    {sections : List Text} (found : sectionLoop marker closeMarker lines inside current = .ok sections) :
    sections.flatten.Sublist ((if inside then current else []) ++ ['\n'].intercalate lines) := by
  induction lines generalizing inside current sections with
  | nil => contradiction
  | cons line lines ih =>
    have shorter := lines_sublist line lines
    rw [sectionLoop] at found
    split at found
    · obtain ⟨later,rest,same⟩ := bind_ok_iff.mp found
      have after : later.flatten.Sublist (['\n'].intercalate (line::lines)) := (ih rest).trans shorter
      cases same
      cases inside with
      | true => exact (trimPartSection_sublist current).append after
      | false => exact after
    · split at found
      · cases found
        cases inside with
        | true =>
          rw [if_pos rfl,if_pos rfl,List.flatten_singleton]
          exact (trimPartSection_sublist current).trans (List.sublist_append_left _ _)
        | false => exact List.nil_sublist _
      · have after := ih found
        cases inside with
        | true =>
          have more : lines ≠ [] := by
            rintro rfl
            contradiction
          rw [List.intercalate_cons_of_ne_nil more]
          simpa using after
        | false => exact after.trans shorter

theorem multipartSections_sublist {body boundary : Text} {sections : List Text}
    (found : multipartSections body boundary = .ok sections) : sections.flatten.Sublist body := by
  have lines := sectionLoop_sublist found
  rwa [if_neg Bool.false_ne_true,List.nil_append,List.intercalate_splitOn] at lines

theorem utf8_length_sum (texts : List Text) : (texts.map fun text => (utf8 text).length).sum = (utf8 texts.flatten).length := by
  induction texts with
  | nil => rfl
  | cons text texts ih => rw [List.map_cons,List.sum_cons,ih,List.flatten_cons,utf8_append,List.length_append]

theorem utf8_length_le {a s : Text} (within : a.Sublist s) : (utf8 a).length ≤ (utf8 s).length :=
  (within.flatMap String.utf8EncodeChar).length_le

end Sections

section Calls

theorem splitHeaderBody_some {raw block body : Text} (split : splitHeaderBody raw = .ok (block,body)) :
    raw = block ++ "\n\n" ++ body := by
  unfold splitHeaderBody at split
  split at split
  · rename_i found
    cases split
    exact splitOnce_some found
  · contradiction

/-- `parse_message_raw` calls itself on `piece` when it is called on `raw`. -/
inductive PieceOf [Base64] : (piece raw : Text) → Prop
  | mk {piece raw block body boundary : Text} {headers : List Header} {all : List Text}
      (split : splitHeaderBody raw = .ok (block,body)) (known : parseHeaders block = .ok headers)
      (bound : partBoundary headers = some boundary) (taken : multipartSections body boundary = .ok all)
      (member : piece ∈ all) : PieceOf piece raw

/-- A section comes from behind the blank line that ends the headers. -/
theorem PieceOf.sublist [Base64] {piece raw : Text} (called : PieceOf piece raw) :
    ∃ block body, raw = block ++ "\n\n" ++ body ∧ piece.Sublist body := by
  obtain ⟨split,known,bound,taken,member⟩ := called
  have within := (List.sublist_flatten_of_mem member).trans (multipartSections_sublist taken)
  exact ⟨_,_,splitHeaderBody_some split,within⟩

theorem PieceOf.shorter [Base64] {piece raw : Text} (called : PieceOf piece raw) :
    piece.length < raw.length ∧ (utf8 piece).length < (utf8 raw).length := by
  obtain ⟨block,body,rfl,within⟩ := called.sublist
  have characters := within.length_le
  have bytes := utf8_length_le within
  have separator : (utf8 ("\n\n" : Text)).length = 2 := rfl
  simp only [utf8_append,List.length_append,separator]
  have newlines : ("\n\n" : Text).length = 2 := rfl
  rw [newlines]
  omega

theorem pieceOf_wellFounded [Base64] : WellFounded PieceOf :=
  Subrelation.wf (fun called => called.shorter.1) (measure List.length).wf

/-- `parse_message_raw` with its calls nested at most `depth` deep; there is no result
when that is not enough. -/
def parseWithin [Base64] : (depth : Nat) → Text → Compose ParsedMessage
  | 0, _ => ExceptT.mk none
  | depth + 1, raw => do
    let (rawHeaders,rawBody) ← Compose.ofResult (splitHeaderBody raw)
    let headers ← Compose.ofResult (parseHeaders rawHeaders)
    let contentType := (headerValue headers contentType).getD defaultTextContentType
    if ("multipart/" : Text).isPrefixOf (toAsciiLowercase (contentTypeBase contentType)) then
      match parseBoundary contentType with
      | none => throw "multipart MIME message is missing boundary"
      | some boundary =>
        let sections ← Compose.ofResult (multipartSections rawBody boundary)
        let parts ← sections.mapM (parseWithin depth)
        return ⟨headers,none,parts,false⟩
    else
      let (body,textBody) ← Compose.ofResult (decodeBody rawBody headers)
      return ⟨headers,some body,[],textBody⟩

theorem Compose.ofResult_mapM {α β : Type} {f : α → Compose β} {g : α → JsResult β} {list : List α}
    (each : ∀ a ∈ list, f a = Compose.ofResult (g a)) : list.mapM f = Compose.ofResult (list.mapM g) := by
  induction list with
  | nil => rfl
  | cons a list ih =>
    rw [List.mapM_cons,List.mapM_cons,each a List.mem_cons_self,ih fun b member => each b (List.mem_cons_of_mem _ member)]
    cases g a with
    | error e => rfl
    | ok b => cases list.mapM g <;> rfl

/-- A call on a text of `n` characters has its result with calls nested `n + 1` deep. -/
theorem parseWithin_eq [Base64] {depth : Nat} {raw : Text} (deep : raw.length < depth) :
    parseWithin depth raw = Compose.ofResult (parseMessageRaw raw) := by
  induction depth generalizing raw with
  | zero => contradiction
  | succ depth ih =>
    rw [parseWithin,parseMessageRaw_eq]
    cases split : splitHeaderBody raw with
    | error e => rfl
    | ok parts =>
      obtain ⟨rawHeaders,rawBody⟩ := parts
      change (Compose.ofResult (parseHeaders rawHeaders) >>= fun headers => _) =
        Compose.ofResult (parseHeaders rawHeaders >>= fun headers => parseBody headers rawBody)
      cases known : parseHeaders rawHeaders with
      | error e => rfl
      | ok headers =>
        rw [Compose.ofResult_ok]
        change _ = Compose.ofResult (parseBody headers rawBody)
        unfold parseBody
        dsimp only
        split
        · rename_i multipart
          cases bound : parseBoundary ((headerValue headers contentType).getD defaultTextContentType) with
          | none => rfl
          | some boundary =>
            dsimp only [Option.elim_some]
            cases taken : multipartSections rawBody boundary with
            | error e => rfl
            | ok sections =>
              have nested : ∀ piece ∈ sections, parseWithin depth piece = Compose.ofResult (parseMessageRaw piece) := by
                intro piece member
                have here : partBoundary headers = some boundary := (if_pos multipart).trans bound
                have shorter := (PieceOf.mk split known here taken member).shorter.1
                exact ih (by omega)
              rw [Compose.ofResult_ok,Compose.ofResult_mapM nested]
              change _ = Compose.ofResult ((sections.mapM parseMessageRaw).map _)
              cases sections.mapM parseMessageRaw <;> rfl
        · cases decodeBody rawBody headers <;> rfl

end Calls

/-- Every call of `parse_message_raw` returns: what it calls itself on is shorter, so that
its calls nest no deeper than the text is long. The sections of a body come from
the body one after the other, and together are no longer than it. -/
theorem parse_returns_without_amplification [Base64] (raw : Text) :
    (∀ piece, PieceOf piece raw → piece.length < raw.length ∧ (utf8 piece).length < (utf8 raw).length) ∧
    WellFounded PieceOf ∧
    (∀ depth, raw.length < depth → (parseWithin depth raw).run = some (parseMessageRaw raw)) ∧
    ∀ body boundary sections, multipartSections body boundary = .ok sections →
      sections.flatten.Sublist body ∧ (sections.map fun part => (utf8 part).length).sum ≤ (utf8 body).length := by
  refine ⟨fun piece called => called.shorter,pieceOf_wellFounded,fun depth deep => parseWithin_eq deep,?_⟩
  intro body boundary sections found
  have within := multipartSections_sublist found
  rw [utf8_length_sum]
  exact ⟨within,utf8_length_le within⟩

/-- A message under the empty boundary, with another one inside. -/
def emptyBoundary : Text :=
  "Content-Type: multipart/mixed; boundary=\n\n--\n--\nContent-Type: multipart/x; boundary=\"\"\n\n--\r\n--\n----\n----"

theorem parse_returns_without_amplification_at_emptyBoundary :
    (∃ piece, PieceOf piece emptyBoundary ∧ (utf8 piece).length < (utf8 emptyBoundary).length) ∧
      (parseWithin 200 emptyBoundary).run = some (parseMessageRaw emptyBoundary) := by
  obtain ⟨shorter,_,returns,_⟩ := parse_returns_without_amplification emptyBoundary
  have called : PieceOf "Content-Type: multipart/x; boundary=\"\"\n" emptyBoundary := by
    have cut : (splitHeaderBody emptyBoundary).toOption.map id =
        some (("Content-Type: multipart/mixed; boundary=" : Text),
          ("--\n--\nContent-Type: multipart/x; boundary=\"\"\n\n--\r\n--\n----\n----" : Text)) := by decide
    have headers : (parseHeaders "Content-Type: multipart/mixed; boundary=").toOption.map partBoundary =
        some (some []) := by decide +kernel
    have sections : (multipartSections
        "--\n--\nContent-Type: multipart/x; boundary=\"\"\n\n--\r\n--\n----\n----" []).toOption.map
          (·.contains "Content-Type: multipart/x; boundary=\"\"\n") = some true := by decide +kernel
    obtain ⟨_,split,rfl⟩ := toOption_map_some cut
    obtain ⟨headers,known,bound⟩ := toOption_map_some headers
    obtain ⟨all,taken,member⟩ := toOption_map_some sections
    exact .mk split known bound taken (List.contains_iff_mem.mp member)
  exact ⟨⟨_,called,(shorter _ called).2⟩,returns 200 (by decide +kernel)⟩

end MechanicsCore.Mime
