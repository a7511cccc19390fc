import MechanicsCore.Mime.Base64Lines
import MechanicsCore.Mime.Rendered

/-! Line endings of rendered messages. Every part of a rendering is written with
CRLF line endings but one: bytes sent as 7bit are written as they are. -/
namespace MechanicsCore.Mime
open MechanicsCore.Library Text Line Outcome

abbrev CrlfNormal (s : Text) : Prop := Paired '\r' '\n' s

theorem crlf_split (a b : Text) : CrlfNormal (a ++ '\r' :: '\n' :: b) ↔ CrlfNormal a ∧ CrlfNormal b :=
  paired_split (by decide) a b

section Encodings

theorem crlf_plain {s : Text} (noCr : '\r' ∉ s) (noLf : '\n' ∉ s) : CrlfNormal s := by
  have whole := (paired_append noCr noLf []).mpr .nil
  rwa [List.append_nil] at whole

theorem crlf_wire (lines : List Line) (s : Text) : CrlfNormal (wire lines ++ s) ↔ CrlfNormal s := by
  induction lines with
  | nil => rfl
  | cons line lines ih =>
    have written : wire (line::lines) ++ s = line.text ++ '\r' :: '\n' :: (wire lines ++ s) := by simp [wire]
    rw [written,crlf_split,ih]
    exact ⟨fun both => both.2,fun later => ⟨crlf_plain line.noCr line.noLf,later⟩⟩

theorem crlf_toCrlf {s : Text} (noCr : '\r' ∉ s) : CrlfNormal (toCrlf s) := by
  induction s with
  | nil => exact .nil
  | cons c s ih =>
    rw [List.mem_cons,not_or] at noCr
    have later := ih noCr.2
    unfold toCrlf at later ⊢
    rw [List.flatMap_cons]
    split
    · exact (paired_break (by decide) _).mpr later
    · rename_i notLf
      exact (paired_cons (Ne.symm noCr.1) notLf _).mpr later

theorem crlf_normalizeTextLines (content : Text) : CrlfNormal (normalizeTextLines content) := by
  rw [normalizeTextLines_eq]
  exact crlf_toCrlf (not_mem_toLf content)

theorem crlf_asciiText (bytes : List UInt8) : CrlfNormal (asciiText bytes) ↔ Paired 13 10 bytes := by
  have injective : ∀ a b : UInt8, Char.ofNat a.toNat = Char.ofNat b.toNat → a = b := by
    intro a b same
    have numbers := congrArg Char.toNat same
    rw [toNat_asciiChar,toNat_asciiChar] at numbers
    exact UInt8.toNat_inj.mp numbers
  exact paired_map (fun c => injective c 13) (fun c => injective c 10) bytes

end Encodings

/-- The bytes a leaf sends as they are. -/
def rawBytes (m : MimeMessage) : Option (List UInt8) :=
  match m.body with
  | some (.bytes bytes) => if askedEncoding m = some .sevenBit then some bytes else none
  | _ => none

theorem rawBytes_chosen {m : MimeMessage} {top : Bool} {chosen : TransferEncoding}
    (choice : chooseEncoding m (typed (versioned m.headers top)) = .ok chosen) {bytes : List UInt8}
    (raw : rawBytes m = some bytes) : m.body = some (.bytes bytes) ∧ chosen = .sevenBit := by
  unfold rawBytes at raw
  split at raw
  · rename_i content here
    split at raw
    · rename_i asked
      cases raw
      rcases chooseEncoding_asked choice with known | ⟨unknown,_⟩
      · exact ⟨here,Option.some.inj (known.symm.trans asked)⟩
      · simp [askedEncoding,unknown] at asked
    · contradiction
  · contradiction

theorem crlf_leaf [Base64] {headers : List Header} {body : Option MimeBody} {encoding : Option Text} {top : Bool}
    {out : Text} (rendered : (renderMessage ⟨headers,body,[],encoding⟩ top).run = some (.ok out)) :
    CrlfNormal out ↔ ∀ bytes, rawBytes ⟨headers,body,[],encoding⟩ = some bytes → Paired 13 10 bytes := by
  obtain ⟨chosen,head,text,choice,headed,encoded,rfl⟩ := renderMessage_leaf_iff.mp rendered
  obtain ⟨blocks,written,_⟩ := renderHeaders_blocks (renderHeaders_valid headed)
  rw [written] at headed
  cases headed
  have start : CrlfNormal (wire (blocks.flatMap HeaderBlock.lines) ++ "\r\n" ++ text) ↔ CrlfNormal text := by
    rw [List.append_assoc,crlf_wire]
    exact paired_break (by decide) text
  rw [start]
  rcases renderBody_cases encoded with ⟨content,plain,_,rfl⟩ | ⟨bytes,rfl,rfl,ascii,rfl⟩ | ⟨rfl,rfl⟩ | ⟨rfl,rfl⟩
  · refine ⟨fun _ bytes raw => ?_,fun _ => crlf_normalizeTextLines content⟩
    obtain ⟨rfl,_⟩ := rawBytes_chosen choice raw
    contradiction
  · have raw : rawBytes ⟨headers,some (.bytes bytes),[],encoding⟩ = some bytes := by
      rcases chooseEncoding_asked choice with asked | ⟨_,default⟩
      · exact if_pos asked
      · exact absurd (default bytes rfl) (by decide)
    rw [crlf_asciiText,raw]
    exact ⟨fun paired other same => Option.some.inj same ▸ paired,fun all => all bytes rfl⟩
  · refine ⟨fun _ bytes raw => ?_,fun _ => paired_qpEncode _⟩
    exact absurd (rawBytes_chosen choice raw).2 (by decide)
  · refine ⟨fun _ bytes raw => ?_,fun _ => paired_base64EncodeWrapped _⟩
    exact absurd (rawBytes_chosen choice raw).2 (by decide)

theorem crlf_framed {boundary : Text} (noLf : '\n' ∉ boundary) (noCr : '\r' ∉ boundary) (rs : List Text) :
    CrlfNormal (framed boundary rs) ↔ ∀ r ∈ rs, CrlfNormal r := by
  have marked : CrlfNormal ("--" ++ boundary : Text) := crlf_plain (by simp [noCr]) (by simp [noLf])
  induction rs with
  | nil =>
    have closing : framed boundary [] = ("--" ++ boundary ++ "--" : Text) ++ '\r' :: '\n' :: [] := by simp [framed]
    rw [closing,crlf_split]
    exact ⟨by simp,fun _ => ⟨crlf_plain (by simp [noCr]) (by simp [noLf]),.nil⟩⟩
  | cons r rs ih =>
    have opening : framed boundary (r::rs) =
        ("--" ++ boundary : Text) ++ '\r' :: '\n' :: (r ++ '\r' :: '\n' :: framed boundary rs) := by simp [framed]
    rw [opening,crlf_split,crlf_split,List.forall_mem_cons]
    exact ⟨fun all => ⟨all.2.1,ih.mp all.2.2⟩,fun all => ⟨marked,all.1,ih.mpr all.2⟩⟩

/-- A rendering has CRLF line endings exactly when all bytes that are sent as they
are have. -/
theorem composed_crlf_iff [Base64] (m : MimeMessage) (top : Bool) (out : Text)
    (rendered : (renderMessage m top).run = some (.ok out)) :
    CrlfNormal out ↔ ∀ leaf, LeafOf leaf m → ∀ bytes, rawBytes leaf = some bytes → Paired 13 10 bytes := by
  induction m using MimeMessage.induct generalizing top out with
  | step headers body parts encoding ih =>
    by_cases leaf : parts = []
    · subst leaf
      rw [crlf_leaf rendered]
      exact ⟨fun own leaf below => below.eq ▸ own,fun all => all _ (.self headers body encoding)⟩
    · obtain ⟨boundary,head,text,_,headed,framing,rfl⟩ := (renderMessage_node_iff leaf).mp rendered
      obtain ⟨noLf,noCr⟩ := boundary_plain headed
      obtain ⟨blocks,written,_⟩ := renderHeaders_blocks (renderHeaders_valid headed)
      rw [written] at headed
      cases headed
      obtain ⟨rs,renderings,rfl⟩ := renderParts_iff.mp framing
      have start : CrlfNormal (wire (blocks.flatMap HeaderBlock.lines) ++ "\r\n" ++ framed boundary rs) ↔
          CrlfNormal (framed boundary rs) := by
        rw [List.append_assoc,crlf_wire]
        exact paired_break (by decide) _
      rw [start,crlf_framed noLf noCr]
      constructor
      · intro all leaf below
        cases below with
        | self => contradiction
        | part leaf p headers body parts encoding member below =>
          obtain ⟨r,found,rendering⟩ := exists_right renderings member
          exact (ih p member false r rendering).mp (all r found) leaf below
      · intro all r member
        obtain ⟨p,found,rendering⟩ := exists_left renderings member
        exact (ih p found false r rendering).mpr fun leaf below =>
          all leaf (.part leaf p headers body parts encoding found below)

/-- A line feed in bytes sent as 7bit comes out alone. -/
def bareLineFeed : MimeMessage := ⟨[],some (.bytes [10]),[],some "7bit"⟩

theorem bareLineFeed_written : ∃ out, (renderMessage bareLineFeed true).run = some (.ok out) ∧ ¬ CrlfNormal out := by
  obtain ⟨out,rendered,ends⟩ := rendered_witness bareLineFeed true
    (fun out => out.getLast? == some '\n' && out.dropLast.getLast? == some '\n') (by decide +kernel)
  simp only [Bool.and_eq_true,beq_iff_eq] at ends
  refine ⟨out,rendered,fun paired => ?_⟩
  have last := paired.precedes out.dropLast [] (List.dropLast_append_getLast? '\n' ends.1).symm
  simp [ends.2] at last

def mixedMessage : MimeMessage :=
  ⟨[],none,[⟨[],some (.text "a\nb"),[],none⟩,⟨[],some (.bytes [13,10]),[],some "7bit"⟩,
    ⟨[],some (.bytes [10]),[],some "base64"⟩],none⟩

theorem composed_crlf_iff_at_mixedMessage : ∃ out, (renderMessage mixedMessage true).run = some (.ok out) ∧
    CrlfNormal out := by
  obtain ⟨out,rendered,_⟩ := rendered_witness mixedMessage true (fun _ => true) (by decide +kernel)
  refine ⟨out,rendered,(composed_crlf_iff mixedMessage true out rendered).mpr fun leaf below bytes raw => ?_⟩
  have crlf : Paired 13 10 ([13,10] : List UInt8) := (paired_break (by decide) []).mpr .nil
  obtain ⟨p,member,inside⟩ := below.inside
  simp only [List.mem_cons,List.not_mem_nil,or_false] at member
  rcases member with rfl | rfl | rfl
  · rw [inside.eq] at raw
    contradiction
  · rw [inside.eq] at raw
    have sent : rawBytes ⟨[],some (.bytes [13,10]),[],some "7bit"⟩ = some [13,10] := by decide
    rw [sent] at raw
    exact Option.some.inj raw ▸ crlf
  · rw [inside.eq] at raw
    have encoded : rawBytes ⟨[],some (.bytes [10]),[],some "base64"⟩ = none := by decide
    rw [encoded] at raw
    contradiction

end MechanicsCore.Mime
