import MechanicsCore.Library.Framing
import MechanicsCore.Library.Lines
import MechanicsCore.Mime.Compose
import MechanicsCore.Mime.Parse

/-! The line format of messages without headers of their own. Multiparts are nodes
keyed by their boundaries and text bodies are leaves; `parse_message_raw` is a
reader of this format. -/
namespace MechanicsCore.Mime
open MechanicsCore.Library Text Line

def boundaryChar (c : Char) : Bool := c.isLower || c.isDigit || c == '-'

theorem boundaryChar_ascii {c : Char} (known : boundaryChar c = true) : c.toNat < 128 := by
  have ranges : (decide (97 ≤ c.val) && decide (c.val ≤ 122) || decide (48 ≤ c.val) && decide (c.val ≤ 57) ||
      c == '-') = true := known
  simp only [Bool.or_eq_true,Bool.and_eq_true,decide_eq_true_eq,beq_iff_eq,UInt32.le_iff_toNat_le] at ranges
  rcases ranges with (⟨_,small⟩ | ⟨_,small⟩) | rfl
  · exact Nat.lt_of_le_of_lt small (by decide)
  · exact Nat.lt_of_le_of_lt small (by decide)
  · decide

/-- A line of boundary characters. -/
def Wordy (line : Text) : Prop := line ≠ [] ∧ ∀ c ∈ line, boundaryChar c = true

theorem Wordy.not_mem {line : Text} (wordy : Wordy line) {c : Char} (other : boundaryChar c = false) : c ∉ line := by
  intro member
  simp [wordy.2 c member] at other

theorem Wordy.ascii {line : Text} (wordy : Wordy line) : ∀ c ∈ line, c.toNat < 128 := fun c member =>
  boundaryChar_ascii (wordy.2 c member)

structure Boundary where
  text : Text
  chars : ∀ c ∈ text, boundaryChar c = true
  ends : text.getLast? ≠ some '-'

namespace Boundary

theorem ext_text {a b : Boundary} (same : a.text = b.text) : a = b := by
  cases a
  cases b
  cases same
  rfl

theorem not_mem (b : Boundary) {c : Char} (other : boundaryChar c = false) : c ∉ b.text := by
  intro member
  simp [b.chars c member] at other

theorem ascii (b : Boundary) : ∀ c ∈ b.text, c.toNat < 128 := fun c member => boundaryChar_ascii (b.chars c member)

def marker (b : Boundary) : Line where
  text := "--" ++ b.text
  noLf := by simp [b.not_mem (c := '\n') (by decide)]
  noCr := by simp [b.not_mem (c := '\r') (by decide)]

def closer (b : Boundary) : Line where
  text := "--" ++ b.text ++ "--"
  noLf := by simp [b.not_mem (c := '\n') (by decide)]
  noCr := by simp [b.not_mem (c := '\r') (by decide)]

private theorem dashes_chars : ∀ c ∈ ("--" : Text), boundaryChar c = true := List.all_eq_true.mp (by decide)

theorem marker_wordy (b : Boundary) : Wordy b.marker.text := by
  refine ⟨by simp [marker],fun c member => ?_⟩
  rcases List.mem_append.mp member with first | inside
  · exact dashes_chars c first
  · exact b.chars c inside

theorem closer_wordy (b : Boundary) : Wordy b.closer.text := by
  refine ⟨by simp [closer],fun c member => ?_⟩
  rcases List.mem_append.mp member with front | last
  · exact b.marker_wordy.2 c front
  · exact dashes_chars c last

/-- The content type of a multipart without a content type of its own. -/
def typeText (b : Boundary) : Text := "multipart/mixed; boundary=\"" ++ b.text ++ "\""

theorem typeText_not_mem (b : Boundary) {c : Char} (other : boundaryChar c = false)
    (absent : c ∉ ("multipart/mixed; boundary=\"" : Text)) : c ∉ b.typeText := by
  have quote : c ∉ ("\"" : Text) := by
    intro last
    have same : c = '"' := by simpa using last
    exact absent (by simp [same])
  unfold typeText
  rw [List.mem_append,List.mem_append,not_or,not_or]
  exact ⟨⟨absent,b.not_mem other⟩,quote⟩

theorem typeLine_not_mem (b : Boundary) {c : Char} (other : boundaryChar c = false)
    (absent : c ∉ contentType ++ ": " ++ ("multipart/mixed; boundary=\"" : Text)) :
    c ∉ contentType ++ ": " ++ b.typeText := by
  rw [List.mem_append,not_or] at absent ⊢
  exact ⟨absent.1,b.typeText_not_mem other absent.2⟩

end Boundary

theorem contentType_cons : contentType = 'C' :: ("ontent-Type" : Text) := rfl

theorem mimeVersion_cons : mimeVersion = 'M' :: ("IME-Version" : Text) := rfl

def versionHeaders (top : Bool) : List Header := if top then [⟨mimeVersion,"1.0"⟩] else []

def textEncoding (content : Text) : TransferEncoding := if isAscii content then .sevenBit else .quotedPrintable

def leafHeaders (top : Bool) (content : Text) : List Header :=
  versionHeaders top ++ [⟨contentType,defaultTextContentType⟩,⟨contentTransferEncoding,(textEncoding content).token⟩]

def nodeHeaders (top : Bool) (b : Boundary) : List Header := versionHeaders top ++ [⟨contentType,b.typeText⟩]

def versionLines (top : Bool) : List Line :=
  if top then [⟨mimeVersion ++ ": " ++ "1.0",by decide,by decide⟩] else []

/-- The content type header of a multipart, folded when it exceeds the line length. -/
def typeLines (b : Boundary) : List Line :=
  if (utf8 (contentType ++ ": " ++ b.typeText)).length ≤ 78 then
    [⟨contentType ++ ": " ++ b.typeText,b.typeLine_not_mem (by decide) (by decide),
      b.typeLine_not_mem (by decide) (by decide)⟩]
  else
    [⟨contentType ++ ": " ++ "multipart/mixed;",by decide,by decide⟩,
      ⟨" boundary=\"" ++ b.text ++ "\"",by simp [b.not_mem (c := '\n') (by decide)],
        by simp [b.not_mem (c := '\r') (by decide)]⟩]

def encodingLine (content : Text) : Line :=
  match textEncoding content with
  | .sevenBit => ⟨contentTransferEncoding ++ ": 7bit",by decide,by decide⟩
  | _ => ⟨contentTransferEncoding ++ ": quoted-printable",by decide,by decide⟩

def bodyText (content : Text) : Text :=
  match textEncoding content with
  | .sevenBit => normalizeTextLines content
  | _ => qpEncode (utf8 (normalizeTextLines content))

def leafHead (top : Bool) (content : Text) : List Line :=
  versionLines top ++ [⟨contentType ++ ": " ++ defaultTextContentType,by decide,by decide⟩,encodingLine content]

def nodeHead (top : Bool) (b : Boundary) : List Line := versionLines top ++ typeLines b

/-- A line that is neither blank nor a delimiter. -/
def Worded (line : Line) : Prop := line.text ≠ [] ∧ line.text.head? ≠ some '-'

theorem versionLines_worded (top : Bool) (line : Line) (member : line ∈ versionLines top) : Worded line := by
  cases top with
  | false => simp [versionLines] at member
  | true =>
    simp only [versionLines,if_true,List.mem_singleton] at member
    simp [member,Worded,mimeVersion_cons]

theorem nodeHead_worded (top : Bool) (b : Boundary) (line : Line) (member : line ∈ nodeHead top b) : Worded line := by
  rcases List.mem_append.mp member with first | later
  · exact versionLines_worded top line first
  · unfold typeLines at later
    split at later
    · cases List.mem_singleton.mp later
      simp [Worded,contentType_cons]
    · simp only [List.mem_cons,List.not_mem_nil,or_false] at later
      rcases later with rfl | rfl <;> simp [Worded,contentType_cons]

theorem leafHead_worded (top : Bool) (content : Text) (line : Line) (member : line ∈ leafHead top content) :
    Worded line := by
  rcases List.mem_append.mp member with first | later
  · exact versionLines_worded top line first
  · simp only [List.mem_cons,List.not_mem_nil,or_false] at later
    rcases later with rfl | rfl
    · simp [Worded,contentType_cons]
    · unfold Worded encodingLine
      split <;> decide

theorem nodeHead_ne_nil (top : Bool) (b : Boundary) : nodeHead top b ≠ [] := by
  unfold nodeHead typeLines
  split <;> simp

def mimeFormat : Format Line Boundary Text where
  marker := Boundary.marker
  closer := Boundary.closer
  head top b := nodeHead top b ++ [blank]
  text top content := leafHead top content ++ blank :: ofText (bodyText content)
  foot := [blank]
  marker_injective a b same := by
    have texts : a.marker.text = b.marker.text := congrArg Line.text same
    exact Boundary.ext_text (List.append_cancel_left texts)
  closer_injective a b same := by
    have texts : a.closer.text = b.closer.text := congrArg Line.text same
    exact Boundary.ext_text (List.append_cancel_left (List.append_cancel_right texts))
  closer_ne_marker a b same := by
    have texts : a.closer.text = b.marker.text := congrArg Line.text same
    have whole : ("--" : Text) ++ (a.text ++ "--") = "--" ++ b.text := by
      rw [← List.append_assoc]
      exact texts
    exact b.ends (by rw [← List.append_cancel_left whole]; simp)
  head_free b top b' := by
    have blankless : ∀ line : Line, line ∈ nodeHead top b' ++ [blank] → line.text.head? ≠ some '-' := by
      intro line member
      rcases List.mem_append.mp member with inside | last
      · exact (nodeHead_worded top b' line inside).2
      · cases List.mem_singleton.mp last
        simp [blank]
    exact ⟨fun member => blankless _ member (by simp [Boundary.marker]),
      fun member => blankless _ member (by simp [Boundary.closer])⟩
  foot_free b := by
    have inked : b.marker ≠ blank ∧ b.closer ≠ blank :=
      ⟨fun same => by simpa [Boundary.marker,blank] using congrArg Line.text same,
        fun same => by simpa [Boundary.closer,blank] using congrArg Line.text same⟩
    simp [inked.1,inked.2]

end MechanicsCore.Mime
