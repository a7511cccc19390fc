import MechanicsCore.Mime.Frames

/-! Where long header lines are cut. The loop of `fold_header_line` takes words
together up to the limit: it cuts a line at the first space whose following word would
end beyond it and goes on with what follows; spaces at the start of a chunk are lost. -/
namespace MechanicsCore.Mime
open MechanicsCore.Library Text

section Loop

/-- The loop of `fold_header_line` as the chunks it cuts the words into. -/
def foldChunks : List Text → (current : Text) → List Text
  | [], current => [current]
  | word::words, current =>
    if overflows current word then current :: foldChunks words word else foldChunks words (addWord current word)

def spaced (words : List Text) : Text := words.flatMap (' ' :: ·)

theorem foldChunks_ne_nil (words : List Text) (current : Text) : foldChunks words current ≠ [] := by
  induction words generalizing current with
  | nil => simp [foldChunks]
  | cons word words ih =>
    rw [foldChunks]
    split
    · simp
    · exact ih _

private theorem intercalate_chunks (words : List Text) (chunk word : Text) :
    ("\r\n " : Text).intercalate (chunk :: foldChunks words word) =
      chunk ++ "\r\n " ++ ("\r\n " : Text).intercalate (foldChunks words word) := by
  obtain ⟨next,more,chunks⟩ := List.exists_cons_of_ne_nil (foldChunks_ne_nil words word)
  rw [chunks,List.intercalate_cons_cons]

theorem foldWords_chunks (words : List Text) {folded : Text} (ink : folded ≠ []) (current : Text) :
    (foldWords words folded current).1 ≠ [] ∧
      (foldWords words folded current).1 ++ "\r\n " ++ (foldWords words folded current).2 =
        folded ++ "\r\n " ++ ("\r\n " : Text).intercalate (foldChunks words current) := by
  induction words generalizing folded current with
  | nil => exact ⟨ink,by simp [foldWords,foldChunks]⟩
  | cons word words ih =>
    have started : folded.isEmpty = false := by simpa using ink
    rw [foldWords_cons,foldChunks,started,if_neg Bool.false_ne_true]
    split
    · have begun : (folded ++ "\r\n " ++ current : Text) ≠ [] := by simp
      obtain ⟨kept,glued⟩ := ih begun word
      refine ⟨kept,glued.trans ?_⟩
      rw [intercalate_chunks]
      simp
    · exact ih ink _

/-- From the first word on: either one chunk, or the chunks with breaks between them. -/
theorem foldWords_line (words : List Text) {current : Text} (ink : current ≠ []) :
    foldWords words [] current = ([],current ++ spaced words) ∧ foldChunks words current = [current ++ spaced words] ∨
      (foldWords words [] current).1 ≠ [] ∧ 2 ≤ (foldChunks words current).length ∧
        (foldWords words [] current).1 ++ "\r\n " ++ (foldWords words [] current).2 =
          ("\r\n " : Text).intercalate (foldChunks words current) := by
  induction words generalizing current with
  | nil => exact .inl ⟨by simp [foldWords,spaced],by simp [foldChunks,spaced]⟩
  | cons word words ih =>
    have started : current.isEmpty = false := by simpa using ink
    rw [foldWords_cons,foldChunks]
    split
    · obtain ⟨kept,glued⟩ := foldWords_chunks words ink word
      have more := List.length_pos_iff.mpr (foldChunks_ne_nil words word)
      exact .inr ⟨kept,by rw [List.length_cons]; omega,glued.trans (intercalate_chunks words current word).symm⟩
    · have added : addWord current word = current ++ ' ' :: word := by simp [addWord,started]
      have same : addWord current word ++ spaced words = current ++ spaced (word::words) := by simp [added,spaced]
      have begun : addWord current word ≠ [] := by simp [added]
      have later := ih begun
      rw [same] at later
      exact later

theorem foldWords_start (words : List Text) :
    (foldWords words [] []).1 = [] ∧ (foldChunks words []).length = 1 ∨
      (foldWords words [] []).1 ≠ [] ∧ 2 ≤ (foldChunks words []).length ∧
        (foldWords words [] []).1 ++ "\r\n " ++ (foldWords words [] []).2 =
          ("\r\n " : Text).intercalate (foldChunks words []) := by
  induction words with
  | nil => exact .inl ⟨rfl,rfl⟩
  | cons word words ih =>
    have begin : overflows [] word = false ∧ addWord [] word = word := ⟨rfl,rfl⟩
    rw [foldWords_cons,foldChunks,begin.1,begin.2,if_neg Bool.false_ne_true,if_neg Bool.false_ne_true]
    by_cases empty : word = []
    · rw [empty]
      exact ih
    · rcases foldWords_line words empty with ⟨single,chunks⟩ | several
      · exact .inl ⟨by rw [single],by rw [chunks]; rfl⟩
      · exact .inr several

end Loop

section Cuts

def firstWord (s : Text) : Text := s.takeWhile (· != ' ')

def dropSpaces (s : Text) : Text := s.dropWhile (· == ' ')

/-- With the word behind the space the line would be longer than 78 bytes. -/
def Overruns (chunk rest : Text) : Prop := 78 < (utf8 chunk).length + 1 + (utf8 (firstWord rest)).length

def Uncut (s : Text) : Prop := ∀ a b, s = a ++ ' ' :: b → ¬ Overruns a b

/-- The first space of a text whose following word overruns. -/
structure Cut (s chunk rest : Text) : Prop where
  split : s = chunk ++ ' ' :: rest
  overrun : Overruns chunk rest
  first : ∀ a b, s = a ++ ' ' :: b → a.length < chunk.length → ¬ Overruns a b

/-- A line is folded between a chunk and the rest: at its first cut, or within what
follows that cut. -/
inductive FoldedAt : (line chunk rest : Text) → Prop
  | here {line chunk rest : Text} (cut : Cut (dropSpaces line) chunk rest) : FoldedAt line chunk rest
  | later {line first next chunk rest : Text} (cut : Cut (dropSpaces line) first next) (fold : FoldedAt next chunk rest) :
      FoldedAt line chunk rest

/-- Two spaces of one text: the second is the first one, or stands before or behind it. -/
theorem space_cases {current t a b : Text} (same : current ++ ' ' :: t = a ++ ' ' :: b) :
    (∃ c, current = a ++ ' ' :: c ∧ b = c ++ ' ' :: t) ∨ a = current ∧ b = t ∨
      ∃ c, a = current ++ ' ' :: c ∧ t = c ++ ' ' :: b := by
  rcases List.append_eq_append_iff.mp same with ⟨c,rfl,behind⟩ | ⟨c,rfl,behind⟩
  · cases c with
    | nil => exact .inr (.inl ⟨List.append_nil _,(List.cons.inj behind).2.symm⟩)
    | cons d c =>
      obtain ⟨rfl,rest⟩ := List.cons.inj behind
      exact .inr (.inr ⟨c,rfl,rest⟩)
  · cases c with
    | nil => exact .inr (.inl ⟨(List.append_nil _).symm,(List.cons.inj behind).2⟩)
    | cons d c =>
      obtain ⟨rfl,rest⟩ := List.cons.inj behind
      exact .inl ⟨c,rfl,rest⟩

theorem mem_of_dropSpaces {s : Text} {c : Char} (inside : c ∈ dropSpaces s) : c ∈ s :=
  (List.dropWhile_suffix (· == ' ')).subset inside

theorem dropSpaces_ne (s t : Text) : dropSpaces s ≠ ' ' :: t := by
  intro same
  have head := List.head?_dropWhile_not (· == ' ') s
  rw [show s.dropWhile (· == ' ') = ' ' :: t from same] at head
  simp at head

theorem dropSpaces_length (s : Text) : (dropSpaces s).length ≤ s.length := (List.dropWhile_suffix (· == ' ')).length_le

theorem dropSpaces_eq {s : Text} (long : s.length ≤ (dropSpaces s).length) : dropSpaces s = s :=
  (List.dropWhile_suffix (· == ' ')).eq_of_length_le long

theorem firstWord_append (b t : Text) : firstWord (b ++ ' ' :: t) = firstWord b := by
  induction b with
  | nil => rfl
  | cons c b ih =>
    unfold firstWord at ih ⊢
    rw [List.cons_append,List.takeWhile_cons,List.takeWhile_cons,ih]

theorem firstWord_word {w : Text} (word : ' ' ∉ w) : firstWord w = w := by
  rw [firstWord,List.takeWhile_eq_self_iff]
  intro c member
  have other : c ≠ ' ' := fun same => word (same ▸ member)
  simpa using other

theorem Cut.unique {s chunk rest chunk' rest' : Text} (cut : Cut s chunk rest) (cut' : Cut s chunk' rest') :
    chunk = chunk' ∧ rest = rest' := by
  have same : chunk.length = chunk'.length := by
    rcases Nat.lt_trichotomy chunk.length chunk'.length with shorter | same | longer
    · exact absurd cut.overrun (cut'.first chunk rest cut.split shorter)
    · exact same
    · exact absurd cut'.overrun (cut.first chunk' rest' cut'.split longer)
  obtain ⟨chunks,rests⟩ := List.append_inj (cut.split.symm.trans cut'.split) same
  exact ⟨chunks,List.tail_eq_of_cons_eq rests⟩

theorem Cut.ink {s chunk rest : Text} (cut : Cut (dropSpaces s) chunk rest) : chunk ≠ [] := by
  rintro rfl
  exact dropSpaces_ne s rest cut.split

theorem Uncut.not_cut {s chunk rest : Text} (uncut : Uncut s) : ¬ Cut s chunk rest := fun cut =>
  uncut chunk rest cut.split cut.overrun

theorem Uncut.not_folded {line chunk rest : Text} (uncut : Uncut (dropSpaces line)) : ¬ FoldedAt line chunk rest := by
  intro fold
  cases fold with
  | here cut => exact uncut.not_cut cut
  | later cut _ => exact uncut.not_cut cut

theorem Cut.forall_folds {line first next : Text} (cut : Cut (dropSpaces line) first next) (P : Text → Text → Prop) :
    (∀ chunk rest, FoldedAt line chunk rest → P chunk rest) ↔
      P first next ∧ ∀ chunk rest, FoldedAt next chunk rest → P chunk rest := by
  constructor
  · intro all
    exact ⟨all first next (.here cut),fun chunk rest fold => all chunk rest (.later cut fold)⟩
  · rintro ⟨here,others⟩ chunk rest fold
    cases fold with
    | here other =>
      obtain ⟨rfl,rfl⟩ := other.unique cut
      exact here
    | later other fold =>
      obtain ⟨rfl,rfl⟩ := other.unique cut
      exact others chunk rest fold

end Cuts

section Chunks

def chunksOf (s : Text) : List Text := foldChunks (s.splitOn ' ') []

theorem chunksOf_dropSpaces (s : Text) : chunksOf (dropSpaces s) = chunksOf s := by
  induction s with
  | nil => rfl
  | cons c s ih =>
    by_cases space : c = ' '
    · subst space
      have skipped : chunksOf (' ' :: s) = chunksOf s := by
        rw [chunksOf,splitOn_cons,if_pos rfl,foldChunks]
        rfl
      rw [skipped,← ih]
      rfl
    · have kept : dropSpaces (c::s) = c::s := List.dropWhile_cons_of_neg (by simpa using space)
      rw [kept]

theorem chunksOf_word {w : Text} (word : ' ' ∉ w) : chunksOf w = [w] := by
  rw [chunksOf,List.splitOn_eq_singleton word]
  rfl

theorem chunksOf_words {w : Text} (word : ' ' ∉ w) (t : Text) :
    chunksOf (w ++ ' ' :: t) = foldChunks (t.splitOn ' ') w := by
  rw [chunksOf,List.splitOn_append_cons_self_of_not_mem word]
  rfl

theorem overflows_iff {current : Text} (ink : current ≠ []) (w : Text) :
    overflows current w = true ↔ 78 < (utf8 current).length + 1 + (utf8 w).length := by
  have started : current.isEmpty = false := by simpa using ink
  simp [overflows,started]

/-- The spaces of the pending chunk have been passed. -/
def Passed (current t : Text) : Prop := ∀ a b, current = a ++ ' ' :: b → ¬ Overruns a (b ++ ' ' :: t)

theorem Passed.cut {current t : Text} (passed : Passed current t) (overrun : Overruns current t) :
    Cut (current ++ ' ' :: t) current t := by
  refine ⟨rfl,overrun,fun a b same shorter => ?_⟩
  rcases space_cases same with ⟨c,before,rfl⟩ | ⟨rfl,_⟩ | ⟨c,rfl,_⟩
  · exact passed a c before
  · exact absurd shorter (Nat.lt_irrefl _)
  · simp at shorter

theorem Passed.uncut {current t : Text} (passed : Passed current t) (under : ¬ Overruns current t) (last : ' ' ∉ t) :
    Uncut (current ++ ' ' :: t) := by
  intro a b same
  rcases space_cases same with ⟨c,before,rfl⟩ | ⟨rfl,rfl⟩ | ⟨c,_,rfl⟩
  · exact passed a c before
  · exact under
  · exact absurd (by simp) last

theorem Passed.next {current w t : Text} (passed : Passed current (w ++ ' ' :: t)) (word : ' ' ∉ w)
    (under : ¬ Overruns current (w ++ ' ' :: t)) : Passed (current ++ ' ' :: w) t := by
  intro a b same
  rcases space_cases same with ⟨c,before,rfl⟩ | ⟨rfl,rfl⟩ | ⟨c,_,rfl⟩
  · rw [List.append_assoc]
    exact passed a c before
  · exact under
  · exact absurd (by simp) word

/-- From the pending chunk on the loop goes to the end of the text, or to the first cut. -/
theorem foldChunks_cut (t : Text) {current : Text} (ink : current ≠ []) (passed : Passed current t) :
    Uncut (current ++ ' ' :: t) ∧ foldChunks (t.splitOn ' ') current = [current ++ ' ' :: t] ∨
      ∃ chunk rest, Cut (current ++ ' ' :: t) chunk rest ∧
        foldChunks (t.splitOn ' ') current = chunk :: chunksOf rest := by
  induction length : t.length using Nat.strong_induction_on generalizing t current with
  | _ n ih =>
    have added : ∀ w, addWord current w = current ++ ' ' :: w := fun w => by simp [addWord,ink]
    by_cases several : ' ' ∈ t
    · obtain ⟨w,later,rfl,word⟩ := List.eq_append_cons_of_mem several
      have limit : overflows current w = true ↔ Overruns current (w ++ ' ' :: later) := by
        rw [overflows_iff ink,Overruns,firstWord_append,firstWord_word word]
      rw [List.splitOn_append_cons_self_of_not_mem word,foldChunks]
      split
      · rename_i overrun
        exact .inr ⟨current,_,passed.cut (limit.mp overrun),by rw [chunksOf_words word]⟩
      · rename_i under
        rw [limit] at under
        have shorter : later.length < n := by
          rw [← length,List.length_append,List.length_cons]
          omega
        have begun : current ++ ' ' :: w ≠ [] := by simp
        have found := ih _ shorter later begun (passed.next word under) rfl
        rw [List.append_assoc,List.cons_append] at found
        rw [added]
        exact found
    · have limit : overflows current t = true ↔ Overruns current t := by
        rw [overflows_iff ink,Overruns,firstWord_word several]
      rw [List.splitOn_eq_singleton several,foldChunks]
      split
      · rename_i overrun
        exact .inr ⟨current,t,passed.cut (limit.mp overrun),by rw [chunksOf_word several,foldChunks]⟩
      · rename_i under
        rw [limit] at under
        exact .inl ⟨passed.uncut under several,by rw [foldChunks,added]⟩

theorem chunksOf_cut (s : Text) : Uncut (dropSpaces s) ∧ chunksOf s = [dropSpaces s] ∨
    ∃ chunk rest, Cut (dropSpaces s) chunk rest ∧ chunksOf s = chunk :: chunksOf rest := by
  rw [← chunksOf_dropSpaces]
  have starts := dropSpaces_ne s
  by_cases several : ' ' ∈ dropSpaces s
  · obtain ⟨w,t,same,word⟩ := List.eq_append_cons_of_mem several
    rw [same] at starts ⊢
    have ink : w ≠ [] := by
      rintro rfl
      exact starts t rfl
    rw [chunksOf_words word]
    refine foldChunks_cut t ink fun a b inside => absurd ?_ word
    rw [inside]
    simp
  · refine .inl ⟨fun a b inside => absurd ?_ several,chunksOf_word several⟩
    rw [inside]
    simp

theorem Cut.chunks {s chunk rest : Text} (cut : Cut (dropSpaces s) chunk rest) : chunksOf s = chunk :: chunksOf rest := by
  rcases chunksOf_cut s with ⟨uncut,_⟩ | ⟨chunk',rest',cut',chunks⟩
  · exact absurd cut uncut.not_cut
  · obtain ⟨rfl,rfl⟩ := cut.unique cut'
    exact chunks

/-- Induction along the cuts of a line. -/
theorem cut_induction {motive : Text → Prop}
    (whole : ∀ s, Uncut (dropSpaces s) → chunksOf s = [dropSpaces s] → motive s)
    (cut : ∀ s chunk rest, Cut (dropSpaces s) chunk rest → chunksOf s = chunk :: chunksOf rest → motive rest → motive s)
    (s : Text) : motive s := by
  induction length : s.length using Nat.strong_induction_on generalizing s with
  | _ n ih =>
    rcases chunksOf_cut s with ⟨uncut,chunks⟩ | ⟨chunk,rest,found,chunks⟩
    · exact whole s uncut chunks
    · have shorter : rest.length < n := by
        have kept := dropSpaces_length s
        rw [found.split,List.length_append,List.length_cons] at kept
        omega
      exact cut s chunk rest found chunks (ih _ shorter rest rfl)

theorem chunksOf_ne_nil (s : Text) : chunksOf s ≠ [] := foldChunks_ne_nil _ _

theorem infix_dropSpaces (s : Text) : dropSpaces s <:+: s := (List.dropWhile_suffix (· == ' ')).isInfix

theorem infix_chunksOf {s chunk : Text} (member : chunk ∈ chunksOf s) : chunk <:+: s := by
  induction s using cut_induction generalizing chunk with
  | whole s _ chunks =>
    rw [chunks,List.mem_singleton] at member
    rw [member]
    exact infix_dropSpaces s
  | cut s first rest cut chunks ih =>
    refine List.IsInfix.trans ?_ (infix_dropSpaces s)
    rw [cut.split]
    rw [chunks] at member
    rcases List.mem_cons.mp member with rfl | later
    · exact (List.prefix_append _ _).isInfix
    · exact (List.infix_cons (ih later)).trans (List.suffix_append _ _).isInfix

end Chunks

section Bytes

theorem utf8_space (a b : Text) : (utf8 (a ++ ' ' :: b)).length = (utf8 a).length + 1 + (utf8 b).length := by
  have space : (String.utf8EncodeChar ' ').length = 1 := by decide
  rw [utf8_append,utf8_cons,List.length_append,List.length_append,space]
  omega

theorem utf8_mono {a b : Text} (start : a <+: b) : (utf8 a).length ≤ (utf8 b).length := by
  obtain ⟨rest,rfl⟩ := start
  rw [utf8_append,List.length_append]
  omega

theorem utf8_dropSpaces (s : Text) : (utf8 (dropSpaces s)).length ≤ (utf8 s).length := by
  obtain ⟨spaces,same⟩ := List.dropWhile_suffix (l := s) (· == ' ')
  change spaces ++ dropSpaces s = s at same
  conv => rhs; rw [← same,utf8_append,List.length_append]
  omega

theorem Overruns.long {a b : Text} (overrun : Overruns a b) : 78 < (utf8 (a ++ ' ' :: b)).length := by
  have word : (utf8 (firstWord b)).length ≤ (utf8 b).length := utf8_mono (List.takeWhile_prefix _)
  unfold Overruns at overrun
  rw [utf8_space]
  omega

theorem uncut_of_short {s : Text} (short : (utf8 s).length ≤ 78) : Uncut s := by
  intro a b same overrun
  have long := overrun.long
  rw [← same] at long
  omega

theorem cut_of_short {chunk rest : Text} (short : (utf8 chunk).length ≤ 78) (overrun : Overruns chunk rest) :
    Cut (chunk ++ ' ' :: rest) chunk rest := by
  refine Passed.cut (fun a b same inside => uncut_of_short short a b same ?_) overrun
  rwa [Overruns,firstWord_append] at inside

theorem foldHeaderLine_cut (name value : Text) :
    Uncut (dropSpaces (name ++ ": " ++ value)) ∧ foldHeaderLine name value = name ++ ": " ++ value ∨
      ∃ chunk rest, Cut (dropSpaces (name ++ ": " ++ value)) chunk rest ∧
        foldHeaderLine name value = ("\r\n " : Text).intercalate (chunk :: chunksOf rest) := by
  unfold foldHeaderLine
  dsimp only
  generalize (name ++ ": " ++ value : Text) = line
  split
  · rename_i short
    exact .inl ⟨uncut_of_short (Nat.le_trans (utf8_dropSpaces line) short),rfl⟩
  · have start := foldWords_start (line.splitOn ' ')
    change _ ∧ (chunksOf line).length = 1 ∨ _ ∧ 2 ≤ (chunksOf line).length ∧ _ = ("\r\n " : Text).intercalate (chunksOf line)
      at start
    rcases chunksOf_cut line with ⟨uncut,chunks⟩ | ⟨chunk,rest,cut,chunks⟩
    · rcases start with ⟨unfolded,_⟩ | ⟨_,several,_⟩
      · exact .inl ⟨uncut,by rw [unfolded]; rfl⟩
      · simp [chunks] at several
    · rcases start with ⟨_,single⟩ | ⟨folded,_,glued⟩
      · have more := List.length_pos_iff.mpr (chunksOf_ne_nil rest)
        rw [chunks,List.length_cons] at single
        omega
      · have several : (foldWords (line.splitOn ' ') [] []).1.isEmpty = false := by simpa using folded
        refine .inr ⟨chunk,rest,cut,?_⟩
        rw [several,if_neg Bool.false_ne_true,glued,chunks]

end Bytes

end MechanicsCore.Mime
