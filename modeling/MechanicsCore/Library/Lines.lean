import MechanicsCore.Library.Text

/-! Texts as lists of lines. A line is a text without line breaks; `join` puts
line feeds between lines, and a block of lines ends at the first blank one.
`Paired` says that line breaks are written with two symbols, never with one. -/
namespace MechanicsCore.Library
open Text

section Paired
variable {α : Type} {cr lf : α}

/-- Every `cr` is followed by `lf`, and every `lf` comes after `cr`. -/
structure Paired (cr lf : α) (s : List α) : Prop where
  follows : ∀ a b, s = a ++ cr :: b → b.head? = some lf
  precedes : ∀ a b, s = a ++ lf :: b → a.getLast? = some cr

theorem Paired.nil : Paired cr lf [] := ⟨fun a b split => by simp at split,fun a b split => by simp at split⟩

theorem not_paired_lf (s : List α) : ¬ Paired cr lf (lf::s) := fun paired => by
  simpa using paired.precedes [] s rfl

theorem paired_cons {c : α} (notCr : c ≠ cr) (notLf : c ≠ lf) (s : List α) :
    Paired cr lf (c::s) ↔ Paired cr lf s := by
  constructor
  · intro paired
    refine ⟨fun a b split => paired.follows (c::a) b (by rw [split]; rfl),fun a b split => ?_⟩
    have last := paired.precedes (c::a) b (by rw [split]; rfl)
    cases a with
    | nil => exact absurd (by simpa using last) notCr
    | cons d a => simpa using last
  · intro paired
    constructor
    · intro a b split
      cases a with
      | nil => exact absurd (List.cons.inj split).1 notCr
      | cons d a => exact paired.follows a b (List.cons.inj split).2
    · intro a b split
      cases a with
      | nil => exact absurd (List.cons.inj split).1 notLf
      | cons d a =>
        have last := paired.precedes a b (List.cons.inj split).2
        rw [List.getLast?_cons,last]
        rfl

theorem paired_break (other : cr ≠ lf) (s : List α) : Paired cr lf (cr::lf::s) ↔ Paired cr lf s := by
  constructor
  · intro paired
    refine ⟨fun a b split => paired.follows (cr::lf::a) b (by rw [split]; rfl),fun a b split => ?_⟩
    have last := paired.precedes (cr::lf::a) b (by rw [split]; rfl)
    cases a with
    | nil => exact absurd (by simpa using last) other.symm
    | cons d a => simpa using last
  · intro paired
    constructor
    · intro a b split
      cases a with
      | nil =>
        rw [← (List.cons.inj split).2]
        rfl
      | cons d a =>
        have rest := (List.cons.inj split).2
        cases a with
        | nil => exact absurd (List.cons.inj rest).1 other.symm
        | cons e a => exact paired.follows a b (List.cons.inj rest).2
    · intro a b split
      cases a with
      | nil => exact absurd (List.cons.inj split).1 other
      | cons d a =>
        obtain ⟨rfl,rest⟩ := List.cons.inj split
        cases a with
        | nil => rfl
        | cons e a =>
          have last := paired.precedes a b (List.cons.inj rest).2
          rw [List.getLast?_cons,List.getLast?_cons,last]
          rfl

theorem paired_append {a : List α} (noCr : cr ∉ a) (noLf : lf ∉ a) (s : List α) :
    Paired cr lf (a ++ s) ↔ Paired cr lf s := by
  induction a with
  | nil => rfl
  | cons c a ih =>
    rw [List.mem_cons,not_or] at noCr noLf
    rw [List.cons_append,paired_cons (Ne.symm noCr.1) (Ne.symm noLf.1),ih noCr.2 noLf.2]

/-- A text with a break in it is well formed exactly when both sides of the break are. -/
theorem paired_split (other : cr ≠ lf) (a b : List α) :
    Paired cr lf (a ++ cr::lf::b) ↔ Paired cr lf a ∧ Paired cr lf b := by
  have dangling : ∀ {c : α} (s : List α), c ≠ lf → ¬ Paired cr lf (cr::c::s) := by
    intro c s wrong paired
    have next := paired.follows [] (c::s) rfl
    exact wrong (by simpa using next)
  induction a using List.twoStepInduction with
  | nil =>
    rw [List.nil_append,paired_break other]
    exact ⟨fun paired => ⟨.nil,paired⟩,fun both => both.2⟩
  | singleton c =>
    by_cases isLf : c = lf
    · subst isLf
      exact ⟨fun paired => absurd paired (not_paired_lf _),fun both => absurd both.1 (not_paired_lf _)⟩
    · by_cases isCr : c = cr
      · subst isCr
        refine ⟨fun paired => absurd paired (dangling _ other),fun both => ?_⟩
        have next := both.1.follows [] [] rfl
        simp at next
      · rw [List.singleton_append,paired_cons isCr isLf,paired_break other,paired_cons isCr isLf]
        exact ⟨fun paired => ⟨.nil,paired⟩,fun both => both.2⟩
  | cons_cons c d a ih ihd =>
    by_cases isLf : c = lf
    · subst isLf
      exact ⟨fun paired => absurd paired (not_paired_lf _),fun both => absurd both.1 (not_paired_lf _)⟩
    · by_cases isCr : c = cr
      · subst isCr
        by_cases next : d = lf
        · subst next
          rw [List.cons_append,List.cons_append,paired_break other,paired_break other]
          exact ih
        · exact ⟨fun paired => absurd paired (dangling _ next),fun both => absurd both.1 (dangling _ next)⟩
      · rw [List.cons_append,paired_cons isCr isLf,paired_cons isCr isLf]
        exact ihd d

theorem paired_map {β : Type} {f : α → β} (crs : ∀ c, f c = f cr → c = cr) (lfs : ∀ c, f c = f lf → c = lf)
    (s : List α) : Paired (f cr) (f lf) (s.map f) ↔ Paired cr lf s := by
  constructor
  · intro paired
    constructor
    · rintro a b rfl
      have next := paired.follows (a.map f) (b.map f) (by simp)
      obtain ⟨c,start,same⟩ := by simpa using next
      rw [start,lfs c same]
    · rintro a b rfl
      have last := paired.precedes (a.map f) (b.map f) (by simp)
      obtain ⟨c,ends,same⟩ := by simpa using last
      rw [ends,crs c same]
  · intro paired
    constructor
    · intro a b split
      obtain ⟨first,rest,rfl,rfl,later⟩ := List.map_eq_append_iff.mp split
      obtain ⟨c,more,rfl,same,rfl⟩ := List.map_eq_cons_iff.mp later
      rw [List.head?_map,paired.follows first more (by rw [crs c same])]
      rfl
    · intro a b split
      obtain ⟨first,rest,rfl,rfl,later⟩ := List.map_eq_append_iff.mp split
      obtain ⟨c,more,rfl,same,rfl⟩ := List.map_eq_cons_iff.mp later
      rw [List.getLast?_map,paired.precedes first more (by rw [lfs c same])]
      rfl

/-- One `lf` for every `cr` that `lf` follows. -/
def unpair [DecidableEq α] (cr lf : α) : List α → List α
  | [] => []
  | [a] => [a]
  | a::b::s => if a = cr ∧ b = lf then lf :: unpair cr lf s else a :: unpair cr lf (b::s)

theorem unpair_append [DecidableEq α] {a : List α} (plain : cr ∉ a) (s : List α) :
    unpair cr lf (a ++ s) = a ++ unpair cr lf s := by
  induction a with
  | nil => rfl
  | cons c a ih =>
    rw [List.mem_cons,not_or] at plain
    rw [List.cons_append,List.cons_append,← ih plain.2]
    cases a ++ s with
    | nil => rfl
    | cons d rest => rw [unpair,if_neg fun both => plain.1 both.1.symm]

theorem unpair_length_le [DecidableEq α] (s : List α) : (unpair cr lf s).length ≤ s.length := by
  induction s using List.twoStepInduction with
  | nil => exact le_rfl
  | singleton a => exact le_rfl
  | cons_cons a b s ih ihb =>
    rw [unpair]
    split
    · simp only [List.length_cons]
      omega
    · have shorter := ihb b
      simp only [List.length_cons] at shorter ⊢
      omega

theorem unpair_eq_self_iff [DecidableEq α] (s : List α) : unpair cr lf s = s ↔ ¬ [cr,lf] <:+: s := by
  induction s using List.twoStepInduction with
  | nil => simp [unpair]
  | singleton a => simp [unpair,List.infix_cons_iff]
  | cons_cons a b s ih ihb =>
    rw [unpair]
    split
    · rename_i pair
      obtain ⟨rfl,rfl⟩ := pair
      refine ⟨fun same => ?_,fun absent => absurd ⟨[],s,rfl⟩ absent⟩
      have shorter : (unpair a b s).length ≤ s.length := unpair_length_le s
      have longer := congrArg List.length same
      simp only [List.length_cons] at longer
      omega
    · rename_i other
      have later := ihb b
      rw [List.infix_cons_iff,not_or,List.cons_prefix_cons,List.cons_prefix_cons]
      constructor
      · intro same
        exact ⟨fun start => other ⟨start.1.symm,start.2.1.symm⟩,later.mp (List.cons.inj same).2⟩
      · rintro ⟨_,absent⟩
        rw [later.mpr absent]

private theorem start_of_unpair [DecidableEq α] {p s : List α} (free : lf ∉ p) (start : p <+: unpair cr lf s) : p <+: s := by
  induction s using List.twoStepInduction generalizing p with
  | nil => exact start
  | singleton a => exact start
  | cons_cons a b s ih ihb =>
    cases p with
    | nil => exact List.nil_prefix
    | cons c p =>
      rw [List.mem_cons,not_or] at free
      rw [unpair] at start
      split at start
      · exact absurd (List.cons_prefix_cons.mp start).1.symm free.1
      · obtain ⟨same,later⟩ := List.cons_prefix_cons.mp start
        exact List.cons_prefix_cons.mpr ⟨same,ihb b free.2 later⟩

/-- A piece without `lf` stood there before. -/
theorem infix_of_unpair [DecidableEq α] {p s : List α} (free : lf ∉ p) (within : p <:+: unpair cr lf s) : p <:+: s := by
  induction s using List.twoStepInduction with
  | nil => exact within
  | singleton a => exact within
  | cons_cons a b s ih ihb =>
    have front : p <+: unpair cr lf (a::b::s) → p <:+: a::b::s := fun start => (start_of_unpair free start).isInfix
    rw [unpair] at within front
    by_cases pair : a = cr ∧ b = lf
    · rw [if_pos pair] at within front
      rcases List.infix_cons_iff.mp within with start | later
      · exact front start
      · exact List.infix_cons (List.infix_cons (ih later))
    · rw [if_neg pair] at within front
      rcases List.infix_cons_iff.mp within with start | later
      · exact front start
      · exact List.infix_cons (ihb b later)

/-- The lines between the breaks. -/
def pairLines [DecidableEq α] (cr lf : α) : List α → List (List α)
  | [] => [[]]
  | [a] => [[a]]
  | a::b::s => if a = cr ∧ b = lf then [] :: pairLines cr lf s else (pairLines cr lf (b::s)).modifyHead (a :: ·)

theorem pairLines_break [DecidableEq α] (s : List α) : pairLines cr lf (cr::lf::s) = [] :: pairLines cr lf s := by
  rw [pairLines,if_pos ⟨rfl,rfl⟩]

theorem pairLines_ne_nil [DecidableEq α] (s : List α) : pairLines cr lf s ≠ [] := by
  induction s using List.twoStepInduction with
  | nil => exact List.cons_ne_nil _ _
  | singleton a => exact List.cons_ne_nil _ _
  | cons_cons a b s ih ihb =>
    rw [pairLines]
    split
    · exact List.cons_ne_nil _ _
    · rw [Ne,List.modifyHead_eq_nil_iff]
      exact ihb b

theorem pairLines_append [DecidableEq α] {a : List α} (plain : cr ∉ a) (s : List α) :
    pairLines cr lf (a ++ s) = (pairLines cr lf s).modifyHead (a ++ ·) := by
  induction a with
  | nil =>
    change pairLines cr lf s = (pairLines cr lf s).modifyHead id
    rw [List.modifyHead_id]
    rfl
  | cons c a ih =>
    rw [List.mem_cons,not_or] at plain
    have first : pairLines cr lf (c :: (a ++ s)) = (pairLines cr lf (a ++ s)).modifyHead (c :: ·) := by
      cases a ++ s with
      | nil => rfl
      | cons d rest => rw [pairLines,if_neg fun both => plain.1 both.1.symm]
    rw [List.cons_append,first,ih plain.2,List.modifyHead_modifyHead]
    rfl

/-- No symbol of a break is left in a line: the breaks are all written with two. -/
theorem paired_of_pairLines [DecidableEq α] (other : cr ≠ lf) {s : List α}
    (free : ∀ line ∈ pairLines cr lf s, cr ∉ line ∧ lf ∉ line) : Paired cr lf s := by
  induction s using List.twoStepInduction with
  | nil => exact .nil
  | singleton a =>
    obtain ⟨noCr,noLf⟩ := free [a] (List.mem_singleton_self _)
    rw [List.mem_singleton] at noCr noLf
    exact (paired_cons (Ne.symm noCr) (Ne.symm noLf) []).mpr .nil
  | cons_cons a b s ih ihb =>
    rw [pairLines] at free
    split at free
    · rename_i pair
      obtain ⟨rfl,rfl⟩ := pair
      exact (paired_break other s).mpr (ih fun line member => free line (List.mem_cons_of_mem _ member))
    · have nonempty : pairLines cr lf (b::s) ≠ [] := pairLines_ne_nil _
      obtain ⟨first,rest,lines⟩ := List.exists_cons_of_ne_nil nonempty
      rw [lines,List.modifyHead_cons] at free
      obtain ⟨noCr,noLf⟩ := free (a::first) List.mem_cons_self
      rw [List.mem_cons,not_or] at noCr noLf
      refine (paired_cons (Ne.symm noCr.1) (Ne.symm noLf.1) (b::s)).mpr (ihb b fun line member => ?_)
      rw [lines] at member
      rcases List.mem_cons.mp member with rfl | later
      · exact ⟨noCr.2,noLf.2⟩
      · exact free line (List.mem_cons_of_mem _ later)

end Paired

structure Line where
  text : Text
  noLf : '\n' ∉ text
  noCr : '\r' ∉ text
  deriving DecidableEq

namespace Line

theorem ext_text {a b : Line} (same : a.text = b.text) : a = b := by
  cases a
  cases b
  cases same
  rfl

def blank : Line := ⟨[],by simp,by simp⟩

def join (lines : List Line) : Text := ['\n'].intercalate (lines.map Line.text)

/-- The lines of a text, whatever ends them. -/
def ofText (s : Text) : List Line :=
  ((toLf s).splitOn '\n').attach.map fun piece =>
    ⟨piece.1,(of_mem_splitOn piece.2).1,fun cr => not_mem_toLf s ((of_mem_splitOn piece.2).2 _ cr)⟩

theorem ofText_text (s : Text) : (ofText s).map Line.text = (toLf s).splitOn '\n' := by
  simp [ofText,List.map_map,Function.comp_def]

theorem ofText_ne_nil (s : Text) : ofText s ≠ [] := by
  intro empty
  have pieces := ofText_text s
  rw [empty] at pieces
  exact List.splitOn_ne_nil _ _ pieces.symm

theorem join_ofText (s : Text) : join (ofText s) = toLf s := by
  rw [join,ofText_text]
  exact List.intercalate_splitOn '\n'

theorem splitOn_join {lines : List Line} (nonempty : lines ≠ []) : (join lines).splitOn '\n' = lines.map Line.text := by
  refine List.splitOn_intercalate '\n' (fun piece member => ?_) (by simpa using nonempty)
  obtain ⟨line,_,rfl⟩ := List.mem_map.mp member
  exact line.noLf

theorem join_cons {lines : List Line} (nonempty : lines ≠ []) (line : Line) :
    join (line::lines) = line.text ++ '\n' :: join lines := by
  cases lines with
  | nil => contradiction
  | cons next lines => simp [join,List.intercalate_cons_cons]

theorem join_append {a b : List Line} (first : a ≠ []) (second : b ≠ []) :
    join (a ++ b) = join a ++ '\n' :: join b := by
  induction a with
  | nil => contradiction
  | cons line a ih =>
    cases a with
    | nil =>
      rw [List.singleton_append,join_cons second]
      simp [join]
    | cons next a =>
      rw [List.cons_append,join_cons (by simp),ih (by simp),join_cons (List.cons_ne_nil next a)]
      simp

theorem cr_not_mem_join (lines : List Line) : '\r' ∉ join lines := by
  induction lines with
  | nil => simp [join]
  | cons line lines ih =>
    by_cases last : lines = []
    · subst last
      simpa [join] using line.noCr
    · rw [join_cons last]
      simp [line.noCr,ih]

private theorem splitOnce_line {line rest : Text} (plain : '\n' ∉ line) :
    splitOnce ['\n','\n'] (line ++ rest) =
      (splitOnce ['\n','\n'] rest).map fun (before,after) => (line ++ before,after) := by
  induction line with
  | nil => simp
  | cons c line ih =>
    rw [List.mem_cons,not_or] at plain
    simp only [List.cons_append,splitOnce,List.isPrefixOf,beq_false_of_ne plain.1,Bool.false_and,if_neg Bool.false_ne_true,
      ih plain.2,Option.map_map]
    rfl

private theorem splitOnce_break {rest : List Line} (nonempty : rest ≠ []) {next : Line} (ink : next.text ≠ []) :
    splitOnce ['\n','\n'] ('\n' :: join (next::rest)) =
      (splitOnce ['\n','\n'] (join (next::rest))).map fun (before,after) => ('\n'::before,after) := by
  rw [join_cons nonempty]
  cases here : next.text with
  | nil => exact absurd here ink
  | cons c text =>
    have other : '\n' ≠ c := fun same => next.noLf (by rw [here,same]; exact List.mem_cons_self)
    rw [splitOnce,List.cons_append]
    simp [List.isPrefixOf,other]

/-- A block of nonblank lines and the text after it are found at the blank line between them. -/
theorem splitOnce_join {head body : List Line} (first : head ≠ []) (second : body ≠ [])
    (inked : ∀ line ∈ head, line.text ≠ []) :
    splitOnce ['\n','\n'] (join (head ++ blank::body)) = some (join head,join body) := by
  induction head with
  | nil => contradiction
  | cons line head ih =>
    cases head with
    | nil =>
      rw [List.singleton_append,join_cons (by simp),splitOnce_line line.noLf,join_cons second]
      simp [splitOnce,blank,join]
    | cons next head =>
      have rest := ih (by simp) fun l member => inked l (List.mem_cons_of_mem _ member)
      rw [List.cons_append,join_cons (by simp),splitOnce_line line.noLf,List.cons_append,
        splitOnce_break (by simp) (inked next (by simp)),← List.cons_append,rest,join_cons (List.cons_ne_nil next head)]
      rfl

theorem splitOnce_join_none {head : List Line} (first : head ≠ []) (inked : ∀ line ∈ head, line.text ≠ []) :
    splitOnce ['\n','\n'] (join (head ++ [blank])) = none := by
  induction head with
  | nil => contradiction
  | cons line head ih =>
    cases head with
    | nil =>
      rw [List.singleton_append,join_cons (by simp),splitOnce_line line.noLf]
      simp [splitOnce,blank,join]
    | cons next head =>
      have rest := ih (by simp) fun l member => inked l (List.mem_cons_of_mem _ member)
      rw [List.cons_append,join_cons (by simp),splitOnce_line line.noLf,List.cons_append,
        splitOnce_break (by simp) (inked next (by simp)),← List.cons_append,rest]
      rfl

end Line
end MechanicsCore.Library
