import Mathlib.Logic.Relation

/-! Guarded machines, their runs and the invariant rule. A machine is a partial
step function on states and actions; `none` is a disabled action. Runs may be
restricted to steps that meet a condition on the state they are taken from. -/
namespace MechanicsCore.Library

structure Machine (S A : Type) where
  initial : S → Prop
  step : S → A → Option S

namespace Machine
variable {S A : Type}

/-- States of the runs whose every step meets `allowed` in the state before it. -/
inductive ReachableBy (m : Machine S A) (allowed : S → A → Prop) : S → Prop
  | start (s : S) (initial : m.initial s) : ReachableBy m allowed s
  | next (s : S) (a : A) (s' : S) (before : ReachableBy m allowed s)
      (meets : allowed s a) (taken : m.step s a = some s') : ReachableBy m allowed s'

def Reachable (m : Machine S A) : S → Prop := m.ReachableBy fun _ _ => True

def Moves (m : Machine S A) (s s' : S) : Prop := ∃ a, m.step s a = some s'

/-- Some run leads from the first state to the second. -/
def Leads (m : Machine S A) : S → S → Prop := Relation.ReflTransGen m.Moves

theorem ReachableBy.invariant {m : Machine S A} {allowed : S → A → Prop} (holds : S → Prop)
    (base : ∀ s, m.initial s → holds s)
    (kept : ∀ s a s', holds s → allowed s a → m.step s a = some s' → holds s')
    {s : S} (reached : m.ReachableBy allowed s) : holds s := by
  induction reached with
  | start s initial => exact base s initial
  | next s a s' before meets taken ih => exact kept s a s' ih meets taken

theorem ReachableBy.reachable {m : Machine S A} {allowed : S → A → Prop} {s : S}
    (reached : m.ReachableBy allowed s) : m.Reachable s := by
  induction reached with
  | start s initial => exact .start s initial
  | next s a s' before meets taken ih => exact .next s a s' ih trivial taken

theorem Reachable.invariant {m : Machine S A} (holds : S → Prop)
    (base : ∀ s, m.initial s → holds s)
    (kept : ∀ s a s', holds s → m.step s a = some s' → holds s')
    {s : S} (reached : m.Reachable s) : holds s :=
  ReachableBy.invariant holds base (fun s a s' before _ taken => kept s a s' before taken) reached

theorem Leads.reachable {m : Machine S A} {s s' : S} (leads : m.Leads s s')
    (reached : m.Reachable s) : m.Reachable s' := by
  induction leads with
  | refl => exact reached
  | tail _ moved ih =>
    obtain ⟨a,taken⟩ := moved
    exact .next _ a _ ih trivial taken

/-- A machine whose every step is a run of another, seen through a projection, reaches
only states that project to reachable ones. -/
theorem Reachable.project {T B : Type} {m : Machine S A} {n : Machine T B} (f : S → T)
    (initial : ∀ s, m.initial s → n.initial (f s)) (steps : ∀ s a s', m.step s a = some s' → n.Leads (f s) (f s'))
    {s : S} (reached : m.Reachable s) : n.Reachable (f s) := by
  induction reached with
  | start s start => exact .start _ (initial s start)
  | next s a s' before _ taken ih => exact (steps s a s' taken).reachable ih

theorem Leads.one {m : Machine S A} {s s' : S} {a : A} (taken : m.step s a = some s') : m.Leads s s' :=
  .single ⟨a,taken⟩

/-- What every step keeps from a reachable state on holds to the end of the run. -/
theorem Leads.invariant {m : Machine S A} (holds : S → Prop)
    (kept : ∀ s a s', m.Reachable s → holds s → m.step s a = some s' → holds s')
    {s s' : S} (reached : m.Reachable s) (initially : holds s) (leads : m.Leads s s') : holds s' := by
  induction leads with
  | refl => exact initially
  | tail before moved ih =>
    obtain ⟨a,taken⟩ := moved
    exact kept _ a _ (Leads.reachable before reached) ih taken

/-- Replays a list of actions as long as every step passes a test of its own. -/
def replayBy (m : Machine S A) (test : S → A → Bool) : S → List A → Option S
  | s, [] => some s
  | s, a::rest => if test s a then (m.step s a).bind fun next => m.replayBy test next rest else none

theorem replayBy_reachable (m : Machine S A) (allowed : S → A → Prop) (test : S → A → Bool)
    (sound : ∀ s a, test s a = true → allowed s a) (actions : List A) (s s' : S)
    (reached : m.ReachableBy allowed s) (ran : m.replayBy test s actions = some s') :
    m.ReachableBy allowed s' := by
  induction actions generalizing s with
  | nil =>
    have same : s = s' := by simpa [replayBy] using ran
    exact same ▸ reached
  | cons a rest ih =>
    simp only [replayBy] at ran
    split at ran
    · rename_i passed
      obtain ⟨middle,taken,after⟩ := Option.bind_eq_some_iff.mp ran
      exact ih middle (.next s a middle reached (sound s a passed) taken) after
    · contradiction

/-- A replayed run whose steps pass a test and that ends in a state passing a check. -/
theorem replay_witness_by (m : Machine S A) (allowed : S → A → Prop) (test : S → A → Bool)
    (sound : ∀ s a, test s a = true → allowed s a) (actions : List A) (s : S) (check : S → Bool)
    (initial : m.initial s) (passed : (m.replayBy test s actions).any check = true) :
    ∃ s', m.ReachableBy allowed s' ∧ check s' = true := by
  cases ran : m.replayBy test s actions with
  | none => simp [ran] at passed
  | some s' =>
    exact ⟨s',m.replayBy_reachable allowed test sound actions s s' (.start s initial) ran,
      by simpa [ran] using passed⟩

theorem replay_witness (m : Machine S A) (actions : List A) (s : S) (check : S → Bool)
    (initial : m.initial s) (passed : (m.replayBy (fun _ _ => true) s actions).any check = true) :
    ∃ s', m.Reachable s' ∧ check s' = true :=
  m.replay_witness_by _ _ (fun _ _ _ => trivial) actions s check initial passed

/-- The machine with a record of the run kept beside the state. -/
def recording {L : Type} (m : Machine S A) (blank : L) (note : S → A → L → L) : Machine (S × L) A where
  initial s := m.initial s.1 ∧ s.2 = blank
  step s a := (m.step s.1 a).map fun next => (next,note s.1 a s.2)

/-- Every run can be recorded. -/
theorem Reachable.recorded {L : Type} {m : Machine S A} (blank : L) (note : S → A → L → L) {s : S}
    (reached : m.Reachable s) : ∃ record, (m.recording blank note).Reachable (s,record) := by
  induction reached with
  | start s initial => exact ⟨blank,.start _ ⟨initial,rfl⟩⟩
  | next s a s' before _ taken ih =>
    obtain ⟨record,held⟩ := ih
    exact ⟨note s a record,.next _ a _ held trivial (by simp [recording,taken])⟩

theorem Reachable.unrecorded {L : Type} {m : Machine S A} {blank : L} {note : S → A → L → L} {s : S} {record : L}
    (reached : (m.recording blank note).Reachable (s,record)) : m.Reachable s := by
  refine Reachable.project (m := m.recording blank note) Prod.fst (fun _ initial => initial.1) ?_ reached
  intro s a s' taken
  obtain ⟨next,stepped,rfl⟩ := Option.map_eq_some_iff.mp taken
  exact .one stepped

/-- What holds of the state and the record at the start, and after every step of a
run whose steps meet a condition, holds of every recorded run. -/
theorem recording_invariant {L : Type} {m : Machine S A} {blank : L} {note : S → A → L → L}
    {allowed : S × L → A → Prop} (holds : S → L → Prop) (base : ∀ s, m.initial s → holds s blank)
    (kept : ∀ s record a s', holds s record → allowed (s,record) a → m.step s a = some s' → holds s' (note s a record))
    {s : S} {record : L} (reached : (m.recording blank note).ReachableBy allowed (s,record)) : holds s record := by
  refine ReachableBy.invariant (fun s : S × L => holds s.1 s.2) ?_ ?_ reached
  · rintro ⟨s,record⟩ ⟨initial,rfl⟩
    exact base s initial
  · rintro ⟨s,record⟩ a ⟨s',record'⟩ before meets taken
    obtain ⟨next,stepped,same⟩ := Option.map_eq_some_iff.mp taken
    cases same
    exact kept s record a s' before meets stepped

/-- Steps that do no work. -/
def Idles (m : Machine S A) (works : A → Prop) : S → S → Prop :=
  Relation.ReflTransGen fun s s' => ∃ a, ¬ works a ∧ m.step s a = some s'

/-- However long the machine idles it can go on working, and however it works it
comes to the goal. -/
inductive Inevitable (m : Machine S A) (works : A → Prop) (goal : S → Prop) : S → Prop
  | here (s : S) (reached : goal s) : Inevitable m works goal s
  | after (s : S) (enabled : ∀ s', m.Idles works s s' → ∃ a s'', works a ∧ m.step s' a = some s'')
      (next : ∀ s' a s'', m.Idles works s s' → works a → m.step s' a = some s'' → Inevitable m works goal s'') :
      Inevitable m works goal s

/-- The rule for it: a measure that work lowers and idling does not raise. -/
theorem inevitable_of_measure {m : Machine S A} {works : A → Prop} {goal : S → Prop} (holds : S → Prop)
    (measure : S → Nat) (kept : ∀ s a s', holds s → m.step s a = some s' → holds s')
    (enabled : ∀ s, holds s → ¬ goal s → ∃ a s', works a ∧ m.step s a = some s')
    (lowers : ∀ s a s', holds s → ¬ goal s → works a → m.step s a = some s' → measure s' < measure s)
    (idles : ∀ s a s', holds s → ¬ works a → m.step s a = some s' → measure s' ≤ measure s ∧ (goal s' → goal s))
    {s : S} (initially : holds s) : m.Inevitable works goal s := by
  induction bound : measure s using Nat.strongRecOn generalizing s with
  | ind n ih =>
    by_cases reached : goal s
    · exact .here s reached
    · have idle : ∀ s', m.Idles works s s' → holds s' ∧ measure s' ≤ measure s ∧ ¬ goal s' := by
        intro s' path
        induction path with
        | refl => exact ⟨initially,Nat.le_refl _,reached⟩
        | tail _ moved before =>
          obtain ⟨a,lazy,taken⟩ := moved
          obtain ⟨held,below,notYet⟩ := before
          obtain ⟨no,back⟩ := idles _ a _ held lazy taken
          exact ⟨kept _ a _ held taken,Nat.le_trans no below,fun there => notYet (back there)⟩
      refine .after s (fun s' path => ?_) fun s' a s'' path working taken => ?_
      · obtain ⟨held,_,notYet⟩ := idle s' path
        exact enabled s' held notYet
      · obtain ⟨held,below,notYet⟩ := idle s' path
        have less := lowers s' a s'' held notYet working taken
        exact ih (measure s'') (by omega) (kept s' a s'' held taken) rfl

end Machine
end MechanicsCore.Library
