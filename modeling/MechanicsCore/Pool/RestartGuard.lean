import Mathlib.Data.List.TakeWhile

/-! The sliding-window restart limiter of the pool supervisor. Instants and the
window are nanosecond counts; `duration_since` saturates at zero. -/
namespace MechanicsCore.Pool

structure RestartGuard where
  window : Nat
  maxRestarts : Nat
  restarts : List Nat
  deriving DecidableEq,Repr

namespace RestartGuard

def new (window maxRestarts : Nat) : RestartGuard := ⟨window,maxRestarts,[]⟩

def expire (guard : RestartGuard) (now : Nat) : RestartGuard :=
  {guard with restarts := guard.restarts.dropWhile fun oldest => decide (now - oldest > guard.window)}

def allowRestart (guard : RestartGuard) (now : Nat) : Bool × RestartGuard :=
  let guard := guard.expire now
  if guard.restarts.length ≥ guard.maxRestarts then (false,guard)
  else (true,{guard with restarts := guard.restarts ++ [now]})

/-- One call after the other: the guard behind them, and every call with its answer. -/
def calls (guard : RestartGuard) : (instants : List Nat) → RestartGuard × List (Nat × Bool)
  | [] => (guard,[])
  | now::later =>
    let answer := guard.allowRestart now
    let rest := answer.2.calls later
    (rest.1,(now,answer.1)::rest.2)

def granted (answers : List (Nat × Bool)) : List Nat := (answers.filter (·.2)).map (·.1)

/-- How many of the instants lie in the closed interval of the given length. -/
def within (instants : List Nat) (start length : Nat) : Nat :=
  instants.countP fun t => decide (start ≤ t ∧ t ≤ start + length)

/-- The guard remembers all allowed attempts but those more than a window ago,
and no closed window has more of them than it allows. -/
structure Remembers (guard : RestartGuard) (allowed : List Nat) (now : Nat) : Prop where
  forgotten : ∃ old, allowed = old ++ guard.restarts ∧ ∀ t ∈ old, t + guard.window < now
  bounded : ∀ start, within allowed start guard.window ≤ guard.maxRestarts

namespace Remembers
variable {guard guard' : RestartGuard} {allowed : List Nat} {now : Nat}

theorem new (window maxRestarts now : Nat) : Remembers (.new window maxRestarts) [] now :=
  ⟨⟨[],rfl,by simp⟩,fun start => Nat.zero_le _⟩

theorem later (known : Remembers guard allowed now) {after : Nat} (le : now ≤ after) : Remembers guard allowed after := by
  obtain ⟨old,split,gone⟩ := known.forgotten
  exact ⟨⟨old,split,fun t member => Nat.lt_of_lt_of_le (gone t member) le⟩,known.bounded⟩

theorem expire (known : Remembers guard allowed now) : Remembers (guard.expire now) allowed now := by
  obtain ⟨old,split,gone⟩ := known.forgotten
  let dropped := guard.restarts.takeWhile fun oldest => decide (now - oldest > guard.window)
  have parts : dropped ++ (guard.expire now).restarts = guard.restarts := List.takeWhile_append_dropWhile
  refine ⟨⟨old ++ dropped,by rw [split,List.append_assoc,parts],fun t member => ?_⟩,known.bounded⟩
  rcases List.mem_append.mp member with earlier | expired
  · exact gone t earlier
  · have old : now - t > guard.window := by simpa using List.mem_takeWhile_imp expired
    change t + guard.window < now
    omega

/-- An attempt that is allowed keeps the bound: whatever shares a window with it is still remembered. -/
theorem allow (known : Remembers guard allowed now) (verdict : guard.allowRestart now = (true,guard')) :
    Remembers guard' (allowed ++ [now]) now := by
  have expired := known.expire
  unfold allowRestart at verdict
  dsimp only at verdict
  split at verdict
  · cases verdict
  · rename_i room
    cases verdict
    obtain ⟨old,split,gone⟩ := expired.forgotten
    refine ⟨⟨old,by rw [split,List.append_assoc],gone⟩,fun start => ?_⟩
    change within _ start guard.window ≤ guard.maxRestarts
    have before := expired.bounded start
    unfold within at before ⊢
    rw [List.countP_append]
    by_cases inside : start ≤ now ∧ now ≤ start + guard.window
    · have none : old.countP (fun t => decide (start ≤ t ∧ t ≤ start + guard.window)) = 0 := by
        rw [List.countP_eq_zero]
        intro t member
        have far : t + guard.window < now := gone t member
        simp only [decide_eq_true_eq]
        omega
      have remembered := (guard.expire now).restarts.countP_le_length
        (p := fun t => decide (start ≤ t ∧ t ≤ start + guard.window))
      rw [split,List.countP_append,none]
      have last : [now].countP (fun t => decide (start ≤ t ∧ t ≤ start + guard.window)) ≤ 1 := List.countP_le_length
      have size : (guard.expire now).restarts.length < guard.maxRestarts := Nat.lt_of_not_le room
      omega
    · have last : [now].countP (fun t => decide (start ≤ t ∧ t ≤ start + guard.window)) = 0 := by
        simp [inside]
      rw [last]
      exact before

theorem refuse (known : Remembers guard allowed now) (verdict : guard.allowRestart now = (false,guard')) :
    Remembers guard' allowed now := by
  unfold allowRestart at verdict
  dsimp only at verdict
  split at verdict
  · cases verdict
    exact known.expire
  · cases verdict

end Remembers

/-- The calls that were granted are in the order of their instants, none of them ahead. -/
structure Exact (guard : RestartGuard) (allowed : List Nat) (now : Nat) : Prop extends Remembers guard allowed now where
  ordered : allowed.Pairwise (· ≤ ·)
  past : ∀ t ∈ allowed, t ≤ now
  room : guard.restarts.length ≤ guard.maxRestarts

@[simp] theorem allowRestart_window (guard : RestartGuard) (now : Nat) : (guard.allowRestart now).2.window = guard.window := by
  unfold allowRestart
  dsimp only
  split <;> rfl

@[simp] theorem allowRestart_maxRestarts (guard : RestartGuard) (now : Nat) :
    (guard.allowRestart now).2.maxRestarts = guard.maxRestarts := by
  unfold allowRestart
  dsimp only
  split <;> rfl

/-- Where a test that fails once fails for all that follows, dropping from the front is filtering. -/
private theorem dropWhile_eq_filter {p : Nat → Bool} {l : List Nat} (mono : l.Pairwise fun a b => p a = false → p b = false) :
    l.dropWhile p = l.filter fun t => !p t := by
  induction l with
  | nil => rfl
  | cons t l ih =>
    rw [List.pairwise_cons] at mono
    cases verdict : p t with
    | true => rw [List.dropWhile_cons_of_pos verdict,List.filter_cons_of_neg (by simp [verdict]),ih mono.2]
    | false =>
      have rest : ∀ u ∈ t::l, !p u := by
        intro u member
        rcases List.mem_cons.mp member with rfl | later
        · simp [verdict]
        · simp [mono.1 u later verdict]
      rw [List.dropWhile_cons_of_neg (by simp [verdict]),List.filter_eq_self.mpr rest]

namespace Exact
variable {guard : RestartGuard} {allowed : List Nat} {now : Nat}

theorem new (window maxRestarts now : Nat) : Exact (.new window maxRestarts) [] now :=
  {Remembers.new window maxRestarts now with ordered := .nil,past := by simp,room := Nat.zero_le _}

theorem later (known : Exact guard allowed now) {after : Nat} (le : now ≤ after) : Exact guard allowed after :=
  {known.toRemembers.later le with
    ordered := known.ordered,past := fun t member => Nat.le_trans (known.past t member) le,room := known.room}

/-- What is left after expiry is what was granted within the window. -/
theorem expire_restarts (known : Exact guard allowed now) :
    (guard.expire now).restarts = allowed.filter fun t => decide (now - t ≤ guard.window) := by
  obtain ⟨old,split,gone⟩ := known.forgotten
  have sorted := known.ordered
  rw [split,List.pairwise_append] at sorted
  have mono : guard.restarts.Pairwise fun a b =>
      decide (now - a > guard.window) = false → decide (now - b > guard.window) = false := by
    refine sorted.2.1.imp fun {a b} le near => ?_
    simp only [decide_eq_false_iff_not] at near ⊢
    omega
  have none : old.filter (fun t => decide (now - t ≤ guard.window)) = [] := by
    rw [List.filter_eq_nil_iff]
    intro t member
    have far := gone t member
    simp only [decide_eq_true_eq]
    omega
  rw [split,List.filter_append,none,List.nil_append]
  change guard.restarts.dropWhile _ = _
  rw [dropWhile_eq_filter mono]
  refine List.filter_congr fun t _ => ?_
  rw [← decide_not]
  exact decide_eq_decide.mpr Nat.not_lt

theorem allowRestart_iff (known : Exact guard allowed now) :
    (guard.allowRestart now).1 = true ↔ (allowed.countP fun t => decide (now - t ≤ guard.window)) < guard.maxRestarts := by
  rw [List.countP_eq_length_filter,← known.expire_restarts]
  unfold allowRestart
  dsimp only
  split
  · rename_i full
    exact ⟨fun no => absurd no Bool.false_ne_true,fun room => absurd full (Nat.not_le_of_lt room)⟩
  · rename_i room
    exact ⟨fun _ => Nat.lt_of_not_le room,fun _ => rfl⟩

theorem allowRestart_room (known : Exact guard allowed now) :
    (guard.allowRestart now).2.restarts.length ≤ guard.maxRestarts := by
  have shorter : (guard.expire now).restarts.length ≤ guard.restarts.length := (List.dropWhile_suffix _).length_le
  have room := known.room
  unfold allowRestart
  dsimp only
  split
  · change (guard.expire now).restarts.length ≤ guard.maxRestarts
    omega
  · rename_i left
    change ¬ (guard.expire now).restarts.length ≥ guard.maxRestarts at left
    change ((guard.expire now).restarts ++ [now]).length ≤ guard.maxRestarts
    rw [List.length_append,List.length_singleton]
    omega

theorem step (known : Exact guard allowed now) :
    Exact (guard.allowRestart now).2 (allowed ++ granted [(now,(guard.allowRestart now).1)]) now := by
  have room := known.allowRestart_room
  rw [← allowRestart_maxRestarts guard now] at room
  cases verdict : guard.allowRestart now with
  | mk answer guard' =>
    rw [verdict] at room
    cases answer with
    | false =>
      change Exact guard' (allowed ++ []) now
      rw [List.append_nil]
      exact {known.toRemembers.refuse verdict with ordered := known.ordered,past := known.past,room := room}
    | true =>
      change Exact guard' (allowed ++ [now]) now
      refine {known.toRemembers.allow verdict with ordered := ?_,past := fun t member => ?_,room := room}
      · rw [List.pairwise_append]
        refine ⟨known.ordered,List.pairwise_singleton _ _,fun t member last latest => ?_⟩
        rw [List.mem_singleton.mp latest]
        exact known.past t member
      · rcases List.mem_append.mp member with earlier | last
        · exact known.past t earlier
        · exact (List.mem_singleton.mp last).le

theorem granted_append (a b : List (Nat × Bool)) : granted (a ++ b) = granted a ++ granted b := by
  simp [granted]

/-- The invariant along the calls, and the answer of every one of them. -/
theorem calls (known : Exact guard allowed now) {instants : List Nat} (ordered : (now::instants).Pairwise (· ≤ ·)) :
    (∃ after, Exact (guard.calls instants).1 (allowed ++ granted (guard.calls instants).2) after) ∧
      (guard.calls instants).1.window = guard.window ∧ (guard.calls instants).1.maxRestarts = guard.maxRestarts ∧
      ∀ earlier instant answer rest, (guard.calls instants).2 = earlier ++ (instant,answer)::rest →
        (answer = true ↔ ((allowed ++ granted earlier).countP fun t => decide (instant - t ≤ guard.window)) <
          guard.maxRestarts) := by
  induction instants generalizing guard allowed now with
  | nil => exact ⟨⟨now,by simpa [RestartGuard.calls,granted] using known⟩,rfl,rfl,fun _ _ _ _ split => by
      simp [RestartGuard.calls] at split⟩
  | cons next instants ih =>
    rw [List.pairwise_cons] at ordered
    have here := known.later (ordered.1 next List.mem_cons_self)
    have after := ih here.step ordered.2
    rw [allowRestart_window,allowRestart_maxRestarts] at after
    obtain ⟨⟨last,final⟩,window,limit,answers⟩ := after
    refine ⟨⟨last,?_⟩,window,limit,fun earlier instant answer rest split => ?_⟩
    · rw [List.append_assoc,← granted_append] at final
      exact final
    · cases earlier with
      | nil =>
        obtain ⟨same,_⟩ := List.cons.inj split
        cases same
        have first := here.allowRestart_iff
        simpa [granted] using first
      | cons call earlier =>
        obtain ⟨rfl,later⟩ := List.cons.inj split
        have answered := answers earlier instant answer rest later
        rw [List.append_assoc,← granted_append] at answered
        exact answered

end Exact

/-- A call is granted exactly when fewer than the allowed number were granted within the
window before it. -/
theorem sliding_window_exact (window maxRestarts : Nat) (instants : List Nat) (ordered : instants.Pairwise (· ≤ ·)) :
    (∀ earlier now answer later, ((new window maxRestarts).calls instants).2 = earlier ++ (now,answer)::later →
      (answer = true ↔ ((granted earlier).countP fun t => decide (now - t ≤ window)) < maxRestarts)) ∧
    (∀ start, within (granted ((new window maxRestarts).calls instants).2) start window ≤ maxRestarts) ∧
    ((new window maxRestarts).calls instants).1.restarts.length ≤ maxRestarts := by
  have sorted : (0::instants).Pairwise (· ≤ ·) := List.pairwise_cons.mpr ⟨fun t _ => Nat.zero_le t,ordered⟩
  obtain ⟨⟨after,final⟩,length,limit,answers⟩ := (Exact.new window maxRestarts 0).calls sorted
  have bounded := final.bounded
  have room := final.room
  rw [length,limit] at bounded
  rw [limit] at room
  exact ⟨answers,bounded,room⟩

/-- Two calls fill the limit; at the window's edge a third is refused, and right behind it one is granted. -/
theorem sliding_window_exact_at_edge :
    ((new 10 2).calls [0,3,10,11]).2 = [(0,true),(3,true),(10,false),(11,true)] ∧
      (true = true ↔ ((granted [(0,true),(3,true),(10,false)]).countP fun t => decide (11 - t ≤ 10)) < 2) := by
  have answers : ((new 10 2).calls [0,3,10,11]).2 = [(0,true),(3,true),(10,false),(11,true)] := by decide
  exact ⟨answers,(sliding_window_exact 10 2 [0,3,10,11] (by decide)).1 [(0,true),(3,true),(10,false)] 11 true [] answers⟩

end RestartGuard
end MechanicsCore.Pool
