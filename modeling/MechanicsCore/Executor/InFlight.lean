import MechanicsCore.Executor.Conservation
import MechanicsCore.Executor.Steps

/-! The counter of futures in flight. The loop keeps it by hand beside the group; at
every place of a run it is the number of futures that joined the group and were not
yielded, and the snapshot at the deadline reports it. -/
namespace MechanicsCore.Executor
open MechanicsCore.Library
variable {T : Types}

/-- The places of a turn: its head, behind the check of the stop condition, behind the
first check of the deadline, behind the start of the async jobs, and behind the wait. -/
inductive Place
  | top
  | stopped
  | checked
  | started
  | waited
  deriving DecidableEq,Repr

section Places
variable (E : Engine T) (shouldStop : World T → Bool) (onStop : Exec T Unit)

/-- A run of the loop from `w` comes to a place, with these variables and this world. -/
inductive Visits (w : World T) : Place → LoopState T → World T → Prop
  | enter : Visits w .top .new w
  | stop {ls ls' : LoopState T} {v v' : World T} (visits : Visits w .top ls v)
      (ran : (stopOnce shouldStop onStop ls).run v = .ok ls' v') : Visits w .stopped ls' v'
  | check {ls ls' : LoopState T} {v v' : World T} (visits : Visits w .stopped ls v)
      (ran : (checkDeadline E ls).run v = .ok (.inl ls') v') : Visits w .checked ls' v'
  | start {ls ls' : LoopState T} {v v' : World T} (visits : Visits w .checked ls v)
      (ran : (startAsyncJobs ls).run v = .ok ls' v') : Visits w .started ls' v'
  | wait {ls ls' : LoopState T} {v v' : World T} (visits : Visits w .started ls v)
      (busy : quiescent ls v.queue = false) (ran : (waitForWork E ls).run v = .ok ls' v') : Visits w .waited ls' v'
  | close {ls ls' : LoopState T} {v v' : World T} (visits : Visits w .waited ls v)
      (ran : (closeTurn E ls).run v = .ok (.inl ls') v') : Visits w .top ls' v'

variable {E shouldStop onStop} {w v v' : World T} {ls ls' : LoopState T}

/-- A turn goes on to its head, is complete, or ends where it checks the deadline. -/
theorem Visits.turn (visits : Visits E shouldStop onStop w .top ls v) {next : LoopState T ⊕ RunJobsExit}
    (ran : (turn E shouldStop onStop ls).run v = .ok next v') :
    (∃ ls', next = .inl ls' ∧ Visits E shouldStop onStop w .top ls' v') ∨ next = .inr .complete ∨
    ∃ place mid u exit, next = .inr exit ∧ Visits E shouldStop onStop w place mid u ∧
      (checkDeadline E mid).run u = .ok (.inr exit) v' := by
  obtain ⟨_,_,stops,rest⟩ := run_bind_ok.mp ran
  have stopped := visits.stop stops
  obtain ⟨_,_,opens,rest⟩ := run_bind_ok.mp rest
  obtain ⟨checked,_,checks,opens⟩ := run_bind_ok.mp opens
  cases checked with
  | inr exit =>
    cases opens
    cases rest
    exact .inr (.inr ⟨_,_,_,exit,rfl,stopped,checks⟩)
  | inl mid =>
    obtain ⟨last,_,starts,opens⟩ := run_bind_ok.mp opens
    have started := (stopped.check checks).start starts
    obtain ⟨_,_,read,opens⟩ := run_bind_ok.mp opens
    cases read
    split at opens
    · cases opens
      cases rest
      exact .inr (.inl rfl)
    · rename_i busy
      cases opens
      obtain ⟨waited,u,waits,closes⟩ := run_bind_ok.mp rest
      have visited := started.wait (Bool.eq_false_iff.mpr busy) waits
      cases next with
      | inl ls' => exact .inl ⟨ls',rfl,visited.close closes⟩
      | inr exit =>
        obtain ⟨again,_,checks,ends⟩ := run_bind_ok.mp closes
        cases again with
        | inl again =>
          obtain ⟨_,_,_,ends⟩ := run_bind_ok.mp ends
          obtain ⟨_,_,_,ends⟩ := run_bind_ok.mp ends
          cases ends
        | inr exit =>
          cases ends
          exact .inr (.inr ⟨_,_,_,exit,rfl,visited,checks⟩)

theorem Reached.visits (reached : Reached E shouldStop onStop w ls v) : Visits E shouldStop onStop w .top ls v := by
  refine Reached.invariant (Visits E shouldStop onStop w .top) .enter ?_ reached
  intro ls v ls' v' visits turned
  rcases visits.turn turned with ⟨ls',same,next⟩ | complete | ⟨_,_,_,exit,ends,_⟩
  · cases same
    exact next
  · cases complete
  · cases ends

/-- A run that ends at the deadline ends at a place it comes to. -/
theorem visits_of_deadline {fuel : Nat} {s : QueueSnapshot}
    (ran : (runJobsUntilThenToQuiescence E shouldStop onStop fuel).run w = .ok (.deadlineExceeded s) v') :
    ∃ place mid u, Visits E shouldStop onStop w place mid u ∧
      (checkDeadline E mid).run u = .ok (.inr (.deadlineExceeded s)) v' := by
  obtain ⟨last,v,reached,turned⟩ := turns_returns ran
  rcases (Reached.visits reached).turn turned with ⟨_,same,_⟩ | complete | ⟨place,mid,u,exit,ends,visits,checks⟩
  · cases same
  · cases complete
  · cases ends
    exact ⟨place,mid,u,visits,checks⟩

end Places

section Counting
variable {E : Engine T} {shouldStop : World T → Bool} {onStop : Exec T Unit} {w v v' : World T} {ls ls' : LoopState T}

theorem stopOnce_group (shouldStop : World T → Bool) (onStop : Exec T Unit) (ls : LoopState T) :
    Meets (fun _ => True) (stopOnce shouldStop onStop ls)
      (fun next _ => next.group = ls.group ∧ next.inFlightAsyncJobs = ls.inFlightAsyncJobs) fun _ _ => True := by
  refine Meets.get_bind fun w => ?_
  split
  · split
    · refine (Meets.trivially _ _).bind fun _ => ?_
      exact (Meets.trivially _ _).bind fun _ => fun _ _ => ⟨rfl,rfl⟩
    · exact fun _ _ => ⟨rfl,rfl⟩
  · exact fun _ _ => ⟨rfl,rfl⟩

/-- Counting jobs one by one is exact as long as their number is a `usize`. -/
theorem count_jobs {J : Type} (jobs : List J) {n : Nat} (room : n + jobs.length ≤ usizeMax) :
    jobs.foldl (fun n _ => saturatingAdd n 1) n = n + jobs.length := by
  induction jobs generalizing n with
  | nil => rfl
  | cons job jobs ih =>
    rw [List.length_cons] at room
    have exact : saturatingAdd n 1 = n + 1 := Nat.min_eq_left (by omega)
    rw [List.foldl_cons,exact,ih (by omega),List.length_cons]
    omega

theorem checkDeadline_snapshot {exit : RunJobsExit} (ran : (checkDeadline E ls).run v = .ok (.inr exit) v') :
    exit = .deadlineExceeded (snapshot v'.queue ls.inFlightAsyncJobs) := by
  obtain ⟨exceeded,u,reads,after⟩ := run_bind_ok.mp ran
  cases exceeded with
  | true =>
    cases after
    rfl
  | false => cases after

theorem startAsyncJobs_group (ran : (startAsyncJobs ls).run v = .ok ls' v') :
    ls'.group = ls.group ++ v.queue.asyncJobs ∧
    ls'.inFlightAsyncJobs = v.queue.asyncJobs.foldl (fun n _ => saturatingAdd n 1) ls.inFlightAsyncJobs := by
  cases ran
  exact ⟨rfl,rfl⟩

section Room
variable (room : ∀ ls v, Visits E shouldStop onStop w .started ls v → ls.group.length ≤ usizeMax)
include room

theorem Visits.room_to_start (visits : Visits E shouldStop onStop w .checked ls v) :
    ls.group.length + v.queue.asyncJobs.length ≤ usizeMax := by
  have fits := room _ _ (visits.start rfl)
  rwa [(startAsyncJobs_group rfl).1,List.length_append] at fits

/-- One place after the other, the counter stays the size of the group. -/
theorem Visits.counted {place : Place} (visits : Visits E shouldStop onStop w place ls v) :
    ls.inFlightAsyncJobs = ls.group.length := by
  induction visits with
  | enter => rfl
  | stop visits ran ih =>
    obtain ⟨group,count⟩ := (stopOnce_group shouldStop onStop _).returned trivial ran
    rw [group,count,ih]
  | check visits ran ih =>
    rcases (checkDeadline_next E _).returned trivial ran with same | ⟨_,ends⟩
    · cases same
      exact ih
    · cases ends
  | start visits ran ih =>
    obtain ⟨group,count⟩ := startAsyncJobs_group ran
    have fits := visits.room_to_start room
    rw [group,count,ih,count_jobs _ fits,List.length_append]
  | wait visits busy ran ih =>
    rcases (waitForWork_next E _).returned trivial ran with rfl | ⟨i,rfl⟩
    · exact ih
    · dsimp only
      rw [ih,List.length_eraseIdx_of_lt i.isLt]
  | close visits ran ih =>
    rcases (closeTurn_next E _).returned trivial ran with same | ⟨_,ends⟩
    · cases same
      exact ih
    · cases ends

end Room

section Log
variable (enqueues : OnlyEnqueues onStop) (fresh : w.log = [])
include enqueues fresh

theorem Visits.balanced {place : Place} (visits : Visits E shouldStop onStop w place ls v) :
    Balanced w.queue (holding ls.group) v := by
  have stops := enqueues.balanced w.queue
  induction visits with
  | enter => exact .opening fresh
  | stop visits ran ih =>
    obtain ⟨balanced,group⟩ := (Balanced.stopOnce shouldStop stops _).returned ih ran
    rwa [group]
  | check visits ran ih =>
    obtain ⟨balanced,same | ⟨_,ends⟩⟩ := (Balanced.checkDeadline E _).returned ih ran
    · cases same
      exact balanced
    · cases ends
  | start visits ran ih => exact ((Balanced.startAsyncJobs _).returned ih ran).1
  | wait visits busy ran ih => exact (Balanced.waitForWork E _).returned ih ran
  | close visits ran ih => exact (Balanced.closeTurn E _).returned ih ran

end Log

/-- The counter of async jobs in flight is exact. At every place of every run it is the
number of futures in the group, which are those that joined and were not yielded; a
snapshot at the deadline reports it with the lengths of the other queues as they are;
and neither the addition for a future that joins nor the subtraction for one that is
yielded saturates. A group is a collection, so its length is a `usize`. -/
theorem in_flight_exact (E : Engine T) (shouldStop : World T → Bool) (onStop : Exec T Unit) (w : World T)
    (room : ∀ ls v, Visits E shouldStop onStop w .started ls v → ls.group.length ≤ usizeMax) :
    (∀ place ls v, Visits E shouldStop onStop w place ls v →
      ls.inFlightAsyncJobs = ls.group.length ∧
      (OnlyEnqueues onStop → w.log = [] → (yieldedIn v.log ++ ls.group).Perm (calledIn Queued.async? v.log))) ∧
    (∀ fuel s w', (runJobsUntilThenToQuiescence E shouldStop onStop fuel).run w = .ok (.deadlineExceeded s) w' →
      (∃ place ls v, Visits E shouldStop onStop w place ls v ∧
        (checkDeadline E ls).run v = .ok (.inr (.deadlineExceeded s)) w' ∧
        s = ⟨ls.group.length,w'.queue.promiseJobs.length,w'.queue.timeoutJobs.items.length,
          w'.queue.genericJobs.length⟩) ∧
      (OnlyEnqueues onStop → w.log = [] →
        (yieldedIn w'.log).length + s.inFlightAsyncJobs = (calledIn Queued.async? w'.log).length)) ∧
    (∀ ls v, Visits E shouldStop onStop w .checked ls v →
      ∀ joined job rest, v.queue.asyncJobs = joined ++ job::rest →
        joined.foldl (fun n _ => saturatingAdd n 1) ls.inFlightAsyncJobs = (ls.group ++ joined).length ∧
        saturatingAdd (ls.group ++ joined).length 1 = (ls.group ++ joined).length + 1) ∧
    (∀ ls v ls' v', Visits E shouldStop onStop w .started ls v → (waitForWork E ls).run v = .ok ls' v' →
      ls' = ls ∨ ∃ i : Fin ls.group.length,
        ls'.group = ls.group.eraseIdx i ∧ ls'.inFlightAsyncJobs + 1 = ls.inFlightAsyncJobs) := by
  refine ⟨?_,?_,?_,?_⟩
  · intro place ls v visits
    exact ⟨visits.counted room,fun enqueues fresh => (visits.balanced enqueues fresh).group⟩
  · intro fuel s w' ran
    obtain ⟨place,ls,v,visits,checks⟩ := visits_of_deadline ran
    have reported := checkDeadline_snapshot checks
    cases reported
    have count := visits.counted room
    refine ⟨⟨place,ls,v,visits,checks,?_⟩,?_⟩
    · simp only [snapshot,OrdMap.items,List.length_flatten,count]
    · intro enqueues fresh
      have balanced := ((Balanced.checkDeadline E ls).returned (visits.balanced enqueues fresh) checks).1
      have lengths := balanced.group.length_eq
      rw [List.length_append] at lengths
      rw [snapshot,count]
      exact lengths
  · intro ls v visits joined job rest waiting
    have fits := visits.room_to_start room
    rw [waiting,List.length_append,List.length_cons] at fits
    rw [visits.counted room,count_jobs joined (by omega),List.length_append]
    exact ⟨rfl,Nat.min_eq_left (by omega)⟩
  · intro ls v ls' v' visits ran
    rcases (waitForWork_next E ls).returned trivial ran with same | ⟨i,rfl⟩
    · exact .inl same
    · have some := i.isLt
      have count := visits.counted room
      refine .inr ⟨i,rfl,?_⟩
      dsimp only
      omega

/-- Two async jobs and a deadline four milliseconds ahead. -/
def twoInFlight : World plain :=
  {(World.new 0 : World plain) with queue := ⟨[1,2],[],.empty,[],some ⟨4000000,by decide⟩⟩}

theorem in_flight_exact_at_twoInFlight : ∃ w',
    (runJobsUntilThenToQuiescence Engine.silent (fun _ => false) (pure ()) 2).run twoInFlight =
      .ok (.deadlineExceeded ⟨2,0,0,0⟩) w' ∧
    (yieldedIn w'.log).length + 2 = (calledIn Queued.async? w'.log).length := by
  -- the run comes to each place of its only turn once
  have path : ∀ place ls v, Visits Engine.silent (fun _ => false) (pure ()) twoInFlight place ls v →
      match place with
      | .started => (startAsyncJobs .new).run twoInFlight = .ok ls v
      | .waited => ∃ started u, (startAsyncJobs .new).run twoInFlight = .ok started u ∧
          (waitForWork Engine.silent started).run u = .ok ls v
      | _ => ls = .new ∧ v = twoInFlight := by
    intro place ls v visits
    induction visits with
    | enter => exact ⟨rfl,rfl⟩
    | stop visits ran ih =>
      obtain ⟨rfl,rfl⟩ := ih
      cases ran
      exact ⟨rfl,rfl⟩
    | check visits ran ih =>
      obtain ⟨rfl,rfl⟩ := ih
      cases ran
      exact ⟨rfl,rfl⟩
    | start visits ran ih =>
      obtain ⟨rfl,rfl⟩ := ih
      exact ran
    | wait visits busy ran ih => exact ⟨_,_,ih,ran⟩
    | close visits ran ih =>
      obtain ⟨started,u,starts,waits⟩ := ih
      cases starts
      cases waits
      cases ran
  have room : ∀ ls v, Visits Engine.silent (fun _ => false) (pure ()) twoInFlight .started ls v →
      ls.group.length ≤ usizeMax := by
    intro ls v visits
    cases path _ _ _ visits
    decide
  obtain ⟨exit,w',ran,passed⟩ := returnsWith_witness
    ((runJobsUntilThenToQuiescence Engine.silent (fun _ => false) (pure ()) 2).run twoInFlight)
    (fun exit _ => exit == .deadlineExceeded ⟨2,0,0,0⟩) (by decide +kernel)
  cases beq_iff_eq.mp passed
  obtain ⟨_,reports,_⟩ := in_flight_exact Engine.silent (fun _ => false) (pure ()) twoInFlight room
  exact ⟨w',ran,(reports 2 _ w' ran).2 (fun _ => ⟨[],rfl,rfl⟩) rfl⟩

end Counting

end MechanicsCore.Executor
