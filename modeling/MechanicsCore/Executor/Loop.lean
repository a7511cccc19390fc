import MechanicsCore.Executor.Queue

/-! The event loop. One turn stops, checks the deadline, starts async jobs, waits
for work, checks the deadline again and drains one macrotask turn; the loop is
bounded by fuel, which only delimits the runs looked at. -/
namespace MechanicsCore.Executor
open MechanicsCore.Library
variable {T : Types} (E : Engine T)

/-- The loop's own variables; `onStop` is true until the callback has been taken. -/
structure LoopState (T : Types) where
  group : List T.Job
  inFlightAsyncJobs : Nat
  stopped : Bool
  onStop : Bool

def LoopState.new : LoopState T := ⟨[],0,false,true⟩

def stopOnce (shouldStop : World T → Bool) (onStop : Exec T Unit) (ls : LoopState T) : Exec T (LoopState T) := do
  if !ls.stopped && shouldStop (← get) then
    if ls.onStop then
      modify (·.record [.stopCalled])
      onStop
    pure {ls with stopped := true, onStop := false}
  else pure ls

/-- Calling a native async job only builds its future, which joins the group. -/
def startAsyncJobs (ls : LoopState T) : Exec T (LoopState T) :=
  modifyGet fun w =>
    let jobs := w.queue.asyncJobs
    ({ls with
        group := ls.group ++ jobs
        inFlightAsyncJobs := jobs.foldl (fun n _ => saturatingAdd n 1) ls.inFlightAsyncJobs},
      {w with queue := {w.queue with asyncJobs := []}}.record (jobs.map fun job => .called (.async job)))

def quiescent (ls : LoopState T) (q : Queue T.Job) : Bool :=
  ls.group.isEmpty && q.promiseJobs.isEmpty && q.timeoutJobs.isEmpty && q.genericJobs.isEmpty

def sleepDuration (q : Queue T.Job) (nextTimeoutAt now : JsInstant) : Nat :=
  if nextTimeoutAt ≤ now then 0
  else
    let d := millisUntilOrZero nextTimeoutAt now
    match q.deadline with
    | some deadline => min d (if deadline ≤ now then 0 else millisUntilOrZero deadline now)
    | none => d

def sleepForTimer : Exec T Unit := do
  let q := (← get).queue
  if q.promiseJobs.isEmpty && q.genericJobs.isEmpty then
    match q.nextTimeoutAt with
    | some nextTimeoutAt =>
      let now ← clockNow E
      let d := sleepDuration q nextTimeoutAt now
      if d ≠ 0 then modify fun w => w.setHeap (E.sleep d w.context)
    | none => pure ()

def pollGroup (ls : LoopState T) : Exec T (LoopState T) := do
  let now ← clockNow E
  let q := (← get).queue
  let hasSyncReadyJobs := !q.promiseJobs.isEmpty || !q.genericJobs.isEmpty || q.hasDueTimeoutJob now
  let budget := waitBudget q now
  if hasSyncReadyJobs || budget = some 0 then pure ls
  else
    match ← perform (E.next ls.group budget) with
    | some (i,.ok ()) =>
      modify (·.record [.yielded (ls.group.get i)])
      pure {ls with group := ls.group.eraseIdx i, inFlightAsyncJobs := ls.inFlightAsyncJobs - 1}
    | some (_,.error e) => throw (.js e)
    | none => pure ls

def waitForWork (ls : LoopState T) : Exec T (LoopState T) := do
  if ls.group.isEmpty then
    sleepForTimer E
    pure ls
  else pollGroup E ls

def checkDeadline (ls : LoopState T) : Exec T (LoopState T ⊕ RunJobsExit) := do
  if ← deadlineExceeded E then
    return .inr (.deadlineExceeded (snapshot (← get).queue ls.inFlightAsyncJobs))
  else return .inl ls

/-- The part of a turn between the stop check and the wait. -/
def openTurn (ls : LoopState T) : Exec T (LoopState T ⊕ RunJobsExit) := do
  match ← checkDeadline E ls with
  | .inr exit => return .inr exit
  | .inl ls =>
    let ls ← startAsyncJobs ls
    if quiescent ls (← get).queue then return .inr .complete else return .inl ls

/-- The part of a turn after the wait. -/
def closeTurn (ls : LoopState T) : Exec T (LoopState T ⊕ RunJobsExit) := do
  match ← checkDeadline E ls with
  | .inr exit => return .inr exit
  | .inl ls =>
    drainJobs E
    modify fun w => w.setHeap (E.yieldNow w.context)
    return .inl ls

def restOfTurn (ls : LoopState T) : Exec T (LoopState T ⊕ RunJobsExit) := do
  match ← openTurn E ls with
  | .inr exit => return .inr exit
  | .inl ls =>
    let ls ← waitForWork E ls
    closeTurn E ls

def turn (shouldStop : World T → Bool) (onStop : Exec T Unit) (ls : LoopState T) :
    Exec T (LoopState T ⊕ RunJobsExit) := do
  let ls ← stopOnce shouldStop onStop ls
  restOfTurn E ls

def turns (shouldStop : World T → Bool) (onStop : Exec T Unit) : Nat → LoopState T → Exec T RunJobsExit
  | 0, _ => throw .outOfFuel
  | fuel + 1, ls => do
    match ← turn E shouldStop onStop ls with
    | .inr exit => pure exit
    | .inl ls => turns shouldStop onStop fuel ls

section Runs
variable (shouldStop : World T → Bool) (onStop : Exec T Unit)

def Turned (a b : LoopState T × World T) : Prop :=
  (turn E shouldStop onStop a.1).run a.2 = .ok (.inl b.1) b.2

/-- States at the head of the turns of a run from `w`. -/
def Reached (w : World T) (ls : LoopState T) (v : World T) : Prop :=
  Relation.ReflTransGen (Turned E shouldStop onStop) (.new,w) (ls,v)

variable {E shouldStop onStop}

/-- What holds at the start and over every turn that goes on holds wherever the run comes. -/
theorem Reached.invariant {w v : World T} {ls : LoopState T} (holds : LoopState T → World T → Prop)
    (start : holds .new w) (turned : ∀ ls v ls' v', holds ls v →
      (turn E shouldStop onStop ls).run v = .ok (.inl ls') v' → holds ls' v')
    (reached : Reached E shouldStop onStop w ls v) : holds ls v := by
  have along : ∀ b, Relation.ReflTransGen (Turned E shouldStop onStop) (LoopState.new,w) b → holds b.1 b.2 := by
    intro b path
    induction path with
    | refl => exact start
    | tail _ step ih => exact turned _ _ _ _ ih step
  exact along (ls,v) reached

theorem turns_returns {fuel : Nat} {ls : LoopState T} {w w' : World T} {exit : RunJobsExit}
    (ran : (turns E shouldStop onStop fuel ls).run w = .ok exit w') :
    ∃ last v, Relation.ReflTransGen (Turned E shouldStop onStop) (ls,w) (last,v) ∧
      (turn E shouldStop onStop last).run v = .ok (.inr exit) w' := by
  induction fuel generalizing ls w with
  | zero => contradiction
  | succ fuel ih =>
    obtain ⟨next,v,turned,after⟩ := run_bind_ok.mp ran
    cases next with
    | inr exit =>
      cases after
      exact ⟨ls,w,.refl,turned⟩
    | inl next =>
      obtain ⟨last,u,reached,exits⟩ := ih after
      exact ⟨last,u,.head (b := (next,v)) turned reached,exits⟩

theorem turns_throws {fuel : Nat} {ls : LoopState T} {w w' : World T} {fault : Fault T}
    (ran : (turns E shouldStop onStop fuel ls).run w = .error fault w') :
    ∃ last v, Relation.ReflTransGen (Turned E shouldStop onStop) (ls,w) (last,v) ∧
      ((turn E shouldStop onStop last).run v = .error fault w' ∨ fault = .outOfFuel ∧ v = w') := by
  induction fuel generalizing ls w with
  | zero =>
    cases ran
    exact ⟨ls,_,.refl,.inr ⟨rfl,rfl⟩⟩
  | succ fuel ih =>
    rcases run_bind_error.mp ran with failed | ⟨next,v,turned,after⟩
    · exact ⟨ls,w,.refl,.inl failed⟩
    · cases next with
      | inr exit => contradiction
      | inl next =>
        obtain ⟨last,u,reached,fails⟩ := ih after
        exact ⟨last,u,.head (b := (next,v)) turned reached,fails⟩

/-- The last turn of a run is determined by where the run starts. -/
theorem Reached.last_unique {w v v' : World T} {ls ls' : LoopState T} (reached : Reached E shouldStop onStop w ls v)
    (reached' : Reached E shouldStop onStop w ls' v')
    (last : ∀ next u, (turn E shouldStop onStop ls).run v ≠ .ok (.inl next) u)
    (last' : ∀ next u, (turn E shouldStop onStop ls').run v' ≠ .ok (.inl next) u) : ls = ls' ∧ v = v' := by
  have unique : Relator.RightUnique (Turned E shouldStop onStop) := by
    intro a b c first second
    have same := first.symm.trans second
    simp only [EStateM.Result.ok.injEq,Sum.inl.injEq] at same
    exact Prod.ext same.1 same.2
  rcases Relation.ReflTransGen.total_of_right_unique unique reached reached' with onward | back
  · rcases Relation.ReflTransGen.cases_head onward with same | ⟨next,turned,_⟩
    · exact Prod.mk.inj same
    · exact absurd turned (last next.1 next.2)
  · rcases Relation.ReflTransGen.cases_head back with same | ⟨next,turned,_⟩
    · exact Prod.mk.inj same.symm
    · exact absurd turned (last' next.1 next.2)

end Runs

def runJobsUntilThenToQuiescence (shouldStop : World T → Bool) (onStop : Exec T Unit) (fuel : Nat) :
    Exec T RunJobsExit :=
  turns E shouldStop onStop fuel .new

def timeoutError : JsError T.Value := .native .runtimeLimit "Maximum execution time exceeded"

def runJobs (fuel : Nat) : Exec T Unit := do
  match ← runJobsUntilThenToQuiescence E (fun _ => false) (pure ()) fuel with
  | .complete => pure ()
  | .deadlineExceeded _ => throw (.js timeoutError)

end MechanicsCore.Executor
