import MechanicsCore.Pool.Accounting
import MechanicsCore.Pool.WindDown

/-! The whole pool. The two machines, of threads and handles and of calls and jobs, move
together: a worker's loop is the loop of one thread, the owner that closes and drains
the pool is the one that drops it, and calls borrow the pool as long as it is in use.
The whole machine refines each of the two. What both together say of a drop that has
returned is that nothing of the pool is left. -/
namespace MechanicsCore.Pool.Whole
open MechanicsCore.Library
variable {V : Type}

/-- `serving` has the thread of each worker's loop. -/
structure State (V : Type) where
  life : Lifecycle.State
  jobs : Protocol.State V
  serving : List Lifecycle.ThreadId

inductive Action (V : Type)
  | thread (t : Lifecycle.ThreadId) (a : Lifecycle.WorkerAction)
  | enterLoop (t : Lifecycle.ThreadId)
  | serve (i : Nat) (a : Protocol.WorkerAction V)
  | supervisor (a : Lifecycle.SupervisorAction)
  | client (i : Nat)
  | enterLiveWorkers
  | owner (a : Lifecycle.OwnerAction)
  | answer
  | submit (entry : Protocol.Entry) (runTimeout : Option Nat)
  | call (j : Protocol.CallId) (a : Protocol.CallAction)
  | elapse (nanos : Nat)

/-- A thread's steps before and after its loop. -/
def outsideLoop : Lifecycle.WorkerAction → Bool
  | .startErr => true
  | .startPanic => true
  | .sendPanicReady => true
  | .sendExit => true
  | .finish => true
  | _ => false

/-- What a step of a worker's loop is to its thread. -/
def threadStep : Protocol.WorkerPc → Protocol.WorkerAction V → Option Lifecycle.WorkerAction
  | .select, .takeShutdown => some .takeShutdown
  | .select, .takeJob => some .takeJob
  | .canceling _, .next => some .finishJob
  | .reporting _ _, .next => some .finishJob
  | .running _, .finish .mainReplied => some .finishJob
  | .panicked _, .next => some .jobPanic
  | _, .unwind => some .loopPanic
  | _, _ => none

/-- What a step of the owner is to the jobs. Calls borrow the pool, so it is dropped
when all of them have returned. -/
def ownerJobs (s : State V) (a : Lifecycle.OwnerAction) : Option (Protocol.State V) :=
  match s.life.owner, a with
  | .markClosed _, .next => Protocol.step s.jobs .drop
  | .drainQueue _, .next => if s.jobs.drop = .draining then Protocol.step s.jobs .drop else none
  | .inUse, .dropPool => if s.jobs.calls.all (·.pc.isReturned) then some s.jobs else none
  | _, _ => some s.jobs

/-- The number of live workers is the one that `live_workers` has just counted. -/
def countedLive (s : State V) : Protocol.CallAction → Bool
  | .liveWorkers live => s.life.clients.contains (.counted live)
  | _ => true

/-- The calls read the flag that the supervisor writes. -/
def State.withLife (s : State V) (life : Lifecycle.State) : State V :=
  {s with life, jobs := {s.jobs with restartBlocked := life.restartBlocked}}

def step (s : State V) : Action V → Option (State V)
  | .thread t a =>
    if outsideLoop a then (Lifecycle.step s.life (.worker t a)).map fun life => {s with life} else none
  | .enterLoop t => do
    let life ← Lifecycle.step s.life (.worker t .startOk)
    let jobs ← Protocol.step s.jobs .spawnWorker
    some {life,jobs,serving := s.serving ++ [t]}
  | .serve i a => do
    let t ← s.serving[i]?
    let w ← s.jobs.workers[i]?
    let jobs ← Protocol.step s.jobs (.worker i a)
    match threadStep w a with
    | none => some {s with jobs}
    | some b => (Lifecycle.step s.life (.worker t b)).map fun life => {s with life,jobs}
  | .supervisor a => (Lifecycle.step s.life (.supervisor a)).map s.withLife
  | .client i => (Lifecycle.step s.life (.client i)).map s.withLife
  | .enterLiveWorkers => (Lifecycle.step s.life .enterLiveWorkers).map s.withLife
  | .owner a => do
    let life ← Lifecycle.step s.life (.owner a)
    let jobs ← ownerJobs s a
    some ({s with jobs}.withLife life)
  | .answer =>
    match s.jobs.drop with
    | .answering _ => (Protocol.step s.jobs .drop).map fun jobs => {s with jobs}
    | _ => none
  | .submit entry runTimeout =>
    if s.life.owner = .inUse then
      (Protocol.step s.jobs (.submit entry runTimeout)).map fun jobs => {s with jobs}
    else none
  | .call j a =>
    if countedLive s a then do
      let jobs ← Protocol.step s.jobs (.call j a)
      if jobs.queue.length = s.jobs.queue.length then some {s with jobs}
      else (Lifecycle.step s.life .submit).map fun life => {s with life,jobs}
    else none
  | .elapse nanos => do
    let life ← Lifecycle.step s.life (.elapse nanos)
    let jobs ← Protocol.step s.jobs (.elapse nanos)
    some {s with life,jobs}

def machine : Machine (State V) (Action V) where
  initial s := ∃ desired capacity window maxRestarts enqueueTimeout runTimeout instantBound,
    0 < desired ∧ 0 < capacity ∧ 0 < maxRestarts ∧
      s = ⟨.new desired capacity window maxRestarts,.new capacity enqueueTimeout runTimeout instantBound 0,[]⟩
  step := step

/-- Everything a step can do, on both sides. -/
inductive Took (s : State V) : Action V → State V → Prop
  | thread (t : Lifecycle.ThreadId) (a : Lifecycle.WorkerAction) (life : Lifecycle.State)
      (outside : outsideLoop a = true) (moved : Lifecycle.step s.life (.worker t a) = some life) :
      Took s (.thread t a) {s with life}
  | enterLoop (t : Lifecycle.ThreadId) (life : Lifecycle.State)
      (moved : Lifecycle.step s.life (.worker t .startOk) = some life) :
      Took s (.enterLoop t)
        {s with life,jobs := {s.jobs with workers := s.jobs.workers ++ [.select]},serving := s.serving ++ [t]}
  | work (i : Nat) (a : Protocol.WorkerAction V) (w : Protocol.WorkerPc) (jobs : Protocol.State V)
      (held : s.jobs.workers[i]? = some w) (worked : Protocol.step s.jobs (.worker i a) = some jobs)
      (inside : threadStep w a = none) : Took s (.serve i a) {s with jobs}
  | serve (i : Nat) (a : Protocol.WorkerAction V) (t : Lifecycle.ThreadId) (w : Protocol.WorkerPc)
      (b : Lifecycle.WorkerAction) (life : Lifecycle.State) (jobs : Protocol.State V) (serves : s.serving[i]? = some t)
      (held : s.jobs.workers[i]? = some w) (worked : Protocol.step s.jobs (.worker i a) = some jobs)
      (turn : threadStep w a = some b) (moved : Lifecycle.step s.life (.worker t b) = some life) :
      Took s (.serve i a) {s with life,jobs}
  | beside (a : Action V) (b : Lifecycle.Action) (life : Lifecycle.State) (quiet : ∀ i c, a ≠ .serve i c)
      (moved : Lifecycle.step s.life b = some life) (aside : Lifecycle.Beside s.life life) : Took s a (s.withLife life)
  | own (a : Lifecycle.OwnerAction) (life : Lifecycle.State) (moved : Lifecycle.step s.life (.owner a) = some life)
      (stays : ownerJobs s a = some s.jobs)
      (apart : a = .next → ∀ built, s.life.owner ≠ .markClosed built ∧ s.life.owner ≠ .drainQueue built) :
      Took s (.owner a) (s.withLife life)
  | drop (built : Bool) (life : Lifecycle.State) (jobs : Protocol.State V)
      (here : s.life.owner = .markClosed built ∨ s.life.owner = .drainQueue built ∧ s.jobs.drop = .draining)
      (moved : Lifecycle.step s.life (.owner .next) = some life) (dropped : Protocol.step s.jobs .drop = some jobs) :
      Took s (.owner .next) ({s with jobs}.withLife life)
  | answer (j : Protocol.CallId) (jobs : Protocol.State V) (drained : s.jobs.drop = .answering j)
      (answered : Protocol.step s.jobs .drop = some jobs) : Took s .answer {s with jobs}
  | submit (entry : Protocol.Entry) (runTimeout : Option Nat) (jobs : Protocol.State V) (inUse : s.life.owner = .inUse)
      (submitted : Protocol.step s.jobs (.submit entry runTimeout) = some jobs) : Took s (.submit entry runTimeout) {s with jobs}
  | call (j : Protocol.CallId) (a : Protocol.CallAction) (jobs : Protocol.State V)
      (called : Protocol.step s.jobs (.call j a) = some jobs) (same : jobs.queue.length = s.jobs.queue.length) :
      Took s (.call j a) {s with jobs}
  | enqueue (j : Protocol.CallId) (a : Protocol.CallAction) (life : Lifecycle.State) (jobs : Protocol.State V)
      (called : Protocol.step s.jobs (.call j a) = some jobs) (more : jobs.queue.length ≠ s.jobs.queue.length)
      (moved : Lifecycle.step s.life .submit = some life) : Took s (.call j a) {s with life,jobs}
  | elapse (nanos : Nat) : Took s (.elapse nanos)
      {s with
        life := {s.life with clock := s.life.clock + nanos}
        jobs := {s.jobs with clock := s.jobs.clock + nanos}}

section Sides
variable {s s' : State V} {a : Action V}

theorem ownerStep_took {a : Lifecycle.OwnerAction} {life : Lifecycle.State} {jobs : Protocol.State V}
    (moved : Lifecycle.step s.life (.owner a) = some life) (owned : ownerJobs s a = some jobs) :
    Took s (.owner a) ({s with jobs}.withLife life) := by
  have stays (same : ownerJobs s a = some s.jobs)
      (apart : a = .next → ∀ built, s.life.owner ≠ .markClosed built ∧ s.life.owner ≠ .drainQueue built) :
      Took s (.owner a) ({s with jobs}.withLife life) := by
    cases owned.symm.trans same
    exact .own a life moved same apart
  cases here : s.life.owner with
  | markClosed built =>
    cases a with
    | next =>
      simp only [ownerJobs,here] at owned
      exact .drop built life jobs (.inl here) moved owned
    | _ => exact stays (by simp only [ownerJobs,here]) (by simp)
  | drainQueue built =>
    cases a with
    | next =>
      simp only [ownerJobs,here] at owned
      split at owned
      · rename_i idle
        exact .drop built life jobs (.inr ⟨here,idle⟩) moved owned
      · contradiction
    | _ => exact stays (by simp only [ownerJobs,here]) (by simp)
  | inUse =>
    cases a with
    | dropPool =>
      refine stays ?_ (by simp)
      simp only [ownerJobs,here] at owned ⊢
      split at owned
      · rename_i returned
        rw [if_pos returned]
      · contradiction
    | _ => exact stays (by simp only [ownerJobs,here]) (by simp [here])
  | _ => exact stays (by simp only [ownerJobs,here]) (by simp [here])

theorem step_took (taken : step s a = some s') : Took s a s' := by
  cases a with
  | thread t a =>
    simp only [step] at taken
    split at taken
    · rename_i outside
      obtain ⟨life,moved,rfl⟩ := Option.map_eq_some_iff.mp taken
      exact .thread t a life outside moved
    · contradiction
  | enterLoop t =>
    simp only [step,bind,Option.bind_eq_some_iff] at taken
    obtain ⟨life,moved,jobs,spawned,same⟩ := taken
    cases spawned
    cases same
    exact .enterLoop t life moved
  | serve i a =>
    simp only [step,bind,Option.bind_eq_some_iff] at taken
    obtain ⟨t,serves,w,held,jobs,worked,taken⟩ := taken
    split at taken
    · rename_i inside
      cases taken
      exact .work i a w jobs held worked inside
    · rename_i b turn
      obtain ⟨life,moved,rfl⟩ := Option.map_eq_some_iff.mp taken
      exact .serve i a t w b life jobs serves held worked turn moved
  | supervisor a =>
    obtain ⟨life,moved,rfl⟩ := Option.map_eq_some_iff.mp taken
    exact .beside _ _ life (by simp) moved (Lifecycle.supervisorStep_beside moved)
  | client i =>
    obtain ⟨life,moved,rfl⟩ := Option.map_eq_some_iff.mp taken
    exact .beside _ _ life (by simp) moved (Lifecycle.clientStep_beside moved)
  | enterLiveWorkers =>
    obtain ⟨life,moved,rfl⟩ := Option.map_eq_some_iff.mp taken
    refine .beside _ _ life (by simp) moved ?_
    simp only [Lifecycle.step] at moved
    split at moved
    · cases moved
      exact ⟨.refl _,rfl,rfl,rfl⟩
    · contradiction
  | owner a =>
    simp only [step,bind,Option.bind_eq_some_iff] at taken
    obtain ⟨life,moved,jobs,owned,same⟩ := taken
    cases same
    exact ownerStep_took moved owned
  | answer =>
    simp only [step] at taken
    split at taken
    · rename_i j drained
      obtain ⟨jobs,moved,rfl⟩ := Option.map_eq_some_iff.mp taken
      exact .answer j jobs drained moved
    · contradiction
  | submit entry runTimeout =>
    simp only [step] at taken
    split at taken
    · rename_i inUse
      obtain ⟨jobs,moved,rfl⟩ := Option.map_eq_some_iff.mp taken
      exact .submit entry runTimeout jobs inUse moved
    · contradiction
  | call j a =>
    simp only [step] at taken
    split at taken
    · obtain ⟨jobs,called,taken⟩ := Option.bind_eq_some_iff.mp taken
      split at taken
      · rename_i same
        cases taken
        exact .call j a jobs called same
      · rename_i more
        obtain ⟨life,moved,rfl⟩ := Option.map_eq_some_iff.mp taken
        exact .enqueue j a life jobs called more moved
    · contradiction
  | elapse nanos =>
    cases taken
    exact .elapse nanos

theorem Took.leads_life (took : Took s a s') : Lifecycle.machine.Leads s.life s'.life := by
  cases took with
  | thread t a life outside moved => exact .one (a := .worker t a) moved
  | enterLoop t life moved => exact .one (a := .worker t .startOk) moved
  | work => exact .refl
  | serve i a t w b life jobs serves held worked turn moved => exact .one (a := .worker t b) moved
  | beside _ b life quiet moved => exact .one (a := b) moved
  | own a life moved => exact .one (a := .owner a) moved
  | drop built life jobs here moved => exact .one (a := .owner .next) moved
  | answer => exact .refl
  | submit => exact .refl
  | call => exact .refl
  | enqueue j a life jobs called more moved => exact .one (a := .submit) moved
  | elapse nanos => exact .one (a := .elapse nanos) rfl

theorem leads_withLife {jobs q : Protocol.State V} (first : Protocol.machine.Leads jobs q) (blocked : Bool) :
    Protocol.machine.Leads jobs {q with restartBlocked := blocked} :=
  first.tail ⟨.setRestartBlocked blocked,rfl⟩

theorem Took.leads_jobs (took : Took s a s') : Protocol.machine.Leads s.jobs s'.jobs := by
  cases took with
  | thread => exact .refl
  | enterLoop t life moved => exact .one (a := .spawnWorker) rfl
  | work i a w jobs held worked => exact .one (a := .worker i a) worked
  | serve i a t w b life jobs serves held worked => exact .one (a := .worker i a) worked
  | beside _ _ life => exact leads_withLife .refl _
  | own a life => exact leads_withLife .refl _
  | drop built life jobs here moved dropped => exact leads_withLife (.one (a := .drop) dropped) _
  | answer j jobs drained answered => exact .one (a := .drop) answered
  | submit entry runTimeout jobs inUse submitted => exact .one (a := .submit entry runTimeout) submitted
  | call j a jobs called => exact .one (a := .call j a) called
  | enqueue j a life jobs called => exact .one (a := .call j a) called
  | elapse nanos => exact .one (a := .elapse nanos) rfl

theorem reachable_life (reached : machine.Reachable s) : Lifecycle.machine.Reachable s.life := by
  refine reached.project State.life ?_ fun s a s' taken => (step_took taken).leads_life
  rintro s ⟨desired,capacity,window,maxRestarts,_,_,_,wanted,room,restarts,rfl⟩
  exact ⟨desired,capacity,window,maxRestarts,wanted,room,restarts,rfl⟩

theorem reachable_jobs (reached : machine.Reachable s) : Protocol.machine.Reachable s.jobs := by
  refine reached.project State.jobs ?_ fun s a s' taken => (step_took taken).leads_jobs
  rintro s ⟨_,capacity,_,_,enqueueTimeout,runTimeout,instantBound,_,room,_,rfl⟩
  exact ⟨capacity,enqueueTimeout,runTimeout,instantBound,0,room,rfl⟩

end Sides

/-! ## The two sides together -/

/-- The steps of a worker's loop. -/
inductive Loops : Protocol.WorkerPc → Protocol.WorkerAction V → Protocol.WorkerPc → Prop
  | take (j : Protocol.CallId) : Loops .select .takeJob (.checking j)
  | refuse (j : Protocol.CallId) : Loops (.checking j) .next (.canceling j)
  | pass (j : Protocol.CallId) : Loops (.checking j) .next (.passed j)
  | start (j : Protocol.CallId) : Loops (.passed j) .next (.running j)
  | serve {w w' : Protocol.WorkerPc} {a : Protocol.WorkerAction V} (served : Protocol.Serve w a w') : Loops w a w'

/-- Where a thread is while its worker's loop is at some place. -/
def inPhase : Protocol.WorkerPc → Lifecycle.Phase → Prop
  | .select, phase => phase = .select
  | .exited, phase => 2 ≤ phase.rank
  | _, phase => phase = .running

theorem inPhase_outside {pc : Protocol.WorkerPc} {phase : Lifecycle.Phase} (there : inPhase pc phase)
    (notSelect : phase ≠ .select) (notRunning : phase ≠ .running) : pc = .exited ∧ 2 ≤ phase.rank := by
  cases pc with
  | select => exact absurd there notSelect
  | exited => exact ⟨rfl,there⟩
  | _ => exact absurd there notRunning

theorem phaseStep_outside {a : Lifecycle.WorkerAction} {phase phase' : Lifecycle.Phase} (outside : outsideLoop a = true)
    (moved : Lifecycle.PhaseStep a phase phase') :
    phase ≠ .select ∧ phase ≠ .running ∧ (2 ≤ phase.rank → 2 ≤ phase'.rank) := by
  cases moved <;> first | contradiction | simp [Lifecycle.Phase.rank]

theorem Loops.stays {w w' : Protocol.WorkerPc} {a : Protocol.WorkerAction V} (loops : Loops w a w')
    (inside : threadStep w a = none) {phase : Lifecycle.Phase} (before : inPhase w phase) : inPhase w' phase := by
  cases loops with
  | take j => cases inside
  | refuse j => exact before
  | pass j => exact before
  | start j => exact before
  | serve served =>
    cases served with
    | early j result => exact before
    | failed j error => exact before
    | panic j => exact before
    | unwind w alive => cases w <;> cases inside
    | _ => cases inside

theorem Loops.moves {w w' : Protocol.WorkerPc} {a : Protocol.WorkerAction V} (loops : Loops w a w')
    {b : Lifecycle.WorkerAction} (turn : threadStep w a = some b) {phase phase' : Lifecycle.Phase}
    (moved : Lifecycle.PhaseStep b phase phase') : inPhase w' phase' := by
  cases loops with
  | take j =>
    cases turn
    cases moved
    rfl
  | refuse j => cases turn
  | pass j => cases turn
  | start j => cases turn
  | serve served =>
    cases served with
    | early j result => cases turn
    | failed j error => cases turn
    | panic j => cases turn
    | unwind w alive =>
      have same : b = .loopPanic := by cases w <;> exact (Option.some.inj turn).symm
      subst same
      cases moved
      exact Nat.le_refl 2
    | shutdown =>
      cases turn
      cases moved
      exact Nat.le_succ 2
    | panicked j =>
      cases turn
      cases moved
      exact Nat.le_succ 2
    | _ =>
      cases turn
      cases moved
      rfl

/-- Each worker's loop is where its thread is. -/
def Served (workers : List Protocol.WorkerPc) (serving : List Lifecycle.ThreadId) (threads : List Lifecycle.Worker) : Prop :=
  ∀ (i : Nat) (pc : Protocol.WorkerPc) (t : Lifecycle.ThreadId), workers[i]? = some pc → serving[i]? = some t →
    ∃ w, threads[t]? = some w ∧ inPhase pc w.phase

section Served
variable {workers : List Protocol.WorkerPc} {serving : List Lifecycle.ThreadId} {threads after : List Lifecycle.Worker}

theorem Served.phases (served : Served workers serving threads) (same : Lifecycle.SamePhases threads after) :
    Served workers serving after := by
  intro i pc t held serves
  obtain ⟨w,found,there⟩ := served i pc t held serves
  obtain ⟨w',found',phase⟩ := same t w found
  exact ⟨w',found',phase ▸ there⟩

/-- One thread moves: for the worker that it serves the new phase has to do, the others do not see it. -/
theorem Served.set (served : Served workers serving threads) {t : Lifecycle.ThreadId} {w' : Lifecycle.Worker}
    (bound : t < threads.length)
    (own : ∀ (i : Nat) (pc : Protocol.WorkerPc), workers[i]? = some pc → serving[i]? = some t → inPhase pc w'.phase) :
    Served workers serving (threads.set t w') := by
  intro i pc u held serves
  by_cases same : t = u
  · subst same
    exact ⟨w',by simp [bound],own i pc held serves⟩
  · obtain ⟨w,found,there⟩ := served i pc u held serves
    exact ⟨w,by rw [List.getElem?_set_ne same,found],there⟩

theorem Served.work (served : Served workers serving threads) {i : Nat} {pc pc' : Protocol.WorkerPc}
    (held : workers[i]? = some pc) (stays : ∀ phase, inPhase pc phase → inPhase pc' phase) :
    Served (workers.set i pc') serving threads := by
  intro k other t there serves
  by_cases same : i = k
  · subst same
    rw [List.getElem?_set_self (List.getElem?_eq_some_iff.mp held).1] at there
    cases there
    obtain ⟨w,found,before⟩ := served i pc t held serves
    exact ⟨w,found,stays w.phase before⟩
  · rw [List.getElem?_set_ne same] at there
    exact served k other t there serves

theorem Served.serve (served : Served workers serving threads) (distinct : serving.Nodup) {i : Nat}
    {pc pc' : Protocol.WorkerPc} {t : Lifecycle.ThreadId} {w' : Lifecycle.Worker} (held : workers[i]? = some pc)
    (serves : serving[i]? = some t) (bound : t < threads.length) (after : inPhase pc' w'.phase) :
    Served (workers.set i pc') serving (threads.set t w') := by
  intro k other u there served'
  by_cases same : i = k
  · subst same
    cases serves.symm.trans served'
    rw [List.getElem?_set_self (List.getElem?_eq_some_iff.mp held).1] at there
    cases there
    exact ⟨w',by simp [bound],after⟩
  · rw [List.getElem?_set_ne same] at there
    have apart : t ≠ u := by
      rintro rfl
      exact same ((List.getElem?_inj (List.getElem?_eq_some_iff.mp serves).1 distinct).mp (serves.trans served'.symm))
    obtain ⟨w,found,before⟩ := served k other u there served'
    exact ⟨w,by rw [List.getElem?_set_ne apart,found],before⟩

end Served

theorem setCall_pcs {p : Protocol.State V} {j : Protocol.CallId} {c c' : Protocol.Call V} (found : p.calls[j]? = some c)
    (pc : c'.pc = c.pc) : (p.calls.set j c').map (·.pc) = p.calls.map (·.pc) := by
  refine List.ext_getElem? fun k => ?_
  by_cases here : j = k
  · obtain ⟨bound,rfl⟩ := List.getElem?_eq_some_iff.mp found
    subst here
    simp [pc,bound]
  · simp [List.getElem?_set_ne here]

/-- What a worker's step is to the rest of the jobs' machine. -/
theorem workerStep_loops {p p' : Protocol.State V} {i : Nat} {a : Protocol.WorkerAction V}
    (taken : Protocol.step p (.worker i a) = some p') :
    ∃ w w', p.workers[i]? = some w ∧ Loops w a w' ∧ p'.workers = p.workers.set i w' ∧ p'.drop = p.drop ∧
      p'.calls.map (·.pc) = p.calls.map (·.pc) ∧
      (a = .takeJob ∧ p.queue.length = p'.queue.length + 1 ∨ a ≠ .takeJob ∧ p'.queue = p.queue) := by
  have other {w w' : Protocol.WorkerPc} {a : Protocol.WorkerAction V} (serve : Protocol.Serve w a w') : a ≠ .takeJob := by
    rintro rfl
    cases serve
  cases Protocol.step_did taken with
  | take i j rest idle queued => exact ⟨_,_,idle,.take j,rfl,rfl,rfl,.inl ⟨rfl,by rw [queued]; rfl⟩⟩
  | check i j c held found =>
    refine ⟨_,_,held,?_,rfl,rfl,setCall_pcs found rfl,.inr ⟨by simp,rfl⟩⟩
    split
    · exact .refuse j
    · exact .pass j
  | start i j held => exact ⟨_,_,held,.start j,rfl,rfl,rfl,.inr ⟨by simp,rfl⟩⟩
  | serve i a w w' held serve => exact ⟨_,_,held,.serve serve,rfl,rfl,rfl,.inr ⟨other serve,rfl⟩⟩
  | answer i a j w w' source result c c' held serve own found sent =>
    exact ⟨_,_,held,.serve serve,rfl,rfl,setCall_pcs found (Protocol.Call.send_cases sent).2.1,
      .inr ⟨other serve,rfl⟩⟩

/-- How far the drop has come, for the owner and for the jobs. -/
def ownerStage (pc : Lifecycle.OwnerPc) : Nat := if pc.opened then 0 else if pc.drained then 2 else 1

def dropStage : Protocol.DropPc → Nat
  | .inUse => 0
  | .draining => 1
  | .answering _ => 1
  | .drained => 2

theorem ownerStage_opened {pc : Lifecycle.OwnerPc} (opened : pc.opened = true) : ownerStage pc = 0 := by
  simp [ownerStage,opened]

theorem ownerStage_drained {pc : Lifecycle.OwnerPc} (drained : pc.drained = true) : ownerStage pc = 2 := by
  have notOpen : pc.opened = false := by cases pc <;> first | rfl | cases drained
  simp [ownerStage,drained,notOpen]

/-- What the two sides have to agree on. -/
structure Coupled (s : State V) : Prop where
  queue : s.life.queued = s.jobs.queue.length
  stage : ownerStage s.life.owner = dropStage s.jobs.drop
  returned : s.life.owner ≠ .inUse → ∀ pc ∈ s.jobs.calls.map (·.pc), pc.isReturned = true
  length : s.serving.length = s.jobs.workers.length
  distinct : s.serving.Nodup
  served : Served s.jobs.workers s.serving s.life.threads

section Coupled
variable {s s' : State V} {a : Action V}

theorem Coupled.thread (coupled : Coupled s) {t : Lifecycle.ThreadId} {a : Lifecycle.WorkerAction} {life : Lifecycle.State}
    (outside : outsideLoop a = true) (moved : Lifecycle.step s.life (.worker t a) = some life) : Coupled {s with life} := by
  obtain ⟨w,w',exits,queued,found,phase,rfl,count⟩ := Lifecycle.workerStep_phase moved
  have same : queued = s.life.queued := by
    rcases count with ⟨rfl,_⟩ | ⟨_,same⟩
    · cases outside
    · exact same
  refine {coupled with queue := same.trans coupled.queue,served := ?_}
  refine coupled.served.set (List.getElem?_eq_some_iff.mp found).1 fun i pc held serves => ?_
  -- a worker with this thread has left its loop, and so it stays
  obtain ⟨v,known,there⟩ := coupled.served i pc t held serves
  cases found.symm.trans known
  obtain ⟨notSelect,notRunning,later⟩ := phaseStep_outside outside phase
  obtain ⟨rfl,left⟩ := inPhase_outside there notSelect notRunning
  exact later left

theorem Coupled.enterLoop (coupled : Coupled s) {t : Lifecycle.ThreadId} {life : Lifecycle.State}
    (moved : Lifecycle.step s.life (.worker t .startOk) = some life) :
    Coupled {s with life,jobs := {s.jobs with workers := s.jobs.workers ++ [.select]},serving := s.serving ++ [t]} := by
  obtain ⟨w,w',exits,queued,found,phase,rfl,count⟩ := Lifecycle.workerStep_phase moved
  have same : queued = s.life.queued := by
    rcases count with ⟨other,_⟩ | ⟨_,same⟩
    · cases other
    · exact same
  obtain ⟨started,entered⟩ : w.phase = .starting ∧ w'.phase = .select := Lifecycle.startOk_phases phase
  have fresh : t ∉ s.serving := by
    intro member
    obtain ⟨i,bound,rfl⟩ := List.mem_iff_getElem.mp member
    have known : i < s.jobs.workers.length := coupled.length ▸ bound
    obtain ⟨v,there,at_⟩ := coupled.served i _ _ (List.getElem?_eq_getElem known) (List.getElem?_eq_getElem bound)
    cases found.symm.trans there
    have left := (inPhase_outside at_ (by simp [started]) (by simp [started])).2
    simp [started,Lifecycle.Phase.rank] at left
  have distinct : (s.serving ++ [t]).Nodup := by
    refine List.nodup_append.mpr ⟨coupled.distinct,List.nodup_singleton t,?_⟩
    rintro u member v single rfl
    exact fresh (List.mem_singleton.mp single ▸ member)
  refine {coupled with
    queue := same.trans coupled.queue
    length := by simp [coupled.length]
    distinct := distinct
    served := ?_}
  intro i pc u held serves
  by_cases known : i < s.jobs.workers.length
  · rw [List.getElem?_append_left known] at held
    rw [List.getElem?_append_left (coupled.length ▸ known)] at serves
    have apart : t ≠ u := by
      rintro rfl
      exact fresh (List.mem_of_getElem? serves)
    obtain ⟨v,there,at_⟩ := coupled.served i pc u held serves
    exact ⟨v,by simp [List.getElem?_set_ne apart,there],at_⟩
  · have last : i = s.jobs.workers.length := by
      have bound := (List.getElem?_eq_some_iff.mp held).1
      simp at bound
      omega
    subst last
    rw [List.getElem?_append_right (Nat.le_refl _),Nat.sub_self] at held
    rw [← coupled.length,List.getElem?_append_right (Nat.le_refl _),Nat.sub_self] at serves
    cases held
    cases serves
    exact ⟨w',by simp [(List.getElem?_eq_some_iff.mp found).1],entered⟩

theorem Coupled.beside (coupled : Coupled s) {life : Lifecycle.State} (aside : Lifecycle.Beside s.life life) :
    Coupled (s.withLife life) where
  queue := aside.queued.trans coupled.queue
  stage := aside.owner ▸ coupled.stage
  returned := aside.owner ▸ coupled.returned
  length := coupled.length
  distinct := coupled.distinct
  served := coupled.served.phases aside.phases

theorem Coupled.work (coupled : Coupled s) {i : Nat} {a : Protocol.WorkerAction V} {w : Protocol.WorkerPc}
    {jobs : Protocol.State V} (held : s.jobs.workers[i]? = some w)
    (worked : Protocol.step s.jobs (.worker i a) = some jobs) (inside : threadStep w a = none) : Coupled {s with jobs} := by
  obtain ⟨w₁,w',held',loops,workers,drop,pcs,queue⟩ := workerStep_loops worked
  cases held.symm.trans held'
  refine ⟨?_,?_,?_,?_,coupled.distinct,?_⟩
  · rcases queue with ⟨rfl,_⟩ | ⟨_,same⟩
    · cases loops with
      | take j => cases inside
      | serve served => cases served
    · exact coupled.queue.trans (congrArg List.length same.symm)
  · exact coupled.stage.trans (congrArg dropStage drop.symm)
  · exact fun closing => pcs ▸ coupled.returned closing
  · exact coupled.length.trans (by simp [workers])
  · change Served jobs.workers s.serving s.life.threads
    rw [workers]
    exact coupled.served.work held fun phase before => loops.stays inside before

theorem Coupled.serve (coupled : Coupled s) {i : Nat} {a : Protocol.WorkerAction V} {t : Lifecycle.ThreadId}
    {w : Protocol.WorkerPc} {b : Lifecycle.WorkerAction} {life : Lifecycle.State} {jobs : Protocol.State V}
    (serves : s.serving[i]? = some t) (held : s.jobs.workers[i]? = some w)
    (worked : Protocol.step s.jobs (.worker i a) = some jobs) (turn : threadStep w a = some b)
    (moved : Lifecycle.step s.life (.worker t b) = some life) : Coupled {s with life,jobs} := by
  obtain ⟨w₁,w',held',loops,workers,drop,pcs,queue⟩ := workerStep_loops worked
  cases held.symm.trans held'
  obtain ⟨v,v',exits,queued,found,phase,rfl,count⟩ := Lifecycle.workerStep_phase moved
  have both : a = .takeJob ↔ b = .takeJob := by
    constructor
    · rintro rfl
      cases loops with
      | take j => exact (Option.some.inj turn).symm
      | serve served => cases served
    · rintro rfl
      unfold threadStep at turn
      split at turn <;> first | rfl | cases turn
  refine ⟨?_,?_,?_,?_,coupled.distinct,?_⟩
  · have before := coupled.queue
    rcases queue with ⟨take,one⟩ | ⟨other,same⟩
    · rcases count with ⟨_,fewer⟩ | ⟨no,_⟩
      · change queued = jobs.queue.length
        omega
      · exact absurd (both.mp take) no
    · rcases count with ⟨take,_⟩ | ⟨_,kept⟩
      · exact absurd (both.mpr take) other
      · exact (kept.trans before).trans (congrArg List.length same.symm)
  · exact coupled.stage.trans (congrArg dropStage drop.symm)
  · exact fun closing => pcs ▸ coupled.returned closing
  · exact coupled.length.trans (by simp [workers])
  · change Served jobs.workers s.serving (s.life.threads.set t v')
    rw [workers]
    exact coupled.served.serve coupled.distinct held serves (List.getElem?_eq_some_iff.mp found).1 (loops.moves turn phase)

theorem Coupled.own (coupled : Coupled s) {a : Lifecycle.OwnerAction} {life : Lifecycle.State}
    (moved : Lifecycle.step s.life (.owner a) = some life) (stays : ownerJobs s a = some s.jobs)
    (apart : a = .next → ∀ built, s.life.owner ≠ .markClosed built ∧ s.life.owner ≠ .drainQueue built) :
    Coupled (s.withLife life) := by
  have stage := coupled.stage
  cases Lifecycle.ownerStep_owners moved with
  | build _ _ before after unused phases queued closed =>
    refine ⟨queued.trans coupled.queue,?_,fun _ => coupled.returned unused,coupled.length,coupled.distinct,
      coupled.served.phases phases⟩
    exact (ownerStage_opened after).trans ((ownerStage_opened before).symm.trans stage)
  | dropPool here =>
    refine ⟨coupled.queue,?_,fun _ => ?_,coupled.length,coupled.distinct,coupled.served⟩
    · rw [here] at stage
      exact stage
    · simp only [ownerJobs,here] at stays
      split at stays
      · rename_i returned
        change ∀ pc ∈ s.jobs.calls.map (·.pc), pc.isReturned = true
        simpa using returned
      · contradiction
  | close built here => exact absurd here (apart rfl built).1
  | drain built here some => exact absurd here (apart rfl built).2
  | drained built here none => exact absurd here (apart rfl built).2
  | wind _ before after phases queued closed =>
    have unused : s.life.owner ≠ .inUse := by
      intro here
      rw [here] at before
      cases before
    refine ⟨queued.trans coupled.queue,?_,fun _ => coupled.returned unused,coupled.length,coupled.distinct,
      coupled.served.phases phases⟩
    exact (ownerStage_drained after).trans ((ownerStage_drained before).symm.trans stage)

theorem Coupled.drop (coupled : Coupled s) {built : Bool} {life : Lifecycle.State} {jobs : Protocol.State V}
    (here : s.life.owner = .markClosed built ∨ s.life.owner = .drainQueue built ∧ s.jobs.drop = .draining)
    (moved : Lifecycle.step s.life (.owner .next) = some life) (dropped : Protocol.step s.jobs .drop = some jobs) :
    Coupled ({s with jobs}.withLife life) := by
  have unused : s.life.owner ≠ .inUse := by rcases here with here | ⟨here,_⟩ <;> simp [here]
  have stage := coupled.stage
  have queue := coupled.queue
  rcases here with here | ⟨here,idle⟩
  · have inUse : s.jobs.drop = .inUse := by
      rw [here] at stage
      cases at_ : s.jobs.drop with
      | inUse => rfl
      | _ => rw [at_] at stage; cases stage
    simp only [Lifecycle.step,Lifecycle.ownerStep,here] at moved
    simp only [Protocol.step,Protocol.dropStep,inUse] at dropped
    cases moved
    cases dropped
    exact ⟨queue,rfl,fun _ => coupled.returned unused,coupled.length,coupled.distinct,coupled.served⟩
  · simp only [Lifecycle.step,Lifecycle.ownerStep,here] at moved
    simp only [Protocol.step,Protocol.dropStep,idle] at dropped
    split at dropped
    · rename_i empty
      rw [if_pos (by rw [queue,empty]; rfl)] at moved
      cases moved
      cases dropped
      exact ⟨queue,rfl,fun _ => coupled.returned unused,coupled.length,coupled.distinct,coupled.served⟩
    · rename_i j rest queued
      rw [queued,List.length_cons] at queue
      rw [if_neg (by omega)] at moved
      cases moved
      cases dropped
      refine ⟨?_,rfl,fun _ => coupled.returned unused,coupled.length,coupled.distinct,coupled.served⟩
      change s.life.queued - 1 = rest.length
      omega

/-- A call that has returned takes no further step. -/
theorem callStep_open {p p' : Protocol.State V} {j : Protocol.CallId} {a : Protocol.CallAction}
    (called : Protocol.step p (.call j a) = some p') : ∃ c ∈ p.calls, c.pc.isReturned = false := by
  cases Protocol.step_did called with
  | call j a c c' enqueued found advanced =>
    refine ⟨c,List.mem_of_getElem? found,?_⟩
    have lower := (Protocol.advance_flow advanced).lower
    cases here : c.pc with
    | returned exit result => simp [here,Protocol.CallPc.rank] at lower
    | _ => rfl

theorem Coupled.call (coupled : Coupled s) {j : Protocol.CallId} {a : Protocol.CallAction} {jobs : Protocol.State V}
    {life : Lifecycle.State} (called : Protocol.step s.jobs (.call j a) = some jobs)
    (queue : life.queued = jobs.queue.length) (owner : life.owner = s.life.owner) (threads : life.threads = s.life.threads) :
    Coupled {s with life,jobs} := by
  cases Protocol.step_did called with
  | call j a c c' enqueued found advanced =>
    refine ⟨queue,?_,fun closing => ?_,coupled.length,coupled.distinct,?_⟩
    · change ownerStage life.owner = dropStage s.jobs.drop
      rw [owner]
      exact coupled.stage
    · obtain ⟨d,member,still⟩ := callStep_open called
      cases still.symm.trans (coupled.returned (owner ▸ closing) d.pc (List.mem_map_of_mem member))
    · change Served s.jobs.workers s.serving life.threads
      rw [threads]
      exact coupled.served

theorem Coupled.answer (coupled : Coupled s) {j : Protocol.CallId} {jobs : Protocol.State V}
    (drained : s.jobs.drop = .answering j) (answered : Protocol.step s.jobs .drop = some jobs) : Coupled {s with jobs} := by
  have stage := coupled.stage
  rw [drained] at stage
  cases Protocol.step_did answered with
  | close idle => cases idle.symm.trans drained
  | drain _ _ idle => cases idle.symm.trans drained
  | drained idle => cases idle.symm.trans drained
  | cancel k c c' held found sent =>
    refine ⟨coupled.queue,stage,fun closing => ?_,coupled.length,coupled.distinct,coupled.served⟩
    have pcs := setCall_pcs found (Protocol.Call.send_cases sent).2.1
    exact pcs ▸ coupled.returned closing

/-- A call that changes the queue has added its job. -/
theorem grows {p p' : Protocol.State V} {j : Protocol.CallId} {a : Protocol.CallAction}
    (called : Protocol.step p (.call j a) = some p') (more : p'.queue.length ≠ p.queue.length) :
    p'.queue.length = p.queue.length + 1 := by
  cases Protocol.step_did called with
  | call j a c c' enqueued found advanced =>
    cases enqueued with
    | false => exact absurd rfl more
    | true => simp [Protocol.State.putCall,Protocol.State.setCall]

theorem Coupled.took (coupled : Coupled s) (took : Took s a s') : Coupled s' := by
  cases took with
  | thread t a life outside moved => exact coupled.thread outside moved
  | enterLoop t life moved => exact coupled.enterLoop moved
  | work i a w jobs held worked inside => exact coupled.work held worked inside
  | serve i a t w b life jobs serves held worked turn moved => exact coupled.serve serves held worked turn moved
  | beside _ _ life _ moved aside => exact coupled.beside aside
  | own a life moved stays apart => exact coupled.own moved stays apart
  | drop built life jobs here moved dropped => exact coupled.drop here moved dropped
  | answer j jobs drained answered => exact coupled.answer drained answered
  | submit entry runTimeout jobs inUse submitted =>
    cases submitted
    exact ⟨coupled.queue,coupled.stage,fun closing => absurd inUse closing,coupled.length,coupled.distinct,coupled.served⟩
  | call j a jobs called same => exact coupled.call called (coupled.queue.trans same.symm) rfl rfl
  | enqueue j a life jobs called more moved =>
    simp only [Lifecycle.step] at moved
    split at moved
    · cases moved
      exact coupled.call called (by rw [grows called more,coupled.queue]) rfl rfl
    · contradiction
  | elapse nanos => exact {coupled with}

theorem reachable_coupled (reached : machine.Reachable s) : Coupled s := by
  refine reached.invariant Coupled ?_ fun _ _ _ coupled taken => coupled.took (step_took taken)
  rintro s ⟨desired,capacity,window,maxRestarts,enqueueTimeout,runTimeout,instantBound,_,_,_,rfl⟩
  exact ⟨rfl,rfl,by simp [Protocol.State.new],rfl,List.nodup_nil,by simp [Served,Protocol.State.new]⟩

end Coupled

/-! ## How many jobs at once -/

theorem inPhase_unfinished {pc : Protocol.WorkerPc} {phase : Lifecycle.Phase} (there : inPhase pc phase)
    (alive : pc ≠ .exited) : phase.rank ≤ 1 := by
  cases pc with
  | exited => exact absurd rfl alive
  | select => cases there; exact Nat.le_refl 1
  | _ => cases there; exact Nat.le_refl 1

/-- The threads of the workers that have not left their loops. -/
def serving (s : State V) : List Lifecycle.ThreadId :=
  ((s.jobs.workers.zip s.serving).filter fun served => served.1 != .exited).map Prod.snd

theorem Coupled.serving_unfinished {s : State V} (coupled : Coupled s) : serving s ⊆ s.life.unfinished := by
  intro t member
  obtain ⟨⟨pc,u⟩,kept,rfl⟩ := List.mem_map.mp member
  obtain ⟨zipped,alive⟩ := List.mem_filter.mp kept
  obtain ⟨i,found⟩ := List.mem_iff_getElem?.mp zipped
  obtain ⟨held,serves⟩ := List.getElem?_zip_eq_some.mp found
  obtain ⟨w,known,there⟩ := coupled.served i pc u held serves
  have early := inPhase_unfinished there (by simpa using alive)
  have bound := (List.getElem?_eq_some_iff.mp known).1
  have running : w.phase ≠ .finished := by
    intro done
    simp [done,Lifecycle.Phase.rank] at early
  refine List.mem_filter.mpr ⟨List.mem_range.mpr bound,?_⟩
  simp [Lifecycle.State.isFinished,known,running]

theorem Coupled.length_serving {s : State V} (coupled : Coupled s) :
    (serving s).length = s.jobs.workers.countP (· != .exited) := by
  have fsts : (s.jobs.workers.zip s.serving).map Prod.fst = s.jobs.workers :=
    List.map_fst_zip (coupled.length.ge)
  rw [serving,List.length_map,← List.countP_eq_length_filter]
  conv => rhs; rw [← fsts,List.countP_map]
  rfl

theorem Coupled.nodup_serving {s : State V} (coupled : Coupled s) : (serving s).Nodup := by
  have snds : (s.jobs.workers.zip s.serving).map Prod.snd = s.serving := List.map_snd_zip (coupled.length.le)
  have distinct : ((s.jobs.workers.zip s.serving).map Prod.snd).Nodup := by
    rw [snds]
    exact coupled.distinct
  exact distinct.sublist (List.filter_sublist.map Prod.snd)

/-- The whole pool is a run of both machines, and never has more workers at their loops,
so never more jobs at once, than the configured number. -/
theorem whole_pool_refines_both {s : State V} (reached : machine.Reachable s) :
    Lifecycle.machine.Reachable s.life ∧ Protocol.machine.Reachable s.jobs ∧
      s.jobs.workers.countP (· != .exited) ≤ s.life.desiredWorkerCount := by
  have coupled := reachable_coupled reached
  have life := reachable_life reached
  refine ⟨life,reachable_jobs reached,?_⟩
  calc s.jobs.workers.countP (· != .exited)
      = (serving s).length := coupled.length_serving.symm
    _ ≤ s.life.unfinished.length := (List.subperm_of_subset coupled.nodup_serving coupled.serving_unfinished).length_le
    _ ≤ s.life.desiredWorkerCount := (Lifecycle.reachable_owned life).unfinished_le

/-- One worker starts a job, a second job waits in the queue. -/
def busyPool : List (Action Nat) :=
  [.owner .next,.owner .next,.owner .next,.enterLoop 0,.owner .next,.owner .next,.owner .next,.submit .run none] ++
    List.replicate 8 (.call 0 .next) ++ [.serve 0 .takeJob,.serve 0 .next,.serve 0 .next,.submit .run none] ++
    List.replicate 8 (.call 1 .next)

theorem whole_pool_refines_both_when_busy : ∃ s : State Nat, machine.Reachable s ∧ s.jobs.queue = [1] ∧
    s.life.desiredWorkerCount = 1 ∧ Protocol.machine.Reachable s.jobs ∧ s.jobs.workers.countP (· != .exited) ≤ 1 := by
  obtain ⟨s,reached,checked⟩ := machine.replay_witness busyPool ⟨.new 1 1 1000 1,.new 1 5 10 1000 0,[]⟩
    (fun s => s.jobs.queue == [1] && s.life.desiredWorkerCount == 1)
    ⟨1,1,1000,1,5,10,1000,by decide,by decide,by decide,rfl⟩ (by decide)
  simp only [Bool.and_eq_true,beq_iff_eq] at checked
  obtain ⟨_,jobs,bound⟩ := whole_pool_refines_both reached
  exact ⟨s,reached,checked.1,checked.2,jobs,checked.2 ▸ bound⟩

/-! ## After the drop -/

/-- Nothing of the pool is left. -/
structure Quiet (s : State V) : Prop where
  threads : ∀ w ∈ s.life.threads, w.phase = .finished
  supervisor : Lifecycle.Idle s.life.supervisor
  workers : ∀ w ∈ s.jobs.workers, w = .exited
  queue : s.jobs.queue = []
  drop : s.jobs.drop = .drained
  calls : ∀ c ∈ s.jobs.calls, c.pc.isReturned = true

theorem Phase.finished_of_rank {phase : Lifecycle.Phase} (late : 5 ≤ phase.rank) : phase = .finished := by
  cases phase <;> first | rfl | simp [Lifecycle.Phase.rank] at late

theorem quiet_of_dropped {s : State V} (reached : machine.Reachable s) {built : Bool}
    (dropped : s.life.owner = .dropped built) : Quiet s := by
  have coupled := reachable_coupled reached
  have life := reachable_life reached
  have wound := Lifecycle.reachable_wound life
  have threads : ∀ w ∈ s.life.threads, w.phase = .finished := by
    intro w member
    obtain ⟨t,bound,rfl⟩ := List.mem_iff_getElem.mp member
    obtain ⟨v,found,late⟩ := Lifecycle.dropped_finished life dropped bound
    rw [List.getElem?_eq_getElem bound] at found
    cases found
    exact Phase.finished_of_rank late
  refine ⟨threads,(wound.emptied (by rw [dropped]; rfl)).1,fun pc member => ?_,?_,?_,?_⟩
  · obtain ⟨i,bound,rfl⟩ := List.mem_iff_getElem.mp member
    have served : i < s.serving.length := coupled.length ▸ bound
    obtain ⟨w,found,there⟩ := coupled.served i _ _ (List.getElem?_eq_getElem bound) (List.getElem?_eq_getElem served)
    have done := threads w (List.mem_of_getElem? found)
    exact (inPhase_outside there (by simp [done]) (by simp [done])).1
  · have none := coupled.queue.symm.trans (wound.queued (by rw [dropped]; rfl))
    exact List.eq_nil_of_length_eq_zero none
  · have stage := coupled.stage
    rw [dropped] at stage
    cases at_ : s.jobs.drop with
    | drained => rfl
    | _ => rw [at_] at stage; cases stage
  · intro c member
    exact coupled.returned (by simp [dropped]) c.pc (List.mem_map_of_mem member)

/-- What a step of a quiet pool can still do: time passes. -/
theorem Quiet.took {s s' : State V} {a : Action V} (quiet : Quiet s) {built : Bool} (dropped : s.life.owner = .dropped built)
    (took : Took s a s') :
    s'.life.owner = .dropped built ∧ s'.jobs.calls = s.jobs.calls ∧ s'.jobs.started = s.jobs.started := by
  have noWork (i : Nat) (a : Protocol.WorkerAction V) (jobs : Protocol.State V) :
      Protocol.step s.jobs (.worker i a) ≠ some jobs := by
    intro worked
    obtain ⟨w,w',held,loops,_⟩ := workerStep_loops worked
    cases quiet.workers w (List.mem_of_getElem? held)
    cases loops with
    | serve served => cases served with
      | unwind _ alive => exact alive rfl
  have noCall (j : Protocol.CallId) (a : Protocol.CallAction) (jobs : Protocol.State V) :
      Protocol.step s.jobs (.call j a) ≠ some jobs := by
    intro called
    obtain ⟨c,member,still⟩ := callStep_open called
    cases still.symm.trans (quiet.calls c member)
  cases took with
  | thread t a life outside moved =>
    obtain ⟨w,w',exits,queued,found,phase,rfl,count⟩ := Lifecycle.workerStep_phase moved
    exact ⟨dropped,rfl,rfl⟩
  | enterLoop t life moved =>
    obtain ⟨w,w',exits,queued,found,phase,rfl,count⟩ := Lifecycle.workerStep_phase moved
    exact ⟨dropped,rfl,rfl⟩
  | work i a w jobs held worked inside => exact absurd worked (noWork i a jobs)
  | serve i a t w b life jobs serves held worked turn moved => exact absurd worked (noWork i a jobs)
  | beside _ _ life _ moved aside => exact ⟨aside.owner.trans dropped,rfl,rfl⟩
  | own a life moved stays apart =>
    simp only [Lifecycle.step,Lifecycle.ownerStep,dropped] at moved
    contradiction
  | drop other life jobs here moved _ =>
    simp only [Lifecycle.step,Lifecycle.ownerStep,dropped] at moved
    contradiction
  | answer j jobs drained answered => cases quiet.drop.symm.trans drained
  | submit entry runTimeout jobs inUse submitted => cases dropped.symm.trans inUse
  | call j a jobs called same => exact absurd called (noCall j a jobs)
  | enqueue j a life jobs called more moved => exact absurd called (noCall j a jobs)
  | elapse nanos => exact ⟨dropped,rfl,rfl⟩

def loses (s : State V) : Action V → List Protocol.CallId
  | .serve i a => Protocol.loses s.jobs (.worker i a)
  | _ => []

def lossy : Machine (State V × List Protocol.CallId) (Action V) := machine.recording [] fun s a lost => lost ++ loses s a

def repliesFirst (s : State V × List Protocol.CallId) : Action V → Bool
  | .serve i a => Protocol.repliesFirst (s.1.jobs,s.2) (.worker i a)
  | _ => true

theorem Took.accounted {s s' : State V} {lost : List Protocol.CallId} {a : Action V} (took : Took s a s')
    (before : Protocol.Accounted s.jobs lost) (replied : repliesFirst (s,lost) a = true) :
    Protocol.Accounted s'.jobs (lost ++ loses s a) := by
  have same : Protocol.Accounted s.jobs (lost ++ []) := by rwa [List.append_nil]
  cases took with
  | thread => exact same
  | enterLoop t life moved => exact before.step (a := .spawnWorker) rfl .spawn
  | work i a w jobs held worked inside => exact before.step replied (Protocol.step_did worked)
  | serve i a t w b life jobs serves held worked turn moved => exact before.step replied (Protocol.step_did worked)
  | beside a _ life quiet moved aside =>
    cases a with
    | serve i c => exact absurd rfl (quiet i c)
    | _ => exact same
  | own => exact same
  | drop built life jobs here moved dropped =>
    have after := before.step (a := .drop) rfl (Protocol.step_did dropped)
    exact after
  | answer j jobs drained answered => exact before.step (a := .drop) rfl (Protocol.step_did answered)
  | submit entry runTimeout jobs inUse submitted =>
    exact before.step (a := .submit entry runTimeout) rfl (Protocol.step_did submitted)
  | call j a jobs called same => exact before.step (a := .call j a) rfl (Protocol.step_did called)
  | enqueue j a life jobs called more moved => exact before.step (a := .call j a) rfl (Protocol.step_did called)
  | elapse => exact same

theorem accounted {s : State V} {lost : List Protocol.CallId}
    (reached : lossy.ReachableBy (fun s a => repliesFirst s a = true) (s,lost)) : Protocol.Accounted s.jobs lost := by
  refine Machine.recording_invariant (fun (s : State V) lost => Protocol.Accounted s.jobs lost) ?_ ?_ reached
  · rintro s ⟨_,capacity,_,_,enqueueTimeout,runTimeout,instantBound,_,_,_,rfl⟩ j handed
    simp [Protocol.State.new,Protocol.State.handed] at handed
  · intro s lost a s' before meets taken
    exact (step_took taken).accounted before meets

/-- When the drop has returned, no thread runs and nobody holds a job; every job that the
pool accepted has been answered, unless its worker unwound under it; and no call and no job
moves ever after. -/
theorem dropped_pool_is_quiet {s : State V} {lost : List Protocol.CallId}
    (reached : lossy.ReachableBy (fun s a => repliesFirst s a = true) (s,lost)) {built : Bool}
    (dropped : s.life.owner = .dropped built) :
    Quiet s ∧ (∀ j, s.jobs.handed j = true → s.jobs.answered j = true ∨ j ∈ lost) ∧
      ∀ s', machine.Leads s s' → s'.jobs.calls = s.jobs.calls ∧ s'.jobs.started = s.jobs.started := by
  have plain : machine.Reachable s := reached.reachable.unrecorded
  have quiet := quiet_of_dropped plain dropped
  refine ⟨quiet,fun j handed => ?_,fun s' leads => ?_⟩
  · rcases accounted reached j handed with answered | (queued | ⟨w,member,own⟩ | answering) | gone
    · exact .inl answered
    · rw [quiet.queue] at queued
      cases queued
    · cases quiet.workers w member
      cases own
    · cases quiet.drop.symm.trans answering
    · exact .inr gone
  · refine (Machine.Leads.invariant (fun t : State V => t.life.owner = .dropped built ∧
      t.jobs.calls = s.jobs.calls ∧ t.jobs.started = s.jobs.started) ?_ plain ⟨dropped,rfl,rfl⟩ leads).2
    rintro t a t' here ⟨still,calls,started⟩ taken
    obtain ⟨owner,calls',started'⟩ := (quiet_of_dropped here still).took still (step_took taken)
    exact ⟨owner,calls'.trans calls,started'.trans started⟩

/-- The first job replies, the second call gives up, and the drop cancels the job of it. -/
def droppedPool : List (Action Nat) :=
  busyPool ++
    [.serve 0 (.earlyReply (.ok 7)),.serve 0 (.finish .mainReplied),.call 0 .next,.call 0 .next,.elapse 10,
      .call 1 .expire,.call 1 .next,.call 1 .next,.owner .dropPool,.owner .next,.owner .next,.answer,.owner .next,
      .owner .next,.owner .next,.owner .next,.owner .next,.supervisor .recvShutdown,.serve 0 .takeShutdown,
      .thread 0 .sendExit,.thread 0 .finish,.owner .next,.owner .next,.owner .next,.owner .next]

theorem dropped_pool_is_quiet_after_canceling : ∃ (s : State Nat) (lost : List Protocol.CallId),
    lossy.ReachableBy (fun s a => repliesFirst s a = true) (s,lost) ∧ lost = [] ∧ s.jobs.started = [0] ∧
      s.jobs.handed 1 = true ∧ Quiet s ∧ (s.jobs.answered 1 = true ∨ 1 ∈ lost) := by
  obtain ⟨⟨s,lost⟩,reached,checked⟩ := Machine.replay_witness_by lossy (fun s a => repliesFirst s a = true) repliesFirst
    (fun _ _ passed => passed) droppedPool (⟨.new 1 1 1000 1,.new 1 5 10 1000 0,[]⟩,[])
    (fun s => s.2 == [] && s.1.jobs.started == [0] && s.1.jobs.handed 1 && s.1.life.owner == .dropped true)
    ⟨⟨1,1,1000,1,5,10,1000,by decide,by decide,by decide,rfl⟩,rfl⟩ (by decide)
  simp only [Bool.and_eq_true,beq_iff_eq] at checked
  obtain ⟨⟨⟨none,started⟩,handed⟩,dropped⟩ := checked
  obtain ⟨quiet,accounted,_⟩ := dropped_pool_is_quiet reached dropped
  exact ⟨s,lost,reached,none,started,handed,quiet,accounted 1 handed⟩

end MechanicsCore.Pool.Whole
