import MechanicsCore.Pool.Flow

/-! The pool's metrics, recorded beside the job protocol: the counters of accepted and
completed jobs, and the number of busy workers that the guards of the worker loop
keep. Gauges that repeat another number (queue depth, tracked workers) and the
histogram of durations are left out. -/
namespace MechanicsCore.Pool.Protocol
open MechanicsCore.Library MechanicsCore.Runtime
variable {V : Type}

inductive JobOutcome
  | ok
  | failed
  | timeout
  | cancelled
  deriving DecidableEq,Repr

namespace JobOutcome

def fromError : MechanicsError → JobOutcome
  | .runTimeout _ => timeout
  | .queueTimeout _ => timeout
  | .canceled _ => cancelled
  | .execution _ => failed
  | .queueFull _ => failed
  | .poolClosed _ => failed
  | .workerUnavailable _ => failed
  | .panic _ => failed
  | .runtimePool _ => failed

/-- The outcome of a reply, as `run` works it out before it records it. -/
def ofResult : JobResult V → JobOutcome
  | .ok _ => ok
  | .error error => fromError error

def label : JobOutcome → String
  | ok => "ok"
  | failed => "failed"
  | timeout => "timeout"
  | cancelled => "cancelled"

theorem label_injective : Function.Injective label := by
  intro a b same
  cases a <;> cases b <;> first | rfl | simp [label] at same

end JobOutcome

def jobOutcomeLabels : List String := ["ok","failed","timeout","cancelled"]

/-- A counter that is ever raised was registered at start-up. -/
theorem JobOutcome.label_registered (outcome : JobOutcome) : outcome.label ∈ jobOutcomeLabels := by
  cases outcome <;> simp [JobOutcome.label,jobOutcomeLabels]

/-- `mechanics_jobs_accepted_total`, `mechanics_jobs_completed_total` by its label, and
the shared number of busy workers. -/
structure Metrics where
  accepted : Nat
  completed : String → Nat
  busy : Nat

namespace Metrics

def zero : Metrics := ⟨0,fun _ => 0,0⟩

def recordJobAccepted (m : Metrics) : Metrics := {m with accepted := m.accepted + 1}

def recordJobCompleted (m : Metrics) (outcome : JobOutcome) : Metrics :=
  {m with completed := fun label => if label = outcome.label then m.completed label + 1 else m.completed label}

def usizeBound : Nat := 2 ^ 64

/-- `WorkerBusyGuard::start`: a full counter stays as it is. -/
def startBusy (m : Metrics) : Metrics := {m with busy := if m.busy + 1 < usizeBound then m.busy + 1 else m.busy}

/-- The drop of a `WorkerBusyGuard`. -/
def endBusy (m : Metrics) : Metrics := {m with busy := m.busy - 1}

/-- What a call records in a step: its acceptance once the queue has its job, and its
outcome before it returns from one of the exits behind the queue. -/
def afterCall (m : Metrics) (pc : CallPc V) (a : CallAction) : Metrics :=
  match pc, a with
  | .accepted _, .next => m.recordJobAccepted
  | .leaving .timedOut _, .next => m.recordJobCompleted .timeout
  | .leaving .replied result, .next => m.recordJobCompleted (.ofResult result)
  | .leaving .disconnected _, .next => m.recordJobCompleted .failed
  | _, _ => m

/-- The guard is made once the job has passed its check and dropped with the turn of
the loop, however that ends. -/
def afterWork (m : Metrics) (w : WorkerPc) (a : WorkerAction V) : Metrics :=
  match w, a with
  | .passed _, .next => m.startBusy
  | .running _, .finish .mainReplied => m.endBusy
  | .reporting _ _, .next => m.endBusy
  | .panicked _, .next => m.endBusy
  | .running _, .unwind => m.endBusy
  | .reporting _ _, .unwind => m.endBusy
  | .panicked _, .unwind => m.endBusy
  | _, _ => m

def note (p : State V) (a : Action V) (m : Metrics) : Metrics :=
  match a with
  | .call j a => ((p.calls[j]?).map fun c => m.afterCall c.pc a).getD m
  | .worker i a => ((p.workers[i]?).map fun w => m.afterWork w a).getD m
  | _ => m

end Metrics

/-- The protocol with its metrics. -/
def metered : Machine (State V × Metrics) (Action V) := machine.recording .zero Metrics.note

/-- A call that was accepted on record and has not returned. -/
def CallPc.inFlight : CallPc V → Bool
  | .startRecv _ => true
  | .waiting _ => true
  | .timingOut => true
  | .leaving .refused _ => false
  | .leaving _ _ => true
  | _ => false

/-- The outcome of a call that returned from behind the queue, by the result it returned. -/
def CallPc.outcome : CallPc V → Option JobOutcome
  | .returned .refused _ => none
  | .returned _ result => some (.ofResult result)
  | _ => none

/-- A worker between its check of a job and the end of that turn. -/
def WorkerPc.executing : WorkerPc → Bool
  | .running _ => true
  | .reporting _ _ => true
  | .panicked _ => true
  | _ => false

/-- The results that `run` makes itself are of the outcome it records for them. -/
def CallPc.Classified (pc : CallPc V) : Prop :=
  (∀ result, pc.decided = some (.timedOut,result) → JobOutcome.ofResult result = .timeout) ∧
    ∀ result, pc.decided = some (.disconnected,result) → JobOutcome.ofResult result = .failed

/-- A call that was accepted on record. -/
def CallPc.counted (pc : CallPc V) : Bool := pc.inFlight || pc.outcome.isSome

/-- A place at which nothing is on record and nothing will be recorded. -/
structure CallPc.Quiet (pc : CallPc V) : Prop where
  counted : pc.counted = false
  outcome : pc.outcome = none
  silent : ∀ (m : Metrics) (a : CallAction), m.afterCall pc a = m
  classified : pc.Classified

/-- The counters follow a call from one place to another. -/
structure CallPc.Tallied (pc pc' : CallPc V) (m m' : Metrics) : Prop where
  accepted : m'.accepted + pc.counted.toNat = m.accepted + pc'.counted.toNat
  completed : ∀ o : JobOutcome, m'.completed o.label + (pc.outcome == some o).toNat =
    m.completed o.label + (pc'.outcome == some o).toNat

section Calls
variable {pc pc' : CallPc V} {m : Metrics}

theorem CallPc.Classified.of_undecided (undecided : pc.decided = none) : pc.Classified := by
  simp [CallPc.Classified,undecided]

theorem CallPc.quiet_of_unsent (unsent : pc.unsent = true) : pc.Quiet := by
  cases pc <;> simp only [CallPc.unsent,Bool.false_eq_true] at unsent <;>
    exact ⟨rfl,rfl,fun _ _ => rfl,.of_undecided rfl⟩

theorem CallPc.quiet_of_withdrawn (withdrawn : pc.withdrawn = true) : pc.Quiet := by
  have refused {pc : CallPc V} {result : JobResult V} (decided : pc.decided = some (.refused,result)) :
      pc.Classified := by
    simp [CallPc.Classified,decided]
  cases pc with
  | cancelEarly => exact ⟨rfl,rfl,fun _ _ => rfl,.of_undecided rfl⟩
  | markCanceled => exact ⟨rfl,rfl,fun _ _ => rfl,.of_undecided rfl⟩
  | answering error => exact ⟨rfl,rfl,fun _ _ => rfl,.of_undecided rfl⟩
  | leaving exit result =>
    cases exit <;> simp only [CallPc.withdrawn,Bool.false_eq_true] at withdrawn
    exact ⟨rfl,rfl,fun _ _ => rfl,refused rfl⟩
  | returned exit result =>
    cases exit <;> simp only [CallPc.withdrawn,Bool.false_eq_true] at withdrawn
    exact ⟨rfl,rfl,fun _ _ => rfl,refused rfl⟩
  | _ => simp only [CallPc.withdrawn,Bool.false_eq_true] at withdrawn

theorem CallPc.quiet_of_not_handed (kept : pc.handed = false) : pc.Quiet := by
  by_cases unsent : pc.unsent = true
  · exact CallPc.quiet_of_unsent unsent
  · refine CallPc.quiet_of_withdrawn ?_
    simpa [CallPc.handed,unsent] using kept

theorem CallPc.Quiet.tallied (before : pc.Quiet) (counted : pc'.counted = false) (outcome : pc'.outcome = none)
    (a : CallAction) : pc.Tallied pc' m (m.afterCall pc a) := by
  rw [before.silent]
  constructor
  · rw [before.counted,counted]
  · intro o
    rw [before.outcome,outcome]

/-- A step on the way of an accepted call that records nothing. -/
theorem CallPc.tallied_same (counted : pc.counted = pc'.counted) (outcome : pc.outcome = pc'.outcome) :
    pc.Tallied pc' m m := by
  constructor
  · rw [counted]
  · intro o
    rw [outcome]

theorem CallPc.tallied_return {exit : Exit} {result : JobResult V} {outcome : JobOutcome} (served : exit ≠ .refused)
    (same : JobOutcome.ofResult result = outcome) :
    (CallPc.leaving exit result).Tallied (.returned exit result) m (m.recordJobCompleted outcome) := by
  have back : (CallPc.returned exit result).outcome = some outcome := by
    cases exit with
    | refused => contradiction
    | _ => simp [CallPc.outcome,same]
  have flying : (CallPc.leaving exit result).counted = true := by
    cases exit with
    | refused => contradiction
    | _ => rfl
  have pending : (CallPc.leaving exit result).outcome = none := rfl
  have landed : (CallPc.returned exit result).counted = true := by simp [CallPc.counted,back]
  constructor
  · rw [flying,landed]
    rfl
  · intro o
    rw [pending,back]
    by_cases here : o = outcome
    · simp [here,Metrics.recordJobCompleted]
    · have apart : o.label ≠ outcome.label := fun same => here (JobOutcome.label_injective same)
      simp [Ne.symm here,apart,Metrics.recordJobCompleted]

end Calls

theorem Flow.tallied {p : State V} {j : CallId} {c c' : Call V} {a : CallAction} {enqueued : Bool}
    (flow : Flow p j c a c' enqueued) (classified : c.pc.Classified) (m : Metrics) :
    c.pc.Tallied c'.pc m (m.afterCall c.pc a) ∧ c'.pc.Classified := by
  cases flow with
  | offer _ pc' before after =>
    have quiet := CallPc.quiet_of_unsent after
    exact ⟨(CallPc.quiet_of_unsent before).tallied quiet.counted quiet.outcome _,quiet.classified⟩
  | withdraw _ _ pc' undecided before after =>
    have quiet := CallPc.quiet_of_withdrawn after
    exact ⟨(CallPc.quiet_of_not_handed before).tallied quiet.counted quiet.outcome _,quiet.classified⟩
  | answer error _ here =>
    rw [here]
    have quiet : (CallPc.leaving .refused (.error error) : CallPc V).Quiet := CallPc.quiet_of_withdrawn rfl
    exact ⟨CallPc.tallied_same rfl rfl,quiet.classified⟩
  | handOver deadline before =>
    exact ⟨(CallPc.quiet_of_unsent before).tallied rfl rfl _,.of_undecided rfl⟩
  | enter deadline pc' here after =>
    rw [here]
    rcases after with rfl | ⟨_,_,rfl⟩
    · exact ⟨⟨rfl,fun _ => rfl⟩,.of_undecided rfl⟩
    · exact ⟨⟨rfl,fun _ => rfl⟩,.of_undecided rfl⟩
  | listen _ here =>
    rw [here]
    exact ⟨CallPc.tallied_same rfl rfl,.of_undecided rfl⟩
  | expire _ here =>
    rw [here]
    exact ⟨CallPc.tallied_same rfl rfl,.of_undecided rfl⟩
  | receive _ result here =>
    rw [here]
    exact ⟨CallPc.tallied_same rfl rfl,by simp [CallPc.Classified,CallPc.decided]⟩
  | orphan _ here =>
    rw [here]
    refine ⟨CallPc.tallied_same rfl rfl,?_,?_⟩
    · simp [CallPc.decided]
    · rintro result ⟨⟩
      rfl
  | timeOut here =>
    rw [here]
    refine ⟨CallPc.tallied_same rfl rfl,?_,?_⟩
    · rintro result ⟨⟩
      rfl
    · simp [CallPc.decided]
  | leave exit result here =>
    rw [here] at classified ⊢
    refine ⟨?_,classified⟩
    cases exit with
    | refused => exact CallPc.tallied_same rfl rfl
    | timedOut => exact CallPc.tallied_return (by simp) (classified.1 result rfl)
    | replied => exact CallPc.tallied_return (by simp) rfl
    | disconnected => exact CallPc.tallied_return (by simp) (classified.2 result rfl)

/-- The counters of jobs say how many calls stand where. -/
structure Counted (p : State V) (m : Metrics) : Prop where
  accepted : m.accepted = p.calls.countP (·.pc.counted)
  completed : ∀ o : JobOutcome, m.completed o.label = p.calls.countP (·.pc.outcome == some o)
  classified : ∀ c ∈ p.calls, c.pc.Classified

section Counted
variable {p p' : State V} {m m' : Metrics} {j : CallId} {c c' : Call V}

theorem Counted.setCall (before : Counted p m) (found : p.calls[j]? = some c)
    (tallied : c.pc.Tallied c'.pc m m') (classified : c'.pc.Classified) (calls : p'.calls = p.calls.set j c') :
    Counted p' m' := by
  constructor
  · have moved := countP_set (fun c : Call V => c.pc.counted) c' found
    have step := tallied.accepted
    have old := before.accepted
    rw [calls]
    omega
  · intro o
    have moved := countP_set (fun c : Call V => c.pc.outcome == some o) c' found
    have step := tallied.completed o
    have old := before.completed o
    rw [calls]
    omega
  · intro d member
    rw [calls] at member
    rcases List.mem_or_eq_of_mem_set member with old | rfl
    · exact before.classified d old
    · exact classified

theorem Counted.samePc (before : Counted p m) (found : p.calls[j]? = some c) (pc : c'.pc = c.pc)
    (accepted : m'.accepted = m.accepted) (completed : m'.completed = m.completed)
    (calls : p'.calls = p.calls.set j c') : Counted p' m' := by
  have known := before.classified c (List.mem_of_getElem? found)
  refine before.setCall found ⟨?_,fun o => ?_⟩ (pc ▸ known) calls
  · rw [pc,accepted]
  · rw [pc,completed]

theorem Counted.sameCalls (before : Counted p m) (accepted : m'.accepted = m.accepted)
    (completed : m'.completed = m.completed) (calls : p'.calls = p.calls) : Counted p' m' := by
  constructor
  · rw [accepted,calls,before.accepted]
  · rw [completed,calls]
    exact before.completed
  · rw [calls]
    exact before.classified

theorem Counted.submit (before : Counted p m) (entry : Entry) (runTimeout : Option Nat)
    (calls : p'.calls = p.calls ++ [.new entry runTimeout]) : Counted p' m := by
  constructor
  · rw [calls,List.countP_append,before.accepted]
    rfl
  · intro o
    rw [calls,List.countP_append,before.completed o]
    rfl
  · intro c member
    rw [calls,List.mem_append,List.mem_singleton] at member
    rcases member with old | rfl
    · exact before.classified c old
    · exact .of_undecided rfl

end Counted

/-- Workers touch no counter of jobs. -/
theorem Metrics.afterWork_counters (m : Metrics) (w : WorkerPc) (a : WorkerAction V) :
    (m.afterWork w a).accepted = m.accepted ∧ (m.afterWork w a).completed = m.completed := by
  unfold Metrics.afterWork
  split <;> exact ⟨rfl,rfl⟩

theorem Metrics.note_worker {p : State V} {i : Nat} {w : WorkerPc} (held : p.workers[i]? = some w)
    (a : WorkerAction V) (m : Metrics) : Metrics.note p (.worker i a) m = m.afterWork w a := by
  simp [Metrics.note,held]

theorem Metrics.note_call {p : State V} {j : CallId} {c : Call V} (found : p.calls[j]? = some c)
    (a : CallAction) (m : Metrics) : Metrics.note p (.call j a) m = m.afterCall c.pc a := by
  simp [Metrics.note,found]

theorem Counted.step {p p' : State V} {m : Metrics} {a : Action V} (before : Counted p m) (did : Did p a p') :
    Counted p' (Metrics.note p a m) := by
  cases did with
  | submit entry runTimeout => exact before.submit entry runTimeout rfl
  | call j a c c' enqueued found advanced =>
    rw [Metrics.note_call found]
    obtain ⟨tallied,classified⟩ :=
      (advance_flow advanced).tallied (before.classified c (List.mem_of_getElem? found)) m
    exact before.setCall found tallied classified rfl
  | take i j rest idle queued =>
    rw [Metrics.note_worker idle]
    exact before.sameCalls rfl rfl rfl
  | check i j c held found =>
    rw [Metrics.note_worker held]
    have stays : ({c with checked := true} : Call V).pc = c.pc := rfl
    exact before.samePc found stays rfl rfl rfl
  | start i j held =>
    rw [Metrics.note_worker held]
    exact before.sameCalls rfl rfl rfl
  | serve i a w w' held serve =>
    rw [Metrics.note_worker held]
    obtain ⟨accepted,completed⟩ := m.afterWork_counters w a
    exact before.sameCalls accepted completed rfl
  | answer i a j w w' source result c c' held serve own found sent =>
    rw [Metrics.note_worker held]
    obtain ⟨accepted,completed⟩ := m.afterWork_counters w a
    exact before.samePc found (Call.send_cases sent).2.1 accepted completed rfl
  | cancel j c c' held found sent =>
    exact before.samePc found (Call.send_cases sent).2.1 rfl rfl rfl
  | _ => exact before.sameCalls rfl rfl rfl

theorem Counted.reached {p : State V} {m : Metrics} (reached : metered.Reachable (p,m)) : Counted p m := by
  refine Machine.recording_invariant Counted ?_ ?_ reached
  · rintro p ⟨capacity,enqueueTimeout,runTimeout,instantBound,clock,_,rfl⟩
    exact ⟨rfl,fun _ => rfl,by simp [State.new]⟩
  · intro p m a p' before _ taken
    exact before.step (step_did taken)

theorem countP_counted (calls : List (Call V)) :
    calls.countP (·.pc.counted) = calls.countP (·.pc.inFlight) +
      (calls.countP (·.pc.outcome == some .ok) + calls.countP (·.pc.outcome == some .failed) +
        calls.countP (·.pc.outcome == some .timeout) + calls.countP (·.pc.outcome == some .cancelled)) := by
  have apart (pc : CallPc V) : pc.inFlight = true → pc.outcome = none := by
    cases pc <;> simp [CallPc.inFlight,CallPc.outcome]
  induction calls with
  | nil => rfl
  | cons c calls ih =>
    simp only [List.countP_cons,CallPc.counted] at ih ⊢
    cases flying : c.pc.inFlight
    · cases outcome : c.pc.outcome with
      | none => simp; omega
      | some o => cases o <;> simp <;> omega
    · simp [apart _ flying]
      omega

/-- In every reachable state each counter of completed jobs is the number of calls
that returned a result of its outcome from behind the queue, and the counter of
accepted jobs is what these add up to, with the calls that are still under way. -/
theorem job_counters_balance {p : State V} {m : Metrics} (reached : metered.Reachable (p,m)) :
    (∀ o : JobOutcome, m.completed o.label = p.calls.countP (·.pc.outcome == some o)) ∧
      m.accepted = p.calls.countP (·.pc.inFlight) +
        (m.completed "ok" + m.completed "failed" + m.completed "timeout" + m.completed "cancelled") := by
  have counted := Counted.reached reached
  refine ⟨counted.completed,?_⟩
  calc m.accepted
      = p.calls.countP (·.pc.counted) := counted.accepted
    _ = _ := countP_counted p.calls
    _ = _ := by
      rw [← counted.completed .ok,← counted.completed .failed,← counted.completed .timeout,
        ← counted.completed .cancelled]
      rfl

theorem job_counters_balance_when_contested : ∃ (p : State Nat) (m : Metrics), metered.Reachable (p,m) ∧
    m.accepted = 2 ∧ m.completed "ok" = 1 ∧ m.completed "timeout" = 1 ∧
      m.accepted = p.calls.countP (·.pc.inFlight) +
        (m.completed "ok" + m.completed "failed" + m.completed "timeout" + m.completed "cancelled") := by
  obtain ⟨⟨p,m⟩,reached,check⟩ := metered.replay_witness contested ((.new 1 5 10 1000 0 : State Nat),.zero)
    (fun s => s.2.accepted == 2 && s.2.completed "ok" == 1 && s.2.completed "timeout" == 1)
    ⟨⟨1,5,10,1000,0,by decide,rfl⟩,rfl⟩ (by decide)
  obtain ⟨⟨accepted,ok⟩,timeout⟩ : (m.accepted = 2 ∧ m.completed "ok" = 1) ∧ m.completed "timeout" = 1 := by
    simpa using check
  exact ⟨p,m,reached,accepted,ok,timeout,(job_counters_balance reached).2⟩

/-- A worker that has not left its loop. -/
def WorkerPc.alive (w : WorkerPc) : Bool := w != .exited

/-- Runs that keep the number of workers in their loop below what the counter holds. -/
def fewWorkers (s : State V × Metrics) : Action V → Bool
  | .spawnWorker => s.1.workers.countP (·.alive) + 1 < Metrics.usizeBound
  | _ => true

structure Guarded (p : State V) (m : Metrics) : Prop where
  busy : m.busy = p.workers.countP (·.executing)
  room : p.workers.countP (·.alive) < Metrics.usizeBound

section Guarded
variable {p p' : State V} {m m' : Metrics} {i : Nat} {w w' : WorkerPc}

theorem WorkerPc.alive_of_executing (executing : w.executing = true) : w.alive = true := by
  cases w <;> first | rfl | cases executing

theorem Guarded.setWorker (before : Guarded p m) (held : p.workers[i]? = some w) (alive : w.alive = true)
    (follows : w.executing.toNat ≤ m.busy → p.workers.countP (·.executing) + w'.executing.toNat ≤
      p.workers.countP (·.alive) + w.executing.toNat → m'.busy + w.executing.toNat = m.busy + w'.executing.toNat)
    (workers : p'.workers = p.workers.set i w') : Guarded p' m' := by
  have executing := countP_set (fun w : WorkerPc => w.executing) w' held
  have living := countP_set (fun w : WorkerPc => w.alive) w' held
  have below : (p.workers.set i w').countP (·.executing) ≤ (p.workers.set i w').countP (·.alive) :=
    List.countP_mono_left fun v _ => WorkerPc.alive_of_executing
  have own : w.executing.toNat ≤ p.workers.countP (·.executing) := by
    cases here : w.executing
    · exact Nat.zero_le _
    · exact List.countP_pos_iff.mpr ⟨w,List.mem_of_getElem? held,here⟩
  have one := Bool.toNat_le w'.alive
  simp only [alive,Bool.toNat_true] at living
  have moved := follows (before.busy ▸ own) (by omega)
  have old := before.busy
  have room := before.room
  constructor
  · rw [workers]
    omega
  · rw [workers]
    omega

/-- A guard is dropped by exactly the steps that take a worker out of its job. -/
theorem Serve.busy {a : WorkerAction V} (serve : Serve w a w') (positive : w.executing.toNat ≤ m.busy) :
    (m.afterWork w a).busy + w.executing.toNat = m.busy + w'.executing.toNat := by
  have ended (positive : 1 ≤ m.busy) : m.endBusy.busy + 1 = m.busy + 0 := Nat.sub_add_cancel positive
  cases serve with
  | replied j => exact ended positive
  | reported j error => exact ended positive
  | panicked j => exact ended positive
  | unwind _ alive =>
    cases w with
    | running j => exact ended positive
    | reporting j error => exact ended positive
    | panicked j => exact ended positive
    | exited => contradiction
    | _ => rfl
  | _ => rfl

theorem Guarded.same (before : Guarded p m) (busy : m'.busy = m.busy) (workers : p'.workers = p.workers) :
    Guarded p' m' := by
  constructor
  · rw [busy,workers,before.busy]
  · rw [workers]
    exact before.room

end Guarded

/-- Calls leave the number of busy workers alone. -/
theorem Metrics.afterCall_busy (m : Metrics) (pc : CallPc V) (a : CallAction) : (m.afterCall pc a).busy = m.busy := by
  unfold Metrics.afterCall
  split <;> rfl

theorem Serve.living {w w' : WorkerPc} {a : WorkerAction V} (serve : Serve w a w') : w.alive = true := by
  simpa [WorkerPc.alive] using serve.alive

theorem Guarded.step {p p' : State V} {m : Metrics} {a : Action V} (before : Guarded p m)
    (meets : fewWorkers (p,m) a = true) (did : Did p a p') : Guarded p' (Metrics.note p a m) := by
  cases did with
  | call j a c c' enqueued found advanced =>
    rw [Metrics.note_call found]
    exact before.same (m.afterCall_busy c.pc a) rfl
  | take i j rest idle queued =>
    rw [Metrics.note_worker idle]
    refine before.setWorker idle rfl (fun _ _ => ?_) rfl
    rfl
  | check i j c held found =>
    rw [Metrics.note_worker held]
    refine before.setWorker held rfl (fun _ _ => ?_) rfl
    cases c.canceled <;> rfl
  | start i j held =>
    rw [Metrics.note_worker held]
    refine before.setWorker held rfl (fun _ within => ?_) rfl
    have room : m.busy + 1 < Metrics.usizeBound := by
      have bound := before.room
      have busy := before.busy
      change _ + 1 ≤ _ + 0 at within
      omega
    simp [Metrics.afterWork,Metrics.startBusy,room,WorkerPc.executing]
  | serve i a w w' held serve =>
    rw [Metrics.note_worker held]
    exact before.setWorker held serve.living (fun positive _ => serve.busy positive) rfl
  | answer i a j w w' source result c c' held serve own found sent =>
    rw [Metrics.note_worker held]
    exact before.setWorker held serve.living (fun positive _ => serve.busy positive) rfl
  | spawn =>
    constructor
    · simpa [Metrics.note,WorkerPc.executing] using before.busy
    · have room : p.workers.countP (·.alive) + 1 < Metrics.usizeBound := of_decide_eq_true meets
      simpa [WorkerPc.alive] using room
  | _ => exact before.same rfl rfl

/-- While the pool keeps fewer workers in their loops than the counter can hold, the
number of busy workers is exact in every reachable state: it counts the workers
between the check of a job and the end of that turn, and whichever way a turn ends
(a reply, an error, a panic of the script or an unwinding of the loop) takes it back. -/
theorem busy_workers_exact {p : State V} {m : Metrics}
    (reached : metered.ReachableBy (fun s a => fewWorkers s a = true) (p,m)) :
    m.busy = p.workers.countP (·.executing) := by
  have guarded : Guarded p m := by
    refine Machine.recording_invariant Guarded ?_ ?_ reached
    · rintro p ⟨capacity,enqueueTimeout,runTimeout,instantBound,clock,_,rfl⟩
      exact ⟨rfl,by simp [State.new,Metrics.usizeBound]⟩
    · intro p m a p' before meets taken
      exact before.step meets (step_did taken)
  exact guarded.busy

/-- One worker is at a job when a second worker's loop unwinds. -/
theorem busy_workers_exact_after_unwinding : ∃ (p : State Nat) (m : Metrics),
    metered.ReachableBy (fun s a => fewWorkers s a = true) (p,m) ∧ m.busy = 1 ∧
      m.busy = p.workers.countP (·.executing) := by
  obtain ⟨⟨p,m⟩,reached,check⟩ := metered.replay_witness_by (fun s a => fewWorkers s a = true) fewWorkers
    (fun _ _ passed => passed) (contested.take 13 ++ [.spawnWorker,.worker 1 .unwind])
    ((.new 1 5 10 1000 0 : State Nat),.zero) (fun s => s.2.busy == 1) ⟨⟨1,5,10,1000,0,by decide,rfl⟩,rfl⟩ (by decide)
  exact ⟨p,m,reached,by simpa using check,busy_workers_exact reached⟩

end MechanicsCore.Pool.Protocol
