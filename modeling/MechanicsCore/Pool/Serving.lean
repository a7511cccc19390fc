import MechanicsCore.Pool.Answers
import MechanicsCore.Runtime.Reply

/-! The pool with workers that run the runtime. In the job protocol a worker may do
anything with the job it runs. Here it does what the run of that job does on a
runtime, in whatever world the jobs before have left, and the answers to a job are
traced back to the run of that very job. -/
namespace MechanicsCore.Pool.Protocol
open MechanicsCore.Library MechanicsCore.Runtime MechanicsCore.Executor

section Runs
variable {T : Types} (E : Engine T) (settings : Settings) (fuel : Nat) (job : MechanicsJob T)

/-- The call of the default export returns the promise, in a run that begins in the world. -/
def Calls (w : World T) (main : PromiseId) : Prop :=
  ∃ previous u v, (beginJob E settings job).run w = .ok (.ok previous) u ∧ (startMain E fuel job).run u = .ok main v

/-- Nothing has been sent, or the one message is the result of the called main. -/
def Said (w v : World T) : Prop :=
  v.reply.sent = [] ∨ ∃ main result, Calls E settings fuel job w main ∧
    IsResultOf E (v.context.promises main) result ∧ v.reply.sent = [result]

/-- A run of the job has sent main's result. -/
def MainResult (result : JobResult T.Json) : Prop :=
  ∃ w v main, w.reply.sent = [] ∧ Calls E settings fuel job w main ∧ IsResultOf E (v.context.promises main) result ∧
    ((∃ outcome, (runSourceWithEarlyReply E settings fuel job).run w = .ok outcome v) ∨
      ∃ fault, (runSourceWithEarlyReply E settings fuel job).run w = .error fault v)

def FailsWith (error : MechanicsError) : Prop :=
  ∃ w v, w.reply.sent = [] ∧ (runSourceWithEarlyReply E settings fuel job).run w = .ok (.mainNotReplied error) v

def Panics : Prop :=
  ∃ w v, w.reply.sent = [] ∧ (runSourceWithEarlyReply E settings fuel job).run w = .error .panic v

/-- What a worker does while it runs the job. A run that ends in neither way is never left. -/
def behaviour (w : World T) : List (WorkerAction T.Json) :=
  match (runSourceWithEarlyReply E settings fuel job).run w with
  | .ok outcome v => v.reply.sent.map .earlyReply ++ [.finish outcome]
  | .error .panic v => v.reply.sent.map .earlyReply ++ [.panic]
  | .error _ v => v.reply.sent.map .earlyReply

variable {E settings fuel job} {sent : List (Except MechanicsError T.Json)}

theorem turn_answers {main : PromiseId} {stops : Nat} {ls : LoopState T} {w : World T}
    (stage : Stage E main sent stops ls w) :
    match (turn E (mainSettled main) (replyMain E main) ls).run w with
    | .ok _ v => Runtime.Unanswered sent v ∨ Answered E main sent v
    | .error _ v => Runtime.Unanswered sent v ∨ Answered E main sent v := by
  have spec := stopOnce_stage stage
  rw [turn,EStateM.run_bind]
  cases checked : (stopOnce (mainSettled main) (replyMain E main) ls).run w with
  | error fault v =>
    rw [checked] at spec
    exact .inl spec.2
  | ok next v =>
    rw [checked] at spec
    have before : Runtime.Unanswered sent v ∨ Answered E main sent v := by
      cases spec.1 with
      | before _ _ unanswered _ => exact .inl unanswered
      | after _ answered _ => exact .inr answered
    have after {u : World T} (quiet : Quiet v u) : Runtime.Unanswered sent u ∨ Answered E main sent u :=
      before.imp quiet.reply.trans fun answered => answered.quiet quiet
    dsimp only
    cases rest : (restOfTurn E next).run v with
    | ok _ u => exact after (((Steps.covers E).restOfTurn next).returned rest).quiet
    | error fault u => exact after (((Steps.covers E).restOfTurn next).threw rest).1.quiet

theorem loop_answers (fuel : Nat) (main : PromiseId) :
    Meets (Runtime.Unanswered sent) (runJobsUntilThenToQuiescence E (mainSettled main) (replyMain E main) fuel)
      (fun _ v => Runtime.Unanswered sent v ∨ Answered E main sent v)
      fun _ v => Runtime.Unanswered sent v ∨ Answered E main sent v := by
  intro w unanswered
  cases ran : (runJobsUntilThenToQuiescence E (mainSettled main) (replyMain E main) fuel).run w with
  | ok exit v =>
    obtain ⟨ls,u,reached,exits⟩ := turns_returns ran
    have answers := turn_answers (reached_stage unanswered reached)
    rw [exits] at answers
    exact answers
  | error fault v =>
    obtain ⟨ls,u,reached,fails | ⟨_,rfl⟩⟩ := turns_throws ran
    · have answers := turn_answers (reached_stage unanswered reached)
      rw [fails] at answers
      exact answers
    · cases reached_stage unanswered reached with
      | before _ _ unanswered _ => exact .inl unanswered
      | after _ answered _ => exact .inr answered

theorem script_said {w : World T} (fuel : Nat) (previous : Realm) :
    Meets (fun u => Runtime.Unanswered [] u ∧ (beginJob E settings job).run w = .ok (.ok previous) u) (script E fuel job)
      (fun _ => Said E settings fuel job w) fun _ => Said E settings fuel job w := by
  have starts : Meets (fun u => Runtime.Unanswered [] u ∧ (beginJob E settings job).run w = .ok (.ok previous) u)
      (startMain E fuel job) (fun main v => Calls E settings fuel job w main ∧ Runtime.Unanswered [] v)
      fun _ => Said E settings fuel job w := by
    rintro u ⟨unanswered,begun⟩
    cases ran : (startMain E fuel job).run u with
    | ok main v =>
      have quiet := ((startMain_covered (Steps.covers E) fuel job).returned ran).quiet
      exact ⟨⟨previous,u,v,begun,ran⟩,quiet.reply.trans unanswered⟩
    | error fault v =>
      have quiet := ((startMain_covered (Steps.covers E) fuel job).threw ran).1.quiet
      exact .inl (congrArg Reply.sent (quiet.reply.trans unanswered))
  refine starts.bind fun main => ?_
  rintro v ⟨calls,unanswered⟩
  have said {u : World T} (answers : Runtime.Unanswered [] u ∨ Answered E main [] u) : Said E settings fuel job w u := by
    rcases answers with silent | ⟨result,isResult,reply⟩
    · exact .inl (congrArg Reply.sent silent)
    · exact .inr ⟨main,result,calls,isResult,congrArg Reply.sent reply⟩
  have answers := loop_answers (E := E) fuel main v unanswered
  rw [pollTail_run]
  cases looped : (runJobsUntilThenToQuiescence E (mainSettled main) (replyMain E main) fuel).run v with
  | error fault u =>
    rw [looped] at answers
    exact said answers
  | ok exit u =>
    rw [looped] at answers
    dsimp only
    cases !u.reply.mainReplied && !mainSettled main u <;> exact said answers

variable (E settings fuel job) in
theorem runSource_said {w : World T} (fresh : w.reply.sent = []) :
    Meets (· = w) (runSourceWithEarlyReply E settings fuel job) (fun _ => Said E settings fuel job w)
      fun _ => Said E settings fuel job w := by
  have begins := ((beginJob_reply (E := E) settings job).starting fresh).remembers
  refine (begins.weaken fun _ _ silent => .inl silent).bind fun begun => ?_
  cases begun with
  | error err => exact fun _ silent => .inl silent.1
  | ok previous =>
    -- The cleanup touches neither the promises nor the replies.
    exact (runScript_after (script_said fuel previous)).bind fun result => fun _ said => said

/-- Where in a run of the job the worker may take which step. -/
inductive Turn (E : Engine T) (settings : Settings) (fuel : Nat) (job : MechanicsJob T) :
    List (WorkerAction T.Json) → WorkerAction T.Json → Prop
  | early (result : JobResult T.Json) (main : MainResult E settings fuel job result) :
      Turn E settings fuel job [] (.earlyReply result)
  | failed (error : MechanicsError) (fails : FailsWith E settings fuel job error) :
      Turn E settings fuel job [] (.finish (.mainNotReplied error))
  | panicsFirst (panics : Panics E settings fuel job) : Turn E settings fuel job [] .panic
  | replied (result : JobResult T.Json) : Turn E settings fuel job [.earlyReply result] (.finish .mainReplied)
  | panicsLater (result : JobResult T.Json) (panics : Panics E settings fuel job) :
      Turn E settings fuel job [.earlyReply result] .panic

private theorem snoc_prefix_one {α : Type} {log : List α} {a x : α} (begins : log ++ [a] <+: [x]) :
    log = [] ∧ a = x := by
  cases log with
  | nil => simpa using begins
  | cons head tail => simp [List.cons_prefix_cons] at begins

private theorem snoc_prefix_two {α : Type} {log : List α} {a x y : α} (begins : log ++ [a] <+: [x,y]) :
    log = [] ∧ a = x ∨ log = [x] ∧ a = y := by
  cases log with
  | nil => exact .inl (by simpa using begins)
  | cons head tail =>
    obtain ⟨rfl,later⟩ := List.cons_prefix_cons.mp begins
    obtain ⟨rfl,rfl⟩ := snoc_prefix_one later
    exact .inr ⟨rfl,rfl⟩

theorem behaviour_turn {w : World T} (fresh : w.reply.sent = []) {log : List (WorkerAction T.Json)}
    {a : WorkerAction T.Json} (begins : log ++ [a] <+: behaviour E settings fuel job w) :
    Turn E settings fuel job log a := by
  have said := runSource_said E settings fuel job fresh w rfl
  have replied := runSource_replied (E := E) settings fuel job w fresh
  rw [behaviour] at begins
  cases ran : (runSourceWithEarlyReply E settings fuel job).run w with
  | ok outcome v =>
    rw [ran] at said replied begins
    rcases replied with ⟨rfl,main,result,_,reply⟩ | ⟨⟨err,rfl⟩,unsent⟩
    · rcases said with silent | ⟨main,result,calls,isResult,sent⟩
      · rw [reply] at silent
        cases silent
      · simp only [sent,List.map_cons,List.map_nil,List.cons_append,List.nil_append] at begins
        rcases snoc_prefix_two begins with ⟨rfl,rfl⟩ | ⟨rfl,rfl⟩
        · exact .early result ⟨w,v,main,fresh,calls,isResult,.inl ⟨_,ran⟩⟩
        · exact .replied result
    · simp only [unsent,List.map_nil,List.nil_append] at begins
      obtain ⟨rfl,rfl⟩ := snoc_prefix_one begins
      exact .failed err ⟨w,v,fresh,ran⟩
  | error fault v =>
    rw [ran] at said begins
    have early {result : JobResult T.Json} {main : PromiseId} (calls : Calls E settings fuel job w main)
        (isResult : IsResultOf E (v.context.promises main) result) : Turn E settings fuel job [] (.earlyReply result) :=
      .early result ⟨w,v,main,fresh,calls,isResult,.inr ⟨_,ran⟩⟩
    rcases said with silent | ⟨main,result,calls,isResult,sent⟩
    · cases fault with
      | panic =>
        simp only [silent,List.map_nil,List.nil_append] at begins
        obtain ⟨rfl,rfl⟩ := snoc_prefix_one begins
        exact .panicsFirst ⟨w,v,fresh,ran⟩
      | _ => simp [silent] at begins
    · cases fault with
      | panic =>
        simp only [sent,List.map_cons,List.map_nil,List.cons_append,List.nil_append] at begins
        rcases snoc_prefix_two begins with ⟨rfl,rfl⟩ | ⟨rfl,rfl⟩
        · exact early calls isResult
        · exact .panicsLater result ⟨w,v,fresh,ran⟩
      | _ =>
        simp only [sent,List.map_cons,List.map_nil] at begins
        obtain ⟨rfl,rfl⟩ := snoc_prefix_one begins
        exact early calls isResult

end Runs

/-! The driven pool. -/

/-- What is recorded beside a run: the jobs that went down with their workers, and what each
worker has done since it began to run the job it has. -/
structure Ledger (V : Type) where
  lost : List CallId
  log : Nat → List (WorkerAction V)

section Ledgers
variable {V : Type}

def WorkerPc.since (w : WorkerPc) (a : WorkerAction V) (log : List (WorkerAction V)) : List (WorkerAction V) :=
  match w with
  | .running _ => log ++ [a]
  | _ => []

def Ledger.note (p : State V) (a : Action V) (ledger : Ledger V) : Ledger V where
  lost := ledger.lost ++ loses p a
  log i :=
    match a with
    | .worker n b => if n = i then (p.workers[n]?).elim [] fun w => w.since b (ledger.log n) else ledger.log i
    | _ => ledger.log i

def booked : Machine (State V × Ledger V) (Action V) := machine.recording ⟨[],fun _ => []⟩ Ledger.note

variable {p : State V} {ledger : Ledger V} {i : Nat}

theorem Ledger.note_self {w : WorkerPc} {b : WorkerAction V} (held : p.workers[i]? = some w) :
    (ledger.note p (.worker i b)).log i = w.since b (ledger.log i) := by
  simp [Ledger.note,held]

theorem Ledger.note_other {a : Action V} (other : a.holder ≠ some (.worker i)) :
    (ledger.note p a).log i = ledger.log i := by
  cases a with
  | worker n b =>
    have apart : n ≠ i := by simpa [Action.holder] using other
    simp [Ledger.note,apart]
  | _ => rfl

end Ledgers

section Driven
variable {T : Types} (E : Engine T) (settings : Settings) (fuel : Nat) (jobs : CallId → MechanicsJob T)

/-- A worker in the run of its job does what the run does next, unless it unwinds. -/
def Driven (s : State T.Json × Ledger T.Json) : Action T.Json → Prop
  | .worker i a => ∀ j, s.1.workers[i]? = some (.running j) → a = .unwind ∨
      ∃ w, w.reply.sent = [] ∧ s.2.log i ++ [a] <+: behaviour E settings fuel (jobs j) w
  | _ => True

/-- Where an answer to the job comes from. -/
inductive Comes (job : MechanicsJob T) : Source → JobResult T.Json → Prop
  | main (result : JobResult T.Json) (main : MainResult E settings fuel job result) : Comes job .earlyReply result
  | failed (error : MechanicsError) (fails : FailsWith E settings fuel job error) : Comes job .outcome (.error error)
  | panicked (panics : Panics E settings fuel job) :
      Comes job .panic (.error (.panic "worker panicked while running job"))
  | canceled : Comes job .canceledCheck (.error (.canceled "job timed out before execution"))
  | dropped : Comes job .drop (.error (.canceled "pool dropped before job execution"))
  | refused (error : MechanicsError) : Comes job .caller (.error error)

/-- One answer at most, but for the panic after main's result. -/
def Once {V : Type} (answers : List (Source × JobResult V)) : Prop :=
  answers.length ≤ 1 ∨ ∃ result,
    answers = [(.earlyReply,result),(.panic,.error (.panic "worker panicked while running job"))]

/-- How far the worker has come with the job, by what it has done and what was answered. -/
inductive Progress (job : MechanicsJob T) :
    List (WorkerAction T.Json) → WorkerPc → List (Source × JobResult T.Json) → Prop
  | checking (log : List (WorkerAction T.Json)) (j : CallId) : Progress job log (.checking j) []
  | canceling (log : List (WorkerAction T.Json)) (j : CallId) : Progress job log (.canceling j) []
  | passed (log : List (WorkerAction T.Json)) (j : CallId) : Progress job log (.passed j) []
  | running (j : CallId) : Progress job [] (.running j) []
  | replied (j : CallId) (result : JobResult T.Json) :
      Progress job [.earlyReply result] (.running j) [(.earlyReply,result)]
  | reporting (log : List (WorkerAction T.Json)) (j : CallId) (error : MechanicsError)
      (fails : FailsWith E settings fuel job error) : Progress job log (.reporting j error) []
  | panicked (log : List (WorkerAction T.Json)) (j : CallId) (panics : Panics E settings fuel job) :
      Progress job log (.panicked j) []
  | panickedLater (log : List (WorkerAction T.Json)) (j : CallId) (result : JobResult T.Json)
      (panics : Panics E settings fuel job) : Progress job log (.panicked j) [(.earlyReply,result)]

variable {E settings fuel jobs}

section Workers
variable {job : MechanicsJob T} {log : List (WorkerAction T.Json)} {w w' : WorkerPc} {a : WorkerAction T.Json}
  {answers : List (Source × JobResult T.Json)}

theorem Progress.serve (progress : Progress E settings fuel job log w answers) (serve : Serve w a w')
    (silent : a.sends = false) {j : CallId} (own : w'.job = some j)
    (turn : ∀ k, w = .running k → a = .unwind ∨ Turn E settings fuel job log a) :
    Progress E settings fuel job (w.since a log) w' answers := by
  cases serve with
  | failed k error =>
    rcases turn k rfl with unwinds | turn
    · cases unwinds
    · cases turn with
      | failed _ fails =>
        cases progress with
        | running => exact .reporting _ k error fails
  | panic k =>
    rcases turn k rfl with unwinds | turn
    · cases unwinds
    · cases turn with
      | panicsFirst panics =>
        cases progress with
        | running => exact .panicked _ k panics
      | panicsLater result panics =>
        cases progress with
        | replied => exact .panickedLater _ k result panics
  | shutdown | replied k | unwind _ alive => cases own
  | canceled k | early k result | reported k error | panicked k => cases silent

/-- A worker has not answered before the run. -/
theorem Progress.unanswered (progress : Progress E settings fuel job log w answers) {k : CallId}
    (early : w = .checking k ∨ w = .passed k) : answers = [] := by
  rcases early with rfl | rfl <;> cases progress <;> rfl

theorem Progress.answer {source : Source} {result : JobResult T.Json}
    (progress : Progress E settings fuel job log w answers) (sends : Sends w a source result)
    (turn : ∀ k, w = .running k → a = .unwind ∨ Turn E settings fuel job log a) :
    Comes E settings fuel job source result ∧ Once (answers ++ [(source,result)]) ∧
      ∀ w' j, Serve w a w' → w'.job = some j →
        Progress E settings fuel job (w.since a log) w' (answers ++ [(source,result)]) := by
  cases sends with
  | canceled k =>
    cases progress with
    | canceling =>
      refine ⟨.canceled,.inl (by simp),fun w' j serve own => ?_⟩
      cases serve
      cases own
  | early k result =>
    rcases turn k rfl with unwinds | turn
    · cases unwinds
    · cases turn with
      | early _ main =>
        cases progress with
        | running =>
          refine ⟨.main _ main,.inl (by simp),fun w' j serve own => ?_⟩
          cases serve
          exact .replied k result
  | reported k error =>
    cases progress with
    | reporting _ _ _ fails =>
      refine ⟨.failed error fails,.inl (by simp),fun w' j serve own => ?_⟩
      cases serve
      cases own
  | panicked k =>
    cases progress with
    | panicked _ _ panics =>
      refine ⟨.panicked panics,.inl (by simp),fun w' j serve own => ?_⟩
      cases serve
      cases own
    | panickedLater _ _ result panics =>
      refine ⟨.panicked panics,.inr ⟨result,rfl⟩,fun w' j serve own => ?_⟩
      cases serve
      cases own

end Workers

variable (E settings fuel jobs) in
structure Served (p : State T.Json) (log : Nat → List (WorkerAction T.Json)) : Prop where
  order : ∃ accepted, InOrder p accepted
  apart : ∀ h h' j, p.holds h = some j → p.holds h' = some j → h = h'
  progress : ∀ i w j, p.workers[i]? = some w → w.job = some j →
    Progress E settings fuel (jobs j) (log i) w (p.answers j)
  waiting : ∀ j, j ∈ p.queue ∨ p.holds .drop = some j → p.answers j = []
  unsent : ∀ j c, p.calls[j]? = some c → c.pc.handed = false → c.pc.decided = none → p.answers j = []
  once : ∀ j, Once (p.answers j)
  comes : ∀ j, ∀ answer ∈ p.answers j, Comes E settings fuel (jobs j) answer.1 answer.2

namespace Served
variable {p p' : State T.Json} {ledger : Ledger T.Json} {a : Action T.Json} {j : CallId}

theorem held_handed (served : Served E settings fuel jobs p ledger.log) {h : Holder} (held : p.holds h = some j) :
    p.handed j = true ∧ j ∉ p.queue := by
  obtain ⟨accepted,order⟩ := served.order
  obtain ⟨known,absent⟩ := order.left j (State.hasLeft_of_holds held)
  exact ⟨(order.handed j).mp known,absent⟩

theorem queued_handed (served : Served E settings fuel jobs p ledger.log) (queued : j ∈ p.queue) : p.handed j = true := by
  obtain ⟨accepted,order⟩ := served.order
  exact (order.handed j).mp (order.suffix.subset queued)

theorem turn {i : Nat} {b : WorkerAction T.Json} {w : WorkerPc}
    (driven : Driven E settings fuel jobs (p,ledger) (.worker i b)) (held : p.workers[i]? = some w)
    (own : w.job = some j) (k : CallId) (here : w = .running k) :
    b = .unwind ∨ Turn E settings fuel (jobs j) (ledger.log i) b := by
  subst here
  have same : k = j := Option.some.inj own
  subst same
  refine (driven k held).imp id ?_
  rintro ⟨w,fresh,begins⟩
  exact behaviour_turn fresh begins

/-- Nobody answers a job that somebody else has. -/
theorem silent (served : Served E settings fuel jobs p ledger.log) (did : Did p a p') {h : Holder}
    (held : p.holds h = some j) (other : a.holder ≠ some h) : p'.answers j = p.answers j := by
  rcases did.answers j with same | ⟨source,result,tells,_⟩
  · exact same
  · obtain ⟨h',held',acts⟩ := tells.holder (served.held_handed held).1
    cases served.apart h h' j held held'
    exact absurd acts other

theorem silent_queued (served : Served E settings fuel jobs p ledger.log) (did : Did p a p') (queued : j ∈ p.queue) :
    p'.answers j = p.answers j := by
  rcases did.answers j with same | ⟨source,result,tells,_⟩
  · exact same
  · obtain ⟨h,held,_⟩ := tells.holder (served.queued_handed queued)
    exact absurd queued (served.held_handed held).2

/-- What is answered comes from where it should, and is no second answer. -/
theorem told (served : Served E settings fuel jobs p ledger.log)
    (driven : Driven E settings fuel jobs (p,ledger) a) {source : Source} {result : JobResult T.Json}
    (tells : Tells p p' j a source result) :
    Comes E settings fuel (jobs j) source result ∧ Once (p.answers j ++ [(source,result)]) := by
  cases tells with
  | worker i b w _ _ held own sends =>
    obtain ⟨comes,once,_⟩ := (served.progress i w j held own).answer sends (turn driven held own)
    exact ⟨comes,once⟩
  | drop held =>
    rw [served.waiting j (.inr (by simp [State.holds,held]))]
    exact ⟨.dropped,.inl (by simp)⟩
  | caller b c error found here =>
    rw [served.unsent j c found (by rw [here]; rfl) (by rw [here]; rfl)]
    exact ⟨.refused error,.inl (by simp)⟩

theorem step_waiting (before : Served E settings fuel jobs p ledger.log) (did : Did p a p')
    (waits : j ∈ p'.queue ∨ p'.holds .drop = some j) : p'.answers j = [] := by
  have queued (old : j ∈ p.queue) : p'.answers j = [] :=
    (before.silent_queued did old).trans (before.waiting j (.inl old))
  rcases waits with waits | dropping
  · have split : j ∈ p.queue ∨ j ∈ accepts p a := by
      rcases did.queue with grown | ⟨_,k,taken⟩
      · exact List.mem_append.mp (grown ▸ waits)
      · exact .inl (taken ▸ List.mem_cons_of_mem k waits)
    rcases split with old | new
    · exact queued old
    · obtain ⟨c,found,unsent,same⟩ := did.unsent new
      exact same.trans (before.unsent j c found (CallPc.handed_of_unsent unsent) (CallPc.undecided_of_unsent unsent))
  · rcases did.holds dropping with old | ⟨taken,_⟩
    · rcases did.answers j with same | ⟨source,result,tells,_⟩
      · exact same.trans (before.waiting j (.inr old))
      · obtain ⟨h,held,acts⟩ := tells.holder (before.held_handed old).1
        cases before.apart h .drop j held old
        cases tells with
        | drop _ done => simp [State.holds,done] at dropping
        | _ => cases acts
    · exact queued (taken ▸ List.mem_cons_self)

theorem step_unsent (before : Served E settings fuel jobs p ledger.log) (did : Did p a p') {d : Call T.Json}
    (found : p'.calls[j]? = some d) (unhanded : d.pc.handed = false) (undecided : d.pc.decided = none) :
    p'.answers j = [] := by
  rcases did.calls found with ⟨entry,runTimeout,rfl⟩ | ⟨c,here,⟨pc,other⟩ | ⟨b,enqueued,rfl,flow⟩⟩
  · exact State.answers_found found
  · rw [pc] at unhanded undecided
    rcases did.answers j with same | ⟨source,result,tells,_⟩
    · exact same.trans (before.unsent j c here unhanded undecided)
    · have none {h : Holder} (held : p.holds h = some j) : False := by
        have handed := (before.held_handed held).1
        simp [State.handed,here,unhanded] at handed
      cases tells with
      | worker i b w _ _ held own => exact (none (h := .worker i) (Option.bind_eq_some_iff.mpr ⟨w,held,own⟩)).elim
      | drop held => exact (none (h := .drop) (by simp [State.holds,held])).elim
      | caller b => exact absurd rfl (other b)
  · have kept (same : d.answers = c.answers) (notYet : c.pc.handed = false) (pending : c.pc.decided = none) :
        p'.answers j = [] := by
      rw [State.answers_found found,same,← State.answers_found here]
      exact before.unsent j c here notYet pending
    cases flow with
    | offer _ _ unsent => exact kept rfl (CallPc.handed_of_unsent unsent) (CallPc.undecided_of_unsent unsent)
    | withdraw _ _ _ pending notYet => exact kept rfl notYet pending
    | handOver | listen | expire => cases unhanded
    | enter deadline pc' _ after => rcases after with rfl | ⟨_,_,rfl⟩ <;> cases unhanded
    | answer | receive | orphan | timeOut | leave => cases undecided

theorem step_progress (before : Served E settings fuel jobs p ledger.log)
    (driven : Driven E settings fuel jobs (p,ledger) a) (did : Did p a p') {i : Nat} {w' : WorkerPc}
    (found : p'.workers[i]? = some w') (own : w'.job = some j) :
    Progress E settings fuel (jobs j) ((ledger.note p a).log i) w' (p'.answers j) := by
  have elsewhere (there : p.workers[i]? = some w') (other : a.holder ≠ some (.worker i)) :
      Progress E settings fuel (jobs j) ((ledger.note p a).log i) w' (p'.answers j) := by
    rw [Ledger.note_other other,before.silent did (h := .worker i) (Option.bind_eq_some_iff.mpr ⟨w',there,own⟩) other]
    exact before.progress i w' j there own
  cases did with
  | take n k rest idle queued =>
    rcases found_set found with ⟨rfl,rfl⟩ | ⟨apart,there⟩
    · cases own
      have none : p.answers j = [] := before.waiting j (.inl (queued ▸ List.mem_cons_self))
      change Progress E settings fuel (jobs j) _ _ (p.answers j)
      rw [none]
      exact .checking _ j
    · exact elsewhere there (by simpa [Action.holder] using apart)
  | check n k c held here =>
    rcases found_set found with ⟨rfl,rfl⟩ | ⟨apart,there⟩
    · have same : j = k := by
        split at own <;> exact (Option.some.inj own).symm
      subst same
      have none : (p.setCall j {c with checked := true}).answers j = [] := by
        rw [State.answers_setCall_same {c with checked := true} here rfl]
        exact (before.progress n _ j held rfl).unanswered (.inl rfl)
      change Progress E settings fuel (jobs j) _ _ ((p.setCall j {c with checked := true}).answers j)
      rw [none]
      cases c.canceled
      · exact .passed _ j
      · exact .canceling _ j
    · exact elsewhere there (by simpa [Action.holder] using apart)
  | start n k held =>
    rcases found_set found with ⟨rfl,rfl⟩ | ⟨apart,there⟩
    · cases own
      have none := (before.progress n _ j held rfl).unanswered (.inr rfl)
      change Progress E settings fuel (jobs j) _ _ (p.answers j)
      rw [Ledger.note_self held,none]
      exact .running j
    · exact elsewhere there (by simpa [Action.holder] using apart)
  | serve n b w v held serve silent =>
    rcases found_set found with ⟨rfl,rfl⟩ | ⟨apart,there⟩
    · have owned := serve.owned own
      rw [Ledger.note_self held]
      exact (before.progress n w j held owned).serve serve silent own (turn driven held owned)
    · exact elsewhere there (by simpa [Action.holder] using apart)
  | answer n b k w v source result c c' held serve owned here sent message =>
    rcases found_set found with ⟨rfl,rfl⟩ | ⟨apart,there⟩
    · have same : j = k := Option.some.inj ((serve.owned own).symm.trans owned)
      subst same
      have now : (p.setCall j c').answers j = p.answers j ++ [(source,result)] := by
        rw [State.answers_setCall here,if_pos rfl,(Call.send_cases sent).1,State.answers_found here]
      change Progress E settings fuel (jobs j) _ _ ((p.setCall j c').answers j)
      rw [Ledger.note_self held,now]
      exact ((before.progress n w j held owned).answer message (turn driven held owned)).2.2 _ j serve own
    · exact elsewhere there (by simpa [Action.holder] using apart)
  | spawn =>
    rw [List.getElem?_append] at found
    split at found
    · exact elsewhere found (by simp [Action.holder])
    · rw [List.mem_singleton.mp (List.mem_of_getElem? found)] at own
      cases own
  | _ => exact elsewhere found (by simp [Action.holder])

theorem step (before : Served E settings fuel jobs p ledger.log)
    (driven : Driven E settings fuel jobs (p,ledger) a) (did : Did p a p') :
    Served E settings fuel jobs p' (ledger.note p a).log where
  order := by
    obtain ⟨accepted,order⟩ := before.order
    exact ⟨_,order.step did⟩
  apart h h' j held held' := by
    rcases did.holds held with old | ⟨taken,acts⟩
    · rcases did.holds held' with old' | ⟨taken',_⟩
      · exact before.apart h h' j old old'
      · exact absurd (taken' ▸ List.mem_cons_self) (before.held_handed old).2
    · rcases did.holds held' with old' | ⟨_,acts'⟩
      · exact absurd (taken ▸ List.mem_cons_self) (before.held_handed old').2
      · exact Option.some.inj (acts.symm.trans acts')
  progress i w j found own := before.step_progress driven did found own
  waiting j waits := before.step_waiting did waits
  unsent j c found unhanded undecided := before.step_unsent did found unhanded undecided
  once j := by
    rcases did.answers j with same | ⟨source,result,tells,now⟩
    · exact same ▸ before.once j
    · exact now ▸ (before.told driven tells).2
  comes j answer member := by
    rcases did.answers j with same | ⟨source,result,tells,now⟩
    · exact before.comes j answer (same ▸ member)
    · rw [now] at member
      rcases List.mem_append.mp member with old | new
      · exact before.comes j answer old
      · cases List.mem_singleton.mp new
        exact (before.told driven tells).1

theorem initial {p : State T.Json} (starts : machine.initial p) : Served E settings fuel jobs p fun _ => [] := by
  have order := InOrder.reached (.start (p,[]) ⟨starts,rfl⟩)
  obtain ⟨capacity,enqueueTimeout,runTimeout,instantBound,clock,_,rfl⟩ := starts
  have nobody (h : Holder) (j : CallId) :
      (State.new capacity enqueueTimeout runTimeout instantBound clock : State T.Json).holds h ≠ some j := by
    cases h <;> simp [State.holds,State.new]
  have none (j : CallId) :
      (State.new capacity enqueueTimeout runTimeout instantBound clock : State T.Json).answers j = [] := rfl
  exact {
    order := ⟨[],order⟩
    apart := fun h _ j held => absurd held (nobody h j)
    progress := fun i w j found => by simp [State.new] at found
    waiting := fun j _ => none j
    unsent := fun j _ _ _ _ => none j
    once := fun j => .inl (by simp [none])
    comes := fun j answer member => by simp [none] at member}

/-- The run returns `MainReplied` when it has answered the job. -/
theorem replies (before : Served E settings fuel jobs p ledger.log)
    (driven : Driven E settings fuel jobs (p,ledger) a) (did : Did p a p') : repliesFirst (p,ledger.lost) a = true := by
  cases did with
  | serve i b w w' held serve =>
    cases serve with
    | replied k =>
      have progress := before.progress i _ k held rfl
      rcases turn driven held rfl k rfl with unwinds | turn
      · cases unwinds
      · have answered : p.answers k ≠ [] := by
          intro none
          rw [none] at progress
          generalize ledger.log i = log at turn progress
          cases turn
          cases progress
        simpa [repliesFirst,held,WorkerPc.job,State.answered_iff] using answered
    | _ => rfl
  | answer i b k w w' source result c c' held serve own found sent message => cases message <;> rfl
  | _ => rfl

end Served

variable {p : State T.Json} {ledger : Ledger T.Json}

theorem reachable_served (reached : booked.ReachableBy (Driven E settings fuel jobs) (p,ledger)) :
    Served E settings fuel jobs p ledger.log ∧ Accounted p ledger.lost := by
  refine Machine.recording_invariant
    (fun p (ledger : Ledger T.Json) => Served E settings fuel jobs p ledger.log ∧ Accounted p ledger.lost) ?_ ?_ reached
  · intro p starts
    refine ⟨Served.initial starts,fun j handed => ?_⟩
    obtain ⟨capacity,enqueueTimeout,runTimeout,instantBound,clock,_,rfl⟩ := starts
    simp [State.new,State.handed] at handed
  · rintro p ledger a p' ⟨served,accounted⟩ driven taken
    have did := step_did taken
    exact ⟨served.step driven did,accounted.step (served.replies driven did) did⟩

/-- Every job is answered once at most, but for the notice of a panic after main's result, and
every accepted job has been answered, or waits, or is in the hands of a worker or of
the drop, or went down with a worker that unwound. -/
theorem jobs_are_answered_once (reached : booked.ReachableBy (Driven E settings fuel jobs) (p,ledger)) (j : CallId) :
    Once (p.answers j) ∧ (p.handed j = true → p.answers j ≠ [] ∨ p.Held j ∨ j ∈ ledger.lost) := by
  obtain ⟨served,accounted⟩ := reachable_served reached
  exact ⟨served.once j,fun handed => (accounted j handed).imp State.answered_iff.mp id⟩

end Driven

/-- Main's promise `5` is fulfilled when it is called. -/
def prompt : Engine plain :=
  {Engine.silent with callFunction := fun _ _ c => .plain c [.settle 5 (.ok 7)] (.ok 5)}

theorem prompt_behaviour :
    behaviour prompt oneSecond 5 anyJob (.new 0) = [.earlyReply (.ok 7),.finish .mainReplied] := by
  obtain ⟨outcome,v,ran,passed⟩ := returnsWith_witness ((runSourceWithEarlyReply prompt oneSecond 5 anyJob).run (.new 0))
    (fun outcome v => outcome == .mainReplied && v.reply.sent.map Except.toOption == [some 7]) (by decide +kernel)
  obtain ⟨replied,sent⟩ := Bool.and_eq_true_iff.mp passed
  cases beq_iff_eq.mp replied
  have seven : v.reply.sent = [.ok 7] := by
    obtain ⟨result,one,same⟩ := List.map_eq_singleton_iff.mp (beq_iff_eq.mp sent)
    cases result with
    | error e => cases same
    | ok value =>
      cases same
      exact one
  rw [behaviour,ran]
  simp [seven]

/-- The worker that runs `prompt` does its two steps. -/
def drivenByPrompt (s : State Nat × Ledger Nat) : Action Nat → Bool
  | .worker i a =>
    match s.1.workers[i]?, s.2.log i, a with
    | some (.running _), [], .earlyReply (.ok 7) => true
    | some (.running _), [.earlyReply (.ok 7)], .finish .mainReplied => true
    | some (.running _), _, _ => false
    | _, _, _ => true
  | _ => true

theorem drivenByPrompt_driven (s : State Nat × Ledger Nat) (a : Action Nat) (passed : drivenByPrompt s a = true) :
    Driven prompt oneSecond 5 (fun _ => anyJob) s a := by
  cases a with
  | worker i a =>
    intro j running
    refine .inr ⟨.new 0,rfl,?_⟩
    rw [prompt_behaviour]
    simp only [drivenByPrompt,running] at passed
    split at passed
    · simp_all
    · simp_all
    · cases passed
    · simp_all
  | _ => trivial

/-- One job is served, the next one waits. -/
def promptRun : List (Action Nat) :=
  ([.spawnWorker,.submit .run none] : List (Action Nat)) ++ List.replicate 8 (.call 0 .next) ++
    [.worker 0 .takeJob,.worker 0 .next,.worker 0 .next,.submit .run none] ++ List.replicate 8 (.call 1 .next) ++
    [.worker 0 (.earlyReply (.ok 7)),.worker 0 (.finish .mainReplied),.call 0 .next,.call 0 .next]

def returnedSeven (c : Call Nat) : Bool :=
  match c.pc with
  | .returned .replied (.ok 7) => true
  | _ => false

theorem promptRun_reaches : ∃ (p : State Nat) (ledger : Ledger Nat) (c : Call Nat),
    booked.ReachableBy (Driven prompt oneSecond 5 fun _ => anyJob) (p,ledger) ∧ p.calls[0]? = some c ∧
      c.pc = .returned .replied (.ok 7) ∧ p.queue = [1] ∧ p.handed 1 = true := by
  obtain ⟨⟨p,ledger⟩,reached,checked⟩ := booked.replay_witness_by _ drivenByPrompt drivenByPrompt_driven promptRun
    (.new 1 5 10 1000 0,⟨[],fun _ => []⟩) (fun s => s.1.calls[0]?.any returnedSeven && (s.1.queue == [1] && s.1.handed 1))
    ⟨⟨1,5,10,1000,0,by decide,rfl⟩,rfl⟩ (by decide)
  obtain ⟨called,queued⟩ := Bool.and_eq_true_iff.mp checked
  obtain ⟨c,found,returned⟩ := (Option.any_eq_true _ _).mp called
  obtain ⟨queued,handed⟩ := Bool.and_eq_true_iff.mp queued
  refine ⟨p,ledger,c,reached,found,?_,beq_iff_eq.mp queued,handed⟩
  simp only [returnedSeven] at returned
  split at returned
  · assumption
  · cases returned

theorem jobs_are_answered_once_by_prompt : ∃ (p : State Nat) (ledger : Ledger Nat),
    booked.ReachableBy (Driven prompt oneSecond 5 fun _ => anyJob) (p,ledger) ∧ p.queue = [1] ∧ Once (p.answers 0) ∧
      p.handed 1 = true ∧ (p.answers 1 ≠ [] ∨ p.Held 1 ∨ 1 ∈ ledger.lost) := by
  obtain ⟨p,ledger,_,reached,_,_,queued,handed⟩ := promptRun_reaches
  exact ⟨p,ledger,reached,queued,(jobs_are_answered_once reached 0).1,handed,
    (jobs_are_answered_once reached 1).2 handed⟩

end MechanicsCore.Pool.Protocol
