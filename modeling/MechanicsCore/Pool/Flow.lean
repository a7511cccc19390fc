import MechanicsCore.Pool.ProtocolSafety

/-! Every step of the job protocol by the party that takes it. Where the safety
proof asks what a step does to the jobs, the relations here keep the step's label
and the places it leads from and to, for the records kept beside a run. -/
namespace MechanicsCore.Pool.Protocol
open MechanicsCore.Library MechanicsCore.Runtime
variable {V : Type}

/-- The queue has taken the job of a call that is here. -/
def CallPc.handed (pc : CallPc V) : Bool := !pc.unsent && !pc.withdrawn

def CallPc.isReturned : CallPc V → Bool
  | .returned _ _ => true
  | _ => false

/-- A bound on the steps a call has before it. -/
def CallPc.rank : CallPc V → Nat
  | .closedCheck => 12
  | .restartCheck => 11
  | .liveCheck => 10
  | .deadlineFrom => 9
  | .enqueueBudget _ => 8
  | .cancelEarly => 2
  | .startSend _ _ _ => 7
  | .sending _ _ _ => 6
  | .trySending _ => 6
  | .markCanceled => 3
  | .answering _ => 2
  | .accepted _ => 5
  | .startRecv _ => 4
  | .waiting _ => 3
  | .timingOut => 2
  | .leaving _ _ => 1
  | .returned _ _ => 0

/-- Everything a call can do in one step. -/
inductive Flow (p : State V) (j : CallId) (c : Call V) : CallAction → Call V → Bool → Prop
  | offer (a : CallAction) (pc' : CallPc V) (before : c.pc.unsent = true) (after : pc'.unsent = true)
      (lower : pc'.rank < c.pc.rank) : Flow p j c a {c with pc := pc'} false
  | withdraw (a : CallAction) (canceled : Bool) (pc' : CallPc V) (undecided : c.pc.decided = none)
      (before : c.pc.handed = false) (after : pc'.withdrawn = true) (lower : pc'.rank < c.pc.rank)
      (unfulfilled : ∀ exit value, pc'.decided ≠ some (exit,.ok value)) :
      Flow p j c a {c with canceled := canceled, pc := pc'} false
  | answer (error : MechanicsError) (c' : Call V) (here : c.pc = .answering error)
      (sent : c.send .caller (.error error) = some c') :
      Flow p j c .next {c' with pc := .leaving .refused (.error error)} false
  | handOver (deadline : Nat) (before : c.pc.unsent = true) (late : 5 < c.pc.rank) :
      Flow p j c .next {c with pc := .accepted deadline} true
  | enter (deadline : Nat) (pc' : CallPc V) (here : c.pc = .accepted deadline)
      (after : pc' = .timingOut ∨ ∃ remaining, p.remainingToDeadline deadline = some remaining ∧ pc' = .startRecv remaining) :
      Flow p j c .next {c with pc := pc'} false
  | listen (remaining : Nat) (here : c.pc = .startRecv remaining) :
      Flow p j c .next {c with pc := .waiting (p.checkedAdd remaining)} false
  | expire (limit : Nat) (here : c.pc = .waiting (some limit)) (late : limit ≤ p.clock) :
      Flow p j c .expire {c with pc := .timingOut} false
  | receive (limit : Option Nat) (result : JobResult V) (here : c.pc = .waiting limit) (filled : c.reply = some result) :
      Flow p j c .next {c with reply := none, pc := .leaving .replied result} false
  | orphan (limit : Option Nat) (here : c.pc = .waiting limit) :
      Flow p j c .disconnected
        {c with pc := .leaving .disconnected (.error (.workerUnavailable "worker dropped reply channel"))} false
  | timeOut (here : c.pc = .timingOut) :
      Flow p j c .next {c with
        canceled := true
        pc := .leaving .timedOut (.error (.runTimeout "run timeout elapsed while waiting for worker reply"))} false
  | leave (exit : Exit) (result : JobResult V) (here : c.pc = .leaving exit result) :
      Flow p j c .next {c with pc := .returned exit result} false

section Calls
variable {p : State V} {j : CallId} {c c' : Call V} {a : CallAction} {enqueued : Bool}

private theorem Flow.goto {pc pc' : CallPc V} (here : c.pc = pc) (before : pc.unsent = true) (after : pc'.unsent = true)
    (lower : pc'.rank < pc.rank) : Flow p j c a {c with pc := pc'} false :=
  .offer a pc' (by rw [here]; exact before) after (by rw [here]; exact lower)

private theorem Flow.giveUp {pc pc' : CallPc V} (canceled : Bool) (here : c.pc = pc) (undecided : pc.decided = none)
    (before : pc.handed = false) (after : pc'.withdrawn = true) (lower : pc'.rank < pc.rank)
    (unfulfilled : ∀ exit value, pc'.decided ≠ some (exit,.ok value)) :
    Flow p j c a {c with canceled := canceled, pc := pc'} false :=
  .withdraw a canceled pc' (by rw [here]; exact undecided) (by rw [here]; exact before) after
    (by rw [here]; exact lower) unfulfilled

theorem advance_flow (taken : advance p j c a = some (c',enqueued)) : Flow p j c a c' enqueued := by
  unfold advance at taken
  dsimp only at taken
  split at taken
  case h_1 here =>
    split at taken
    · cases taken
      exact .giveUp c.canceled here rfl rfl rfl (by simp [CallPc.rank]) (by simp [CallPc.decided])
    · cases taken
      exact .goto here rfl rfl (by simp [CallPc.rank])
  case h_2 here =>
    cases taken
    cases p.restartBlocked
    · exact .goto here rfl rfl (by simp [CallPc.rank])
    · exact .goto here rfl rfl (by simp [CallPc.rank])
  case h_3 here =>
    split at taken
    · cases taken
      exact .giveUp c.canceled here rfl rfl rfl (by simp [CallPc.rank]) (by simp [CallPc.decided])
    · cases taken
      exact .goto here rfl rfl (by simp [CallPc.rank])
  case h_4 here =>
    split at taken
    · cases taken
      exact .giveUp c.canceled here rfl rfl rfl (by simp [CallPc.rank]) (by simp [CallPc.decided])
    · cases taken
      exact .goto here rfl rfl (by simp [CallPc.rank])
    · cases taken
      exact .goto here rfl rfl (by simp [CallPc.rank])
  case h_5 here =>
    split at taken
    · cases taken
      exact .giveUp c.canceled here rfl rfl rfl (by simp [CallPc.rank]) (by simp [CallPc.decided])
    · cases taken
      exact .goto here rfl rfl (by simp [CallPc.rank])
  case h_6 here =>
    cases taken
    exact .giveUp true here rfl rfl rfl (by simp [CallPc.rank]) (by simp [CallPc.decided])
  case h_7 here =>
    cases taken
    exact .goto here rfl rfl (by simp [CallPc.rank])
  case h_8 deadline _ _ here =>
    split at taken
    · cases taken
      exact .handOver deadline (by rw [here]; rfl) (by simp [here,CallPc.rank])
    · contradiction
  case h_9 limited here =>
    split at taken
    · cases taken
      cases limited
      · exact .giveUp c.canceled here rfl rfl rfl (by simp [CallPc.rank]) (by simp [CallPc.decided])
      · exact .giveUp c.canceled here rfl rfl rfl (by simp [CallPc.rank]) (by simp [CallPc.decided])
    · contradiction
  case h_10 here =>
    cases taken
    exact .giveUp c.canceled here rfl rfl rfl (by simp [CallPc.rank]) (by simp [CallPc.decided])
  case h_11 deadline here =>
    split at taken
    · cases taken
      exact .handOver deadline (by rw [here]; rfl) (by simp [here,CallPc.rank])
    · cases taken
      exact .giveUp c.canceled here rfl rfl rfl (by simp [CallPc.rank]) (by simp [CallPc.decided])
  case h_12 here =>
    cases taken
    exact .giveUp c.canceled here rfl rfl rfl (by simp [CallPc.rank]) (by simp [CallPc.decided])
  case h_13 here =>
    cases taken
    exact .giveUp true here rfl rfl rfl (by simp [CallPc.rank]) (by simp [CallPc.decided])
  case h_14 error here =>
    obtain ⟨sender,sent,same⟩ := Option.map_eq_some_iff.mp taken
    cases same
    exact .answer error sender here sent
  case h_15 deadline here =>
    split at taken
    · cases taken
      exact .enter deadline _ here (.inl rfl)
    · rename_i remaining left
      cases taken
      exact .enter deadline _ here (.inr ⟨remaining,left,rfl⟩)
  case h_16 remaining here =>
    cases taken
    exact .listen remaining here
  case h_17 limit here =>
    obtain ⟨result,filled,same⟩ := Option.map_eq_some_iff.mp taken
    cases same
    exact .receive limit result here filled
  case h_18 limit here =>
    split at taken
    · rename_i late
      cases taken
      exact .expire limit here late
    · contradiction
  case h_19 limit here =>
    split at taken
    · cases taken
      exact .orphan limit here
    · contradiction
  case h_20 here =>
    cases taken
    exact .timeOut here
  case h_21 exit result here =>
    cases taken
    exact .leave exit result here
  case h_22 => contradiction

theorem CallPc.handed_of_unsent {pc : CallPc V} (unsent : pc.unsent = true) : pc.handed = false := by
  simp [CallPc.handed,unsent]

theorem CallPc.undecided_of_unsent {pc : CallPc V} (unsent : pc.unsent = true) : pc.decided = none := by
  cases pc <;> first | rfl | cases unsent

theorem CallPc.handed_of_withdrawn {pc : CallPc V} (withdrawn : pc.withdrawn = true) : pc.handed = false := by
  simp [CallPc.handed,withdrawn]

/-- A job is handed over once, by the step that puts it on the queue, and stays so. -/
theorem Flow.handed (flow : Flow p j c a c' enqueued) :
    c'.pc.handed = (c.pc.handed || enqueued) ∧ (enqueued = true → c.pc.handed = false) := by
  cases flow with
  | offer _ pc' before after => simp [CallPc.handed_of_unsent before,CallPc.handed_of_unsent after]
  | withdraw _ _ pc' undecided before after => simp [before,CallPc.handed_of_withdrawn after]
  | answer error _ here => simp [here,CallPc.handed,CallPc.unsent,CallPc.withdrawn]
  | handOver deadline before =>
    have not_yet := CallPc.handed_of_unsent before
    simp [not_yet]
    simp [CallPc.handed,CallPc.unsent,CallPc.withdrawn]
  | enter deadline pc' here after =>
    rcases after with rfl | ⟨_,_,rfl⟩
    · simp [here,CallPc.handed,CallPc.unsent,CallPc.withdrawn]
    · simp [here,CallPc.handed,CallPc.unsent,CallPc.withdrawn]
  | leave exit result here => cases exit <;> simp [here,CallPc.handed,CallPc.unsent,CallPc.withdrawn]
  | listen _ here => simp [here,CallPc.handed,CallPc.unsent,CallPc.withdrawn]
  | expire _ here => simp [here,CallPc.handed,CallPc.unsent,CallPc.withdrawn]
  | receive _ _ here => simp [here,CallPc.handed,CallPc.unsent,CallPc.withdrawn]
  | orphan _ here => simp [here,CallPc.handed,CallPc.unsent,CallPc.withdrawn]
  | timeOut here => simp [here,CallPc.handed,CallPc.unsent,CallPc.withdrawn]

theorem Flow.lower (flow : Flow p j c a c' enqueued) : c'.pc.rank < c.pc.rank := by
  cases flow with
  | offer _ _ _ _ lower => exact lower
  | withdraw _ _ _ _ _ _ lower => exact lower
  | answer error _ here => simp [here,CallPc.rank]
  | handOver deadline before late => exact late
  | enter deadline pc' here after => rcases after with rfl | ⟨_,_,rfl⟩ <;> simp [here,CallPc.rank]
  | leave exit result here => simp [here,CallPc.rank]
  | listen _ here => simp [here,CallPc.rank]
  | expire _ here => simp [here,CallPc.rank]
  | receive _ _ here => simp [here,CallPc.rank]
  | orphan _ here => simp [here,CallPc.rank]
  | timeOut here => simp [here,CallPc.rank]

end Calls

/-- The steps of a worker that touch neither the queue nor the log. -/
inductive Serve : WorkerPc → WorkerAction V → WorkerPc → Prop
  | shutdown : Serve .select .takeShutdown .exited
  | canceled (j : CallId) : Serve (.canceling j) .next .select
  | early (j : CallId) (result : JobResult V) : Serve (.running j) (.earlyReply result) (.running j)
  | replied (j : CallId) : Serve (.running j) (.finish .mainReplied) .select
  | failed (j : CallId) (error : MechanicsError) :
      Serve (.running j) (.finish (.mainNotReplied error)) (.reporting j error)
  | panic (j : CallId) : Serve (.running j) .panic (.panicked j)
  | reported (j : CallId) (error : MechanicsError) : Serve (.reporting j error) .next .select
  | panicked (j : CallId) : Serve (.panicked j) .next .exited
  | unwind (w : WorkerPc) (alive : w ≠ .exited) : Serve w .unwind .exited

theorem Serve.alive {w w' : WorkerPc} {a : WorkerAction V} (serve : Serve w a w') : w ≠ .exited := by
  cases serve with
  | unwind _ alive => exact alive
  | _ => simp

/-- A worker that serves keeps its job or lets go of it. -/
theorem Serve.job {w w' : WorkerPc} {a : WorkerAction V} (serve : Serve w a w') :
    w'.job = none ∨ w'.job = w.job := by
  cases serve <;> simp [WorkerPc.job]

/-- The actions by which a worker sends on a reply channel. -/
def WorkerAction.sends : WorkerAction V → Bool
  | .next => true
  | .earlyReply _ => true
  | _ => false

/-- Who sends what on the reply channel of the worker's job. -/
inductive Sends : WorkerPc → WorkerAction V → Source → JobResult V → Prop
  | canceled (j : CallId) :
      Sends (.canceling j) .next .canceledCheck (.error (.canceled "job timed out before execution"))
  | early (j : CallId) (result : JobResult V) : Sends (.running j) (.earlyReply result) .earlyReply result
  | reported (j : CallId) (error : MechanicsError) : Sends (.reporting j error) .next .outcome (.error error)
  | panicked (j : CallId) :
      Sends (.panicked j) .next .panic (.error (.panic "worker panicked while running job"))

/-- Everything a step can do, by its label. -/
inductive Did (p : State V) : Action V → State V → Prop
  | submit (entry : Entry) (runTimeout : Option Nat) :
      Did p (.submit entry runTimeout) {p with calls := p.calls ++ [.new entry runTimeout]}
  | call (j : CallId) (a : CallAction) (c c' : Call V) (enqueued : Bool) (found : p.calls[j]? = some c)
      (advanced : advance p j c a = some (c',enqueued)) : Did p (.call j a) (p.putCall j c' enqueued)
  | take (i : Nat) (j : CallId) (rest : List CallId) (idle : p.workers[i]? = some .select)
      (queued : p.queue = j::rest) :
      Did p (.worker i .takeJob) ({p with queue := rest}.setWorker i (.checking j))
  | check (i : Nat) (j : CallId) (c : Call V) (held : p.workers[i]? = some (.checking j))
      (found : p.calls[j]? = some c) :
      Did p (.worker i .next)
        ((p.setCall j {c with checked := true}).setWorker i (if c.canceled then .canceling j else .passed j))
  | start (i : Nat) (j : CallId) (held : p.workers[i]? = some (.passed j)) :
      Did p (.worker i .next) ({p with started := p.started ++ [j]}.setWorker i (.running j))
  | serve (i : Nat) (a : WorkerAction V) (w w' : WorkerPc) (held : p.workers[i]? = some w) (serve : Serve w a w')
      (silent : a.sends = false) :
      Did p (.worker i a) (p.setWorker i w')
  | answer (i : Nat) (a : WorkerAction V) (j : CallId) (w w' : WorkerPc) (source : Source) (result : JobResult V)
      (c c' : Call V) (held : p.workers[i]? = some w) (serve : Serve w a w') (own : w.job = some j)
      (found : p.calls[j]? = some c) (sent : c.send source result = some c') (sends : Sends w a source result) :
      Did p (.worker i a) ((p.setCall j c').setWorker i w')
  | close (before : p.drop = .inUse) : Did p .drop {p with closed := true, drop := .draining}
  | drain (j : CallId) (rest : List CallId) (idle : p.drop = .draining) (queued : p.queue = j::rest) :
      Did p .drop {p with queue := rest, drop := .answering j}
  | drained (idle : p.drop = .draining) (empty : p.queue = []) : Did p .drop {p with drop := .drained}
  | cancel (j : CallId) (c c' : Call V) (held : p.drop = .answering j) (found : p.calls[j]? = some c)
      (sent : c.send .drop (.error (.canceled "pool dropped before job execution")) = some c') :
      Did p .drop {p.setCall j c' with drop := .draining}
  | spawn : Did p .spawnWorker {p with workers := p.workers ++ [.select]}
  | restart (blocked : Bool) : Did p (.setRestartBlocked blocked) {p with restartBlocked := blocked}
  | elapse (nanos : Nat) : Did p (.elapse nanos) {p with clock := p.clock + nanos}

section Steps
variable {p p' : State V}

theorem State.setWorker_self {i : Nat} {w : WorkerPc} (held : p.workers[i]? = some w) : p.setWorker i w = p := by
  obtain ⟨bound,rfl⟩ := List.getElem?_eq_some_iff.mp held
  simp [State.setWorker]

theorem workerStep_did {i : Nat} {a : WorkerAction V} (taken : workerStep p i a = some p') :
    Did p (.worker i a) p' := by
  simp only [workerStep,bind,Option.bind_eq_some_iff] at taken
  obtain ⟨w,held,taken⟩ := taken
  split at taken
  case h_1 =>
    cases taken
    exact .serve i _ _ _ held .shutdown rfl
  case h_2 =>
    split at taken
    · contradiction
    · rename_i j rest queued
      cases taken
      exact .take i j rest held queued
  case h_3 j =>
    obtain ⟨c,found,taken⟩ := Option.bind_eq_some_iff.mp taken
    cases taken
    exact .check i j c held found
  case h_4 j =>
    obtain ⟨q,answered,taken⟩ := Option.bind_eq_some_iff.mp taken
    obtain ⟨c,c',found,sent,rfl⟩ := sendResult_cases answered
    cases taken
    exact .answer i _ j _ _ _ _ c c' held (.canceled j) rfl found sent (.canceled j)
  case h_5 j =>
    cases taken
    exact .start i j held
  case h_6 j result =>
    obtain ⟨c,c',found,sent,rfl⟩ := sendResult_cases taken
    have stays : (p.setCall j c').workers[i]? = some (.running j) := held
    rw [← State.setWorker_self stays]
    exact .answer i _ j _ _ _ _ c c' held (.early j result) rfl found sent (.early j result)
  case h_7 j =>
    cases taken
    exact .serve i _ _ _ held (.replied j) rfl
  case h_8 j error =>
    cases taken
    exact .serve i _ _ _ held (.failed j error) rfl
  case h_9 j =>
    cases taken
    exact .serve i _ _ _ held (.panic j) rfl
  case h_10 j error =>
    obtain ⟨q,answered,taken⟩ := Option.bind_eq_some_iff.mp taken
    obtain ⟨c,c',found,sent,rfl⟩ := sendResult_cases answered
    cases taken
    exact .answer i _ j _ _ _ _ c c' held (.reported j error) rfl found sent (.reported j error)
  case h_11 j =>
    obtain ⟨q,answered,taken⟩ := Option.bind_eq_some_iff.mp taken
    obtain ⟨c,c',found,sent,rfl⟩ := sendResult_cases answered
    cases taken
    exact .answer i _ j _ _ _ _ c c' held (.panicked j) rfl found sent (.panicked j)
  case h_12 => contradiction
  case h_13 alive =>
    cases taken
    exact .serve i _ _ _ held (.unwind w alive) rfl
  case h_14 => contradiction

theorem dropStep_did (taken : dropStep p = some p') : Did p .drop p' := by
  unfold dropStep at taken
  split at taken
  case h_1 before =>
    cases taken
    exact .close before
  case h_2 idle =>
    split at taken
    · rename_i empty
      cases taken
      exact .drained idle empty
    · rename_i j rest queued
      cases taken
      exact .drain j rest idle queued
  case h_3 j held =>
    obtain ⟨q,answered,taken⟩ := Option.bind_eq_some_iff.mp taken
    obtain ⟨c,c',found,sent,rfl⟩ := sendResult_cases answered
    cases taken
    exact .cancel j c c' held found sent
  case h_4 => contradiction

theorem step_did {a : Action V} (taken : step p a = some p') : Did p a p' := by
  cases a with
  | submit entry runTimeout =>
    cases taken
    exact .submit entry runTimeout
  | call j a =>
    simp only [step,callStep,bind,Option.bind_eq_some_iff] at taken
    obtain ⟨c,found,⟨c',enqueued⟩,advanced,taken⟩ := taken
    cases taken
    exact .call j a c c' enqueued found advanced
  | worker i a => exact workerStep_did taken
  | drop => exact dropStep_did taken
  | spawnWorker =>
    cases taken
    exact .spawn
  | setRestartBlocked blocked =>
    cases taken
    exact .restart blocked
  | elapse nanos =>
    cases taken
    exact .elapse nanos

end Steps

end MechanicsCore.Pool.Protocol
