import MechanicsCore.Library.Slots
import MechanicsCore.Pool.Protocol
import Mathlib.Data.List.Nodup

/-! Safety of the job protocol. A job is one ticket: with its call until the
queue takes it, then in the queue, with one worker or with the drop, and at last
in the log of started scripts. No step makes a second ticket, and a job whose
ticket is gone, or that is canceled before any worker looked, never starts. -/
namespace MechanicsCore.Pool.Protocol
open MechanicsCore.Library MechanicsCore.Runtime

variable {V : Type}

def CallPc.unsent : CallPc V → Bool
  | .closedCheck => true
  | .restartCheck => true
  | .liveCheck => true
  | .deadlineFrom => true
  | .enqueueBudget _ => true
  | .startSend _ _ _ => true
  | .sending _ _ _ => true
  | .trySending _ => true
  | _ => false

def CallPc.withdrawn : CallPc V → Bool
  | .cancelEarly => true
  | .markCanceled => true
  | .answering _ => true
  | .leaving .refused _ => true
  | .returned .refused _ => true
  | _ => false

def CallPc.decided : CallPc V → Option (Exit × JobResult V)
  | .leaving exit result => some (exit,result)
  | .returned exit result => some (exit,result)
  | _ => none

def WorkerPc.holds (j : CallId) : WorkerPc → Bool
  | .checking k => k == j
  | .canceling k => k == j
  | .passed k => k == j
  | _ => false

def WorkerPc.pastCheck (j : CallId) : WorkerPc → Bool
  | .canceling k => k == j
  | .passed k => k == j
  | .running k => k == j
  | .reporting k _ => k == j
  | .panicked k => k == j
  | _ => false

/-- What a source may have sent, and when. -/
def Allowed (c : Call V) : Source → JobResult V → Prop
  | .caller, _ => ∃ result, c.pc.decided = some (.refused,result)
  | .drop, result => result = .error (.canceled "pool dropped before job execution")
  | _, _ => c.checked = true

structure Call.Consistent (c : Call V) : Prop where
  buffered : c.pc.decided = none → c.answers.map Prod.snd = c.reply.toList
  first : ∀ result, c.pc.decided = some (.replied,result) → ∃ source, c.answers.head? = some (source,result)
  expired : ∀ result, c.pc.decided = some (.timedOut,result) → c.canceled = true
  orphaned : ∀ result, c.pc.decided = some (.disconnected,result) →
    result = .error (.workerUnavailable "worker dropped reply channel")
  sources : ∀ answer ∈ c.answers, Allowed c answer.1 answer.2

theorem Call.send_cases {c c' : Call V} {source : Source} {result : JobResult V}
    (sent : c.send source result = some c') :
    c'.answers = c.answers ++ [(source,result)] ∧ c'.pc = c.pc ∧ c'.canceled = c.canceled ∧
      c'.checked = c.checked ∧ (c.pc.decided = none → c.reply = none ∧ c'.reply = some result) := by
  unfold Call.send at sent
  split at sent
  · split at sent
    · cases sent
      rename_i empty
      exact ⟨rfl,rfl,rfl,rfl,fun _ => ⟨empty,rfl⟩⟩
    · contradiction
  · cases sent
    refine ⟨rfl,rfl,rfl,rfl,fun undecided => ?_⟩
    rename_i gone
    cases here : c.pc <;> simp_all [CallPc.listening,CallPc.decided]

theorem Call.Consistent.send {c c' : Call V} {source : Source} {result : JobResult V}
    (consistent : c.Consistent) (allowed : Allowed c source result)
    (sent : c.send source result = some c') : c'.Consistent := by
  obtain ⟨answers,pc,canceled,checked,slot⟩ := Call.send_cases sent
  constructor
  · intro undecided
    rw [pc] at undecided
    obtain ⟨empty,filled⟩ := slot undecided
    have before := consistent.buffered undecided
    simp [answers,filled,before,empty]
  · intro r replied
    rw [pc] at replied
    obtain ⟨src,head⟩ := consistent.first r replied
    exact ⟨src,by simp [answers,head]⟩
  · intro r late
    rw [pc] at late
    rw [canceled]
    exact consistent.expired r late
  · intro r orphaned
    rw [pc] at orphaned
    exact consistent.orphaned r orphaned
  · have still : ∀ source result, Allowed c source result → Allowed c' source result := by
      intro source result allowed
      cases source <;> simpa [Allowed,pc,checked] using allowed
    intro answer member
    rw [answers,List.mem_append,List.mem_singleton] at member
    rcases member with old | rfl
    · exact still _ _ (consistent.sources answer old)
    · exact still _ _ allowed

structure Advanced (c c' : Call V) (enqueued : Bool) : Prop where
  checked : c'.checked = c.checked
  canceled : c.canceled = true → c'.canceled = true
  unsent : c'.pc.unsent = true → c.pc.unsent = true ∧ enqueued = false
  handed : enqueued = true → c.pc.unsent = true
  withdrawn : c'.pc.withdrawn = true →
    c.pc.withdrawn = true ∨ c.pc.unsent = true ∧ c'.pc.unsent = false ∧ enqueued = false
  answers : ∀ answer ∈ c'.answers, answer ∈ c.answers ∨ answer.1 = .caller
  consistent : c.Consistent → c'.Consistent

/-- A move between places without a result, which keeps the job, hands it over or gives it up. -/
def CallPc.mayFollow (pc pc' : CallPc V) (enqueued : Bool) : Bool :=
  pc.decided.isNone && pc'.decided.isNone && (!pc'.unsent || pc.unsent && !enqueued) &&
    (!enqueued || pc.unsent) && (!pc'.withdrawn || pc.withdrawn || pc.unsent && !pc'.unsent && !enqueued)

theorem Allowed.mono {c c' : Call V} (checked : c'.checked = c.checked)
    (refused : ∀ result, c.pc.decided = some (.refused,result) → ∃ result, c'.pc.decided = some (.refused,result))
    {source : Source} {result : JobResult V} (allowed : Allowed c source result) : Allowed c' source result := by
  cases source with
  | caller =>
    obtain ⟨r,decided⟩ := allowed
    exact refused r decided
  | drop => exact allowed
  | canceledCheck => exact checked.trans allowed
  | earlyReply => exact checked.trans allowed
  | outcome => exact checked.trans allowed
  | panic => exact checked.trans allowed

private theorem Advanced.goto {c : Call V} {pc : CallPc V} {enqueued : Bool} (canceled : Bool)
    (rises : c.canceled = true → canceled = true) (follows : c.pc.mayFollow pc enqueued = true) :
    Advanced c {c with canceled := canceled, pc := pc} enqueued := by
  simp only [CallPc.mayFollow,Bool.and_eq_true,Bool.or_eq_true,Bool.not_eq_true',Option.isNone_iff_eq_none] at follows
  obtain ⟨⟨⟨⟨before,undecided⟩,unsent⟩,handed⟩,withdrawn⟩ := follows
  constructor
  case checked => rfl
  case canceled => exact rises
  case unsent => grind
  case handed => grind
  case withdrawn => grind
  case answers => exact fun _ member => .inl member
  case consistent =>
    intro consistent
    refine ⟨fun _ => consistent.buffered before,?_,?_,?_,fun answer member => ?_⟩
    iterate 3 simp [undecided]
    exact (consistent.sources answer member).mono (by rfl) (by simp [before])

private theorem Advanced.leave {c : Call V} (canceled : Bool) {exit : Exit} {result : JobResult V}
    (before : c.pc.decided = none) (rises : c.canceled = true → canceled = true)
    (own : exit ≠ .replied) (late : exit = .timedOut → canceled = true)
    (orphaned : exit = .disconnected → result = .error (.workerUnavailable "worker dropped reply channel"))
    (refused : exit = .refused → c.pc.withdrawn = true ∨ c.pc.unsent = true) :
    Advanced c {c with canceled := canceled, pc := .leaving exit result} false where
  checked := rfl
  canceled := rises
  unsent := by simp [CallPc.unsent]
  handed := by simp
  withdrawn := fun withdrawn => by
    cases exit <;> simp_all [CallPc.withdrawn,CallPc.unsent]
  answers := fun _ member => .inl member
  consistent := fun consistent => by
    refine ⟨by simp [CallPc.decided],?_,?_,?_,fun answer member => ?_⟩
    · intro r decided
      simp [CallPc.decided,own] at decided
    · intro r decided
      simp only [CallPc.decided,Option.some.injEq,Prod.mk.injEq] at decided
      exact late decided.1
    · intro r decided
      simp only [CallPc.decided,Option.some.injEq,Prod.mk.injEq] at decided
      exact decided.2 ▸ orphaned decided.1
    · exact (consistent.sources answer member).mono (by rfl) (by simp [before])

private theorem Advanced.receive {c : Call V} {result : JobResult V} (before : c.pc.decided = none)
    (sent : c.reply = some result) :
    Advanced c {c with reply := none, pc := .leaving .replied result} false where
  checked := rfl
  canceled := id
  unsent := by simp [CallPc.unsent]
  handed := by simp
  withdrawn := by simp [CallPc.withdrawn]
  answers := fun _ member => .inl member
  consistent := fun consistent => by
    refine ⟨by simp [CallPc.decided],?_,by simp [CallPc.decided],by simp [CallPc.decided],fun answer member => ?_⟩
    · intro r decided
      simp only [CallPc.decided,Option.some.injEq,Prod.mk.injEq,true_and] at decided
      have buffer := consistent.buffered before
      rw [sent] at buffer
      subst decided
      cases filled : c.answers with
      | nil => simp [filled] at buffer
      | cons answer rest =>
        rw [filled] at buffer
        obtain ⟨source,first⟩ := answer
        simp only [List.map_cons,Option.toList_some,List.cons.injEq] at buffer
        exact ⟨source,by rw [← buffer.1]; rfl⟩
    · exact (consistent.sources answer member).mono (by rfl) (by simp [before])

private theorem Advanced.answer {c c' : Call V} {error : MechanicsError} (withdrawn : c.pc.withdrawn = true)
    (sent : c.send .caller (.error error) = some c') :
    Advanced c {c' with pc := .leaving .refused (.error error)} false := by
  obtain ⟨answers,_,canceled,checked,_⟩ := Call.send_cases sent
  constructor
  case checked => exact checked
  case canceled => exact fun before => canceled.trans before
  case unsent => simp [CallPc.unsent]
  case handed => simp
  case withdrawn => exact fun _ => .inl withdrawn
  case answers =>
    intro answer member
    rw [answers,List.mem_append,List.mem_singleton] at member
    exact member.imp_right fun same => by rw [same]
  case consistent =>
    intro consistent
    refine ⟨by simp [CallPc.decided],by simp [CallPc.decided],by simp [CallPc.decided],
      by simp [CallPc.decided],fun answer member => ?_⟩
    dsimp only at member
    rw [answers,List.mem_append,List.mem_singleton] at member
    rcases member with old | rfl
    · exact (consistent.sources answer old).mono (by exact checked) fun _ _ => ⟨_,rfl⟩
    · exact ⟨_,rfl⟩

private theorem Advanced.return {c : Call V} {exit : Exit} {result : JobResult V}
    (here : c.pc = .leaving exit result) : Advanced c {c with pc := .returned exit result} false where
  checked := rfl
  canceled := id
  unsent := by simp [CallPc.unsent]
  handed := by simp
  withdrawn := fun withdrawn => .inl (by cases exit <;> simp_all [CallPc.withdrawn])
  answers := fun _ member => .inl member
  consistent := fun consistent => by
    have same : c.pc.decided = (CallPc.returned exit result).decided := by rw [here]; rfl
    refine ⟨by simp [CallPc.decided],?_,?_,?_,fun answer member => ?_⟩
    · exact fun r decided => consistent.first r (same.trans decided)
    · exact fun r decided => consistent.expired r (same.trans decided)
    · exact fun r decided => consistent.orphaned r (same.trans decided)
    · exact (consistent.sources answer member).mono (by rfl) (by rw [same]; exact fun r decided => ⟨r,decided⟩)

private theorem Advanced.refuse {c : Call V} {error : MechanicsError} (undecided : c.pc.decided = none)
    (unsent : c.pc.unsent = true) : Advanced c {c with pc := .leaving .refused (.error error)} false :=
  .leave c.canceled undecided id (by simp) (by simp) (by simp) fun _ => .inr unsent

theorem advance_cases {p : State V} {j : CallId} {c c' : Call V} {a : CallAction} {enqueued : Bool}
    (taken : advance p j c a = some (c',enqueued)) : Advanced c c' enqueued := by
  unfold advance at taken
  dsimp only at taken
  split at taken
  case h_1 here =>
    split at taken
    · cases taken
      exact .refuse (by rw [here]; rfl) (by rw [here]; rfl)
    · cases taken
      exact .goto c.canceled id (by rw [here]; rfl)
  case h_2 here =>
    cases taken
    refine .goto c.canceled id ?_
    split <;> (rw [here]; rfl)
  case h_3 here =>
    split at taken
    · cases taken
      exact .refuse (by rw [here]; rfl) (by rw [here]; rfl)
    · cases taken
      exact .goto c.canceled id (by rw [here]; rfl)
  case h_4 here =>
    split at taken
    · cases taken
      exact .refuse (by rw [here]; rfl) (by rw [here]; rfl)
    · cases taken
      exact .goto c.canceled id (by rw [here]; rfl)
    · cases taken
      exact .goto c.canceled id (by rw [here]; rfl)
  case h_5 here =>
    split at taken
    · cases taken
      exact .goto c.canceled id (by rw [here]; rfl)
    · cases taken
      exact .goto c.canceled id (by rw [here]; rfl)
  case h_6 here =>
    cases taken
    exact .leave true (by rw [here]; rfl) (fun _ => rfl) (by simp) (by simp) (by simp)
      fun _ => .inl (by rw [here]; rfl)
  case h_7 here =>
    cases taken
    exact .goto c.canceled id (by rw [here]; rfl)
  case h_8 here =>
    split at taken
    · cases taken
      exact .goto c.canceled id (by rw [here]; rfl)
    · contradiction
  case h_9 here =>
    split at taken
    · cases taken
      refine .goto c.canceled id ?_
      split <;> (rw [here]; rfl)
    · contradiction
  case h_10 here =>
    cases taken
    exact .refuse (by rw [here]; rfl) (by rw [here]; rfl)
  case h_11 here =>
    split at taken
    · cases taken
      exact .goto c.canceled id (by rw [here]; rfl)
    · cases taken
      exact .refuse (by rw [here]; rfl) (by rw [here]; rfl)
  case h_12 here =>
    cases taken
    exact .refuse (by rw [here]; rfl) (by rw [here]; rfl)
  case h_13 here =>
    cases taken
    exact .goto true (fun _ => rfl) (by rw [here]; rfl)
  case h_14 here =>
    obtain ⟨sender,sent,same⟩ := Option.map_eq_some_iff.mp taken
    cases same
    exact .answer (by rw [here]; rfl) sent
  case h_15 here =>
    split at taken
    · cases taken
      exact .goto c.canceled id (by rw [here]; rfl)
    · cases taken
      exact .goto c.canceled id (by rw [here]; rfl)
  case h_16 here =>
    cases taken
    exact .goto c.canceled id (by rw [here]; rfl)
  case h_17 here =>
    obtain ⟨result,sent,same⟩ := Option.map_eq_some_iff.mp taken
    cases same
    exact .receive (by rw [here]; rfl) sent
  case h_18 here =>
    split at taken
    · cases taken
      exact .goto c.canceled id (by rw [here]; rfl)
    · contradiction
  case h_19 here =>
    split at taken
    · cases taken
      exact .leave c.canceled (by rw [here]; rfl) id (by simp) (by simp) (fun _ => rfl) (by simp)
    · contradiction
  case h_20 here =>
    cases taken
    exact .leave true (by rw [here]; rfl) (fun _ => rfl) (by simp) (fun _ => rfl) (by simp) (by simp)
  case h_21 here =>
    cases taken
    exact .return here
  case h_22 => contradiction

/-- Everything a step can do, by what happens to the jobs. -/
inductive Moved (p : State V) : State V → Prop
  | around (p' : State V) (queue : p'.queue = p.queue) (calls : p'.calls = p.calls)
      (started : p'.started = p.started) (capacity : p'.queueCapacity = p.queueCapacity)
      (workers : p'.workers = p.workers ∨ p'.workers = p.workers ++ [.select])
      (drop : ∀ j, p'.drop = .answering j → p.drop = .answering j) : Moved p p'
  | submit (entry : Entry) (runTimeout : Option Nat) :
      Moved p {p with calls := p.calls ++ [.new entry runTimeout]}
  | call (j : CallId) (c c' : Call V) (enqueued : Bool) (found : p.calls[j]? = some c)
      (room : enqueued = true → p.queue.length < p.queueCapacity) (advanced : Advanced c c' enqueued) :
      Moved p (p.putCall j c' enqueued)
  | take (i : Nat) (j : CallId) (rest : List CallId) (idle : p.workers[i]? = some .select)
      (queued : p.queue = j::rest) : Moved p ({p with queue := rest}.setWorker i (.checking j))
  | check (i : Nat) (j : CallId) (c : Call V) (held : p.workers[i]? = some (.checking j))
      (found : p.calls[j]? = some c) :
      Moved p ((p.setCall j {c with checked := true}).setWorker i (if c.canceled then .canceling j else .passed j))
  | start (i : Nat) (j : CallId) (held : p.workers[i]? = some (.passed j)) :
      Moved p ({p with started := p.started ++ [j]}.setWorker i (.running j))
  | retire (i : Nat) (w w' : WorkerPc) (held : p.workers[i]? = some w) (free : ∀ k, w'.holds k = false)
      (past : ∀ k, w'.pastCheck k = true → w.pastCheck k = true) : Moved p (p.setWorker i w')
  | answer (i : Nat) (j : CallId) (w w' : WorkerPc) (source : Source) (result : JobResult V) (c c' : Call V)
      (held : p.workers[i]? = some w) (free : ∀ k, w'.holds k = false)
      (past : ∀ k, w'.pastCheck k = true → w.pastCheck k = true) (own : w.pastCheck j = true)
      (place : source = .canceledCheck ∧ w = .canceling j ∨ source = .earlyReply ∨ source = .outcome ∨ source = .panic)
      (found : p.calls[j]? = some c) (sent : c.send source result = some c') :
      Moved p ((p.setCall j c').setWorker i w')
  | drain (j : CallId) (rest : List CallId) (idle : p.drop = .draining) (queued : p.queue = j::rest) :
      Moved p {p with queue := rest, drop := .answering j}
  | cancel (j : CallId) (c c' : Call V) (held : p.drop = .answering j) (found : p.calls[j]? = some c)
      (sent : c.send .drop (.error (.canceled "pool dropped before job execution")) = some c') :
      Moved p {p.setCall j c' with drop := .draining}

theorem advance_room {p : State V} {j : CallId} {c c' : Call V} {a : CallAction}
    (taken : advance p j c a = some (c',true)) : p.queue.length < p.queueCapacity := by
  unfold advance at taken
  dsimp only at taken
  split at taken
  case h_8 =>
    split at taken
    · assumption
    · contradiction
  case h_11 =>
    split at taken
    · assumption
    · simp at taken
  all_goals (repeat' split at taken) <;> simp at taken

theorem sendResult_cases {p p' : State V} {j : CallId} {source : Source} {result : JobResult V}
    (taken : sendResult p j source result = some p') :
    ∃ c c', p.calls[j]? = some c ∧ c.send source result = some c' ∧ p' = p.setCall j c' := by
  simp only [sendResult,bind,Option.bind_eq_some_iff] at taken
  obtain ⟨c,found,c',sent,same⟩ := taken
  exact ⟨c,c',found,sent,by simpa using same.symm⟩

theorem workerStep_moved {p p' : State V} {i : Nat} {a : WorkerAction V}
    (taken : workerStep p i a = some p') : Moved p p' := by
  simp only [workerStep,bind,Option.bind_eq_some_iff] at taken
  obtain ⟨w,held,taken⟩ := taken
  split at taken
  case h_1 =>
    cases taken
    exact .retire i _ _ held (fun _ => rfl) fun _ past => past
  case h_2 =>
    split at taken
    · contradiction
    · rename_i j rest queued
      cases taken
      exact .take i j rest held queued
  case h_3 j =>
    obtain ⟨c,found,taken⟩ := Option.bind_eq_some_iff.mp taken
    cases taken
    exact .check i j c held found
  case h_4 j =>
    obtain ⟨q,answered,taken⟩ := Option.bind_eq_some_iff.mp taken
    obtain ⟨c,c',found,sent,rfl⟩ := sendResult_cases answered
    cases taken
    exact .answer i j _ _ _ _ c c' held (fun _ => rfl) (by simp [WorkerPc.pastCheck])
      (by simp [WorkerPc.pastCheck]) (.inl ⟨rfl,rfl⟩) found sent
  case h_5 j =>
    cases taken
    exact .start i j held
  case h_6 j result =>
    obtain ⟨c,c',found,sent,rfl⟩ := sendResult_cases taken
    have same : (p.setCall j c').setWorker i (.running j) = p.setCall j c' := by
      simp only [State.setWorker,State.setCall]
      obtain ⟨bound,here⟩ := List.getElem?_eq_some_iff.mp held
      rw [← here,List.set_getElem_self bound]
    exact same ▸ .answer i j _ (.running j) _ _ c c' held (fun _ => rfl) (fun _ past => past)
      (by simp [WorkerPc.pastCheck]) (.inr (.inl rfl)) found sent
  case h_7 =>
    cases taken
    exact .retire i _ _ held (fun _ => rfl) (by simp [WorkerPc.pastCheck])
  case h_8 =>
    cases taken
    exact .retire i _ _ held (fun _ => rfl) fun _ past => past
  case h_9 =>
    cases taken
    exact .retire i _ _ held (fun _ => rfl) fun _ past => past
  case h_10 j error =>
    obtain ⟨q,answered,taken⟩ := Option.bind_eq_some_iff.mp taken
    obtain ⟨c,c',found,sent,rfl⟩ := sendResult_cases answered
    cases taken
    exact .answer i j _ _ _ _ c c' held (fun _ => rfl) (by simp [WorkerPc.pastCheck])
      (by simp [WorkerPc.pastCheck]) (.inr (.inr (.inl rfl))) found sent
  case h_11 j =>
    obtain ⟨q,answered,taken⟩ := Option.bind_eq_some_iff.mp taken
    obtain ⟨c,c',found,sent,rfl⟩ := sendResult_cases answered
    cases taken
    exact .answer i j _ _ _ _ c c' held (fun _ => rfl) (by simp [WorkerPc.pastCheck])
      (by simp [WorkerPc.pastCheck]) (.inr (.inr (.inr rfl))) found sent
  case h_12 => contradiction
  case h_13 =>
    cases taken
    exact .retire i _ _ held (fun _ => rfl) (by simp [WorkerPc.pastCheck])
  case h_14 => contradiction

theorem dropStep_moved {p p' : State V} (taken : dropStep p = some p') : Moved p p' := by
  unfold dropStep at taken
  split at taken
  case h_1 =>
    cases taken
    exact .around _ rfl rfl rfl rfl (.inl rfl) (by simp)
  case h_2 idle =>
    split at taken
    · cases taken
      exact .around _ rfl rfl rfl rfl (.inl rfl) (by simp)
    · rename_i j rest queued
      cases taken
      exact .drain j rest idle queued
  case h_3 j held =>
    obtain ⟨q,answered,taken⟩ := Option.bind_eq_some_iff.mp taken
    obtain ⟨c,c',found,sent,rfl⟩ := sendResult_cases answered
    cases taken
    exact .cancel j c c' held found sent
  case h_4 => contradiction

theorem step_moved {p p' : State V} {a : Action V} (taken : step p a = some p') : Moved p p' := by
  cases a with
  | submit entry runTimeout =>
    cases taken
    exact .submit entry runTimeout
  | call j a =>
    simp only [step,callStep,bind,Option.bind_eq_some_iff] at taken
    obtain ⟨c,found,⟨c',enqueued⟩,advanced,taken⟩ := taken
    cases taken
    refine .call j c c' enqueued found (fun handed => ?_) (advance_cases advanced)
    subst handed
    exact advance_room advanced
  | worker i a => exact workerStep_moved taken
  | drop => exact dropStep_moved taken
  | spawnWorker =>
    cases taken
    exact .around _ rfl rfl rfl rfl (.inr rfl) fun _ here => here
  | setRestartBlocked blocked =>
    cases taken
    exact .around _ rfl rfl rfl rfl (.inl rfl) fun _ here => here
  | elapse nanos =>
    cases taken
    exact .around _ rfl rfl rfl rfl (.inl rfl) fun _ here => here

/-- The tickets of a job: with its call, in the queue, with workers that have not
started it, with the drop, and in the log of started scripts. -/
def tickets (p : State V) (j : CallId) : Nat :=
  (p.calls[j]?.elim 0 fun c => c.pc.unsent.toNat) + p.queue.count j + p.workers.countP (WorkerPc.holds j) +
    (p.drop == .answering j).toNat + p.started.count j

private theorem tickets_setWorker {p : State V} {i : Nat} {w : WorkerPc} (held : p.workers[i]? = some w)
    (w' : WorkerPc) (j : CallId) :
    tickets (p.setWorker i w') j + (w.holds j).toNat = tickets p j + (w'.holds j).toNat := by
  have swapped := countP_set (WorkerPc.holds j) w' held
  simp only [tickets,State.setWorker]
  omega

private theorem tickets_setCall {p : State V} {k : CallId} {c : Call V} (found : p.calls[k]? = some c)
    (c' : Call V) (j : CallId) :
    tickets (p.setCall k c') j + (if j = k then c.pc.unsent.toNat else 0) =
      tickets p j + if j = k then c'.pc.unsent.toNat else 0 := by
  have bound : k < p.calls.length := (List.getElem?_eq_some_iff.mp found).1
  simp only [tickets,State.setCall]
  by_cases same : j = k
  · subst same
    rw [List.getElem?_set_self bound,found]
    simp only [Option.elim_some,if_true]
    omega
  · rw [List.getElem?_set_ne (Ne.symm same)]
    simp [same]

private theorem tickets_send {p : State V} {k : CallId} {c c' : Call V} {source : Source} {result : JobResult V}
    (found : p.calls[k]? = some c) (sent : c.send source result = some c') (j : CallId) :
    tickets (p.setCall k c') j = tickets p j := by
  have swapped := tickets_setCall found c' j
  rw [(Call.send_cases sent).2.1] at swapped
  omega

private theorem tickets_call {p : State V} {k : CallId} {c : Call V} (found : p.calls[k]? = some c)
    (c' : Call V) (enqueued : Bool) (j : CallId) :
    tickets (p.putCall k c' enqueued) j + (if j = k then c.pc.unsent.toNat else 0) =
      tickets p j + if j = k then c'.pc.unsent.toNat + enqueued.toNat else 0 := by
  have swapped := tickets_setCall found c' j
  have queue : tickets (p.putCall k c' enqueued) j =
      tickets (p.setCall k c') j + if j = k then enqueued.toNat else 0 := by
    cases enqueued
    · simp [State.putCall,State.setCall]
    · simp only [tickets,State.putCall,State.setCall,if_true,List.count_append,List.count_singleton,beq_iff_eq,
        Bool.toNat_true]
      split <;> split <;> first | omega | (exfalso; simp_all)
  rw [queue]
  by_cases same : j = k
  · simp only [same,if_true] at swapped ⊢
    omega
  · simp only [same,if_false] at swapped ⊢
    omega

theorem Moved.tickets_le {p p' : State V} (moved : Moved p p') (j : Nat) :
    tickets p' j ≤ tickets p j + if p.calls.length ≤ j ∧ j < p'.calls.length then 1 else 0 := by
  suffices old : tickets p' j ≤ tickets p j ∨ j = p.calls.length ∧ p'.calls.length = j + 1 ∧
      tickets p' j ≤ tickets p j + 1 by
    rcases old with old | ⟨new,length,one⟩
    · omega
    · simpa [new,length] using one
  cases moved with
  | around _ queue calls started _ workers drop =>
    simp only [tickets,queue,calls,started]
    have held : p'.workers.countP (WorkerPc.holds j) = p.workers.countP (WorkerPc.holds j) := by
      rcases workers with same | more
      · rw [same]
      · simp [more,WorkerPc.holds]
    have dropping : (p'.drop == .answering j).toNat ≤ (p.drop == .answering j).toNat := by
      by_cases here : p'.drop = .answering j
      · simp [here,drop j here]
      · simp [beq_false_of_ne here]
    omega
  | submit entry runTimeout =>
    by_cases new : j = p.calls.length
    · refine .inr ⟨new,by simp [new],?_⟩
      simp [tickets,new,Call.new,CallPc.unsent]
      omega
    · refine .inl (Nat.le_of_eq ?_)
      by_cases known : j < p.calls.length
      · simp [tickets,List.getElem?_append_left known]
      · have before : p.calls[j]? = none := List.getElem?_eq_none (by omega)
        have after : (p.calls ++ [Call.new entry runTimeout])[j]? = none :=
          List.getElem?_eq_none (by rw [List.length_append,List.length_singleton]; omega)
        simp only [tickets,before,after]
  | call k c c' enqueued found room advanced =>
    have balance := tickets_call found c' enqueued j
    have unsent := advanced.unsent
    have handed := advanced.handed
    by_cases same : j = k
    · subst same
      simp only [if_true] at balance
      cases old : c.pc.unsent <;> cases new : c'.pc.unsent <;> cases enqueued <;>
        simp [old,new] at balance unsent handed <;> omega
    · simp only [same,if_false] at balance
      omega
  | take i k rest idle queued =>
    have swapped := tickets_setWorker (p := {p with queue := rest}) idle (.checking k) j
    have popped : tickets p j = tickets {p with queue := rest} j + if k = j then 1 else 0 := by
      simp only [tickets,queued,List.count_cons,beq_iff_eq]
      omega
    simp only [WorkerPc.holds,Bool.toNat_false,Nat.add_zero] at swapped
    rw [swapped,popped]
    by_cases same : k = j
    · simp [same]
    · simp [same,beq_false_of_ne same]
  | check i k c held found =>
    have swapped := tickets_setWorker (p := p.setCall k {c with checked := true}) held
      (if c.canceled then .canceling k else .passed k) j
    have kept := tickets_setCall found {c with checked := true} j
    have holds : (if c.canceled then WorkerPc.canceling k else .passed k).holds j = (WorkerPc.checking k).holds j := by
      cases c.canceled <;> rfl
    rw [holds] at swapped
    dsimp only at kept
    omega
  | start i k held =>
    have swapped := tickets_setWorker (p := {p with started := p.started ++ [k]}) held (.running k) j
    have logged : tickets {p with started := p.started ++ [k]} j = tickets p j + if k = j then 1 else 0 := by
      simp only [tickets,List.count_append,List.count_singleton,beq_iff_eq]
      omega
    simp only [WorkerPc.holds,Bool.toNat_false,Nat.add_zero] at swapped
    rw [logged] at swapped
    by_cases same : k = j
    · subst same
      simp only [if_true,beq_self_eq_true,Bool.toNat_true] at swapped
      omega
    · simp only [same,if_false,beq_false_of_ne same,Bool.toNat_false] at swapped
      omega
  | retire i w w' held free past =>
    have swapped := tickets_setWorker held w' j
    rw [free j] at swapped
    simp at swapped
    omega
  | answer i k w w' source result c c' held free past own place found sent =>
    have swapped := tickets_setWorker (p := p.setCall k c') held w' j
    rw [free j,tickets_send found sent j] at swapped
    simp at swapped
    omega
  | drain k rest idle queued =>
    simp only [tickets,queued,idle,List.count_cons]
    have free : (DropPc.draining == DropPc.answering j) = false := rfl
    by_cases same : k = j
    · subst same
      simp only [free,beq_self_eq_true,if_true,Bool.toNat_false,Bool.toNat_true]
      omega
    · have other : (DropPc.answering k == DropPc.answering j) = false := by simp [same]
      simp only [free,other,beq_false_of_ne same]
      simp
  | cancel k c c' held found sent =>
    have kept := tickets_send found sent j
    have free : (DropPc.draining == DropPc.answering j) = false := rfl
    simp only [tickets,State.setCall,free,Bool.toNat_false] at kept ⊢
    omega

def Call.Dismissed (c : Call V) : Prop :=
  ∃ answer ∈ c.answers, answer.1 = .canceledCheck ∨ answer.1 = .drop

/-- The ticket of a job that its call withdrew, or that was dismissed, is gone. -/
def Call.Spent (c : Call V) : Prop := c.pc.withdrawn = true ∨ c.Dismissed

def Checked (p : State V) (j : CallId) : Prop := ∃ c, p.calls[j]? = some c ∧ c.checked = true

structure Sound (p : State V) : Prop where
  capacity : p.queue.length ≤ p.queueCapacity
  single : ∀ j : Nat, tickets p j ≤ if j < p.calls.length then 1 else 0
  consistent : ∀ (j : CallId) (c : Call V), p.calls[j]? = some c → c.Consistent
  pastCheck : ∀ w ∈ p.workers, ∀ j, w.pastCheck j = true → Checked p j
  started : ∀ j ∈ p.started, Checked p j
  spent : ∀ (j : CallId) (c : Call V), p.calls[j]? = some c → c.Spent → tickets p j = 0

theorem Moved.length_le {p p' : State V} (moved : Moved p p') : p.calls.length ≤ p'.calls.length := by
  cases moved with
  | around _ _ calls => rw [calls]
  | submit => simp
  | _ => simp [State.putCall,State.setCall,State.setWorker]

theorem Moved.capacity {p p' : State V} (moved : Moved p p') (before : p.queue.length ≤ p.queueCapacity) :
    p'.queue.length ≤ p'.queueCapacity := by
  cases moved with
  | around _ queue _ _ capacity =>
    rw [queue,capacity]
    exact before
  | call j c c' enqueued found room advanced =>
    cases enqueued with
    | false => exact before
    | true =>
      have room := room rfl
      simp only [State.putCall,State.setCall,if_true,List.length_append,List.length_singleton]
      omega
  | take i j rest idle queued =>
    simp only [State.setWorker]
    simp only [queued,List.length_cons] at before
    omega
  | drain j rest idle queued =>
    simp only [queued,List.length_cons] at before
    dsimp only
    omega
  | submit => exact before
  | check => exact before
  | start => exact before
  | retire => exact before
  | answer => exact before
  | cancel => exact before

theorem Moved.single {p p' : State V} (moved : Moved p p') (before : Sound p) (j : Nat) :
    tickets p' j ≤ if j < p'.calls.length then 1 else 0 := by
  have kept := before.single j
  have bound := moved.tickets_le j
  have longer := moved.length_le
  by_cases known : j < p.calls.length
  · have later : j < p'.calls.length := by omega
    simp only [known,later,if_true] at kept ⊢
    simp only [Nat.not_le.mpr known,false_and,if_false] at bound
    omega
  · simp only [known,if_false] at kept
    simp only [Nat.not_lt.mp known,true_and] at bound
    omega

private theorem Call.Consistent.check {c : Call V} (consistent : c.Consistent) :
    ({c with checked := true} : Call V).Consistent := by
  refine ⟨consistent.buffered,consistent.first,consistent.expired,consistent.orphaned,fun answer member => ?_⟩
  have allowed := consistent.sources answer member
  rcases answer with ⟨source,result⟩
  cases source with
  | caller => exact allowed
  | drop => exact allowed
  | _ => rfl

private theorem Call.Consistent.new (entry : Entry) (runTimeout : Option Nat) :
    (Call.new entry runTimeout : Call V).Consistent :=
  ⟨fun _ => rfl,by simp [Call.new,CallPc.decided],by simp [Call.new,CallPc.decided],
    by simp [Call.new,CallPc.decided],by simp [Call.new]⟩

theorem Moved.consistent {p p' : State V} (moved : Moved p p') (before : Sound p) (k : CallId) (d : Call V)
    (found : p'.calls[k]? = some d) : d.Consistent := by
  cases moved with
  | around _ _ calls => exact before.consistent k d (calls ▸ found)
  | submit entry runTimeout =>
    rcases found_append found with old | ⟨_,rfl⟩
    · exact before.consistent k d old
    · exact .new entry runTimeout
  | call j c c' enqueued here room advanced =>
    rcases found_set found with ⟨rfl,rfl⟩ | ⟨_,old⟩
    · exact advanced.consistent (before.consistent _ c here)
    · exact before.consistent k d old
  | check i j c held here =>
    rcases found_set found with ⟨rfl,rfl⟩ | ⟨_,old⟩
    · exact (before.consistent _ c here).check
    · exact before.consistent k d old
  | answer i j w w' source result c c' held free past own place here sent =>
    rcases found_set found with ⟨rfl,rfl⟩ | ⟨_,old⟩
    · obtain ⟨e,same,checked⟩ := before.pastCheck w (List.mem_of_getElem? held) _ own
      cases here.symm.trans same
      refine (before.consistent _ c here).send ?_ sent
      rcases place with ⟨rfl,_⟩ | rfl | rfl | rfl <;> exact checked
    · exact before.consistent k d old
  | cancel j c c' held here sent =>
    rcases found_set found with ⟨rfl,rfl⟩ | ⟨_,old⟩
    · refine (before.consistent _ c here).send ?_ sent
      exact rfl
    · exact before.consistent k d old
  | take => exact before.consistent k d found
  | start => exact before.consistent k d found
  | retire => exact before.consistent k d found
  | drain => exact before.consistent k d found

private theorem later_set {l : List (Call V)} {j k : CallId} {c c' d : Call V} (here : l[j]? = some c)
    (found : l[k]? = some d) (checked : c.checked = true → c'.checked = true)
    (canceled : c.canceled = true → c'.canceled = true) :
    ∃ e, (l.set j c')[k]? = some e ∧ (d.checked = true → e.checked = true) ∧ (d.canceled = true → e.canceled = true) := by
  by_cases same : j = k
  · subst same
    cases here.symm.trans found
    have bound : j < l.length := (List.getElem?_eq_some_iff.mp here).1
    exact ⟨c',List.getElem?_set_self bound,checked,canceled⟩
  · exact ⟨d,by rw [List.getElem?_set_ne same]; exact found,id,id⟩

theorem Moved.later {p p' : State V} (moved : Moved p p') {k : CallId} {d : Call V}
    (found : p.calls[k]? = some d) : ∃ e, p'.calls[k]? = some e ∧
      (d.checked = true → e.checked = true) ∧ (d.canceled = true → e.canceled = true) := by
  cases moved with
  | around _ _ calls => exact ⟨d,calls ▸ found,id,id⟩
  | submit entry runTimeout =>
    have bound : k < p.calls.length := (List.getElem?_eq_some_iff.mp found).1
    exact ⟨d,by rw [List.getElem?_append_left bound]; exact found,id,id⟩
  | call j c c' enqueued here room advanced =>
    exact later_set here found (advanced.checked.trans ·) advanced.canceled
  | check i j c held here => exact later_set here found (fun _ => rfl) id
  | answer i j w w' source result c c' held free past own place here sent =>
    obtain ⟨_,_,canceled,checked,_⟩ := Call.send_cases sent
    exact later_set here found checked.trans canceled.trans
  | cancel j c c' held here sent =>
    obtain ⟨_,_,canceled,checked,_⟩ := Call.send_cases sent
    exact later_set here found checked.trans canceled.trans
  | take => exact ⟨d,found,id,id⟩
  | start => exact ⟨d,found,id,id⟩
  | retire => exact ⟨d,found,id,id⟩
  | drain => exact ⟨d,found,id,id⟩

theorem Moved.checked {p p' : State V} (moved : Moved p p') {k : CallId} (checked : Checked p k) : Checked p' k := by
  obtain ⟨c,found,checked⟩ := checked
  obtain ⟨d,later,kept,_⟩ := moved.later found
  exact ⟨d,later,kept checked⟩

/-- A worker past the check after a step was past it before, or has just checked. -/
theorem Moved.checks {p p' : State V} (moved : Moved p p') {k : CallId} {w' : WorkerPc} (member : w' ∈ p'.workers)
    (past : w'.pastCheck k = true) : (∃ w ∈ p.workers, w.pastCheck k = true) ∨
      ∃ i c, p.workers[i]? = some (.checking k) ∧ p.calls[k]? = some c ∧
        p' = (p.setCall k {c with checked := true}).setWorker i (if c.canceled then .canceling k else .passed k) := by
  have other : ∀ {i : Nat} {w : WorkerPc}, w' ∈ p.workers.set i w → (w.pastCheck k = true → ∃ w ∈ p.workers,
      w.pastCheck k = true) → ∃ w ∈ p.workers, w.pastCheck k = true := by
    intro i w member from_new
    rcases List.mem_or_eq_of_mem_set member with old | rfl
    · exact ⟨w',old,past⟩
    · exact from_new past
  cases moved with
  | around _ _ _ _ _ workers =>
    rcases workers with same | more
    · exact .inl ⟨w',same ▸ member,past⟩
    · rw [more,List.mem_append,List.mem_singleton] at member
      rcases member with old | rfl
      · exact .inl ⟨w',old,past⟩
      · simp [WorkerPc.pastCheck] at past
  | submit => exact .inl ⟨w',member,past⟩
  | call => exact .inl ⟨w',member,past⟩
  | take => exact .inl (other member (by simp [WorkerPc.pastCheck]))
  | check i j c held here =>
    rcases List.mem_or_eq_of_mem_set member with old | rfl
    · exact .inl ⟨w',old,past⟩
    · have same : j = k := by
        cases canceled : c.canceled <;> simpa [canceled,WorkerPc.pastCheck] using past
      subst same
      exact .inr ⟨i,c,held,here,rfl⟩
  | start i j held =>
    exact .inl (other member fun past => ⟨_,List.mem_of_getElem? held,past⟩)
  | retire i w w' held free kept =>
    exact .inl (other member fun past => ⟨_,List.mem_of_getElem? held,kept k past⟩)
  | answer i j w w' source result c c' held free kept own place here sent =>
    exact .inl (other member fun past => ⟨_,List.mem_of_getElem? held,kept k past⟩)
  | drain => exact .inl ⟨w',member,past⟩
  | cancel => exact .inl ⟨w',member,past⟩

/-- A script in the log after a step was there before, or a worker past the check has just started it. -/
theorem Moved.starts {p p' : State V} (moved : Moved p p') {k : CallId} (member : k ∈ p'.started) :
    k ∈ p.started ∨ .passed k ∈ p.workers := by
  cases moved with
  | around _ _ _ started => exact .inl (started ▸ member)
  | start i j held =>
    rcases List.mem_append.mp member with old | new
    · exact .inl old
    · cases List.mem_singleton.mp new
      exact .inr (List.mem_of_getElem? held)
  | submit => exact .inl member
  | call => exact .inl member
  | take => exact .inl member
  | check => exact .inl member
  | retire => exact .inl member
  | answer => exact .inl member
  | drain => exact .inl member
  | cancel => exact .inl member

theorem Moved.pastCheck {p p' : State V} (moved : Moved p p') (before : Sound p) (w : WorkerPc)
    (member : w ∈ p'.workers) (k : CallId) (past : w.pastCheck k = true) : Checked p' k := by
  rcases moved.checks member past with ⟨w',old,past⟩ | ⟨i,c,held,found,rfl⟩
  · exact moved.checked (before.pastCheck w' old k past)
  · have bound : k < p.calls.length := (List.getElem?_eq_some_iff.mp found).1
    exact ⟨_,List.getElem?_set_self bound,rfl⟩

theorem Moved.started {p p' : State V} (moved : Moved p p') (before : Sound p) (k : CallId)
    (member : k ∈ p'.started) : Checked p' k := by
  rcases moved.starts member with old | new
  · exact moved.checked (before.started k old)
  · exact moved.checked (before.pastCheck _ new k (by simp [WorkerPc.pastCheck]))

private theorem spent_send {c c' : Call V} {source : Source} {result : JobResult V}
    (sent : c.send source result = some c') (spent : c'.Spent) :
    c.Spent ∨ source = .canceledCheck ∨ source = .drop := by
  obtain ⟨answers,pc,_⟩ := Call.send_cases sent
  rcases spent with withdrawn | ⟨answer,member,place⟩
  · exact .inl (.inl (pc ▸ withdrawn))
  · rw [answers,List.mem_append,List.mem_singleton] at member
    rcases member with old | rfl
    · exact .inl (.inr ⟨answer,old,place⟩)
    · exact .inr place

private theorem Call.new_spent (entry : Entry) (runTimeout : Option Nat) :
    ¬ (Call.new entry runTimeout : Call V).Spent := by
  rintro (withdrawn | ⟨answer,member,_⟩)
  · simp [Call.new,CallPc.withdrawn] at withdrawn
  · simp [Call.new] at member

theorem Moved.spent {p p' : State V} (moved : Moved p p') (before : Sound p) (k : CallId) (d : Call V)
    (found : p'.calls[k]? = some d) (spent : d.Spent) : tickets p' k = 0 := by
  have kept : ∀ c, p.calls[k]? = some c → c.Spent → tickets p' k = 0 := by
    intro c here spent
    have gone := before.spent k c here spent
    have bound : k < p.calls.length := (List.getElem?_eq_some_iff.mp here).1
    have fewer := moved.tickets_le k
    simp only [Nat.not_le.mpr bound,false_and,if_false] at fewer
    omega
  have single : ∀ c, p.calls[k]? = some c → tickets p k ≤ 1 := by
    intro c here
    have bound : k < p.calls.length := (List.getElem?_eq_some_iff.mp here).1
    simpa [bound] using before.single k
  cases moved with
  | around _ _ calls => exact kept d (calls ▸ found) spent
  | submit entry runTimeout =>
    rcases found_append found with old | ⟨_,rfl⟩
    · exact kept d old spent
    · exact absurd spent (Call.new_spent entry runTimeout)
  | call j c c' enqueued here room advanced =>
    rcases found_set found with ⟨rfl,rfl⟩ | ⟨_,old⟩
    · rcases spent with withdrawn | ⟨answer,member,place⟩
      · rcases advanced.withdrawn withdrawn with old | ⟨unsent,given,rfl⟩
        · exact kept c here (.inl old)
        · have balance := tickets_call here d false j
          have one := single c here
          simp [unsent,given] at balance
          omega
      · rcases advanced.answers answer member with old | own
        · exact kept c here (.inr ⟨answer,old,place⟩)
        · simp [own] at place
    · exact kept d old spent
  | check i j c held here =>
    rcases found_set found with ⟨rfl,rfl⟩ | ⟨_,old⟩
    · exact kept c here spent
    · exact kept d old spent
  | answer i j w w' source result c c' held free past own place here sent =>
    rcases found_set found with ⟨rfl,rfl⟩ | ⟨_,old⟩
    · rcases spent_send sent spent with old | dismissed
      · exact kept c here old
      · have own : w = .canceling j := by
          rcases place with ⟨_,own⟩ | rfl | rfl | rfl
          · exact own
          iterate 3 simp at dismissed
        have swapped := tickets_setWorker (p := p.setCall j d) held w' j
        have one := single c here
        rw [free j,tickets_send here sent j,own] at swapped
        simp [WorkerPc.holds] at swapped
        omega
    · exact kept d old spent
  | cancel j c c' held here sent =>
    rcases found_set found with ⟨rfl,rfl⟩ | ⟨_,old⟩
    · have one := single c here
      have same := tickets_send here sent j
      have free : (DropPc.draining == DropPc.answering j) = false := rfl
      simp only [tickets,State.setCall,held,free,beq_self_eq_true,Bool.toNat_true,Bool.toNat_false] at one same ⊢
      omega
    · exact kept d old spent
  | take => exact kept d found spent
  | start => exact kept d found spent
  | retire => exact kept d found spent
  | drain => exact kept d found spent

theorem Sound.step {p p' : State V} {a : Action V} (before : Sound p) (taken : step p a = some p') : Sound p' := by
  have moved := step_moved taken
  exact ⟨moved.capacity before.capacity,moved.single before,moved.consistent before,moved.pastCheck before,
    moved.started before,moved.spent before⟩

theorem Sound.initial {p : State V} (initial : machine.initial p) : Sound p := by
  obtain ⟨capacity,enqueueTimeout,runTimeout,instantBound,clock,_,rfl⟩ := initial
  constructor
  case capacity => simp [State.new]
  case single =>
    intro j
    have free : (DropPc.inUse == DropPc.answering j) = false := rfl
    simp [tickets,State.new,free]
  all_goals simp [State.new]

theorem reachable_sound {p : State V} (reached : machine.Reachable p) : Sound p :=
  reached.invariant Sound (fun _ initial => .initial initial) fun _ _ _ before taken => before.step taken

/-- A worker passes the check of a job only while its flag is down. -/
theorem Moved.passes {p p' : State V} (moved : Moved p p') {k : CallId} (member : .passed k ∈ p'.workers) :
    .passed k ∈ p.workers ∨ ∃ c, p.calls[k]? = some c ∧ c.canceled = false := by
  have kept : ∀ {i : Nat} {w : WorkerPc}, .passed k ∈ p.workers.set i w → w.holds k = false →
      .passed k ∈ p.workers := by
    intro i w member free
    rcases List.mem_or_eq_of_mem_set member with old | rfl
    · exact old
    · simp [WorkerPc.holds] at free
  cases moved with
  | around _ _ _ _ _ workers =>
    rcases workers with same | more
    · exact .inl (same ▸ member)
    · rw [more,List.mem_append,List.mem_singleton] at member
      exact .inl (member.resolve_right (by simp))
  | take i j rest idle queued =>
    rcases List.mem_or_eq_of_mem_set member with old | new
    · exact .inl old
    · simp at new
  | check i j c held here =>
    rcases List.mem_or_eq_of_mem_set member with old | new
    · exact .inl old
    · cases flag : c.canceled with
      | true => simp [flag] at new
      | false =>
        have same : k = j := by simpa [flag] using new
        exact .inr ⟨c,same ▸ here,flag⟩
  | start i j held => exact .inl (kept member rfl)
  | retire i w w' held free => exact .inl (kept member (free k))
  | answer i j w w' source result c c' held free => exact .inl (kept member (free k))
  | submit => exact .inl member
  | call => exact .inl member
  | drain => exact .inl member
  | cancel => exact .inl member

def NeverStarts (p : State V) (j : CallId) : Prop := ∀ p', machine.Leads p p' → j ∉ p'.started

theorem neverStarts_of_no_ticket {p : State V} (reached : machine.Reachable p) {j : CallId} {c : Call V}
    (found : p.calls[j]? = some c) (gone : tickets p j = 0) : NeverStarts p j := by
  have kept : ∀ (q : State V) a q', machine.Reachable q → (j < q.calls.length ∧ tickets q j = 0) →
      machine.step q a = some q' → j < q'.calls.length ∧ tickets q' j = 0 := by
    intro q a q' _ ⟨known,gone⟩ taken
    have moved := step_moved taken
    have fewer := moved.tickets_le j
    simp only [Nat.not_le.mpr known,false_and,if_false] at fewer
    exact ⟨Nat.lt_of_lt_of_le known moved.length_le,by omega⟩
  intro p' leads member
  have none : tickets p' j = 0 :=
    (Machine.Leads.invariant _ kept reached ⟨(List.getElem?_eq_some_iff.mp found).1,gone⟩ leads).2
  have one : 0 < p'.started.count j := List.count_pos_iff.mpr member
  simp only [tickets] at none
  omega

/-- Every worker that has yet to look at the flag will find it up. -/
def Barred (p : State V) (j : CallId) : Prop :=
  (∃ c, p.calls[j]? = some c ∧ c.canceled = true) ∧ .passed j ∉ p.workers ∧ j ∉ p.started

theorem Barred.moved {p p' : State V} {j : CallId} (barred : Barred p j) (moved : Moved p p') : Barred p' j := by
  obtain ⟨⟨c,found,canceled⟩,unpassed,unstarted⟩ := barred
  obtain ⟨d,later,_,kept⟩ := moved.later found
  refine ⟨⟨d,later,kept canceled⟩,fun member => ?_,fun member => ?_⟩
  · rcases moved.passes member with old | ⟨e,here,lowered⟩
    · exact unpassed old
    · cases found.symm.trans here
      simp [canceled] at lowered
  · rcases moved.starts member with old | new
    · exact unstarted old
    · exact unpassed new

theorem Barred.neverStarts {p : State V} (reached : machine.Reachable p) {j : CallId} (barred : Barred p j) :
    NeverStarts p j := by
  intro p' leads
  have still : Barred p' j := Machine.Leads.invariant (Barred · j)
    (fun _ _ _ _ before taken => before.moved (step_moved taken)) reached barred leads
  exact still.2.2

/-- The errors of a call that gave up on its job. -/
def unserved : MechanicsError → Bool
  | .queueFull _ => true
  | .queueTimeout _ => true
  | .poolClosed _ => true
  | .runtimePool _ => true
  | .runTimeout _ => true
  | _ => false

theorem Sound.unserved_neverStarts {p : State V} (reached : machine.Reachable p) (sound : Sound p) {j : CallId}
    {c : Call V} (found : p.calls[j]? = some c) {exit : Exit} {error : MechanicsError}
    (here : c.pc = .returned exit (.error error)) (refused : unserved error = true)
    (unchecked : c.checked = false) : NeverStarts p j := by
  have consistent := sound.consistent j c found
  have decided : c.pc.decided = some (exit,.error error) := by rw [here]; rfl
  have unlooked : ¬ Checked p j := by
    rintro ⟨d,same,checked⟩
    cases found.symm.trans same
    simp [unchecked] at checked
  cases exit with
  | refused => exact neverStarts_of_no_ticket reached found (sound.spent j c found (.inl (by rw [here]; rfl)))
  | timedOut =>
    refine Barred.neverStarts reached ⟨⟨c,found,consistent.expired _ decided⟩,fun member => ?_,fun member => ?_⟩
    · exact unlooked (sound.pastCheck _ member j (by simp [WorkerPc.pastCheck]))
    · exact unlooked (sound.started j member)
  | replied =>
    -- Before a check only the drop answers, and it answers `Canceled`.
    obtain ⟨source,first⟩ := consistent.first _ decided
    have allowed := consistent.sources _ (List.mem_of_mem_head? first)
    cases source with
    | caller =>
      obtain ⟨result,own⟩ := allowed
      simp [decided] at own
    | drop =>
      cases allowed
      simp [unserved] at refused
    | _ => exact absurd (unchecked.symm.trans allowed) (by simp)
  | disconnected =>
    cases consistent.orphaned _ decided
    simp [unserved] at refused

/-- In every interleaving the queue stays within its capacity and no script is
started twice; a call that gave its job up before a worker looked at it, and a job
answered `Canceled` by a worker or by the drop, has no start in any later state;
and a call that returns from its reply channel returns the first answer to its job. -/
theorem job_protocol_safe {p : State V} (reached : machine.Reachable p) :
    p.queue.length ≤ p.queueCapacity ∧ p.started.Nodup ∧ ∀ (j : CallId) (c : Call V), p.calls[j]? = some c →
      (∀ exit error, c.pc = .returned exit (.error error) → unserved error = true → c.checked = false →
        NeverStarts p j) ∧
      (∀ message, (.canceledCheck,.error (.canceled message)) ∈ c.answers ∨
        (.drop,.error (.canceled message)) ∈ c.answers → NeverStarts p j) ∧
      ∀ result, c.pc = .returned .replied result → ∃ source, c.answers.head? = some (source,result) := by
  have sound := reachable_sound reached
  refine ⟨sound.capacity,List.nodup_iff_count_le_one.mpr fun j => ?_,fun j c found => ⟨?_,?_,?_⟩⟩
  · have single := sound.single j
    simp only [tickets] at single
    split at single <;> omega
  · exact fun exit error here refused unchecked => sound.unserved_neverStarts reached found here refused unchecked
  · intro message answered
    refine neverStarts_of_no_ticket reached found (sound.spent j c found (.inr ?_))
    rcases answered with member | member
    · exact ⟨_,member,.inl rfl⟩
    · exact ⟨_,member,.inr rfl⟩
  · intro result here
    exact (sound.consistent j c found).first result (by rw [here]; rfl)

/-- Three calls on one worker and one queue slot: the first is served, the second
times out in the queue that then rejects the third, and the drop drains it. -/
def contested : List (Action Nat) :=
  ([.spawnWorker,.submit .run none] : List (Action Nat)) ++ List.replicate 8 (.call 0 .next) ++
    [.worker 0 .takeJob,.worker 0 .next,.worker 0 .next,.submit .run none] ++ List.replicate 8 (.call 1 .next) ++
    [.submit .runNonblockingEnqueue none] ++ List.replicate 5 (.call 2 .next) ++
    ([.worker 0 (.earlyReply (.ok 7)),.worker 0 (.finish .mainReplied),.call 0 .next,.call 0 .next,.elapse 10,
      .call 1 .expire,.call 1 .next,.call 1 .next,.worker 0 .takeShutdown,.drop,.drop,.drop] : List (Action Nat))

def contestedPool : State Nat :=
  {(State.new 1 5 10 1000 10 : State Nat) with
    closed := true
    calls := [
      ⟨.run,none,.returned .replied (.ok 7),false,none,true,[(.earlyReply,.ok 7)]⟩,
      ⟨.run,none,.returned .timedOut (.error (.runTimeout "run timeout elapsed while waiting for worker reply")),
        true,none,false,[(.drop,.error (.canceled "pool dropped before job execution"))]⟩,
      ⟨.runNonblockingEnqueue,none,.returned .refused (.error (.queueFull "queue is full")),false,none,false,[]⟩]
    workers := [.exited]
    drop := .draining
    started := [0]}

theorem contestedPool_reached : machine.Reachable contestedPool :=
  machine.replayBy_reachable _ (fun _ _ => true) (fun _ _ _ => trivial) contested _ _
    (.start (.new 1 5 10 1000 0) ⟨1,5,10,1000,0,by decide,rfl⟩) rfl

theorem job_protocol_safe_at_contestedPool : machine.Reachable contestedPool ∧ contestedPool.started.Nodup ∧
    NeverStarts contestedPool 1 ∧ NeverStarts contestedPool 2 := by
  obtain ⟨_,once,jobs⟩ := job_protocol_safe contestedPool_reached
  refine ⟨contestedPool_reached,once,?_,?_⟩
  · exact (jobs 1 _ rfl).2.1 _ (.inr (List.mem_singleton.mpr rfl))
  · exact (jobs 2 _ rfl).1 _ _ rfl rfl rfl

end MechanicsCore.Pool.Protocol
