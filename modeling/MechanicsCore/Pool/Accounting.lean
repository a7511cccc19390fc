import MechanicsCore.Pool.QueueOrder

/-! Where the accepted jobs are. A job that the queue has taken is in the queue, with
a worker or with the drop, or somebody has answered it, or it went down with a worker
that unwound: those jobs are kept in a record beside the run. -/
namespace MechanicsCore.Pool.Protocol
open MechanicsCore.Library MechanicsCore.Runtime
variable {V : Type}

/-- Somebody has sent on the reply channel of the job. -/
def State.answered (p : State V) (j : CallId) : Bool := (p.calls[j]?).any fun c => !c.answers.isEmpty

/-- Somebody has the job. -/
def State.Held (p : State V) (j : CallId) : Prop :=
  j ∈ p.queue ∨ (∃ w ∈ p.workers, w.job = some j) ∨ p.drop = .answering j

/-- The job that goes down with a worker. -/
def loses (p : State V) : Action V → List CallId
  | .worker i .unwind => ((p.workers[i]?).bind WorkerPc.job).toList
  | _ => []

def lossy : Machine (State V × List CallId) (Action V) := machine.recording [] fun p a lost => lost ++ loses p a

/-- The runtime returns `MainReplied` after its early reply only. -/
def repliesFirst (s : State V × List CallId) : Action V → Bool
  | .worker i (.finish .mainReplied) => ((s.1.workers[i]?).bind WorkerPc.job).all s.1.answered
  | _ => true

section Calls
variable {p p' : State V} {j k : CallId} {c c' : Call V}

theorem State.answered_setCall (found : p.calls[j]? = some c) :
    (p.setCall j c').answered k = if j = k then !c'.answers.isEmpty else p.answered k := by
  have bound := (List.getElem?_eq_some_iff.mp found).1
  by_cases same : j = k <;> simp [State.answered,State.setCall,List.getElem?_set,same]
  · simp [← same,bound]

/-- An answer stays, also where the call has changed. -/
theorem State.answered_of_setCall (found : p.calls[j]? = some c) (kept : c.answers ≠ [] → c'.answers ≠ [])
    (before : p.answered k = true) : (p.setCall j c').answered k = true := by
  rw [State.answered_setCall found]
  split
  case isTrue same =>
    subst same
    simpa [State.answered,found] using kept (by simpa [State.answered,found] using before)
  case isFalse => exact before

theorem State.answered_send {source : Source} {result : JobResult V} (found : p.calls[j]? = some c)
    (sent : c.send source result = some c') : (p.setCall j c').answered j = true := by
  rw [State.answered_setCall found,if_pos rfl,(Call.send_cases sent).1]
  simp

theorem Flow.answers {a : CallAction} {enqueued : Bool} (flow : Flow p j c a c' enqueued) (before : c.answers ≠ []) :
    c'.answers ≠ [] := by
  cases flow with
  | answer error sender here sent =>
    change sender.answers ≠ []
    rw [(Call.send_cases sent).1]
    simp
  | _ => exact before

theorem State.Held.of_setWorker {i : Nat} {w w' : WorkerPc} (held : p.workers[i]? = some w)
    (keeps : w.job = some k → w'.job = some k) (before : p.Held k) : (p.setWorker i w').Held k := by
  rcases before with queued | ⟨v,member,own⟩ | drop
  · exact .inl queued
  · obtain ⟨n,there⟩ := List.mem_iff_getElem?.mp member
    by_cases same : i = n
    · subst same
      cases held.symm.trans there
      exact .inr (.inl ⟨w',List.mem_iff_getElem?.mpr ⟨i,by
        simp [State.setWorker,(List.getElem?_eq_some_iff.mp held).1]⟩,keeps own⟩)
    · exact .inr (.inl ⟨v,List.mem_iff_getElem?.mpr ⟨n,by simp [State.setWorker,List.getElem?_set_ne same,there]⟩,own⟩)
  · exact .inr (.inr drop)

theorem State.held_setWorker {i : Nat} {w w' : WorkerPc} (held : p.workers[i]? = some w) (own : w'.job = some k) :
    (p.setWorker i w').Held k :=
  .inr (.inl ⟨w',List.mem_iff_getElem?.mpr ⟨i,by simp [State.setWorker,(List.getElem?_eq_some_iff.mp held).1]⟩,own⟩)

end Calls

section Steps
variable {p p' : State V} {a : Action V} {k : CallId}

theorem Did.answered (did : Did p a p') (before : p.answered k = true) : p'.answered k = true := by
  cases did with
  | submit entry runTimeout =>
    obtain ⟨c,found,answered⟩ := (Option.any_eq_true _ _).mp before
    have bound := (List.getElem?_eq_some_iff.mp found).1
    rw [State.answered,List.getElem?_append_left bound]
    exact before
  | call j a c c' enqueued found advanced =>
    exact State.answered_of_setCall found (advance_flow advanced).answers before
  | check i j c held found => exact State.answered_of_setCall (p := p) found (fun kept => kept) before
  | answer i a j w w' source result c c' held serve own found sent =>
    refine State.answered_of_setCall (p := p) found (fun _ => ?_) before
    rw [(Call.send_cases sent).1]
    simp
  | cancel j c c' held found sent =>
    refine State.answered_of_setCall (p := p) found (fun _ => ?_) before
    rw [(Call.send_cases sent).1]
    simp
  | _ => exact before

/-- Who has a job keeps it, passes it on, answers it or goes down with it. -/
theorem Did.held {lost : List CallId} (did : Did p a p') (replied : repliesFirst (p,lost) a = true) (before : p.Held k) :
    p'.answered k = true ∨ p'.Held k ∨ k ∈ loses p a := by
  cases did with
  | submit entry runTimeout => exact .inr (.inl before)
  | call j a c c' enqueued found advanced =>
    refine .inr (.inl ?_)
    rcases before with queued | workers | drop
    · refine .inl ?_
      simp only [State.putCall]
      split
      · exact List.mem_append_left _ queued
      · exact queued
    · exact .inr (.inl workers)
    · exact .inr (.inr drop)
  | take i j rest idle queued =>
    refine .inr (.inl ?_)
    by_cases same : k = j
    · subst same
      exact State.held_setWorker (p := {p with queue := rest}) idle rfl
    · have kept : ({p with queue := rest} : State V).Held k := by
        rcases before with waiting | workers | drop
        · rw [queued] at waiting
          exact .inl ((List.mem_cons.mp waiting).resolve_left same)
        · exact .inr (.inl workers)
        · exact .inr (.inr drop)
      exact kept.of_setWorker (p := {p with queue := rest}) idle (by simp [WorkerPc.job])
  | check i j c held found =>
    refine .inr (.inl (State.Held.of_setWorker (p := p.setCall j {c with checked := true}) held (fun own => ?_) before))
    rw [← own]
    split <;> rfl
  | start i j held =>
    exact .inr (.inl (State.Held.of_setWorker (p := {p with started := p.started ++ [j]}) held (fun own => own) before))
  | serve i a w w' held serve silent =>
    have passes (keeps : w.job = some k → w'.job = some k) : (p.setWorker i w').Held k := before.of_setWorker held keeps
    cases serve with
    | shutdown => exact .inr (.inl (passes (by simp [WorkerPc.job])))
    | replied j =>
      by_cases same : k = j
      · subst same
        have known : p.answered k = true := by simpa [repliesFirst,held,WorkerPc.job] using replied
        exact .inl known
      · exact .inr (.inl (passes fun own => absurd (Option.some.inj own).symm same))
    | failed j error => exact .inr (.inl (passes fun own => own))
    | panic j => exact .inr (.inl (passes fun own => own))
    | unwind _ alive =>
      by_cases own : w.job = some k
      · exact .inr (.inr (by simp [loses,held,own]))
      · exact .inr (.inl (passes fun same => absurd same own))
    | canceled j => cases silent
    | early j result => cases silent
    | reported j error => cases silent
    | panicked j => cases silent
  | answer i a j w w' source result c c' held serve own found sent =>
    by_cases same : k = j
    · subst same
      exact .inl (State.answered_send found sent)
    · refine .inr (.inl (State.Held.of_setWorker (p := p.setCall j c') held (fun other => ?_) before))
      exact absurd (Option.some.inj (other.symm.trans own)) same
  | close idle =>
    rcases before with queued | workers | drop
    · exact .inr (.inl (.inl queued))
    · exact .inr (.inl (.inr (.inl workers)))
    · cases idle.symm.trans drop
  | drain j rest idle queued =>
    rcases before with waiting | workers | drop
    · rw [queued] at waiting
      rcases List.mem_cons.mp waiting with rfl | later
      · exact .inr (.inl (.inr (.inr rfl)))
      · exact .inr (.inl (.inl later))
    · exact .inr (.inl (.inr (.inl workers)))
    · cases idle.symm.trans drop
  | drained idle empty =>
    rcases before with queued | workers | drop
    · exact .inr (.inl (.inl queued))
    · exact .inr (.inl (.inr (.inl workers)))
    · cases idle.symm.trans drop
  | cancel j c c' held found sent =>
    rcases before with queued | workers | drop
    · exact .inr (.inl (.inl queued))
    · exact .inr (.inl (.inr (.inl workers)))
    · cases held.symm.trans drop
      exact .inl (State.answered_send found sent)
  | spawn =>
    rcases before with queued | ⟨w,member,own⟩ | drop
    · exact .inr (.inl (.inl queued))
    · exact .inr (.inl (.inr (.inl ⟨w,List.mem_append_left _ member,own⟩)))
    · exact .inr (.inl (.inr (.inr drop)))
  | restart blocked => exact .inr (.inl before)
  | elapse nanos => exact .inr (.inl before)

/-- An accepted job is put on the queue. -/
theorem Did.queues (did : Did p a p') (accepted : k ∈ accepts p a) : k ∈ p'.queue := by
  cases did with
  | call j a c c' enqueued found advanced =>
    rw [accepts_call found advanced] at accepted
    cases enqueued with
    | false => cases accepted
    | true =>
      cases List.mem_singleton.mp accepted
      exact List.mem_append_right _ (List.mem_singleton_self _)
  | _ => cases accepted

end Steps

/-- Every job that was handed over has been answered, is held, or is lost. -/
def Accounted (p : State V) (lost : List CallId) : Prop :=
  ∀ j, p.handed j = true → p.answered j = true ∨ p.Held j ∨ j ∈ lost

theorem Accounted.step {p p' : State V} {lost : List CallId} {a : Action V} (before : Accounted p lost)
    (replied : repliesFirst (p,lost) a = true) (did : Did p a p') : Accounted p' (lost ++ loses p a) := by
  intro k handed
  rcases (did.handed k).1.mp handed with already | now
  · rcases before k already with answered | held | gone
    · exact .inl (did.answered answered)
    · rcases did.held replied held with answered | held | gone
      · exact .inl answered
      · exact .inr (.inl held)
      · exact .inr (.inr (List.mem_append_right _ gone))
    · exact .inr (.inr (List.mem_append_left _ gone))
  · exact .inr (.inl (.inl (did.queues now)))

/-- Every accepted job is in the queue, with a worker or with the drop, unless somebody has
answered it or it went down with its worker, if the runtime says `MainReplied` after
its early reply only. Nobody else forgets a job. -/
theorem accepted_jobs_are_accounted_for {p : State V} {lost : List CallId}
    (reached : lossy.ReachableBy (fun s a => repliesFirst s a = true) (p,lost)) {j : CallId} (handed : p.handed j = true) :
    p.answered j = true ∨ p.Held j ∨ j ∈ lost := by
  have accounted : Accounted p lost := by
    refine Machine.recording_invariant Accounted ?_ ?_ reached
    · rintro p ⟨capacity,enqueueTimeout,runTimeout,instantBound,clock,_,rfl⟩ j handed
      simp [State.new,State.handed] at handed
    · intro p lost a p' before meets taken
      exact before.step meets (step_did taken)
  exact accounted j handed

/-- The worker unwinds from the first of three jobs. -/
theorem accepted_jobs_are_accounted_for_after_unwinding : ∃ (p : State Nat) (lost : List CallId),
    lossy.ReachableBy (fun s a => repliesFirst s a = true) (p,lost) ∧ lost = [0] ∧ p.queue = [1,2] ∧
      (p.answered 0 = true ∨ p.Held 0 ∨ 0 ∈ lost) := by
  obtain ⟨⟨p,lost⟩,reached,checked⟩ := Machine.replay_witness_by lossy (fun s a => repliesFirst s a = true) repliesFirst
    (fun _ _ passed => passed) (crowding ++ [.worker 0 .unwind]) (State.new 3 5 10 1000 0,[])
    (fun s => s.1.handed 0 && s.2 == [0] && s.1.queue == [1,2]) ⟨⟨3,5,10,1000,0,by decide,rfl⟩,rfl⟩ (by decide)
  simp only [Bool.and_eq_true,beq_iff_eq] at checked
  exact ⟨p,lost,reached,checked.1.2,checked.2,accepted_jobs_are_accounted_for reached checked.1.1⟩

end MechanicsCore.Pool.Protocol
