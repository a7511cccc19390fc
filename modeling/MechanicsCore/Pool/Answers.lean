import MechanicsCore.Pool.Accounting

/-! Who has a job, and who answers it. A job that its call has handed over is answered
only by the worker or the drop that has it, and a call returns a value only from its
reply channel. -/
namespace MechanicsCore.Pool.Protocol
open MechanicsCore.Library MechanicsCore.Runtime

inductive Holder
  | worker (i : Nat)
  | drop

section Steps
variable {V : Type} {p p' : State V} {a : Action V} {j k : CallId}

def State.holds (p : State V) : Holder → Option CallId
  | .worker i => (p.workers[i]?).bind WorkerPc.job
  | .drop =>
    match p.drop with
    | .answering j => some j
    | _ => none

def State.answers (p : State V) (j : CallId) : List (Source × JobResult V) := (p.calls[j]?).elim [] Call.answers

def Action.holder : Action V → Option Holder
  | .worker i _ => some (.worker i)
  | .drop => some .drop
  | _ => none

theorem State.hasLeft_of_holds {h : Holder} (held : p.holds h = some j) : p.HasLeft j := by
  cases h with
  | worker i =>
    obtain ⟨w,found,own⟩ := Option.bind_eq_some_iff.mp held
    exact .inl ⟨w,List.mem_of_getElem? found,own⟩
  | drop =>
    simp only [State.holds] at held
    split at held
    · cases held
      exact .inr (.inl (by assumption))
    · cases held

theorem State.holds_setWorker {i : Nat} {w w' : WorkerPc} {h : Holder} (held : p.workers[i]? = some w)
    (keeps : w'.job = none ∨ w'.job = w.job) (now : (p.setWorker i w').holds h = some j) : p.holds h = some j := by
  cases h with
  | worker n =>
    obtain ⟨v,found,own⟩ := Option.bind_eq_some_iff.mp now
    rcases found_set found with ⟨rfl,rfl⟩ | ⟨_,there⟩
    · rcases keeps with none | same
      · rw [none] at own
        cases own
      · exact Option.bind_eq_some_iff.mpr ⟨w,held,same ▸ own⟩
    · exact Option.bind_eq_some_iff.mpr ⟨v,there,own⟩
  | drop => exact now

/-- The job a worker holds after its own step is the one it held before. -/
theorem Serve.owned {w w' : WorkerPc} {b : WorkerAction V} {j : CallId} (serve : Serve w b w') (own : w'.job = some j) :
    w.job = some j := by
  rcases serve.job with none | same
  · rw [none] at own
    cases own
  · exact same ▸ own

/-- Who has a job after a step had it before, or is the one that took it from the queue. -/
theorem Did.holds (did : Did p a p') {h : Holder} (now : p'.holds h = some j) :
    p.holds h = some j ∨ p.queue = j::p'.queue ∧ a.holder = some h := by
  cases did with
  | take i k rest idle queued =>
    cases h with
    | worker n =>
      obtain ⟨v,found,own⟩ := Option.bind_eq_some_iff.mp now
      rcases found_set found with ⟨rfl,rfl⟩ | ⟨_,there⟩
      · cases own
        exact .inr ⟨queued,rfl⟩
      · exact .inl (Option.bind_eq_some_iff.mpr ⟨v,there,own⟩)
    | drop => exact .inl now
  | check i k c held found =>
    refine .inl (State.holds_setWorker (p := p) held ?_ now)
    cases c.canceled
    · exact .inr rfl
    · exact .inr rfl
  | start i k held =>
    have stays : (WorkerPc.running k).job = (WorkerPc.passed k).job := rfl
    exact .inl (State.holds_setWorker (p := p) held (.inr stays) now)
  | serve i a w w' held serve => exact .inl (State.holds_setWorker held serve.job now)
  | answer i a k w w' source result c c' held serve => exact .inl (State.holds_setWorker (p := p) held serve.job now)
  | drain k rest idle queued =>
    cases h with
    | worker n => exact .inl now
    | drop =>
      cases now
      exact .inr ⟨queued,rfl⟩
  | close before | drained idle empty | cancel k c c' held found sent =>
    cases h with
    | worker n => exact .inl now
    | drop => cases now
  | spawn =>
    cases h with
    | worker n =>
      obtain ⟨v,found,own⟩ := Option.bind_eq_some_iff.mp now
      rw [List.getElem?_append] at found
      split at found
      · exact .inl (Option.bind_eq_some_iff.mpr ⟨v,found,own⟩)
      · rw [List.mem_singleton.mp (List.mem_of_getElem? found)] at own
        cases own
    | drop => exact .inl now
  | submit entry runTimeout | call k a c c' enqueued found advanced | restart blocked | elapse nanos => exact .inl now

theorem State.answers_found {c : Call V} (found : p.calls[j]? = some c) : p.answers j = c.answers := by
  rw [State.answers,found]
  rfl

theorem State.answers_setCall {c c' : Call V} (found : p.calls[j]? = some c) :
    (p.setCall j c').answers k = if j = k then c'.answers else p.answers k := by
  have bound := (List.getElem?_eq_some_iff.mp found).1
  by_cases same : j = k
  · simp [State.answers,State.setCall,← same,bound]
  · simp [State.answers,State.setCall,same]

theorem State.answers_setCall_same {c : Call V} (c' : Call V) (found : p.calls[j]? = some c)
    (same : c'.answers = c.answers) : (p.setCall j c').answers k = p.answers k := by
  rw [State.answers_setCall found]
  split
  case isTrue here => rw [← here,State.answers_found found,same]
  case isFalse => rfl

theorem State.answers_submit (entry : Entry) (runTimeout : Option Nat) :
    State.answers {p with calls := p.calls ++ [.new entry runTimeout]} k = p.answers k := by
  simp only [State.answers,List.getElem?_append]
  split
  · rfl
  · rename_i unknown
    rw [List.getElem?_eq_none (Nat.not_lt.mp unknown)]
    cases last : [(Call.new entry runTimeout : Call V)][k - p.calls.length]? with
    | none => rfl
    | some c =>
      cases List.mem_singleton.mp (List.mem_of_getElem? last)
      rfl

theorem State.answered_iff : p.answered j = true ↔ p.answers j ≠ [] := by
  cases found : p.calls[j]? with
  | none => simp [State.answered,State.answers,found]
  | some c => simp [State.answered,State.answers,found]

/-- Who may answer a job in a step, and how. -/
inductive Tells (p : State V) (p' : State V) (j : CallId) : Action V → Source → JobResult V → Prop
  | worker (i : Nat) (b : WorkerAction V) (w : WorkerPc) (source : Source) (result : JobResult V)
      (held : p.workers[i]? = some w) (own : w.job = some j) (sends : Sends w b source result) :
      Tells p p' j (.worker i b) source result
  | drop (held : p.drop = .answering j) (done : p'.drop = .draining) :
      Tells p p' j .drop .drop (.error (.canceled "pool dropped before job execution"))
  | caller (b : CallAction) (c : Call V) (error : MechanicsError) (found : p.calls[j]? = some c)
      (here : c.pc = .answering error) (keeps : p'.queue = p.queue) :
      Tells p p' j (.call j b) .caller (.error error)

/-- A job that is handed over is answered by the one who has it. -/
theorem Tells.holder {source : Source} {result : JobResult V} (tells : Tells p p' j a source result)
    (handed : p.handed j = true) : ∃ h, p.holds h = some j ∧ a.holder = some h := by
  cases tells with
  | worker i b w _ _ held own => exact ⟨.worker i,Option.bind_eq_some_iff.mpr ⟨w,held,own⟩,rfl⟩
  | drop held => exact ⟨.drop,by simp [State.holds,held],rfl⟩
  | caller b c error found here =>
    simp [State.handed,found,here,CallPc.handed,CallPc.unsent,CallPc.withdrawn] at handed

theorem Did.answers (did : Did p a p') (k : CallId) : p'.answers k = p.answers k ∨
    ∃ source result, Tells p p' k a source result ∧ p'.answers k = p.answers k ++ [(source,result)] := by
  -- A send extends the answers to its job and no others.
  have sends {j : CallId} {c : Call V} (c' : Call V) {source : Source} {result : JobResult V} (found : p.calls[j]? = some c)
      (answers : c'.answers = c.answers ++ [(source,result)]) (tells : j = k → Tells p p' k a source result)
      (now : p'.answers k = (p.setCall j c').answers k) : p'.answers k = p.answers k ∨
        ∃ source result, Tells p p' k a source result ∧ p'.answers k = p.answers k ++ [(source,result)] := by
    rw [now,State.answers_setCall found]
    split
    case isTrue same =>
      subst same
      exact .inr ⟨source,result,tells rfl,by rw [answers,State.answers_found found]⟩
    case isFalse => exact .inl rfl
  cases did with
  | submit entry runTimeout => exact .inl (State.answers_submit entry runTimeout)
  | call j b c c' enqueued found advanced =>
    cases advance_flow advanced with
    | answer error sender here sent =>
      exact sends {sender with pc := .leaving .refused (.error error)} found (Call.send_cases sent).1
        (fun same => same ▸ .caller _ c error found here rfl) rfl
    | _ => exact .inl (State.answers_setCall_same (p := p) _ found rfl)
  | check i j c held found => exact .inl (State.answers_setCall_same (p := p) _ found rfl)
  | answer i b j w w' source result c c' held serve own found sent message =>
    exact sends c' found (Call.send_cases sent).1 (fun same => same ▸ .worker i b w source result held own message) rfl
  | cancel j c c' held found sent => exact sends c' found (Call.send_cases sent).1 (fun same => same ▸ .drop held rfl) rfl
  | _ => exact .inl rfl

/-- A call after a step is new, has stayed where it was, or has taken the step. -/
theorem Did.calls (did : Did p a p') {d : Call V} (found : p'.calls[k]? = some d) :
    (∃ entry runTimeout, d = .new entry runTimeout) ∨ ∃ c, p.calls[k]? = some c ∧
      (d.pc = c.pc ∧ (∀ b, a ≠ .call k b) ∨ ∃ b enqueued, a = .call k b ∧ Flow p k c b d enqueued) := by
  have stays {j : CallId} {c : Call V} (c' : Call V) (here : p.calls[j]? = some c) (pc : c'.pc = c.pc)
      (set : p'.calls = p.calls.set j c') (other : ∀ b, a ≠ .call k b) : ∃ c, p.calls[k]? = some c ∧
        (d.pc = c.pc ∧ (∀ b, a ≠ .call k b) ∨ ∃ b enqueued, a = .call k b ∧ Flow p k c b d enqueued) := by
    rw [set] at found
    rcases found_set found with ⟨rfl,rfl⟩ | ⟨_,old⟩
    · exact ⟨c,here,.inl ⟨pc,other⟩⟩
    · exact ⟨d,old,.inl ⟨rfl,other⟩⟩
  cases did with
  | submit entry runTimeout =>
    rcases found_append found with old | ⟨_,same⟩
    · exact .inr ⟨d,old,.inl ⟨rfl,by simp⟩⟩
    · exact .inl ⟨entry,runTimeout,same⟩
  | call j b c c' enqueued here advanced =>
    right
    rcases found_set found with ⟨rfl,rfl⟩ | ⟨apart,old⟩
    · exact ⟨c,here,.inr ⟨b,enqueued,rfl,advance_flow advanced⟩⟩
    · exact ⟨d,old,.inl ⟨rfl,by simp [apart]⟩⟩
  | check i j c held here => exact .inr (stays {c with checked := true} here rfl rfl (by simp))
  | answer i b j w w' source result c c' held serve own here sent =>
    exact .inr (stays c' here (Call.send_cases sent).2.1 rfl (by simp))
  | cancel j c c' held here sent => exact .inr (stays c' here (Call.send_cases sent).2.1 rfl (by simp))
  | _ => exact .inr ⟨d,found,.inl ⟨rfl,by simp⟩⟩

theorem Flow.fulfilled {c d : Call V} {b : CallAction} {enqueued : Bool} (flow : Flow p j c b d enqueued)
    (before : ∀ exit value, c.pc.decided = some (exit,.ok value) → exit = .replied) {exit : Exit} {value : V}
    (decided : d.pc.decided = some (exit,.ok value)) : exit = .replied := by
  cases flow with
  | offer _ pc' _ after =>
    rw [CallPc.undecided_of_unsent after] at decided
    cases decided
  | withdraw _ _ pc' _ _ _ _ unfulfilled => exact absurd decided (unfulfilled exit value)
  | enter deadline pc' here after => rcases after with rfl | ⟨_,_,rfl⟩ <;> cases decided
  | receive limit result here filled =>
    cases decided
    rfl
  | leave exit result here => exact before _ value (by rw [here]; exact decided)
  | _ => cases decided

/-- A job that a step accepts is one that its call had not sent. -/
theorem Did.unsent (did : Did p a p') (accepted : k ∈ accepts p a) :
    ∃ c, p.calls[k]? = some c ∧ c.pc.unsent = true ∧ p'.answers k = p.answers k := by
  cases did with
  | call j b c c' enqueued found advanced =>
    rw [accepts_call found advanced] at accepted
    cases enqueued with
    | false => cases accepted
    | true =>
      cases List.mem_singleton.mp accepted
      cases advance_flow advanced with
      | handOver deadline before => exact ⟨c,found,before,State.answers_setCall_same (p := p) _ found rfl⟩
  | _ => cases accepted

end Steps

end MechanicsCore.Pool.Protocol
