import MechanicsCore.Pool.QueueOrder

/-! Calls come back. Whatever the workers, the supervisor and the other callers do, a
call takes at most twelve steps of its own and waits in two places only, for a slot
of the queue and for its reply, each up to a limit; and beyond its run timeout it
stays only for the time in which its caller lagged. -/
namespace MechanicsCore.Pool.Protocol
open MechanicsCore.Library MechanicsCore.Runtime
variable {V : Type}

/-- A call that waits, for room in the queue or for its reply, and whose limit lies ahead. -/
def Call.waits (p : State V) (c : Call V) : Bool :=
  match c.pc with
  | .sending _ limit _ => p.queueCapacity ≤ p.queue.length && limit.all (p.clock < ·)
  | .waiting limit => c.reply.isNone && limit.all (p.clock < ·)
  | _ => false

/-- What a step does to one call: it may be a new one, take a step itself, or stand
by; then its reply slot is touched only by a party that has its job. -/
inductive At (p : State V) (a : Action V) (k : Nat) (d' : Call V) : Prop
  | new (entry : Entry) (runTimeout : Option Nat) (action : a = .submit entry runTimeout) (last : k = p.calls.length)
      (same : d' = .new entry runTimeout)
  | own (d : Call V) (b : CallAction) (enqueued : Bool) (action : a = .call k b) (found : p.calls[k]? = some d)
      (advanced : advance p k d b = some (d',enqueued))
  | other (d : Call V) (found : p.calls[k]? = some d) (pc : d'.pc = d.pc) (runTimeout : d'.runTimeout = d.runTimeout)
      (reply : d'.reply = d.reply ∨ p.HasLeft k) (foreign : ∀ b, a ≠ .call k b)

theorem Call.send_runTimeout {c c' : Call V} {source : Source} {result : JobResult V}
    (sent : c.send source result = some c') : c'.runTimeout = c.runTimeout := by
  unfold Call.send at sent
  split at sent
  · split at sent <;> cases sent
    rfl
  · cases sent
    rfl

theorem Did.at {p p' : State V} {a : Action V} (did : Did p a p') {k : Nat} {d' : Call V}
    (found : p'.calls[k]? = some d') : At p a k d' := by
  have aside {a : Action V} (foreign : ∀ b, a ≠ .call k b) (found : p.calls[k]? = some d') : At p a k d' :=
    .other d' found rfl rfl (.inl rfl) foreign
  have touched {a : Action V} {j : Nat} {c c' : Call V} (foreign : ∀ b, a ≠ .call k b) (here : p.calls[j]? = some c)
      (pc : c'.pc = c.pc) (runTimeout : c'.runTimeout = c.runTimeout) (reply : c'.reply = c.reply ∨ p.HasLeft j)
      (found : (p.calls.set j c')[k]? = some d') : At p a k d' := by
    rcases found_set found with ⟨rfl,rfl⟩ | ⟨_,old⟩
    · exact .other c here pc runTimeout reply foreign
    · exact aside foreign old
  cases did with
  | submit entry runTimeout =>
    rcases found_append found with old | ⟨last,same⟩
    · exact aside (by simp) old
    · exact .new entry runTimeout rfl last same
  | call j a c c' enqueued here advanced =>
    rcases found_set found with ⟨rfl,rfl⟩ | ⟨other,old⟩
    · exact .own c a enqueued rfl here advanced
    · refine aside (fun b same => other ?_) old
      cases same
      rfl
  | check i j c held here => refine touched (by simp) here ?_ ?_ (.inl ?_) found <;> rfl
  | answer i a j w w' source result c c' held serve own here sent =>
    have has : p.HasLeft j := .inl ⟨w,List.mem_of_getElem? held,own⟩
    exact touched (by simp) here (Call.send_cases sent).2.1 (Call.send_runTimeout sent) (.inr has) found
  | cancel j c c' held here sent =>
    have has : p.HasLeft j := .inr (.inl held)
    exact touched (by simp) here (Call.send_cases sent).2.1 (Call.send_runTimeout sent) (.inr has) found
  | _ => exact aside (by simp) found

/-- Nobody answers a job before its call has handed it over. -/
def Unanswered (p : State V) : Prop :=
  ∀ (j : Nat) (c : Call V), p.calls[j]? = some c → c.pc.handed = false → c.pc.decided = none → c.reply = none

section Calls
variable {p p' : State V} {j : CallId} {c c' : Call V} {a : CallAction} {enqueued : Bool}

theorem Flow.keeps_runTimeout (flow : Flow p j c a c' enqueued) : c'.runTimeout = c.runTimeout := by
  cases flow with
  | answer error answered here sent =>
    have kept : answered.runTimeout = c.runTimeout := Call.send_runTimeout sent
    exact kept
  | _ => rfl

theorem Flow.unanswered (flow : Flow p j c a c' enqueued)
    (before : c.pc.handed = false → c.pc.decided = none → c.reply = none) (kept : c'.pc.handed = false)
    (undecided : c'.pc.decided = none) : c'.reply = none := by
  cases flow with
  | offer _ pc' unsent => exact before (CallPc.handed_of_unsent unsent) (CallPc.undecided_of_unsent unsent)
  | withdraw _ _ pc' pending same => exact before same pending
  | answer => simp [CallPc.decided] at undecided
  | handOver => simp [CallPc.handed,CallPc.unsent,CallPc.withdrawn] at kept
  | enter deadline pc' here after =>
    rcases after with rfl | ⟨_,_,rfl⟩ <;> simp [CallPc.handed,CallPc.unsent,CallPc.withdrawn] at kept
  | listen => simp [CallPc.handed,CallPc.unsent,CallPc.withdrawn] at kept
  | expire => simp [CallPc.handed,CallPc.unsent,CallPc.withdrawn] at kept
  | _ => simp [CallPc.decided] at undecided

theorem Unanswered.step {a : Action V} {accepted : List CallId} (before : Unanswered p) (inOrder : InOrder p accepted)
    (did : Did p a p') : Unanswered p' := by
  intro k d' found kept undecided
  cases did.at found with
  | new entry runTimeout action last same =>
    rw [same]
    rfl
  | own d b enqueued action here advanced => exact (advance_flow advanced).unanswered (before k d here) kept undecided
  | other d here pc runTimeout reply foreign =>
    rw [pc] at kept undecided
    rcases reply with same | left
    · exact same.trans (before k d here kept undecided)
    · have handed := (inOrder.handed k).mp (inOrder.left k left).1
      simp [State.handed,here,kept] at handed

theorem Unanswered.reached (reached : machine.Reachable p) : Unanswered p := by
  obtain ⟨accepted,recorded⟩ := reached.recorded [] fun p a accepted => accepted ++ accepts p a
  have both : InOrder p accepted ∧ Unanswered p := by
    refine Machine.recording_invariant (fun p accepted => InOrder p accepted ∧ Unanswered p) ?_ ?_ recorded
    · intro p initial
      refine ⟨InOrder.reached (.start _ ⟨initial,rfl⟩),?_⟩
      obtain ⟨capacity,enqueueTimeout,runTimeout,instantBound,clock,_,rfl⟩ := initial
      intro j c found
      simp [State.new] at found
    · intro p accepted a p' before _ taken
      have did := step_did taken
      exact ⟨before.1.step did,before.2.step before.1 did⟩
  exact both.2

end Calls

/-- A call that has not returned can go on, unless it waits. -/
theorem advance_or_waits {p : State V} (unanswered : Unanswered p) {j : CallId} {c : Call V}
    (found : p.calls[j]? = some c) (running : c.pc.isReturned = false) :
    (∃ a, a ≠ .disconnected ∧ (advance p j c a).isSome = true) ∨ c.waits p = true := by
  cases here : c.pc with
  | closedCheck =>
    refine .inl ⟨.next,by simp,?_⟩
    cases closed : p.closed <;> simp [advance,here,closed]
  | restartCheck => exact .inl ⟨.next,by simp,by simp [advance,here]⟩
  | liveCheck => exact .inl ⟨.liveWorkers 0,by simp,by simp [advance,here]⟩
  | deadlineFrom =>
    refine .inl ⟨.next,by simp,?_⟩
    simp only [advance,here]
    split <;> rfl
  | enqueueBudget deadline =>
    refine .inl ⟨.next,by simp,?_⟩
    simp only [advance,here]
    split <;> rfl
  | cancelEarly => exact .inl ⟨.next,by simp,by simp [advance,here]⟩
  | startSend deadline wait limited => exact .inl ⟨.next,by simp,by simp [advance,here]⟩
  | sending deadline limit limited =>
    by_cases room : p.queue.length < p.queueCapacity
    · exact .inl ⟨.next,by simp,by simp [advance,here,room]⟩
    · cases limit with
      | none => exact .inr (by simpa [Call.waits,here] using room)
      | some limit =>
        by_cases late : limit ≤ p.clock
        · exact .inl ⟨.expire,by simp,by simp [advance,here,late]⟩
        · exact .inr (by simpa [Call.waits,here] using ⟨Nat.not_lt.mp room,Nat.not_le.mp late⟩)
  | trySending deadline =>
    refine .inl ⟨.next,by simp,?_⟩
    simp only [advance,here]
    split <;> rfl
  | markCanceled => exact .inl ⟨.next,by simp,by simp [advance,here]⟩
  | answering error =>
    have empty : c.reply = none := unanswered j c found (by rw [here]; rfl) (by rw [here]; rfl)
    exact .inl ⟨.next,by simp,by simp [advance,here,Call.send,CallPc.listening,empty]⟩
  | accepted deadline =>
    refine .inl ⟨.next,by simp,?_⟩
    simp only [advance,here]
    split <;> rfl
  | startRecv remaining => exact .inl ⟨.next,by simp,by simp [advance,here]⟩
  | waiting limit =>
    cases reply : c.reply with
    | some result => exact .inl ⟨.next,by simp,by simp [advance,here,reply]⟩
    | none =>
      cases limit with
      | none => exact .inr (by simp [Call.waits,here,reply])
      | some limit =>
        by_cases late : limit ≤ p.clock
        · exact .inl ⟨.expire,by simp,by simp [advance,here,late]⟩
        · exact .inr (by simpa [Call.waits,here,reply] using late)
  | timingOut => exact .inl ⟨.next,by simp,by simp [advance,here]⟩
  | leaving exit result => exact .inl ⟨.next,by simp,by simp [advance,here]⟩
  | returned exit result => simp [here,CallPc.isReturned] at running

/-- The steps each call has taken, after one more action. -/
def pace (a : Action V) (steps : Nat → Nat) : Nat → Nat :=
  match a with
  | .call j _ => fun k => if k = j then steps k + 1 else steps k
  | _ => steps

def paced : Machine (State V × (Nat → Nat)) (Action V) := machine.recording (fun _ => 0) fun _ => pace

theorem pace_foreign {a : Action V} {k : Nat} (foreign : ∀ b, a ≠ .call k b) (steps : Nat → Nat) :
    pace a steps k = steps k := by
  cases a with
  | call j b =>
    have other : k ≠ j := fun same => foreign b (same ▸ rfl)
    simp [pace,other]
  | _ => rfl

structure Paced (p : State V) (steps : Nat → Nat) : Prop where
  bound : ∀ (j : Nat) (c : Call V), p.calls[j]? = some c → steps j + c.pc.rank ≤ 12
  fresh : ∀ j, p.calls.length ≤ j → steps j = 0

theorem Paced.step {p p' : State V} {a : Action V} {steps : Nat → Nat} (before : Paced p steps)
    (taken : step p a = some p') : Paced p' (pace a steps) := by
  have did := step_did taken
  have longer := (step_moved taken).length_le
  constructor
  · intro k d' found
    cases did.at found with
    | new entry runTimeout action last same =>
      rw [action,same,pace_foreign (by simp),before.fresh k (Nat.le_of_eq last.symm)]
      exact Nat.le_refl 12
    | own d b enqueued action here advanced =>
      have lower := (advance_flow advanced).lower
      have bound := before.bound k d here
      have counted : pace a steps k = steps k + 1 := by simp [action,pace]
      omega
    | other d here pc runTimeout reply foreign =>
      rw [pace_foreign foreign,pc]
      exact before.bound k d here
  · intro k beyond
    have foreign : ∀ b, a ≠ .call k b := by
      rintro b rfl
      cases did with
      | call _ _ c c' enqueued found => exact absurd (List.getElem?_eq_some_iff.mp found).1 (by omega)
    rw [pace_foreign foreign]
    exact before.fresh k (Nat.le_trans longer beyond)

/-- A call takes at most twelve steps of its own, whatever the others do, and until it
has returned it can take the next one at any time, unless the queue is full or the
reply is not there and the limit of that wait lies ahead. -/
theorem call_wait_free {p : State V} {steps : Nat → Nat} (reached : paced.Reachable (p,steps)) {j : CallId}
    {c : Call V} (found : p.calls[j]? = some c) :
    steps j + c.pc.rank ≤ 12 ∧ (c.pc.isReturned = true ∨ c.waits p = true ∨
      ∃ a p', a ≠ .disconnected ∧ step p (.call j a) = some p') := by
  have both : machine.Reachable p ∧ Paced p steps := by
    refine Machine.recording_invariant (fun p steps => machine.Reachable p ∧ Paced p steps) ?_ ?_ reached
    · intro p initial
      refine ⟨.start p initial,?_⟩
      obtain ⟨capacity,enqueueTimeout,runTimeout,instantBound,clock,_,rfl⟩ := initial
      exact ⟨by simp [State.new],fun _ _ => rfl⟩
    · intro p steps a p' before _ taken
      exact ⟨.next p a p' before.1 trivial taken,before.2.step taken⟩
  refine ⟨both.2.bound j c found,?_⟩
  by_cases done : c.pc.isReturned = true
  · exact .inl done
  · rcases advance_or_waits (.reached both.1) found (by simpa using done) with ⟨a,real,able⟩ | waits
    · obtain ⟨⟨c',enqueued⟩,advanced⟩ := Option.isSome_iff_exists.mp able
      exact .inr (.inr ⟨a,p.putCall j c' enqueued,real,by simp [step,callStep,found,advanced]⟩)
    · exact .inr (.inl waits)

/-- The second call on a pool whose one worker is busy, after eight steps. -/
theorem call_wait_free_while_waiting : ∃ (p : State Nat) (steps : Nat → Nat) (c : Call Nat),
    paced.Reachable (p,steps) ∧ p.calls[1]? = some c ∧ c.waits p = true ∧ steps 1 = 8 ∧ c.pc.rank ≤ 4 := by
  obtain ⟨⟨p,steps⟩,reached,check⟩ := paced.replay_witness (contested.take 22)
    ((.new 1 5 10 1000 0 : State Nat),fun _ => 0) (fun s => s.2 1 == 8 && s.1.calls[1]?.any fun c => c.waits s.1)
    ⟨⟨1,5,10,1000,0,by decide,rfl⟩,rfl⟩ (by decide)
  obtain ⟨taken,c,found,waits⟩ : steps 1 = 8 ∧ ∃ c, p.calls[1]? = some c ∧ c.waits p = true := by
    simpa [Option.any_eq_true] using check
  have bound := (call_wait_free reached found).1
  exact ⟨p,steps,c,reached,found,waits,taken,by omega⟩

/-- The moment up to which the time that passes is allowed for: the run deadline the
call has taken, or the end of its wait. -/
def CallPc.dueAt : CallPc V → Option Nat
  | .enqueueBudget deadline => some deadline
  | .sending _ limit _ => limit
  | .trySending deadline => some deadline
  | .accepted deadline => some deadline
  | .waiting limit => limit
  | _ => none

/-- What part of the next `nanos` nobody allows for: those after the due time, and all
of them where there is none, as before the deadline is taken, between the reckoning
and the start of a wait, or in a wait whose end is no instant. -/
def CallPc.lag (clock nanos : Nat) (pc : CallPc V) : Nat := pc.dueAt.elim nanos fun due => nanos - (due - clock)

/-- When a call was made, and what its caller has lagged since. -/
structure Watch where
  start : Nat
  lag : Nat

/-- The watches of the calls, after one more action. -/
def watch (p : State V) (a : Action V) (watches : Nat → Watch) : Nat → Watch :=
  match a with
  | .submit _ _ => fun k => if k = p.calls.length then ⟨p.clock,0⟩ else watches k
  | .elapse nanos => fun k =>
    {watches k with lag := (watches k).lag + (p.calls[k]?.elim 0 fun c => c.pc.lag p.clock nanos)}
  | _ => watches

/-- The time by which a call is back. -/
def Watch.bound (w : Watch) (p : State V) (c : Call V) : Nat := w.start + c.runTimeout.getD p.runTimeout + w.lag

/-- Where a call may be at this time, if it has to be back by `bound`. -/
def CallPc.Within (now timeout bound : Nat) : CallPc V → Prop
  | .closedCheck => now + timeout ≤ bound
  | .restartCheck => now + timeout ≤ bound
  | .liveCheck => now + timeout ≤ bound
  | .deadlineFrom => now + timeout ≤ bound
  | .enqueueBudget deadline => now ≤ bound ∧ deadline ≤ bound
  | .trySending deadline => now ≤ bound ∧ deadline ≤ bound
  | .startSend deadline wait _ => now + wait ≤ bound ∧ deadline ≤ bound
  | .sending deadline limit _ => now ≤ bound ∧ deadline ≤ bound ∧ ∀ l ∈ limit, l ≤ bound
  | .accepted deadline => now ≤ bound ∧ deadline ≤ bound
  | .startRecv remaining => now + remaining ≤ bound
  | .waiting limit => now ≤ bound ∧ ∀ l ∈ limit, l ≤ bound
  | .returned _ _ => True
  | _ => now ≤ bound

section Within
variable {p : State V} {timeout bound : Nat}

theorem State.deadlineFromTimeout_ok {deadline : Nat} (made : p.deadlineFromTimeout timeout = .ok deadline) :
    deadline = p.clock + timeout := by
  unfold State.deadlineFromTimeout State.checkedAdd at made
  split at made
  · rename_i sum added
    split at added
    · cases made
      cases added
      rfl
    · contradiction
  · contradiction

theorem State.remainingToDeadline_some {deadline remaining : Nat}
    (left : p.remainingToDeadline deadline = some remaining) : p.clock + remaining = deadline := by
  unfold State.remainingToDeadline at left
  split at left
  · contradiction
  · cases left
    omega

theorem State.checkedAdd_le {nanos : Nat} (within : p.clock + nanos ≤ bound) : ∀ l ∈ p.checkedAdd nanos, l ≤ bound := by
  intro l added
  unfold State.checkedAdd at added
  split at added
  · cases added
    exact within
  · contradiction

theorem CallPc.Within.now {now : Nat} {pc : CallPc V} (within : pc.Within now timeout bound)
    (running : pc.isReturned = false) : now ≤ bound := by
  cases pc with
  | closedCheck => exact Nat.le_of_add_right_le within
  | restartCheck => exact Nat.le_of_add_right_le within
  | liveCheck => exact Nat.le_of_add_right_le within
  | deadlineFrom => exact Nat.le_of_add_right_le within
  | enqueueBudget deadline => exact within.1
  | trySending deadline => exact within.1
  | startSend deadline wait limited => exact Nat.le_of_add_right_le within.1
  | sending deadline limit limited => exact within.1
  | accepted deadline => exact within.1
  | startRecv remaining => exact Nat.le_of_add_right_le within
  | waiting limit => exact within.1
  | returned exit result => cases running
  | _ => exact within

/-- A step of its own takes no time, and every deadline or limit a call sets lies
within the bound it had. -/
theorem advance_within {j : CallId} {c c' : Call V} {a : CallAction} {enqueued : Bool}
    (within : c.pc.Within p.clock (c.runTimeout.getD p.runTimeout) bound)
    (advanced : advance p j c a = some (c',enqueued)) : c'.pc.Within p.clock (c'.runTimeout.getD p.runTimeout) bound := by
  have now (running : c.pc.isReturned = false) : p.clock ≤ bound := within.now running
  unfold advance at advanced
  dsimp only at advanced
  split at advanced
  case h_1 here =>
    rw [here] at within now
    split at advanced <;> cases advanced
    · exact now rfl
    · exact within
  case h_2 here =>
    rw [here] at within
    cases advanced
    cases p.restartBlocked <;> exact within
  case h_3 here =>
    rw [here] at within now
    split at advanced <;> cases advanced
    · exact now rfl
    · exact within
  case h_4 here =>
    rw [here] at within now
    split at advanced
    · cases advanced
      exact now rfl
    · rename_i made _
      cases advanced
      exact ⟨now rfl,State.deadlineFromTimeout_ok made ▸ within⟩
    · rename_i made _
      cases advanced
      exact ⟨now rfl,State.deadlineFromTimeout_ok made ▸ within⟩
  case h_5 deadline here =>
    rw [here] at within now
    split at advanced
    · cases advanced
      exact now rfl
    · rename_i remaining left
      cases advanced
      -- The wait for room takes no more than what is left of the run timeout.
      have whole := State.remainingToDeadline_some left
      have due := within.2
      exact ⟨by omega,due⟩
  case h_6 here =>
    rw [here] at now
    cases advanced
    exact now rfl
  case h_7 deadline wait limited here =>
    rw [here] at within now
    cases advanced
    exact ⟨now rfl,within.2,State.checkedAdd_le within.1⟩
  case h_8 here =>
    rw [here] at within
    split at advanced
    · cases advanced
      exact ⟨within.1,within.2.1⟩
    · contradiction
  case h_9 limited here =>
    rw [here] at now
    split at advanced
    · cases advanced
      cases limited <;> exact now rfl
    · contradiction
  case h_10 here =>
    rw [here] at now
    cases advanced
    exact now rfl
  case h_11 here =>
    rw [here] at within
    split at advanced <;> cases advanced
    · exact within
    · exact within.1
  case h_12 here =>
    rw [here] at now
    cases advanced
    exact now rfl
  case h_13 here =>
    rw [here] at now
    cases advanced
    exact now rfl
  case h_14 error here =>
    rw [here] at now
    obtain ⟨sender,_,same⟩ := Option.map_eq_some_iff.mp advanced
    cases same
    exact now rfl
  case h_15 deadline here =>
    rw [here] at within now
    split at advanced
    · cases advanced
      exact now rfl
    · rename_i remaining left
      cases advanced
      exact Nat.le_trans (Nat.le_of_eq (State.remainingToDeadline_some left)) within.2
  case h_16 remaining here =>
    rw [here] at within now
    cases advanced
    exact ⟨now rfl,State.checkedAdd_le within⟩
  case h_17 here =>
    rw [here] at now
    obtain ⟨result,_,same⟩ := Option.map_eq_some_iff.mp advanced
    cases same
    exact now rfl
  case h_18 here =>
    rw [here] at now
    split at advanced
    · cases advanced
      exact now rfl
    · contradiction
  case h_19 here =>
    rw [here] at now
    split at advanced
    · cases advanced
      exact now rfl
    · contradiction
  case h_20 here =>
    rw [here] at now
    cases advanced
    exact now rfl
  case h_21 =>
    cases advanced
    trivial
  case h_22 => contradiction

/-- Time that is allowed for ends within the bound; the rest moves it. -/
theorem CallPc.Within.elapse {now : Nat} {pc : CallPc V} (within : pc.Within now timeout bound) (nanos : Nat) :
    pc.Within (now + nanos) timeout (bound + pc.lag now nanos) := by
  have free {due : Nat} (soon : now ≤ bound) (inside : due ≤ bound) : now + nanos ≤ bound + (nanos - (due - now)) := by
    omega
  have held (limit : Option Nat) (soon : now ≤ bound) (inside : ∀ l ∈ limit, l ≤ bound) :
      now + nanos ≤ bound + limit.elim nanos fun due => nanos - (due - now) := by
    cases limit with
    | none => exact Nat.add_le_add_right soon nanos
    | some due => exact free soon (inside due rfl)
  cases pc with
  | enqueueBudget deadline => exact ⟨free within.1 within.2,Nat.le_add_right_of_le within.2⟩
  | trySending deadline => exact ⟨free within.1 within.2,Nat.le_add_right_of_le within.2⟩
  | accepted deadline => exact ⟨free within.1 within.2,Nat.le_add_right_of_le within.2⟩
  | startSend deadline wait limited =>
    have later := Nat.add_le_add_right within.1 nanos
    exact ⟨by simp only [CallPc.lag,CallPc.dueAt,Option.elim]; omega,Nat.le_add_right_of_le within.2⟩
  | sending deadline limit limited =>
    refine ⟨held limit within.1 within.2.2,Nat.le_add_right_of_le within.2.1,?_⟩
    exact fun l set => Nat.le_add_right_of_le (within.2.2 l set)
  | waiting limit => exact ⟨held limit within.1 within.2,fun l set => Nat.le_add_right_of_le (within.2 l set)⟩
  | returned exit result => trivial
  | _ =>
    simp only [CallPc.Within,CallPc.lag,CallPc.dueAt,Option.elim] at within ⊢
    omega

theorem Did.settings {p' : State V} {a : Action V} (did : Did p a p') :
    p'.runTimeout = p.runTimeout ∧ (p'.clock = p.clock ∨ ∃ nanos, a = .elapse nanos) := by
  cases did with
  | elapse nanos => exact ⟨rfl,.inr ⟨nanos,rfl⟩⟩
  | _ => exact ⟨rfl,.inl rfl⟩

end Within

/-- Every call is where it may be. -/
def OnTime (p : State V) (watches : Nat → Watch) : Prop :=
  ∀ (j : Nat) (c : Call V), p.calls[j]? = some c →
    c.pc.Within p.clock (c.runTimeout.getD p.runTimeout) ((watches j).bound p c)

/-- Only time moves the watch of a call that is there. -/
theorem watch_known {p : State V} {k : Nat} {d : Call V} (found : p.calls[k]? = some d) {a : Action V}
    (timeless : ∀ nanos, a ≠ .elapse nanos) (watches : Nat → Watch) : watch p a watches k = watches k := by
  have known : k ≠ p.calls.length := Nat.ne_of_lt (List.getElem?_eq_some_iff.mp found).1
  cases a with
  | submit => simp [watch,known]
  | elapse nanos => exact absurd rfl (timeless nanos)
  | _ => rfl

theorem OnTime.step {p p' : State V} {a : Action V} {watches : Nat → Watch} (before : OnTime p watches)
    (did : Did p a p') : OnTime p' (watch p a watches) := by
  intro k d' found
  obtain ⟨runTimeout,clock⟩ := did.settings
  by_cases passes : ∃ nanos, a = .elapse nanos
  · obtain ⟨nanos,rfl⟩ := passes
    cases did
    have later := (before k d' found).elapse nanos
    rw [Watch.bound,Nat.add_assoc] at later
    simpa only [Watch.bound,watch,found,Option.elim] using later
  · have timeless := not_exists.mp passes
    rw [Watch.bound,clock.resolve_right passes,runTimeout]
    cases did.at found with
    | new entry runTimeout action last same =>
      subst action last same
      simp [watch,Call.new,CallPc.Within]
    | own d b enqueued action here advanced =>
      rw [watch_known here timeless,(advance_flow advanced).keeps_runTimeout]
      have within := advance_within (before k d here) advanced
      rwa [(advance_flow advanced).keeps_runTimeout] at within
    | other d here pc own reply foreign =>
      rw [watch_known here timeless,pc,own]
      exact before k d here

end MechanicsCore.Pool.Protocol
