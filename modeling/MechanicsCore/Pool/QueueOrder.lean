import MechanicsCore.Pool.Flow

/-! The order in which jobs leave the queue. A record beside the protocol keeps the
jobs in the order the queue took them. The queue is always its last part, so no job
that a worker or the drop has taken was accepted after one that still waits; and
while one worker at a time is in its loop, scripts start in the order of acceptance. -/
namespace MechanicsCore.Pool.Protocol
open MechanicsCore.Library MechanicsCore.Runtime
variable {V : Type}

/-- The job that an action puts on the queue. -/
def accepts (p : State V) : Action V → List CallId
  | .call j a => if ((p.calls[j]?).bind fun c => advance p j c a).any (·.2) then [j] else []
  | _ => []

/-- The protocol with the jobs listed in the order of their acceptance. -/
def ordered : Machine (State V × List CallId) (Action V) :=
  machine.recording [] fun p a accepted => accepted ++ accepts p a

/-- The call of a job has handed it over to the queue. -/
def State.handed (p : State V) (j : CallId) : Bool := (p.calls[j]?).any (·.pc.handed)

/-- The job has left the queue: a worker or the drop has it, or its script was started. -/
def State.HasLeft (p : State V) (j : CallId) : Prop :=
  (∃ w ∈ p.workers, w.job = some j) ∨ p.drop = .answering j ∨ j ∈ p.started

section Calls
variable {p : State V} {j k : CallId} {c c' : Call V}

theorem State.handed_setCall (found : p.calls[j]? = some c) :
    (p.setCall j c').handed k = if j = k then c'.pc.handed else p.handed k := by
  have bound := (List.getElem?_eq_some_iff.mp found).1
  by_cases same : j = k <;> simp [State.handed,State.setCall,List.getElem?_set,same]
  simp [← same,bound]

theorem State.handed_setCall_of_pc (found : p.calls[j]? = some c) (pc : c'.pc = c.pc) :
    (p.setCall j c').handed k = p.handed k := by
  rw [State.handed_setCall found,pc]
  split
  case isTrue same => simp [State.handed,← same,found]
  case isFalse => rfl

theorem State.handed_submit (entry : Entry) (runTimeout : Option Nat) {k : Nat} :
    State.handed {p with calls := p.calls ++ [.new entry runTimeout]} k = p.handed k := by
  by_cases known : k < p.calls.length
  · simp [State.handed,List.getElem?_append_left known]
  · have fresh : (Call.new (V := V) entry runTimeout).pc.handed = false := rfl
    have absent : p.calls[k]? = none := List.getElem?_eq_none (Nat.not_lt.mp known)
    by_cases last : k = p.calls.length
    · simp [State.handed,last,fresh]
    · have beyond : (p.calls ++ [Call.new entry runTimeout])[k]? = none :=
        List.getElem?_eq_none (by simp; omega)
      simp [State.handed,absent,beyond]

end Calls

private theorem mem_set_worker {l : List WorkerPc} {i : Nat} {w' : WorkerPc} {k : CallId}
    (held : ∃ w ∈ l.set i w', w.job = some k) : w'.job = some k ∨ ∃ w ∈ l, w.job = some k := by
  obtain ⟨w,member,own⟩ := held
  rcases List.mem_or_eq_of_mem_set member with old | rfl
  · exact .inr ⟨w,old,own⟩
  · exact .inl own

/-- A worker that keeps its job or lets go of it takes no further job away. -/
theorem State.HasLeft.of_setWorker {p : State V} {i : Nat} {w w' : WorkerPc} {k : CallId}
    (held : p.workers[i]? = some w) (keeps : w'.job = none ∨ w'.job = w.job) (left : (p.setWorker i w').HasLeft k) :
    p.HasLeft k := by
  rcases left with taken | rest
  · left
    rcases mem_set_worker taken with own | old
    · rcases keeps with none | same
      · simp [none] at own
      · exact ⟨w,List.mem_of_getElem? held,same ▸ own⟩
    · exact old
  · exact .inr rest

/-- A job that has left the queue after a step had left it before, or is the one the step took. -/
theorem Did.hasLeft {p p' : State V} {a : Action V} (did : Did p a p') {k : CallId} (left : p'.HasLeft k) :
    p.HasLeft k ∨ p.queue = k::p'.queue := by
  cases did with
  | submit => exact .inl left
  | call => exact .inl left
  | take i j rest idle queued =>
    rcases left with taken | others
    · rcases mem_set_worker taken with own | old
      · cases own
        exact .inr queued
      · exact .inl (.inl old)
    · exact .inl (.inr others)
  | check i j c held found =>
    refine .inl (State.HasLeft.of_setWorker (p := p) held ?_ left)
    cases c.canceled
    · exact .inr rfl
    · exact .inr rfl
  | start i j held =>
    have own : p.HasLeft j := .inl ⟨_,List.mem_of_getElem? held,rfl⟩
    have stays : (WorkerPc.running j).job = (WorkerPc.passed j).job := rfl
    rcases State.HasLeft.of_setWorker (p := {p with started := p.started ++ [j]}) held (.inr stays) left with
      taken | dropped | logged
    · exact .inl (.inl taken)
    · exact .inl (.inr (.inl dropped))
    · rcases List.mem_append.mp logged with old | new
      · exact .inl (.inr (.inr old))
      · exact .inl (List.mem_singleton.mp new ▸ own)
  | serve i a w w' held serve => exact .inl (State.HasLeft.of_setWorker held serve.job left)
  | answer i a j w w' source result c c' held serve =>
    exact .inl (State.HasLeft.of_setWorker (p := p) held serve.job left)
  | close =>
    rcases left with taken | dropped | logged
    · exact .inl (.inl taken)
    · cases dropped
    · exact .inl (.inr (.inr logged))
  | drain j rest idle queued =>
    rcases left with taken | dropped | logged
    · exact .inl (.inl taken)
    · cases dropped
      exact .inr queued
    · exact .inl (.inr (.inr logged))
  | drained =>
    rcases left with taken | dropped | logged
    · exact .inl (.inl taken)
    · cases dropped
    · exact .inl (.inr (.inr logged))
  | cancel =>
    rcases left with taken | dropped | logged
    · exact .inl (.inl taken)
    · cases dropped
    · exact .inl (.inr (.inr logged))
  | spawn =>
    rcases left with ⟨w,member,own⟩ | others
    · rcases List.mem_append.mp member with old | new
      · exact .inl (.inl ⟨w,old,own⟩)
      · rw [List.mem_singleton.mp new] at own
        cases own
    · exact .inl (.inr others)
  | restart => exact .inl left
  | elapse => exact .inl left

theorem accepts_call {p : State V} {j : CallId} {c c' : Call V} {a : CallAction} {enqueued : Bool}
    (found : p.calls[j]? = some c) (advanced : advance p j c a = some (c',enqueued)) :
    accepts p (.call j a) = if enqueued then [j] else [] := by
  simp [accepts,found,advanced]

/-- The queue grows by the job a step accepts, or gives up its first job. -/
theorem Did.queue {p p' : State V} {a : Action V} (did : Did p a p') :
    p'.queue = p.queue ++ accepts p a ∨ accepts p a = [] ∧ ∃ j, p.queue = j::p'.queue := by
  cases did with
  | call j a c c' enqueued found advanced =>
    left
    rw [accepts_call found advanced]
    cases enqueued <;> simp [State.putCall]
  | take i j rest idle queued => exact .inr ⟨rfl,j,queued⟩
  | drain j rest idle queued => exact .inr ⟨rfl,j,queued⟩
  | _ => exact .inl (List.append_nil _).symm

/-- A step hands over the job it accepts and no other, and that job was not handed over before. -/
theorem Did.handed {p p' : State V} {a : Action V} (did : Did p a p') (k : CallId) :
    (p'.handed k = true ↔ p.handed k = true ∨ k ∈ accepts p a) ∧ (k ∈ accepts p a → p.handed k = false) := by
  have same {a : Action V} (p' : State V) (nothing : accepts p a = []) (kept : p'.handed k = p.handed k) :
      (p'.handed k = true ↔ p.handed k = true ∨ k ∈ accepts p a) ∧ (k ∈ accepts p a → p.handed k = false) := by
    simp [nothing,kept]
  cases did with
  | submit entry runTimeout => exact same _ rfl (State.handed_submit entry runTimeout)
  | call j a c c' enqueued found advanced =>
    obtain ⟨after,before⟩ := (advance_flow advanced).handed
    have own : p.handed j = c.pc.handed := by simp [State.handed,found]
    have now : (p.putCall j c' enqueued).handed k = if j = k then c'.pc.handed else p.handed k :=
      State.handed_setCall found
    rw [accepts_call found advanced,now]
    by_cases here : j = k
    · subst here
      cases enqueued
      · simp [after,own]
      · simp [after,own,before rfl]
    · cases enqueued <;> simp [here,Ne.symm here]
  | check i j c held found => exact same _ rfl (State.handed_setCall_of_pc found rfl)
  | answer i a j w w' source result c c' held serve own found sent =>
    exact same _ rfl (State.handed_setCall_of_pc found (Call.send_cases sent).2.1)
  | cancel j c c' held found sent => exact same _ rfl (State.handed_setCall_of_pc found (Call.send_cases sent).2.1)
  | _ => exact same _ rfl rfl

structure InOrder (p : State V) (accepted : List CallId) : Prop where
  suffix : p.queue <:+ accepted
  nodup : accepted.Nodup
  handed : ∀ j, j ∈ accepted ↔ p.handed j = true
  left : ∀ j, p.HasLeft j → j ∈ accepted ∧ j ∉ p.queue

theorem InOrder.fresh {p p' : State V} {a : Action V} {accepted : List CallId} (inOrder : InOrder p accepted)
    (did : Did p a p') {k : CallId} (member : k ∈ accepts p a) : k ∉ accepted := by
  intro old
  have known := (inOrder.handed k).mp old
  rw [(did.handed k).2 member] at known
  cases known

theorem accepts_nodup (p : State V) (a : Action V) : (accepts p a).Nodup := by
  cases a with
  | call j a =>
    simp only [accepts]
    split <;> simp
  | _ => exact List.nodup_nil

theorem InOrder.step {p p' : State V} {a : Action V} {accepted : List CallId} (before : InOrder p accepted)
    (did : Did p a p') : InOrder p' (accepted ++ accepts p a) := by
  have nodup : (accepted ++ accepts p a).Nodup :=
    before.nodup.append (accepts_nodup p a) fun k old new => before.fresh did new old
  constructor
  · rcases did.queue with grown | ⟨nothing,j,taken⟩
    · rw [grown]
      obtain ⟨gone,split⟩ := before.suffix
      exact ⟨gone,by rw [← split,List.append_assoc]⟩
    · rw [nothing,List.append_nil]
      exact (List.suffix_cons j _).trans (taken ▸ before.suffix)
  · exact nodup
  · intro k
    rw [List.mem_append,before.handed k,(did.handed k).1]
  · intro k left
    rcases did.hasLeft left with old | taken
    · obtain ⟨known,absent⟩ := before.left k old
      refine ⟨List.mem_append.mpr (.inl known),fun queued => ?_⟩
      rcases did.queue with grown | ⟨_,j,taken⟩
      · rw [grown,List.mem_append] at queued
        exact queued.elim absent fun new => before.fresh did new known
      · exact absent (taken ▸ List.mem_cons_of_mem j queued)
    · have first : k ∈ accepted := before.suffix.subset (taken ▸ List.mem_cons_self)
      refine ⟨List.mem_append.mpr (.inl first),?_⟩
      have distinct := before.suffix.sublist.nodup before.nodup
      rw [taken] at distinct
      exact (List.nodup_cons.mp distinct).1

theorem InOrder.reached {p : State V} {accepted : List CallId} (reached : ordered.Reachable (p,accepted)) :
    InOrder p accepted := by
  refine Machine.recording_invariant InOrder ?_ ?_ reached
  · rintro p ⟨capacity,enqueueTimeout,runTimeout,instantBound,clock,_,rfl⟩
    refine ⟨List.suffix_rfl,List.nodup_nil,?_,?_⟩
    · simp [State.handed,State.new]
    · simp [State.HasLeft,State.new]
  · intro p accepted a p' before _ taken
    exact before.step (step_did taken)

/-- In a list without repetition, what stands after a member of the second part is in that part too. -/
private theorem later_mem {α : Type} {first second : List α} (distinct : (first ++ second).Nodup) {x y : α}
    (order : [x,y].Sublist (first ++ second)) (member : x ∈ second) : y ∈ second := by
  obtain ⟨front,back,split,inFirst,inSecond⟩ := List.sublist_append_iff.mp order
  cases front with
  | nil =>
    have whole : [x,y] = back := split
    exact inSecond.subset (whole ▸ by simp)
  | cons head tail =>
    have same : x = head := (List.cons.inj split).1
    have early : x ∈ first := inFirst.subset (by simp [same])
    exact absurd member (List.disjoint_of_nodup_append distinct early)

/-- The queue is first in, first out whatever the number of workers: the jobs ever
accepted are those whose calls have handed them over, each once; and while a job
waits in the queue no job accepted after it has been taken from the queue, let
alone started. -/
theorem queue_first_in_first_out {p : State V} {accepted : List CallId} (reached : ordered.Reachable (p,accepted)) :
    accepted.Nodup ∧ (∀ j, j ∈ accepted ↔ p.handed j = true) ∧
      ∀ j k, [j,k].Sublist accepted → j ∈ p.queue → ¬ p.HasLeft k := by
  have inOrder := InOrder.reached reached
  refine ⟨inOrder.nodup,inOrder.handed,fun j k order waits left => ?_⟩
  obtain ⟨gone,split⟩ := inOrder.suffix
  have distinct : (gone ++ p.queue).Nodup := split ▸ inOrder.nodup
  exact (inOrder.left k left).2 (later_mem distinct (split ▸ order) waits)

/-- Three jobs accepted by a queue of three slots and one worker that has started the first. -/
def crowding : List (Action Nat) :=
  ([.spawnWorker,.submit .run none] : List (Action Nat)) ++ List.replicate 8 (.call 0 .next) ++ [.submit .run none] ++
    List.replicate 8 (.call 1 .next) ++ [.submit .run none] ++ List.replicate 8 (.call 2 .next) ++
    [.worker 0 .takeJob,.worker 0 .next,.worker 0 .next]

theorem queue_first_in_first_out_when_crowded :
    ∃ p : State Nat, ordered.Reachable (p,[0,1,2]) ∧ p.queue = [1,2] ∧ ¬ p.HasLeft 2 := by
  obtain ⟨⟨p,accepted⟩,reached,check⟩ := ordered.replay_witness crowding ((.new 3 5 10 1000 0 : State Nat),[])
    (fun s => s.1.queue == [1,2] && s.2 == [0,1,2]) ⟨⟨3,5,10,1000,0,by decide,rfl⟩,rfl⟩ rfl
  obtain ⟨queue,same⟩ : p.queue = [1,2] ∧ accepted = [0,1,2] := by simpa using check
  subst same
  obtain ⟨_,_,order⟩ := queue_first_in_first_out reached
  exact ⟨p,reached,queue,order 1 2 (by decide) (by simp [queue])⟩

/-- Runs in which a worker enters its loop only when every earlier one has left it. -/
def oneAtATime (s : State V × List CallId) : Action V → Prop
  | .spawnWorker => ∀ w ∈ s.1.workers, w = .exited
  | _ => True

/-- One worker at most is in its loop, and the jobs started, the job it has not
started yet and the queue stand in the order of acceptance. -/
structure Lone (p : State V) (accepted : List CallId) : Prop where
  alone : ∀ (i k : Nat) (w v : WorkerPc), p.workers[i]? = some w → p.workers[k]? = some v →
    w ≠ .exited → v ≠ .exited → i = k
  started : (p.started ++ p.queue).Sublist accepted
  ahead : ∀ w ∈ p.workers, ∀ j, w.holds j = true → (p.started ++ j::p.queue).Sublist accepted

section Lone
variable {p p' : State V} {accepted : List CallId}

theorem Lone.others (before : Lone p accepted) {i : Nat} {w w' v : WorkerPc} (held : p.workers[i]? = some w)
    (alive : w ≠ .exited) {k : Nat} (found : (p.workers.set i w')[k]? = some v) (awake : v ≠ .exited) :
    k = i ∧ v = w' := by
  rw [List.getElem?_set] at found
  split at found
  case isTrue same =>
    split at found
    · exact ⟨same.symm,(Option.some.inj found).symm⟩
    · contradiction
  case isFalse other => exact absurd (before.alone i k w v held found alive awake) other

/-- A step of the one worker, checked at its new place only. -/
theorem Lone.work (before : Lone p accepted) {i : Nat} {w w' : WorkerPc} (held : p.workers[i]? = some w)
    (alive : w ≠ .exited) (workers : p'.workers = p.workers.set i w')
    (started : (p'.started ++ p'.queue).Sublist accepted)
    (ahead : ∀ j, w'.holds j = true → (p'.started ++ j::p'.queue).Sublist accepted) : Lone p' accepted := by
  constructor
  · intro m k v u first second awake awake'
    rw [workers] at first second
    exact (before.others held alive first awake).1.trans (before.others held alive second awake').1.symm
  · exact started
  · intro v member j holds
    rw [workers] at member
    obtain ⟨k,found⟩ := List.mem_iff_getElem?.mp member
    have awake : v ≠ .exited := by
      intro gone
      rw [gone] at holds
      cases holds
    obtain ⟨_,rfl⟩ := before.others held alive found awake
    exact ahead j holds

/-- A step of another party, which may take from the queue. -/
theorem Lone.around (before : Lone p accepted) (workers : p'.workers = p.workers) (started : p'.started = p.started)
    (queue : p'.queue.Sublist p.queue) : Lone p' accepted := by
  constructor
  · rw [workers]
    exact before.alone
  · rw [started]
    exact ((List.Sublist.refl _).append queue).trans before.started
  · intro w member j holds
    rw [workers] at member
    rw [started]
    exact ((List.Sublist.refl _).append (queue.cons_cons j)).trans (before.ahead w member j holds)

theorem Lone.accept (before : Lone p accepted) (workers : p'.workers = p.workers) (started : p'.started = p.started)
    {more : List CallId} (queue : p'.queue = p.queue ++ more) : Lone p' (accepted ++ more) := by
  constructor
  · rw [workers]
    exact before.alone
  · rw [started,queue,← List.append_assoc]
    exact before.started.append (List.Sublist.refl more)
  · intro w member j holds
    rw [workers] at member
    rw [started,queue,← List.cons_append,← List.append_assoc]
    exact (before.ahead w member j holds).append (List.Sublist.refl more)

theorem Serve.free {w w' : WorkerPc} {a : WorkerAction V} (serve : Serve w a w') (k : CallId) :
    w'.holds k = false := by
  cases serve <;> rfl

theorem Lone.step {a : Action V} (before : Lone p accepted) (meets : oneAtATime (p,accepted) a)
    (did : Did p a p') : Lone p' (accepted ++ accepts p a) := by
  have same {q : State V} {a : Action V} (nothing : accepts p a = []) (after : Lone q accepted) :
      Lone q (accepted ++ accepts p a) := by
    rw [nothing,List.append_nil]
    exact after
  cases did with
  | call j a c c' enqueued found advanced =>
    have queue : (p.putCall j c' enqueued).queue = p.queue ++ accepts p (.call j a) := by
      rw [accepts_call found advanced]
      cases enqueued <;> simp [State.putCall]
    have workers : (p.putCall j c' enqueued).workers = p.workers := rfl
    exact before.accept workers rfl queue
  | take i j rest idle queued =>
    have all : (p.started ++ j::rest).Sublist accepted := queued ▸ before.started
    refine same rfl (before.work idle (by simp) rfl ?_ ?_)
    · exact ((List.Sublist.refl _).append (List.sublist_cons_self j rest)).trans all
    · intro k holds
      have own : j = k := by simpa [WorkerPc.holds] using holds
      exact own ▸ all
  | check i j c held found =>
    refine same rfl (before.work held (by simp) rfl before.started ?_)
    intro k holds
    refine before.ahead _ (List.mem_of_getElem? held) k ?_
    cases flag : c.canceled <;> simpa [flag,WorkerPc.holds] using holds
  | start i j held =>
    refine same rfl (before.work held (by simp) rfl ?_ (by simp [WorkerPc.holds]))
    have next := before.ahead _ (List.mem_of_getElem? held) j (by simp [WorkerPc.holds])
    simpa [State.setWorker] using next
  | serve i a w w' held serve =>
    exact same rfl (before.work held serve.alive rfl before.started fun k holds => by simp [serve.free k] at holds)
  | answer i a j w w' source result c c' held serve =>
    exact same rfl (before.work held serve.alive rfl before.started fun k holds => by simp [serve.free k] at holds)
  | drain j rest idle queued =>
    exact same rfl (before.around rfl rfl (queued ▸ List.sublist_cons_self j rest))
  | spawn =>
    refine same rfl ⟨?_,before.started,?_⟩
    · have last (k : Nat) (v : WorkerPc) (found : (p.workers ++ [.select])[k]? = some v) (awake : v ≠ .exited) :
          k = p.workers.length := by
        rcases Nat.lt_trichotomy k p.workers.length with known | here | beyond
        · rw [List.getElem?_append_left known] at found
          exact absurd (meets v (List.mem_of_getElem? found)) awake
        · exact here
        · rw [List.getElem?_eq_none (by simp; omega)] at found
          contradiction
      intro i k w v first second awake awake'
      exact (last i w first awake).trans (last k v second awake').symm
    · intro w member j holds
      rcases List.mem_append.mp member with old | new
      · exact before.ahead w old j holds
      · rw [List.mem_singleton.mp new] at holds
        cases holds
  | _ => exact same rfl (before.around rfl rfl (List.Sublist.refl _))

end Lone

/-- With one worker in its loop at a time, as in a pool of one worker, scripts start
in the order in which the queue accepted their jobs; canceled and dropped jobs are
left out. -/
theorem one_worker_starts_in_order {p : State V} {accepted : List CallId}
    (reached : ordered.ReachableBy oneAtATime (p,accepted)) : p.started.Sublist accepted := by
  have lone : Lone p accepted := by
    refine Machine.recording_invariant Lone ?_ ?_ reached
    · rintro p ⟨capacity,enqueueTimeout,runTimeout,instantBound,clock,_,rfl⟩
      exact ⟨by simp [State.new],List.Sublist.refl _,by simp [State.new]⟩
    · intro p accepted a p' before meets taken
      exact before.step meets (step_did taken)
  exact (List.sublist_append_left p.started p.queue).trans lone.started

/-- The worker panics on the first job, the second call gives up, and the next worker
starts the third job. -/
def succession : List (Action Nat) :=
  crowding ++ [.elapse 10,.call 1 .expire,.call 1 .next,.worker 0 .panic,.worker 0 .next,.spawnWorker,
    .worker 1 .takeJob,.worker 1 .next,.worker 1 .next,.worker 1 .takeJob,.worker 1 .next,.worker 1 .next]

/-- `oneAtATime` as a test. -/
def spawnsAlone (s : State V × List CallId) : Action V → Bool
  | .spawnWorker => s.1.workers.all (· == .exited)
  | _ => true

theorem oneAtATime_of_spawnsAlone (s : State V × List CallId) (a : Action V) (passed : spawnsAlone s a = true) :
    oneAtATime s a := by
  cases a with
  | spawnWorker => exact fun w member => by simpa using List.all_eq_true.mp passed w member
  | _ => trivial

theorem one_worker_starts_in_order_in_succession : ∃ p : State Nat,
    ordered.ReachableBy oneAtATime (p,[0,1,2]) ∧ p.started = [0,2] ∧ p.started.Sublist [0,1,2] := by
  obtain ⟨⟨p,accepted⟩,reached,check⟩ := ordered.replay_witness_by oneAtATime spawnsAlone
    oneAtATime_of_spawnsAlone succession ((.new 3 5 10 1000 0 : State Nat),[])
    (fun s => s.1.started == [0,2] && s.2 == [0,1,2]) ⟨⟨3,5,10,1000,0,by decide,rfl⟩,rfl⟩ rfl
  obtain ⟨started,same⟩ : p.started = [0,2] ∧ accepted = [0,1,2] := by simpa using check
  subst same
  exact ⟨p,reached,started,one_worker_starts_in_order reached⟩

end MechanicsCore.Pool.Protocol
