import MechanicsCore.Pool.Shutdown

/-! How the owner winds a pool down. What a step of each party leaves alone, what the
owner's step is to the jobs, and that a drop that returns has waited for every thread. -/
namespace MechanicsCore.Pool.Lifecycle
open MechanicsCore.Library

/-- The queue has been drained, up to the end. -/
def OwnerPc.drained : OwnerPc → Bool
  | .request _ => true
  | .requesting _ _ => true
  | .signalSupervisor _ => true
  | .joinSupervisor _ => true
  | .drainWorkers _ => true
  | .joining _ _ => true
  | .dropped _ => true
  | _ => false

/-- The worker map has been emptied. -/
def OwnerPc.emptied : OwnerPc → Bool
  | .joining _ _ => true
  | .dropped _ => true
  | _ => false

/-- The drop has not closed the pool yet. -/
def OwnerPc.opened : OwnerPc → Bool
  | .constructing _ => true
  | .spawning _ _ => true
  | .startSupervisor => true
  | .inUse => true
  | .markClosed _ => true
  | _ => false

/-- Every thread is where it was. -/
def SamePhases (before after : List Worker) : Prop :=
  ∀ (t : ThreadId) (w : Worker), before[t]? = some w → ∃ w', after[t]? = some w' ∧ w'.phase = w.phase

theorem SamePhases.refl (threads : List Worker) : SamePhases threads threads := fun _ w found => ⟨w,found,rfl⟩

theorem SamePhases.append (threads more : List Worker) : SamePhases threads (threads ++ more) := by
  intro t w found
  exact ⟨w,by rw [List.getElem?_append_left (List.getElem?_eq_some_iff.mp found).1,found],rfl⟩

theorem SamePhases.set {threads : List Worker} {t : ThreadId} {w w' : Worker} (found : threads[t]? = some w)
    (same : w'.phase = w.phase) : SamePhases threads (threads.set t w') := by
  intro u v known
  by_cases here : t = u
  · subst here
    cases found.symm.trans known
    exact ⟨w',by simp [(List.getElem?_eq_some_iff.mp found).1],same⟩
  · exact ⟨v,by rw [List.getElem?_set_ne here,known],rfl⟩

/-- What a step leaves alone that is neither the owner's nor a worker's. -/
structure Beside (p p' : State) : Prop where
  phases : SamePhases p.threads p'.threads
  queued : p'.queued = p.queued
  closed : p'.closed = p.closed
  owner : p'.owner = p.owner

theorem Beside.refl (p : State) : Beside p p := ⟨.refl _,rfl,rfl,rfl⟩

/-- Everything a step of `spawn_worker` can do. -/
inductive Spawns (p : State) : SpawnPc → State → SpawnPc ⊕ Bool → Prop
  | create : Spawns p .create
      {p with
        nextWorkerId := p.nextWorkerId + 1
        threads := p.threads ++ [⟨p.nextWorkerId,.starting,none,.empty⟩]} (.inl (.insert p.nextWorkerId p.threads.length))
  | createFails : Spawns p .create {p with nextWorkerId := p.nextWorkerId + 1} (.inr false)
  | insert (id : WorkerId) (t : ThreadId) (free : p.writable = true) :
      Spawns p (.insert id t) (p.insertHandle id t) (.inl (.await id t))
  | started (id : WorkerId) (t : ThreadId) (w : Worker) (found : p.threads[t]? = some w) (ready : w.ready = some true) :
      Spawns p (.await id t) ({p with restartBlocked := false}.setThread t {w with ready := none}) (.inr true)
  | failed (id : WorkerId) (t : ThreadId) (w : Worker) (found : p.threads[t]? = some w) (ready : w.ready = some false) :
      Spawns p (.await id t) (p.setThread t {w with ready := none}) (.inl (.remove id t))
  | gone (id : WorkerId) (t : ThreadId) (w : Worker) (found : p.threads[t]? = some w) (finished : w.phase = .finished) :
      Spawns p (.await id t) p (.inl (.remove id t))
  | remove (id : WorkerId) (t u : ThreadId) (free : p.writable = true) (handle : p.handle id = some u) :
      Spawns p (.remove id t) (p.removeHandles [id]) (.inl (.join u))
  | removed (id : WorkerId) (t : ThreadId) (free : p.writable = true) (handle : p.handle id = none) :
      Spawns p (.remove id t) p (.inr false)
  | join (t : ThreadId) (finished : p.isFinished t = true) : Spawns p (.join t) p (.inr false)

theorem spawnStep_spawns {p p' : State} {created : Bool} {pc : SpawnPc} {next : SpawnPc ⊕ Bool}
    (taken : spawnStep p created pc = some (p',next)) : Spawns p pc p' next := by
  cases pc with
  | create =>
    simp only [spawnStep] at taken
    split at taken
    · cases taken
      exact .create
    · cases taken
      exact .createFails
  | insert id t =>
    simp only [spawnStep] at taken
    split at taken
    · rename_i free
      cases taken
      exact .insert id t free
    · contradiction
  | await id t =>
    simp only [spawnStep,bind,Option.bind_eq_some_iff] at taken
    obtain ⟨w,found,taken⟩ := taken
    split at taken
    · rename_i ready
      cases taken
      exact .started id t w found ready
    · rename_i ready
      cases taken
      exact .failed id t w found ready
    · split at taken
      · rename_i finished
        cases taken
        exact .gone id t w found finished
      · contradiction
  | remove id t =>
    simp only [spawnStep] at taken
    split at taken
    · rename_i free
      split at taken
      · rename_i u handle
        cases taken
        exact .remove id t u free handle
      · rename_i handle
        cases taken
        exact .removed id t free handle
    · contradiction
  | join t =>
    simp only [spawnStep] at taken
    split at taken
    · rename_i finished
      cases taken
      exact .join t finished
    · contradiction

/-- Everything a step of `live_workers` can do. -/
inductive Reaps (p : State) : ReapPc → State → ReapPc → Prop
  | collect (ids : List WorkerId) : Reaps p .collect p (if ids = [] then .count else .remove ids)
  | remove (ids : List WorkerId) (free : p.writable = true) : Reaps p (.remove ids) (p.removeHandles ids)
      (.join ((p.workers.filter fun entry => ids.contains entry.1).map Prod.snd))
  | joined : Reaps p (.join []) p .count
  | join (t : ThreadId) (rest : List ThreadId) (finished : p.isFinished t = true) : Reaps p (.join (t::rest)) p (.join rest)
  | count : Reaps p .count p (.counted p.workers.length)

theorem reapStep_reaps {p p' : State} {pc pc' : ReapPc} (taken : reapStep p pc = some (p',pc')) : Reaps p pc p' pc' := by
  unfold reapStep at taken
  split at taken
  case h_1 =>
    split at taken
    · cases taken
      exact .collect _
    · contradiction
  case h_2 ids =>
    split at taken
    · rename_i free
      cases taken
      exact .remove ids free
    · contradiction
  case h_3 =>
    cases taken
    exact .joined
  case h_4 t rest =>
    split at taken
    · rename_i finished
      cases taken
      exact .join t rest finished
    · contradiction
  case h_5 =>
    split at taken
    · cases taken
      exact .count
    · contradiction
  case h_6 => contradiction

/-- Everything a step of the supervisor can do. -/
inductive Supervised (p : State) : State → Prop
  | shutdown (here : p.supervisor = .select) :
      Supervised p {p with supervisorShutdown := false, supervisor := .finished}
  | exit (event : WorkerExit) (rest : List WorkerExit) (here : p.supervisor = .select) (exits : p.exits = event::rest) :
      Supervised p {p with exits := rest, supervisor := .removeExited event}
  | tick (here : p.supervisor = .select) : Supervised p {p with supervisor := .checkClosed}
  | removeExited (event : WorkerExit) (t : ThreadId) (here : p.supervisor = .removeExited event)
      (handle : p.handle event.workerId = some t) :
      Supervised p {p.removeHandles [event.workerId] with supervisor := .joinExited t}
  | forgotten (event : WorkerExit) (here : p.supervisor = .removeExited event) :
      Supervised p {p with supervisor := .checkClosed}
  | joinExited (t : ThreadId) (here : p.supervisor = .joinExited t) : Supervised p {p with supervisor := .checkClosed}
  | checkClosed (here : p.supervisor = .checkClosed) :
      Supervised p {p with supervisor := if p.closed then .finished else .reconcile}
  | reconcile (here : p.supervisor = .reconcile) :
      Supervised p {p with supervisor := if p.closed then .select else .reap .collect}
  | enough (live : Nat) (here : p.supervisor = .reap (.counted live)) :
      Supervised p {p with restartBlocked := false, supervisor := .select}
  | short (live : Nat) (here : p.supervisor = .reap (.counted live)) :
      Supervised p {p with supervisor := .restart (p.desiredWorkerCount - live)}
  | reap (pc pc' : ReapPc) (q : State) (here : p.supervisor = .reap pc) (reaped : Reaps p pc q pc') :
      Supervised p {q with supervisor := .reap pc'}
  | restarted (here : p.supervisor = .restart 0) : Supervised p {p with supervisor := .select}
  | allowed (missing : Nat) (guard : RestartGuard) (here : p.supervisor = .restart (missing + 1)) :
      Supervised p {p with guard := guard, supervisor := .spawning .create missing}
  | denied (missing : Nat) (guard : RestartGuard) (here : p.supervisor = .restart (missing + 1)) :
      Supervised p {p with guard := guard, restartBlocked := true, supervisor := .select}
  | spawn (pc pc' : SpawnPc) (missing : Nat) (q : State) (here : p.supervisor = .spawning pc missing)
      (spawned : Spawns p pc q (.inl pc')) : Supervised p {q with supervisor := .spawning pc' missing}
  | spawned (pc : SpawnPc) (missing : Nat) (q : State) (here : p.supervisor = .spawning pc missing)
      (spawned : Spawns p pc q (.inr true)) : Supervised p {q with supervisor := .restart missing}
  | unspawned (pc : SpawnPc) (missing : Nat) (q : State) (here : p.supervisor = .spawning pc missing)
      (spawned : Spawns p pc q (.inr false)) : Supervised p {q with restartBlocked := true, supervisor := .select}

theorem supervisorStep_supervised {p p' : State} {a : SupervisorAction} (taken : supervisorStep p a = some p') :
    Supervised p p' := by
  unfold supervisorStep at taken
  split at taken
  case h_1 here =>
    split at taken
    · cases taken
      exact .shutdown here
    · contradiction
  case h_2 here =>
    split at taken
    · contradiction
    · rename_i event rest exits
      cases taken
      exact .exit event rest here exits
  case h_3 here =>
    cases taken
    exact .tick here
  case h_4 event here =>
    split at taken
    · split at taken
      · rename_i t handle
        cases taken
        exact .removeExited event t here handle
      · cases taken
        exact .forgotten event here
    · contradiction
  case h_5 t here =>
    split at taken
    · cases taken
      exact .joinExited t here
    · contradiction
  case h_6 here =>
    cases taken
    exact .checkClosed here
  case h_7 here =>
    cases taken
    exact .reconcile here
  case h_8 live here =>
    dsimp only at taken
    split at taken
    · cases taken
      exact .enough live here
    · cases taken
      exact .short live here
  case h_9 pc _ here =>
    obtain ⟨⟨q,pc'⟩,reaped,rfl⟩ := Option.map_eq_some_iff.mp taken
    exact .reap pc pc' q here (reapStep_reaps reaped)
  case h_10 here =>
    cases taken
    exact .restarted here
  case h_11 missing here =>
    split at taken
    · cases taken
      exact .allowed missing _ here
    · cases taken
      exact .denied missing _ here
  case h_12 pc missing here =>
    split at taken
    · obtain ⟨⟨q,next⟩,spawned,moved⟩ := Option.map_eq_some_iff.mp taken
      have spawns := spawnStep_spawns spawned
      rcases next with pc' | ok
      · cases moved
        exact .spawn pc pc' missing q here spawns
      · cases ok with
        | true =>
          cases moved
          exact .spawned pc missing q here spawns
        | false =>
          cases moved
          exact .unspawned pc missing q here spawns
    · contradiction
  case h_13 => contradiction

theorem Spawns.beside {p p' : State} {pc : SpawnPc} {next : SpawnPc ⊕ Bool} (spawned : Spawns p pc p' next) :
    Beside p p' := by
  cases spawned with
  | create => exact ⟨.append _ _,rfl,rfl,rfl⟩
  | started id t w found ready => exact ⟨.set found rfl,rfl,rfl,rfl⟩
  | failed id t w found ready => exact ⟨.set found rfl,rfl,rfl,rfl⟩
  | _ => exact ⟨.refl _,rfl,rfl,rfl⟩

theorem Reaps.beside {p p' : State} {pc pc' : ReapPc} (reaped : Reaps p pc p' pc') :
    Beside p p' ∧ p'.supervisor = p.supervisor ∧ p'.clients = p.clients ∧ p'.restartBlocked = p.restartBlocked := by
  cases reaped <;> exact ⟨⟨.refl _,rfl,rfl,rfl⟩,rfl,rfl,rfl⟩

theorem supervisorStep_beside {p p' : State} {a : SupervisorAction} (taken : supervisorStep p a = some p') :
    Beside p p' := by
  cases supervisorStep_supervised taken with
  | reap pc pc' q here reaped => exact {reaped.beside.1 with}
  | spawn pc pc' missing q here spawned => exact {spawned.beside with}
  | spawned pc missing q here spawned => exact {spawned.beside with}
  | unspawned pc missing q here spawned => exact {spawned.beside with}
  | _ => exact ⟨.refl _,rfl,rfl,rfl⟩

theorem clientStep_beside {p p' : State} {i : Nat} (taken : step p (.client i) = some p') : Beside p p' := by
  simp only [step,bind,Option.bind_eq_some_iff] at taken
  obtain ⟨pc,found,⟨q,pc'⟩,reaped,moved⟩ := taken
  cases moved
  have beside := (reapStep_reaps reaped).beside.1
  exact ⟨beside.phases,beside.queued,beside.closed,beside.owner⟩

/-- Everything a step of the owner can do. -/
inductive Owns (p : State) : OwnerAction → State → Prop
  | complete (here : p.owner = .constructing 0) : Owns p .next {p with owner := .startSupervisor}
  | build (left : Nat) (here : p.owner = .constructing (left + 1)) : Owns p .next {p with owner := .spawning .create left}
  | spawn (a : OwnerAction) (pc pc' : SpawnPc) (left : Nat) (q : State) (here : p.owner = .spawning pc left)
      (spawned : Spawns p pc q (.inl pc')) : Owns p a {q with owner := .spawning pc' left}
  | spawned (a : OwnerAction) (pc : SpawnPc) (left : Nat) (q : State) (here : p.owner = .spawning pc left)
      (spawned : Spawns p pc q (.inr true)) : Owns p a {q with owner := .constructing left}
  | unspawned (a : OwnerAction) (pc : SpawnPc) (left : Nat) (q : State) (here : p.owner = .spawning pc left)
      (spawned : Spawns p pc q (.inr false)) : Owns p a {q with owner := .markClosed false}
  | supervise (here : p.owner = .startSupervisor) : Owns p .next {p with supervisor := .select, owner := .inUse}
  | unsupervised (here : p.owner = .startSupervisor) : Owns p .createFails {p with owner := .markClosed false}
  | dropPool (here : p.owner = .inUse) : Owns p .dropPool {p with owner := .markClosed true}
  | close (built : Bool) (here : p.owner = .markClosed built) :
      Owns p .next {p with closed := true, owner := .drainQueue built}
  | drain (built : Bool) (here : p.owner = .drainQueue built) (some : p.queued ≠ 0) :
      Owns p .next {p with queued := p.queued - 1}
  | drained (built : Bool) (here : p.owner = .drainQueue built) (none : p.queued = 0) :
      Owns p .next {p with owner := .request built}
  | request (built : Bool) (here : p.owner = .request built) :
      Owns p .next {p with owner := .requesting built (p.workers.map Prod.snd)}
  | tell (built : Bool) (t : ThreadId) (todo : List ThreadId) (q : State) (here : p.owner = .requesting built (t::todo))
      (told : requestShutdown p t = some q) : Owns p .next {q with owner := .requesting built todo}
  | toldAll (built : Bool) (here : p.owner = .requesting built []) : Owns p .next {p with owner := .signalSupervisor built}
  | signal (built : Bool) (here : p.owner = .signalSupervisor built) :
      Owns p .next {p with supervisorShutdown := built || p.supervisorShutdown, owner := .joinSupervisor built}
  | joinSupervisor (built : Bool) (here : p.owner = .joinSupervisor built) (idle : Idle p.supervisor) :
      Owns p .next {p with owner := .drainWorkers built}
  | drainWorkers (built : Bool) (here : p.owner = .drainWorkers built) :
      Owns p .next {p with workers := [], owner := .joining built (p.workers.map Prod.snd)}
  | join (built : Bool) (t : ThreadId) (rest : List ThreadId) (here : p.owner = .joining built (t::rest)) :
      Owns p .next {p with owner := .joining built rest}
  | joined (built : Bool) (here : p.owner = .joining built []) : Owns p .next {p with owner := .dropped built}

theorem ownerStep_owns {p p' : State} {a : OwnerAction} (taken : ownerStep p a = some p') : Owns p a p' := by
  unfold ownerStep at taken
  split at taken
  case h_1 here =>
    cases taken
    exact .complete here
  case h_2 left here =>
    cases taken
    exact .build left here
  case h_3 pc left here =>
    split at taken
    · obtain ⟨⟨q,next⟩,spawned,moved⟩ := Option.map_eq_some_iff.mp taken
      have spawns := spawnStep_spawns spawned
      rcases next with pc' | ok
      · cases moved
        exact .spawn _ pc pc' left q here spawns
      · cases ok with
        | true =>
          cases moved
          exact .spawned _ pc left q here spawns
        | false =>
          cases moved
          exact .unspawned _ pc left q here spawns
    · contradiction
  case h_4 here =>
    cases taken
    exact .supervise here
  case h_5 here =>
    cases taken
    exact .unsupervised here
  case h_6 here =>
    split at taken
    · cases taken
      exact .dropPool here
    · contradiction
  case h_7 built here =>
    cases taken
    exact .close built here
  case h_8 built here =>
    split at taken
    · rename_i none
      cases taken
      exact .drained built here none
    · rename_i some
      cases taken
      exact .drain built here some
  case h_9 built here =>
    cases taken
    exact .request built here
  case h_10 built t todo here =>
    obtain ⟨q,told,rfl⟩ := Option.map_eq_some_iff.mp taken
    exact .tell built t todo q here told
  case h_11 built here =>
    cases taken
    exact .toldAll built here
  case h_12 built here =>
    cases taken
    exact .signal built here
  case h_13 built here =>
    split at taken
    · rename_i idle
      cases taken
      exact .joinSupervisor built here idle
    · contradiction
  case h_14 built here =>
    cases taken
    exact .drainWorkers built here
  case h_15 built t rest here =>
    split at taken
    · cases taken
      exact .join built t rest here
    · contradiction
  case h_16 built here =>
    cases taken
    exact .joined built here
  case h_17 => contradiction

/-- What the owner's step is to the jobs: none of their business while the pool is built,
then the end of its use, the closing, one job drained, the end of the draining, and
the winding down. -/
inductive Owners (p : State) : OwnerAction → State → Prop
  | build (a : OwnerAction) (p' : State) (before : p.owner.opened = true) (after : p'.owner.opened = true)
      (unused : p.owner ≠ .inUse) (phases : SamePhases p.threads p'.threads) (queued : p'.queued = p.queued)
      (closed : p'.closed = p.closed) (notYet : ∀ built, p.owner ≠ .markClosed built) : Owners p a p'
  | dropPool (here : p.owner = .inUse) : Owners p .dropPool {p with owner := .markClosed true}
  | close (built : Bool) (here : p.owner = .markClosed built) :
      Owners p .next {p with closed := true, owner := .drainQueue built}
  | drain (built : Bool) (here : p.owner = .drainQueue built) (some : p.queued ≠ 0) :
      Owners p .next {p with queued := p.queued - 1}
  | drained (built : Bool) (here : p.owner = .drainQueue built) (none : p.queued = 0) :
      Owners p .next {p with owner := .request built}
  | wind (p' : State) (before : p.owner.drained = true) (after : p'.owner.drained = true)
      (phases : SamePhases p.threads p'.threads) (queued : p'.queued = p.queued) (closed : p'.closed = p.closed)
      (supervisor : p'.owner.emptied = true → p'.supervisor = p.supervisor)
      (emptied : p'.owner.emptied = true → p.owner.emptied = true ∧ p'.workers = p.workers ∨
        (∃ built, p.owner = .drainWorkers built) ∧ p'.workers = []) : Owners p .next p'

theorem ownerStep_owners {p p' : State} {a : OwnerAction} (taken : ownerStep p a = some p') : Owners p a p' := by
  cases ownerStep_owns taken with
  | spawn a pc pc' left q here spawned | spawned a pc left q here spawned | unspawned a pc left q here spawned =>
    have beside := spawned.beside
    exact .build _ _ (by rw [here]; rfl) rfl (by simp [here]) beside.phases beside.queued beside.closed (by simp [here])
  | complete here | build left here | supervise here | unsupervised here =>
    exact .build _ _ (by rw [here]; rfl) rfl (by simp [here]) (.refl _) rfl rfl (by simp [here])
  | dropPool here => exact .dropPool here
  | close built here => exact .close built here
  | drain built here some => exact .drain built here some
  | drained built here none => exact .drained built here none
  | tell built t todo q here told =>
    obtain ⟨w,found,⟨_,rfl⟩ | rfl⟩ := requestShutdown_cases told
    · exact .wind _ (by rw [here]; rfl) rfl (.refl _) rfl rfl (fun _ => rfl) (by simp [OwnerPc.emptied])
    · exact .wind _ (by rw [here]; rfl) rfl (.set found rfl) rfl rfl (fun _ => rfl) (by simp [OwnerPc.emptied])
  | drainWorkers built here =>
    exact .wind _ (by rw [here]; rfl) rfl (.refl _) rfl rfl (fun _ => rfl) fun _ => .inr ⟨⟨built,here⟩,rfl⟩
  | join built t rest here =>
    exact .wind _ (by rw [here]; rfl) rfl (.refl _) rfl rfl (fun _ => rfl) fun _ => .inl ⟨by rw [here]; rfl,rfl⟩
  | joined built here =>
    exact .wind _ (by rw [here]; rfl) rfl (.refl _) rfl rfl (fun _ => rfl) fun _ => .inl ⟨by rw [here]; rfl,rfl⟩
  | request built here | toldAll built here | signal built here | joinSupervisor built here idle =>
    exact .wind _ (by rw [here]; rfl) rfl (.refl _) rfl rfl (fun _ => rfl) (by simp [OwnerPc.emptied])

/-- Everything a step can do to its thread. -/
inductive ThreadStep (w : Worker) : WorkerAction → Worker → Prop
  | startOk (here : w.phase = .starting) : ThreadStep w .startOk {w with phase := .select, ready := some true}
  | startErr (here : w.phase = .starting) : ThreadStep w .startErr {w with phase := .leaving .other, ready := some false}
  | startPanic (here : w.phase = .starting) : ThreadStep w .startPanic {w with phase := .panicking}
  | takeShutdown (here : w.phase = .select) (pending : w.shutdown = .pending) :
      ThreadStep w .takeShutdown {w with phase := .leaving .other, shutdown := .delivered}
  | takeJob (here : w.phase = .select) : ThreadStep w .takeJob {w with phase := .running}
  | finishJob (here : w.phase = .running) : ThreadStep w .finishJob {w with phase := .select}
  | jobPanic (here : w.phase = .running) : ThreadStep w .jobPanic {w with phase := .leaving .panic}
  | loopPanic (here : w.phase = .running) : ThreadStep w .loopPanic {w with phase := .panicking}
  | sendPanicReady (here : w.phase = .panicking) (empty : w.ready = none) :
      ThreadStep w .sendPanicReady {w with phase := .leaving .panic, ready := some false}
  | sendExit (reason : RestartReason) (here : w.phase = .leaving reason) : ThreadStep w .sendExit {w with phase := .exited}
  | finish (here : w.phase = .exited) : ThreadStep w .finish {w with phase := .finished}

theorem workerStep_thread {p p' : State} {t : ThreadId} {a : WorkerAction} (taken : workerStep p t a = some p') :
    ∃ w w' exits queued, p.threads[t]? = some w ∧ ThreadStep w a w' ∧
      p' = {p with threads := p.threads.set t w', exits := exits, queued := queued} ∧
      (a = .takeJob ∧ p.queued = queued + 1 ∨ a ≠ .takeJob ∧ queued = p.queued) := by
  unfold workerStep at taken
  cases found : p.threads[t]? with
  | none => simp [found] at taken
  | some w =>
    simp only [found,bind,Option.bind] at taken
    split at taken
    case h_1 phase =>
      cases taken
      exact ⟨w,_,_,_,rfl,.startOk phase,rfl,.inr ⟨by simp,rfl⟩⟩
    case h_2 phase =>
      cases taken
      exact ⟨w,_,_,_,rfl,.startErr phase,rfl,.inr ⟨by simp,rfl⟩⟩
    case h_3 phase =>
      cases taken
      exact ⟨w,_,_,_,rfl,.startPanic phase,rfl,.inr ⟨by simp,rfl⟩⟩
    case h_4 phase =>
      split at taken
      · rename_i pending
        cases taken
        exact ⟨w,_,_,_,rfl,.takeShutdown phase pending,rfl,.inr ⟨by simp,rfl⟩⟩
      · contradiction
    case h_5 phase =>
      split at taken
      · rename_i some
        cases taken
        exact ⟨w,_,_,p.queued - 1,rfl,.takeJob phase,rfl,.inl ⟨rfl,(Nat.sub_add_cancel some).symm⟩⟩
      · contradiction
    case h_6 phase =>
      cases taken
      exact ⟨w,_,_,_,rfl,.finishJob phase,rfl,.inr ⟨by simp,rfl⟩⟩
    case h_7 phase =>
      cases taken
      exact ⟨w,_,_,_,rfl,.jobPanic phase,rfl,.inr ⟨by simp,rfl⟩⟩
    case h_8 phase =>
      cases taken
      exact ⟨w,_,_,_,rfl,.loopPanic phase,rfl,.inr ⟨by simp,rfl⟩⟩
    case h_9 phase =>
      split at taken
      · rename_i empty
        cases taken
        exact ⟨w,_,_,_,rfl,.sendPanicReady phase empty,rfl,.inr ⟨by simp,rfl⟩⟩
      · contradiction
    case h_10 reason phase =>
      cases taken
      exact ⟨w,_,_,_,rfl,.sendExit reason phase,rfl,.inr ⟨by simp,rfl⟩⟩
    case h_11 phase =>
      cases taken
      exact ⟨w,_,_,_,rfl,.finish phase,rfl,.inr ⟨by simp,rfl⟩⟩
    case h_12 => contradiction

/-- Where a thread goes. -/
inductive PhaseStep : WorkerAction → Phase → Phase → Prop
  | startOk : PhaseStep .startOk .starting .select
  | startErr : PhaseStep .startErr .starting (.leaving .other)
  | startPanic : PhaseStep .startPanic .starting .panicking
  | takeShutdown : PhaseStep .takeShutdown .select (.leaving .other)
  | takeJob : PhaseStep .takeJob .select .running
  | finishJob : PhaseStep .finishJob .running .select
  | jobPanic : PhaseStep .jobPanic .running (.leaving .panic)
  | loopPanic : PhaseStep .loopPanic .running .panicking
  | sendPanicReady : PhaseStep .sendPanicReady .panicking (.leaving .panic)
  | sendExit (reason : RestartReason) : PhaseStep .sendExit (.leaving reason) .exited
  | finish : PhaseStep .finish .exited .finished

theorem startOk_phases {phase phase' : Phase} (moved : PhaseStep .startOk phase phase') :
    phase = .starting ∧ phase' = .select := by
  cases moved
  exact ⟨rfl,rfl⟩

theorem ThreadStep.phase {w w' : Worker} {a : WorkerAction} (moved : ThreadStep w a w') : PhaseStep a w.phase w'.phase := by
  cases moved with
  | sendExit reason here =>
    rw [here]
    exact .sendExit reason
  | startOk here | startErr here | startPanic here | takeShutdown here | takeJob here | finishJob here | jobPanic here
  | loopPanic here | sendPanicReady here | finish here =>
    rw [here]
    constructor

theorem workerStep_phase {p p' : State} {t : ThreadId} {a : WorkerAction} (taken : workerStep p t a = some p') :
    ∃ w w' exits queued, p.threads[t]? = some w ∧ PhaseStep a w.phase w'.phase ∧
      p' = {p with threads := p.threads.set t w', exits := exits, queued := queued} ∧
      (a = .takeJob ∧ p.queued = queued + 1 ∨ a ≠ .takeJob ∧ queued = p.queued) := by
  obtain ⟨w,w',exits,queued,found,moved,same,count⟩ := workerStep_thread taken
  exact ⟨w,w',exits,queued,found,moved.phase,same,count⟩

/-- How far the drop has wound the pool down. -/
structure Wound (p : State) : Prop where
  closed : p.owner.opened = false → p.closed = true
  queued : p.owner.drained = true → p.queued = 0
  emptied : p.owner.emptied = true → Idle p.supervisor ∧ p.workers = []

theorem OwnerPc.not_drained_of_opened {pc : OwnerPc} (opened : pc.opened = true) : pc.drained = false ∧ pc.emptied = false := by
  cases pc <;> first | contradiction | exact ⟨rfl,rfl⟩

theorem OwnerPc.not_opened_of_drained {pc : OwnerPc} (drained : pc.drained = true) : pc.opened = false := by
  cases pc <;> first | contradiction | rfl

theorem Wound.ownerStep {p p' : State} {a : OwnerAction} (wound : Wound p) (owned : Owned p)
    (taken : ownerStep p a = some p') : Wound p' := by
  cases ownerStep_owners taken with
  | build _ _ before after =>
    obtain ⟨notDrained,notEmptied⟩ := OwnerPc.not_drained_of_opened after
    exact ⟨by simp [after],by simp [notDrained],by simp [notEmptied]⟩
  | dropPool here => exact ⟨by simp [OwnerPc.opened],by simp [OwnerPc.drained],by simp [OwnerPc.emptied]⟩
  | close built here => exact ⟨fun _ => rfl,by simp [OwnerPc.drained],by simp [OwnerPc.emptied]⟩
  | drain built here some => exact ⟨wound.closed,by simp [here,OwnerPc.drained],by simp [here,OwnerPc.emptied]⟩
  | drained built here none =>
    exact ⟨fun _ => wound.closed (by rw [here]; rfl),fun _ => none,by simp [OwnerPc.emptied]⟩
  | wind _ before after phases queued closed supervisor emptied =>
    refine ⟨fun _ => closed.trans (wound.closed (OwnerPc.not_opened_of_drained before)),
      fun _ => queued.trans (wound.queued before),fun gone => ?_⟩
    rw [supervisor gone]
    rcases emptied gone with ⟨already,same⟩ | ⟨⟨built,here⟩,none⟩
    · exact ⟨(wound.emptied already).1,same.trans (wound.emptied already).2⟩
    · have facts := owned.owner
      rw [here] at facts
      exact ⟨facts,none⟩

theorem idle_stuck {p : State} (idle : Idle p.supervisor) (a : SupervisorAction) : supervisorStep p a = none := by
  unfold supervisorStep
  rcases idle with here | here <;> rw [here]

theorem Wound.step {p p' : State} {a : Action} (wound : Wound p) (owned : Owned p) (taken : step p a = some p') :
    Wound p' := by
  cases a with
  | worker t a =>
    obtain ⟨w,w',exits,queued,found,_,rfl,fewer⟩ := workerStep_phase taken
    refine ⟨wound.closed,fun drained => ?_,wound.emptied⟩
    have none := wound.queued drained
    rcases fewer with ⟨_,one⟩ | ⟨_,same⟩
    · omega
    · exact same.trans none
  | supervisor a =>
    have beside := supervisorStep_beside taken
    refine ⟨fun late => beside.closed.trans (wound.closed (beside.owner ▸ late)),
      fun drained => beside.queued.trans (wound.queued (beside.owner ▸ drained)),fun emptied => ?_⟩
    have stuck := idle_stuck (wound.emptied (beside.owner ▸ emptied)).1 a
    exact absurd (stuck.symm.trans taken) (by simp)
  | client i =>
    simp only [Lifecycle.step,bind,Option.bind_eq_some_iff] at taken
    obtain ⟨pc,found,⟨q,pc'⟩,reaped,moved⟩ := taken
    cases moved
    obtain ⟨beside,supervisor,_⟩ := (reapStep_reaps reaped).beside
    obtain ⟨_,_,fewer⟩ := reapStep_effect reaped
    refine ⟨fun late => beside.closed.trans (wound.closed (beside.owner ▸ late)),
      fun drained => beside.queued.trans (wound.queued (beside.owner ▸ drained)),fun emptied => ?_⟩
    obtain ⟨idle,none⟩ := wound.emptied (beside.owner ▸ emptied)
    refine ⟨supervisor ▸ idle,List.eq_nil_iff_forall_not_mem.mpr fun entry member => ?_⟩
    have old := fewer entry member
    rw [none] at old
    cases old
  | enterLiveWorkers =>
    simp only [Lifecycle.step] at taken
    split at taken
    · rename_i here
      cases taken
      exact ⟨wound.closed,by simp [here,OwnerPc.drained],by simp [here,OwnerPc.emptied]⟩
    · contradiction
  | submit =>
    simp only [Lifecycle.step] at taken
    split at taken
    · rename_i here
      cases taken
      exact ⟨wound.closed,by simp [here,OwnerPc.drained],by simp [here,OwnerPc.emptied]⟩
    · contradiction
  | owner a => exact wound.ownerStep owned taken
  | elapse nanos =>
    cases taken
    exact ⟨wound.closed,wound.queued,wound.emptied⟩

theorem reachable_wound {p : State} (reached : machine.Reachable p) : Wound p := by
  have both : Owned p ∧ Wound p := by
    refine reached.invariant (fun p => Owned p ∧ Wound p) ?_ fun _ _ _ before taken =>
      ⟨before.1.step taken,before.2.step before.1 taken⟩
    rintro p start
    refine ⟨.initial start,?_⟩
    obtain ⟨desired,capacity,window,maxRestarts,_,_,_,rfl⟩ := start
    exact ⟨by simp [State.new,OwnerPc.opened],by simp [State.new,OwnerPc.drained],by simp [State.new,OwnerPc.emptied]⟩
  exact both.2

/-- Once the drop has returned, every thread that was ever started has ended. -/
theorem dropped_finished {p : State} (reached : machine.Reachable p) {built : Bool} (dropped : p.owner = .dropped built)
    {t : ThreadId} (bound : t < p.threads.length) : Finished p.threads t := by
  have owned := reachable_owned reached
  obtain ⟨idle,none⟩ := (reachable_wound reached).emptied (by rw [dropped]; rfl)
  by_contra running
  have covered := owned.books.covered t bound running
  rw [none,idle.slots.2,dropped] at covered
  simp [OwnerPc.held] at covered

end MechanicsCore.Pool.Lifecycle
