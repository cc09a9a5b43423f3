import ByteBattles.Judge.Orchestrator.Scaling

/-!
# Workers that are left behind

`shutdown` joins the processes in `JudgeOrchestrator.workers`.  A worker that has been started
and not appended, or popped and not yet stopped, is only in the hands of the call that
handles it.
-/

namespace ByteBattles.Judge.Orchestrator

open ByteBattles.Lib

def Pc.inHand : Pc → Option WorkerId
  | .started _ w | .stopSet _ w | .stopJoin _ w _ | .stopKill _ w => some w
  | _ => none

/-- An interrupt comes while no live worker is in hand. -/
def NothingInHand (s : State) (a : Action) : Prop :=
  a = .interrupt → ∀ w ∈ s.pc.inHand, (s.worker w).alive = false

instance (s : State) (a : Action) : Decidable (NothingInHand s a) :=
  inferInstanceAs (Decidable (a = .interrupt → ∀ w ∈ s.pc.inHand, (s.worker w).alive = false))

def Pc.scanning : Pc → Bool
  | .check _ | .gotHeartbeat _ _ _ | .frozen _ _ _ | .join _ _ => true
  | _ => false

/-- Outside the loop of `check_heartbeat`, the roster is the list with the worker in hand. -/
theorem roster_of_not_scanning {s : State} (h : s.pc.scanning = false) :
    s.roster = s.workers ++ s.pc.inHand.toList := by
  unfold State.roster
  cases hpc : s.pc with
  | check | gotHeartbeat | frozen | join => simp [hpc, Pc.scanning] at h
  | started | stopSet | stopJoin | stopKill => rfl
  | _ => exact (List.append_nil _).symm

/-! ## Steps -/

/-- The list changes only outside the loop of `check_heartbeat`. -/
theorem workers_of_orchestratorMove {s t : State} (h : OrchestratorMove s t)
    (hscan : t.pc.scanning = true) : t.workers = s.workers := by
  cases h with
  | publish | append | stopPop => cases hscan
  | _ => rfl

theorem inHand_of_scanning {cfg : Config} {s t : State} (h : orchestratorNext cfg s = some t)
    (hscan : t.pc.scanning = true) : s.pc.inHand = none := by
  have hstep := orchestratorStep_of_next h
  generalize s.pc = pc at hstep
  cases hstep with
  | append | stopSet | timeout | stopJoin | stopKill => cases hscan
  | _ => rfl

theorem pc_of_workerMove {s t : State} {i : WorkerId} {a : WorkerAction} (h : WorkerMove s i a t) :
    t.pc = s.pc ∧ t.workers = s.workers := by
  cases h <;> exact ⟨rfl, rfl⟩

/-- Everything but the orchestrator leaves its list alone. -/
theorem pc_of_step {cfg : Config} {s t : State} {a : Action} (h : step cfg s a = some t)
    (horchestrator : a ≠ .orchestrator) (hinterrupt : a ≠ .interrupt) :
    t.pc = s.pc ∧ t.workers = s.workers := by
  cases a with
  | tick | commit | deleteRow =>
      obtain rfl := Option.some.inj h
      exact ⟨rfl, rfl⟩
  | enqueue id =>
      obtain ⟨-, rfl⟩ := enqueue_of_step h
      exact ⟨rfl, rfl⟩
  | worker i a => exact pc_of_workerMove (workerMove_of_step h)
  | orchestrator => exact absurd rfl horchestrator
  | interrupt => exact absurd rfl hinterrupt

theorem scaleTo_ne (cfg : Config) (qsize current : Nat) :
    scaleTo cfg qsize current ≠ .scale ∧ scaleTo cfg qsize current ≠ .finished := by
  unfold scaleTo
  grind

/-! ## The invariant -/

/-- Every live worker is on the roster, and whoever is on it is in the list or in hand. -/
structure Accounted (s : State) : Prop where
  live : ∀ i, (s.worker i).alive = true → i ∈ s.roster
  roster : ∀ i ∈ s.roster, i ∈ s.workers ∨ s.pc.inHand = some i

theorem Accounted.of_not_scanning {s : State} (hscan : s.pc.scanning = false)
    (hlive : ∀ i, (s.worker i).alive = true → i ∈ s.roster) : Accounted s where
  live := hlive
  roster := by
    intro i hi
    rw [roster_of_not_scanning hscan, List.mem_append, Option.mem_toList] at hi
    exact hi

theorem Accounted.mem_workers {s : State} (hs : Accounted s) (hnone : s.pc.inHand = none)
    {i : WorkerId} (hi : (s.worker i).alive = true) : i ∈ s.workers := by
  rcases hs.roster i (hs.live i hi) with hmem | hhand
  · exact hmem
  · rw [hnone] at hhand
    cases hhand

/-- No process is started, and no live one leaves the roster. -/
theorem Accounted.live_of_keeps {s t : State} (hs : Accounted s) (h : Keeps s t) :
    ∀ i, (t.worker i).alive = true → i ∈ t.roster := by
  intro i hi
  obtain ⟨halive, hmem⟩ := h.live i hi
  exact hmem (hs.live i halive)

theorem Accounted.orchestrator {cfg : Config} {s t : State} (hs : Accounted s)
    (h : orchestratorNext cfg s = some t) : Accounted t := by
  have hmove := orchestratorMove_of_next h
  cases poolMove_of_next h with
  | keep _ hkeep =>
      have hlive := hs.live_of_keeps hkeep
      cases hscan : t.pc.scanning with
      | false => exact .of_not_scanning hscan hlive
      | true =>
          refine ⟨hlive, fun i hi => .inl ?_⟩
          rw [workers_of_orchestratorMove hmove hscan]
          rcases hs.roster i (hkeep.roster.mem hi) with hmem | hhand
          · exact hmem
          · rw [inHand_of_scanning h hscan] at hhand
            cases hhand
  | plan hpc =>
      have hroster : (s.goto (scaleTo cfg s.jobs.length s.workers.length)).roster = s.workers :=
        rosterIn_scaleTo _ _ _ _
      refine ⟨fun i hi => ?_, fun i hi => .inl (hroster ▸ hi)⟩
      rw [hroster]
      exact hs.mem_workers (by rw [hpc]; rfl) hi
  | grow n hpc =>
      apply Accounted.of_not_scanning rfl
      refine forall_setWorker (s := { s with global_worker_id := s.global_worker_id + 1 })
        (p := fun i w => w.alive = true → i ∈ s.workers ++ [s.global_worker_id]) ?_ ?_
      · intro i hi
        exact List.mem_append_left _ (hs.mem_workers (by rw [hpc]; rfl) hi)
      · intro _
        exact List.mem_append_right _ (List.mem_singleton_self _)

theorem Accounted.step {cfg : Config} {s t : State} {a : Action} (hs : Accounted s)
    (ha : NothingInHand s a) (h : step cfg s a = some t) : Accounted t := by
  by_cases horchestrator : a = .orchestrator
  · subst horchestrator
    exact hs.orchestrator h
  by_cases hinterrupt : a = .interrupt
  · subst hinterrupt
    obtain rfl := interrupt_of_step h
    apply Accounted.of_not_scanning rfl
    intro i hi
    rcases hs.roster i (hs.live i hi) with hmem | hhand
    · exact hmem
    · have hdead := ha rfl i hhand
      exact absurd (hi.symm.trans hdead) (by decide)
  · obtain ⟨hpc, hworkers⟩ := pc_of_step h horchestrator hinterrupt
    have hroster : t.roster = s.roster := by rw [State.roster, State.roster, hpc, hworkers]
    cases poolMove_of_step hinterrupt h with
    | keep _ hkeep =>
        refine ⟨hs.live_of_keeps hkeep, ?_⟩
        rw [hroster, hpc, hworkers]
        exact hs.roster
    | plan hscale =>
        have hcontra : scaleTo cfg s.jobs.length s.workers.length = .scale := hpc.trans hscale
        exact absurd hcontra (scaleTo_ne _ _ _).1
    | grow n hspawn =>
        have hcontra : Pc.started n s.global_worker_id = .spawn (n + 1) := hpc.trans hspawn
        cases hcontra

theorem accounted {cfg : Config} {s : State}
    (h : (system cfg).ReachableUnder NothingInHand s) : Accounted s := by
  refine System.PreservedUnder.invariant ?_ ?_ h
  · intro s t a _ hs ha hstep
    exact hs.step ha hstep
  · rintro _ rfl
    exact ⟨nofun, nofun⟩

/-! ## After the joins -/

/-- Only `shutdown` finishes, when no worker in the list is alive. -/
theorem finish_of_next {cfg : Config} {s t : State} (h : orchestratorNext cfg s = some t)
    (ht : t.pc = .finished) :
    s.pc = .shutdown ∧ t.worker = s.worker ∧ ∀ i ∈ s.workers, (s.worker i).alive = false := by
  have hstep := orchestratorStep_of_next h
  generalize s.pc = pc at hstep
  cases hstep with
  | finish hdead => exact ⟨rfl, rfl, hdead⟩
  | frozen scan w stage =>
      cases stage with
      | readSubmission =>
          cases hkey : (s.worker w).submission <;> simp [frozenStep, hkey, State.goto] at ht
      | _ => cases ht
  | scale => exact absurd ht (scaleTo_ne _ _ _).2
  | _ => cases ht

def Ended (s : State) : Prop := s.pc = .finished → ∀ i, (s.worker i).alive = false

theorem Ended.step {cfg : Config} {s t : State} {a : Action} (hacc : Accounted s) (hs : Ended s)
    (h : step cfg s a = some t) : Ended t := by
  intro ht i
  cases a with
  | tick | commit | deleteRow =>
      obtain rfl := Option.some.inj h
      exact hs ht i
  | enqueue id =>
      obtain ⟨-, rfl⟩ := enqueue_of_step h
      exact hs ht i
  | worker j a =>
      have hmove := workerMove_of_step h
      have hpc := (pc_of_workerMove hmove).1
      have hdead := hs (hpc ▸ ht) j
      rw [hmove.alive] at hdead
      cases hdead
  | orchestrator =>
      obtain ⟨hpc, hworker, hdead⟩ := finish_of_next h ht
      rw [hworker, ← Bool.not_eq_true]
      intro hi
      have hlisted := hacc.mem_workers (by rw [hpc]; rfl) hi
      exact absurd (hi.symm.trans (hdead i hlisted)) (by decide)
  | interrupt =>
      obtain rfl := interrupt_of_step h
      cases ht

theorem ended {cfg : Config} {s : State} (h : (system cfg).ReachableUnder NothingInHand s) :
    Ended s := by
  refine System.PreservedUnder.reachable (J := Accounted) ?_ (fun _ => accounted) ?_ h
  · intro s t a hacc hs _ hstep
    exact hs.step hacc hstep
  · rintro _ rfl
    exact fun hpc => by cases hpc

/-- **No worker is left behind** in a run whose interrupts come while no live worker is in
hand. -/
theorem none_left_behind {cfg : Config} {s : State}
    (h : (system cfg).ReachableUnder NothingInHand s) :
    (s.pc = .shutdown → ∀ i, (s.worker i).alive = true → i ∈ s.workers) ∧
      (s.pc = .finished → ∀ i, (s.worker i).alive = false) := by
  constructor
  · intro hpc i hi
    exact (accounted h).mem_workers (by rw [hpc]; rfl) hi
  · exact ended h

/-! ## A worker that is left behind -/

def fiveQueued : List Action :=
  [.commit, .enqueue 1, .commit, .enqueue 2, .commit, .enqueue 3, .commit, .enqueue 4, .commit,
    .enqueue 5]

def stopRaisesRun : List Action :=
  fiveQueued ++ List.replicate 11 Action.orchestrator ++
    List.replicate 4 (Action.worker 1 .next) ++ List.replicate 9 Action.orchestrator ++
    [Action.interrupt, Action.worker 1 .die, Action.orchestrator]

theorem not_none_left_behind :
    ¬ ∀ cfg s, (system cfg).Reachable s →
      (s.pc = .shutdown → ∀ i, (s.worker i).alive = true → i ∈ s.workers) ∧
        (s.pc = .finished → ∀ i, (s.worker i).alive = false) := by
  intro hall
  obtain ⟨s, hs, hpc, halive⟩ := System.exists_path (system ⟨1, 4, 30⟩) (fun _ _ => True) start
    stopRaisesRun (fun s => s.pc = .finished ∧ (s.worker 2).alive = true) (by decide)
  have hdead := (hall _ s ⟨_, rfl, hs⟩).2 hpc 2
  rw [halive] at hdead
  cases hdead

def checkRaisesRun : List Action := List.replicate 10 .orchestrator ++ [.interrupt]

theorem none_left_behind_check :
    ∃ s : State, (s.pc = .shutdown ∧ (s.worker 1).alive = true) ∧
      (s.pc = .shutdown → ∀ i, (s.worker i).alive = true → i ∈ s.workers) := by
  obtain ⟨s, hs, hpc, halive⟩ := System.exists_path (system ⟨1, 4, 30⟩) NothingInHand start
    checkRaisesRun (fun s => s.pc = .shutdown ∧ (s.worker 1).alive = true) (by decide)
  exact ⟨s, ⟨hpc, halive⟩, (none_left_behind ⟨_, rfl, hs⟩).1⟩

end ByteBattles.Judge.Orchestrator
