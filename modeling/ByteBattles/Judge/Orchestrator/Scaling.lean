import ByteBattles.Judge.Orchestrator.Wellformed
import Mathlib.Data.Finset.Card
import Mathlib.Data.List.Nodup

/-!
# The pool of judge workers

`JudgeOrchestrator.workers` while no call of the orchestrator raises.  A worker that
has just been started, is being examined or is being stopped is not always in the
list; `roster` adds it, and every live process is on the roster.
-/

namespace ByteBattles.Judge.Orchestrator

open ByteBattles.Lib

def desired (cfg : Config) (qsize : Nat) : Int :=
  min cfg.maxWorkers (max cfg.minWorkers (qsize / 5 + 1))

theorem desired_nonneg {cfg : Config} (hmin : 0 ≤ cfg.minWorkers)
    (hmax : cfg.minWorkers ≤ cfg.maxWorkers) (qsize : Nat) : 0 ≤ desired cfg qsize := by
  unfold desired
  omega

theorem desired_le (cfg : Config) (qsize : Nat) : desired cfg qsize ≤ cfg.maxWorkers := by
  unfold desired
  omega

theorem desired_mono (cfg : Config) {q q' : Nat} (hq : q ≤ q') :
    desired cfg q ≤ desired cfg q' := by
  unfold desired
  omega

/-- No call of the orchestrator raises, and it receives no `KeyboardInterrupt`. -/
def Uninterrupted (_ : State) (a : Action) : Prop := a ≠ .interrupt

instance (s : State) (a : Action) : Decidable (Uninterrupted s a) :=
  inferInstanceAs (Decidable (a ≠ .interrupt))

/-- Neither `check_heartbeat`, `spawn_worker` nor `stop_worker` is being executed. -/
def Pc.betweenOperations : Pc → Bool
  | .begin | .scale | .spawn _ | .stop _ => true
  | _ => false

def Pc.scaling : Pc → Bool
  | .spawn _ | .started _ _ | .appended _ _ | .unlocked _ _ => true
  | .stop _ | .stopSet _ _ | .stopJoin _ _ _ | .stopKill _ _ => true
  | _ => false

def rosterIn (pc : Pc) (workers : List WorkerId) : List WorkerId :=
  match pc with
  | .check scan => scan.alive_workers ++ scan.todo
  | .gotHeartbeat scan w _ | .frozen scan w _ | .join scan w =>
      scan.alive_workers ++ w :: scan.todo
  | .started _ w | .stopSet _ w | .stopJoin _ w _ | .stopKill _ w => workers ++ [w]
  | _ => workers

def State.roster (s : State) : List WorkerId := rosterIn s.pc s.workers

/-- The length of `workers` when the loop of `scale` ends. -/
def targetIn (pc : Pc) (workers : List WorkerId) : Nat :=
  match pc with
  | .spawn n | .appended n _ | .unlocked n _ => workers.length + n
  | .started n _ => workers.length + (n + 1)
  | .stop n | .stopSet n _ | .stopJoin n _ _ | .stopKill n _ => workers.length - n
  | _ => workers.length

def State.target (s : State) : Nat := targetIn s.pc s.workers

/-! ## Steps -/

structure Keeps (s t : State) : Prop where
  ids : t.global_worker_id = s.global_worker_id
  workers : t.workers.Sublist s.workers ∨ t.workers.Sublist s.roster
  roster : t.roster.Sublist s.roster
  live : ∀ i, (t.worker i).alive = true →
    (s.worker i).alive = true ∧ (i ∈ s.roster → i ∈ t.roster)
  target : t.target ≤ s.target ∨ t.target ≤ s.roster.length
  scaling : s.pc.scaling = true →
    t.target = s.target ∧ (t.pc.scaling = true ∨ t.pc = .begin)

inductive PoolMove (cfg : Config) (s : State) : State → Prop
  | keep (t : State) : Keeps s t → PoolMove cfg s t
  | plan :
      s.pc = .scale → PoolMove cfg s (s.goto (scaleTo cfg s.jobs.length s.workers.length))
  | grow (n : Nat) :
      s.pc = .spawn (n + 1) →
      PoolMove cfg s (({ s with global_worker_id := s.global_worker_id + 1 }.setWorker
        s.global_worker_id (s.worker s.global_worker_id).spawned).goto
        (.started n s.global_worker_id))

theorem Keeps.of_eq {s t : State} (hpc : t.pc = s.pc) (hworkers : t.workers = s.workers)
    (hids : t.global_worker_id = s.global_worker_id)
    (hlive : ∀ i, (t.worker i).alive = true → (s.worker i).alive = true) : Keeps s t where
  ids := hids
  workers := .inl (by rw [hworkers])
  roster := by rw [State.roster, State.roster, hpc, hworkers]
  live := by
    intro i hi
    rw [State.roster, State.roster, hpc, hworkers]
    exact ⟨hlive i hi, id⟩
  target := .inl (by rw [State.target, State.target, hpc, hworkers])
  scaling := by
    intro h
    rw [State.target, State.target, hpc, hworkers]
    exact ⟨rfl, .inl h⟩

/-- The orchestrator goes on; the same workers are on the roster. -/
theorem Keeps.of_roster {s t : State} (hids : t.global_worker_id = s.global_worker_id)
    (hlive : ∀ i, (t.worker i).alive = true → (s.worker i).alive = true)
    (hroster : t.roster = s.roster)
    (hworkers : t.workers.Sublist s.workers ∨ t.workers.Sublist s.roster)
    (htarget : t.target = s.target ∨ s.pc.scaling = false ∧ t.target = s.roster.length)
    (hscaling : s.pc.scaling = true → t.pc.scaling = true ∨ t.pc = .begin) : Keeps s t where
  ids := hids
  workers := hworkers
  roster := by rw [hroster]
  live := by
    intro i hi
    rw [hroster]
    exact ⟨hlive i hi, id⟩
  target := htarget.imp (fun h => h.le) fun h => h.2.le
  scaling := by
    intro h
    rcases htarget with ht | ⟨hs, -⟩
    · exact ⟨ht, hscaling h⟩
    · rw [h] at hs
      cases hs

theorem Keeps.stay {s t : State} (hids : t.global_worker_id = s.global_worker_id)
    (hworkers : t.workers = s.workers)
    (hlive : ∀ i, (t.worker i).alive = true → (s.worker i).alive = true)
    (hroster : t.roster = s.roster) (htarget : t.target = s.target)
    (hscaling : s.pc.scaling = true → t.pc.scaling = true ∨ t.pc = .begin) : Keeps s t :=
  .of_roster hids hlive hroster (.inl (by rw [hworkers])) (.inl htarget) hscaling

/-- A dead worker leaves the roster. -/
theorem Keeps.drop {s t : State} {w : WorkerId} {before after : List WorkerId}
    (hids : t.global_worker_id = s.global_worker_id)
    (hlive : ∀ i, (t.worker i).alive = true → (s.worker i).alive = true)
    (hdead : (t.worker w).alive = false) (hs : s.roster = before ++ w :: after)
    (ht : t.roster = before ++ after) (hworkers : t.workers = s.workers)
    (htarget : t.target = s.target)
    (hscaling : s.pc.scaling = true → t.pc.scaling = true ∨ t.pc = .begin) : Keeps s t where
  ids := hids
  workers := .inl (by rw [hworkers])
  roster := by
    rw [hs, ht]
    exact (List.sublist_cons_self w after).append_left before
  live := by
    intro i hi
    refine ⟨hlive i hi, fun hmem => ?_⟩
    have hne : i ≠ w := by
      rintro rfl
      rw [hi] at hdead
      cases hdead
    rw [hs, List.mem_append, List.mem_cons] at hmem
    rw [ht, List.mem_append]
    exact hmem.imp id fun h => h.resolve_left hne
  target := .inl htarget.le
  scaling := fun h => ⟨htarget, hscaling h⟩

/-- A worker is changed and no process is started. -/
theorem alive_of_setWorker {s : State} {w : WorkerId} {w' : Worker}
    (h : w'.alive = true → (s.worker w).alive = true) :
    ∀ i, ((s.setWorker w w').worker i).alive = true → (s.worker i).alive = true :=
  forall_setWorker (p := fun i w => w.alive = true → (s.worker i).alive = true) (fun _ => id) h

theorem poolMove_of_frozen {cfg : Config} {s : State} {scan : Scan} {w : WorkerId}
    {stage : Frozen} (hpc : s.pc = .frozen scan w stage) :
    PoolMove cfg s (frozenStep s scan w stage) := by
  have hroster : s.roster = scan.alive_workers ++ w :: scan.todo := by rw [State.roster, hpc]; rfl
  have hscaling : s.pc.scaling = true → False := by simp [hpc, Pc.scaling]
  have htarget : s.workers.length = s.target := by rw [State.target, hpc]; rfl
  -- every stage leaves the list alone, and only the last one touches the process
  have hkeep : ∀ {t : State}, t.global_worker_id = s.global_worker_id →
      (∀ i, (t.worker i).alive = true → (s.worker i).alive = true) →
      t.roster = scan.alive_workers ++ w :: scan.todo → t.workers = s.workers →
      t.target = t.workers.length → PoolMove cfg s t := by
    intro t hids hlive hr hw ht
    refine .keep t (.stay hids hw hlive (hr.trans hroster.symm) ?_ fun h => (hscaling h).elim)
    rw [ht, hw, htarget]
  cases stage with
  | readSubmission =>
      cases hkey : (s.worker w).submission <;> simp only [frozenStep, hkey]
      · exact hkeep rfl (fun _ => id) rfl rfl rfl
      · exact hkeep rfl (fun _ => id) rfl rfl rfl
  | push id => exact hkeep rfl (fun _ h => h) rfl rfl rfl
  | deleteShutdown pushed => exact hkeep rfl (alive_of_setWorker id) rfl rfl rfl
  | deleteHeartbeat pushed => exact hkeep rfl (alive_of_setWorker id) rfl rfl rfl
  | deleteSubmission pushed => exact hkeep rfl (alive_of_setWorker id) rfl rfl rfl
  | terminate pushed => exact hkeep rfl (alive_of_setWorker fun h => by cases h) rfl rfl rfl

theorem poolMove_of_next {cfg : Config} {s t : State} (h : orchestratorNext cfg s = some t) :
    PoolMove cfg s t := by
  have hstep := orchestratorStep_of_next h
  have hroster : s.roster = rosterIn s.pc s.workers := rfl
  have htarget : s.target = targetIn s.pc s.workers := rfl
  generalize hpc : s.pc = pc at hstep hroster htarget
  cases hstep with
  | publish ct alive =>
      have halive : s.roster = alive := hroster.trans (List.append_nil alive)
      refine .keep _ (.of_roster rfl (fun _ => id) halive.symm (.inr ?_)
        (.inr ⟨by rw [hpc]; rfl, by rw [halive]; rfl⟩) (by simp [hpc, Pc.scaling]))
      rw [halive]
      exact .refl _
  | inTime scan w hb =>
      have hsame : rosterIn (.check { scan with alive_workers := scan.alive_workers ++ [w] })
          s.workers = s.roster := (List.append_cons _ _ _).symm.trans hroster.symm
      exact .keep _ (.stay rfl rfl (fun _ => id) hsame htarget.symm (by simp [hpc, Pc.scaling]))
  | frozen scan w stage => exact poolMove_of_frozen hpc
  | join scan w hdead =>
      exact .keep _ (.drop rfl (fun _ => id) hdead hroster rfl rfl htarget.symm
        (by simp [hpc, Pc.scaling]))
  | scale => exact .plan hpc
  | spawn n => exact .grow n hpc
  | append n w =>
      refine .keep _ (.of_roster rfl (fun _ => id) hroster.symm (.inr (by rw [hroster]; rfl))
        (.inl ?_) fun _ => .inl rfl)
      rw [htarget]
      simp only [State.target, State.goto, targetIn, List.length_append, List.length_singleton]
      omega
  | unlock n w | beat n w | stopSet n w =>
      exact .keep _ (.stay rfl rfl (alive_of_setWorker id) hroster.symm htarget.symm
        fun _ => .inl rfl)
  | spawned | stopped =>
      exact .keep _ (.stay rfl rfl (fun _ => id) hroster.symm htarget.symm fun _ => .inr rfl)
  | stopNone n hq =>
      have hnil : s.workers = [] := rpop_eq_none.mp hq
      exact .keep _ (.of_roster rfl (fun _ => id) hroster.symm (.inl (.refl _))
        (.inl (by rw [htarget]; simp [State.target, State.goto, targetIn, hnil]))
        fun _ => .inl rfl)
  | stopPop n w workers hq =>
      have hworkers : s.workers = workers ++ [w] := rpop_eq_some.mp hq
      refine .keep _ (.of_roster rfl (fun _ => id) ?_ (.inl ?_) (.inl ?_) fun _ => .inl rfl)
      · rw [hroster]
        exact hworkers.symm
      · rw [hworkers]
        exact List.sublist_append_left workers [w]
      · rw [htarget]
        simp only [State.target, State.goto, targetIn, hworkers, List.length_append,
          List.length_singleton]
        omega
  | timeout n w since =>
      exact .keep _ (.stay rfl rfl (fun _ => id) hroster.symm htarget.symm fun _ => .inl rfl)
  | stopJoin n w since hdead =>
      exact .keep _ (.drop rfl (fun _ => id) hdead hroster (List.append_nil _).symm rfl
        htarget.symm fun _ => .inl rfl)
  | stopKill n w =>
      exact .keep _ (.drop rfl (alive_of_setWorker fun h => by cases h)
        (by simp [State.goto, Worker.alive, Worker.goto]) hroster (List.append_nil _).symm rfl
        htarget.symm fun _ => .inl rfl)
  | _ =>
      exact .keep _ (.stay rfl rfl (fun _ => id) hroster.symm htarget.symm
        (by simp [hpc, Pc.scaling]))

theorem poolMove_of_step {cfg : Config} {s t : State} {a : Action} (ha : Uninterrupted s a)
    (h : step cfg s a = some t) : PoolMove cfg s t := by
  cases a with
  | tick | commit | deleteRow =>
      obtain rfl := Option.some.inj h
      exact .keep _ (.of_eq rfl rfl rfl fun _ => id)
  | enqueue id =>
      obtain ⟨-, rfl⟩ := enqueue_of_step h
      exact .keep _ (.of_eq rfl rfl rfl fun _ h => h)
  | worker i a =>
      have hmove := workerMove_of_step h
      have halive := hmove.alive
      have hset : ∀ {w' : Worker}, PoolMove cfg s (s.setWorker i w') := by
        intro w'
        exact .keep _ (.of_eq rfl rfl rfl (alive_of_setWorker fun _ => halive))
      have hlive : ∀ {jobs : List SubmissionId} {rows : SubmissionId → Option Verdict}
          {w' : Worker}, PoolMove cfg s ({ s with jobs := jobs, rows := rows }.setWorker i w') := by
        intro jobs rows w'
        exact .keep _ (.of_eq rfl rfl rfl (alive_of_setWorker (s := { s with
          jobs := jobs, rows := rows }) fun _ => halive))
      cases hmove with
      | pop | requeue | record => exact hlive
      | _ => exact hset
  | orchestrator => exact poolMove_of_next h
  | interrupt => exact absurd rfl ha

/-! ## The invariant -/

/-- The pool while no call of the orchestrator raises. -/
structure Staffed (cfg : Config) (s : State) : Prop where
  workers : s.workers.Nodup
  given : ∀ i ∈ s.workers, i < s.global_worker_id
  roster : s.roster.Nodup
  onRoster : ∀ i ∈ s.roster, i < s.global_worker_id
  live : ∀ i, (s.worker i).alive = true → i ∈ s.roster
  bounded : (s.roster.length : Int) ≤ cfg.maxWorkers
  target : (s.target : Int) ≤ cfg.maxWorkers

theorem Staffed.keep {cfg : Config} {s t : State} (hs : Staffed cfg s) (h : Keeps s t) :
    Staffed cfg t where
  workers := h.workers.elim (fun hsub => hsub.nodup hs.workers) fun hsub => hsub.nodup hs.roster
  given := by
    intro i hi
    rw [h.ids]
    exact h.workers.elim (fun hsub => hs.given i (hsub.mem hi))
      fun hsub => hs.onRoster i (hsub.mem hi)
  roster := h.roster.nodup hs.roster
  onRoster := by
    intro i hi
    rw [h.ids]
    exact hs.onRoster i (h.roster.mem hi)
  live := by
    intro i hi
    obtain ⟨halive, hmem⟩ := h.live i hi
    exact hmem (hs.live i halive)
  bounded := by
    have hlength := h.roster.length_le
    have hbounded := hs.bounded
    omega
  target := by
    have hbounded := hs.bounded
    have htarget := hs.target
    rcases h.target with hle | hle <;> omega

/-- `scale` aims at the number of workers of its policy. -/
theorem target_scaleTo {cfg : Config} (hmin : 0 ≤ cfg.minWorkers)
    (hmax : cfg.minWorkers ≤ cfg.maxWorkers) (qsize : Nat) (workers : List WorkerId) :
    (targetIn (scaleTo cfg qsize workers.length) workers : Int) = desired cfg qsize := by
  have hnonneg := desired_nonneg hmin hmax qsize
  have hscale : scaleTo cfg qsize workers.length =
      if (workers.length : Int) < desired cfg qsize then
        .spawn (desired cfg qsize - workers.length).toNat
      else if desired cfg qsize < (workers.length : Int) then
        .stop (workers.length - desired cfg qsize).toNat
      else .begin := rfl
  rw [hscale]
  split
  · simp only [targetIn]
    omega
  · split
    · simp only [targetIn]
      omega
    · simp only [targetIn]
      omega

theorem rosterIn_scaleTo (cfg : Config) (qsize current : Nat) (workers : List WorkerId) :
    rosterIn (scaleTo cfg qsize current) workers = workers := by
  unfold scaleTo
  grind [rosterIn]

theorem Staffed.plan {cfg : Config} {s : State} (hmin : 0 ≤ cfg.minWorkers)
    (hmax : cfg.minWorkers ≤ cfg.maxWorkers) (hs : Staffed cfg s) (hpc : s.pc = .scale) :
    Staffed cfg (s.goto (scaleTo cfg s.jobs.length s.workers.length)) := by
  have hroster : s.roster = s.workers := by rw [State.roster, hpc]; rfl
  have hnext : (s.goto (scaleTo cfg s.jobs.length s.workers.length)).roster = s.roster := by
    rw [hroster]
    exact rosterIn_scaleTo _ _ _ _
  exact
    { workers := hs.workers
      given := hs.given
      roster := hnext ▸ hs.roster
      onRoster := hnext ▸ hs.onRoster
      live := hnext ▸ hs.live
      bounded := hnext ▸ hs.bounded
      target := (target_scaleTo hmin hmax _ _).le.trans (desired_le _ _) }

/-- A new worker has an identifier that no worker has had. -/
theorem Staffed.grow {cfg : Config} {s : State} {n : Nat} (hs : Staffed cfg s)
    (hpc : s.pc = .spawn (n + 1)) :
    Staffed cfg (({ s with global_worker_id := s.global_worker_id + 1 }.setWorker
      s.global_worker_id (s.worker s.global_worker_id).spawned).goto
      (.started n s.global_worker_id)) := by
  have hroster : s.roster = s.workers := by rw [State.roster, hpc]; rfl
  have htarget : s.target = s.workers.length + (n + 1) := by rw [State.target, hpc]; rfl
  have hbound : ((s.workers.length + (n + 1) : Nat) : Int) ≤ cfg.maxWorkers := htarget ▸ hs.target
  have hfresh : ∀ i ∈ s.workers, i ≠ s.global_worker_id := fun i hi => (hs.given i hi).ne
  refine
    { workers := hs.workers
      given := fun i hi => Nat.lt_succ_of_lt (hs.given i hi)
      roster := ?_
      onRoster := ?_
      live := ?_
      bounded := ?_
      target := hbound }
  · refine List.nodup_append.mpr ⟨hs.workers, List.nodup_singleton _, fun i hi j hj => ?_⟩
    rw [List.mem_singleton.mp hj]
    exact hfresh i hi
  · intro i hi
    rcases List.mem_append.mp hi with hi | hi
    · exact Nat.lt_succ_of_lt (hs.given i hi)
    · rw [List.mem_singleton.mp hi]
      exact Nat.lt_succ_self _
  · refine forall_setWorker (s := { s with global_worker_id := s.global_worker_id + 1 })
      (p := fun i w => w.alive = true → i ∈ s.workers ++ [s.global_worker_id]) ?_ ?_
    · intro i hi
      exact List.mem_append_left _ (hroster ▸ hs.live i hi)
    · intro _
      exact List.mem_append_right _ (List.mem_singleton_self _)
  · simp only [State.roster, State.goto, State.setWorker, rosterIn, List.length_append,
      List.length_singleton]
    omega

theorem staffed_start {cfg : Config} (hmin : 0 ≤ cfg.minWorkers)
    (hmax : cfg.minWorkers ≤ cfg.maxWorkers) : Staffed cfg start where
  workers := .nil
  given := nofun
  roster := .nil
  onRoster := nofun
  live := nofun
  bounded := hmin.trans hmax
  target := hmin.trans hmax

theorem staffed {cfg : Config} (hmin : 0 ≤ cfg.minWorkers)
    (hmax : cfg.minWorkers ≤ cfg.maxWorkers) {s : State}
    (h : (system cfg).ReachableUnder Uninterrupted s) : Staffed cfg s := by
  refine System.PreservedUnder.invariant ?_ ?_ h
  · intro s t a _ hs ha hstep
    cases poolMove_of_step ha hstep with
    | keep _ h => exact hs.keep h
    | plan hpc => exact hs.plan hmin hmax hpc
    | grow n hpc => exact hs.grow hpc
  · rintro _ rfl
    exact staffed_start hmin hmax

/-! ## What the pool looks like -/

/-- `workers` is a list of different identifiers that were given to workers; between two
operations it contains every live worker, and at no time are too many of them alive. -/
structure PoolWellformed (cfg : Config) (s : State) : Prop where
  distinct : s.workers.Nodup
  given : ∀ i ∈ s.workers, i < s.global_worker_id
  listed : s.pc.betweenOperations = true → ∀ i, (s.worker i).alive = true → i ∈ s.workers
  atMost : ∀ live : Finset WorkerId, (∀ i ∈ live, (s.worker i).alive = true) →
    (live.card : Int) ≤ cfg.maxWorkers

theorem roster_of_betweenOperations {s : State} (h : s.pc.betweenOperations = true) :
    s.roster = s.workers := by
  unfold State.roster
  cases hpc : s.pc with
  | begin | scale | spawn | stop => rfl
  | _ => simp [hpc, Pc.betweenOperations] at h

theorem Staffed.poolWellformed {cfg : Config} {s : State} (hs : Staffed cfg s) :
    PoolWellformed cfg s where
  distinct := hs.workers
  given := hs.given
  listed := by
    intro hpc i hi
    rw [← roster_of_betweenOperations hpc]
    exact hs.live i hi
  atMost := by
    intro live hlive
    have hsub : live ⊆ s.roster.toFinset := by
      intro i hi
      exact List.mem_toFinset.mpr (hs.live i (hlive i hi))
    have hcard : live.card ≤ s.roster.length :=
      (Finset.card_le_card hsub).trans (List.toFinset_card_le _)
    have hbounded := hs.bounded
    omega

def State.gives (s : State) (id : WorkerId) : Prop :=
  (∃ n, s.pc = .spawn (n + 1)) ∧ id = s.global_worker_id

theorem global_worker_id_mono {cfg : Config} {s t : State}
    (h : (system cfg).PathUnder Uninterrupted s t) :
    s.global_worker_id ≤ t.global_worker_id := by
  refine System.PreservedUnder.path (I := fun u => s.global_worker_id ≤ u.global_worker_id)
    ?_ le_rfl h
  intro u v a _ hu ha hstep
  cases poolMove_of_step ha hstep with
  | keep _ h => exact hu.trans h.ids.ge
  | plan => exact hu
  | grow => exact Nat.le_succ_of_le hu

theorem not_gives_again {cfg : Config} {s s' t : State} {id : WorkerId} (hs : s.gives id)
    (hstep : orchestratorNext cfg s = some s') (h : (system cfg).PathUnder Uninterrupted s' t) :
    ¬ t.gives id := by
  obtain ⟨⟨n, hpc⟩, rfl⟩ := hs
  have hnext : s'.global_worker_id = s.global_worker_id + 1 := by
    simp only [orchestratorNext, hpc, Option.some.injEq] at hstep
    rw [← hstep]
    rfl
  have hmono := global_worker_id_mono h
  rw [hnext] at hmono
  rintro ⟨-, heq⟩
  exact absurd heq (Nat.ne_of_lt hmono)

/-- The same call of `scale` is being executed. -/
def InScale (s : State) (a : Action) : Prop := s.pc ≠ .begin ∧ Uninterrupted s a

instance (s : State) (a : Action) : Decidable (InScale s a) :=
  inferInstanceAs (Decidable (_ ∧ _))

/-- What `scale` has decided stays its aim until it returns. -/
theorem target_of_path {cfg : Config} {s t : State} (hs : s.pc.scaling = true ∨ s.pc = .begin)
    (h : (system cfg).PathUnder InScale s t) :
    t.target = s.target ∧ (t.pc.scaling = true ∨ t.pc = .begin) := by
  refine System.PreservedUnder.path
    (I := fun u => u.target = s.target ∧ (u.pc.scaling = true ∨ u.pc = .begin)) ?_ ⟨rfl, hs⟩ h
  rintro u v a - ⟨hu, hpc⟩ ⟨hbegin, ha⟩ hstep
  have hscaling := hpc.resolve_right hbegin
  cases poolMove_of_step ha hstep with
  | keep _ h =>
      obtain ⟨htarget, hnext⟩ := h.scaling hscaling
      exact ⟨htarget.trans hu, hnext⟩
  | plan hscale =>
      rw [hscale] at hscaling
      cases hscaling
  | grow n hspawn =>
      refine ⟨?_, .inl rfl⟩
      rw [← hu, State.target, State.target, hspawn]
      rfl

/-- `scale` returns with the number of workers of its policy. -/
theorem length_after_scale {cfg : Config} {s s' t : State} (hmin : 0 ≤ cfg.minWorkers)
    (hmax : cfg.minWorkers ≤ cfg.maxWorkers) (hpc : s.pc = .scale)
    (hstep : orchestratorNext cfg s = some s') (h : (system cfg).PathUnder InScale s' t)
    (ht : t.pc = .begin) : (t.workers.length : Int) = desired cfg s.jobs.length := by
  simp only [orchestratorNext, hpc, Option.some.injEq] at hstep
  subst hstep
  have hscaling : ∀ current, (scaleTo cfg s.jobs.length current).scaling = true ∨
      scaleTo cfg s.jobs.length current = .begin := by
    intro current
    unfold scaleTo
    grind [Pc.scaling]
  obtain ⟨htarget, -⟩ := target_of_path (hscaling _) h
  have hlength : t.target = t.workers.length := by rw [State.target, ht]; rfl
  rw [← hlength, htarget]
  exact target_scaleTo hmin hmax _ _

/-- The pool of the orchestrator is well formed in every run. -/
theorem pool_wellformed (cfg : Config) (hmin : 0 ≤ cfg.minWorkers)
    (hmax : cfg.minWorkers ≤ cfg.maxWorkers) :
    (∀ s, (system cfg).ReachableUnder Uninterrupted s → PoolWellformed cfg s) ∧
    (∀ s s' t id, s.gives id → orchestratorNext cfg s = some s' →
      (system cfg).PathUnder Uninterrupted s' t → ¬ t.gives id) ∧
    (∀ s s' t, s.pc = .scale → orchestratorNext cfg s = some s' →
      (system cfg).PathUnder InScale s' t → t.pc = .begin →
      (t.workers.length : Int) = desired cfg s.jobs.length) ∧
    ∀ q q', q ≤ q' → desired cfg q ≤ desired cfg q' := by
  refine ⟨fun s hs => ?_, fun s s' t id => ?_, fun s s' t => ?_, fun _ _ => desired_mono cfg⟩
  · exact (staffed hmin hmax hs).poolWellformed
  · exact not_gives_again
  · exact length_after_scale hmin hmax

def threeWorkers : Config := ⟨1, 3, 30⟩

def sixWaiting : List Action :=
  (List.range 6).flatMap (fun i => [.commit, .enqueue (i + 1)]) ++ List.replicate 2 .orchestrator

def growRun : List Action :=
  List.replicate 5 .orchestrator ++ List.replicate 4 (.worker 1 .next) ++
    List.replicate 4 .orchestrator

theorem pool_wellformed_twoWorkers :
    ∃ t, (system threeWorkers).ReachableUnder Uninterrupted t ∧ t.workers = [1, 2] ∧
      (t.worker 1).held = some 1 ∧ (t.worker 2).alive = true ∧ PoolWellformed threeWorkers t ∧
      (t.workers.length : Int) = desired threeWorkers 6 := by
  obtain ⟨s, hs, hpc, hjobs, hrun⟩ := System.exists_path (system threeWorkers) Uninterrupted start
    sixWaiting (fun s => s.pc = .scale ∧ s.jobs.length = 6 ∧
      (orchestratorNext threeWorkers s).any (fun s' =>
        ((system threeWorkers).runUnder InScale s' growRun).any fun t =>
          decide (t.pc = .begin ∧ t.workers = [1, 2] ∧ (t.worker 1).held = some 1 ∧
            (t.worker 2).alive = true)) = true) (by decide)
  obtain ⟨s', hstep, hgrow⟩ := (Option.any_eq_true _ _).mp hrun
  obtain ⟨t, ht, hbegin, hworkers, hheld, halive⟩ := System.exists_path (system threeWorkers)
    InScale s' growRun (fun t => t.pc = .begin ∧ t.workers = [1, 2] ∧ (t.worker 1).held = some 1 ∧
      (t.worker 2).alive = true) hgrow
  have hpool := pool_wellformed threeWorkers (by decide) (by decide)
  have hfirst : (system threeWorkers).ReachableUnder Uninterrupted s := ⟨_, rfl, hs⟩
  have hreach : (system threeWorkers).ReachableUnder Uninterrupted t := by
    have hmove : (system threeWorkers).step s .orchestrator = some s' := hstep
    have hallowed : Uninterrupted s .orchestrator := fun h => by cases h
    obtain ⟨s₀, h₀, hprefix⟩ := hfirst.step hallowed hmove
    exact ⟨s₀, h₀, hprefix.trans (ht.mono fun _ _ h => h.2)⟩
  have hlength := hpool.2.2.1 s s' t hpc hstep ht hbegin
  rw [hjobs] at hlength
  exact ⟨t, hreach, hworkers, hheld, halive, hpool.1 t hreach, hlength⟩

end ByteBattles.Judge.Orchestrator
