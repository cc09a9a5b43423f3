import ByteBattles.Judge.Orchestrator.Moves

/-!
# Facts about every run of the judge

Which ids are in circulation, what a worker carries between two submissions, and
that `check_heartbeat` examines workers of `JudgeOrchestrator.workers` only.
-/

namespace ByteBattles.Judge.Orchestrator

open ByteBattles.Lib

/-! ## States with one step taken -/

@[simp] theorem setWorker_self (s : State) (i : WorkerId) (w : Worker) :
    (s.setWorker i w).worker i = w := by
  simp [State.setWorker]

theorem setWorker_of_ne (s : State) {i j : WorkerId} (w : Worker) (h : j ≠ i) :
    (s.setWorker i w).worker j = s.worker j := by
  simp [State.setWorker, h]

/-- What holds of every worker still holds after worker `i` has changed. -/
theorem forall_setWorker {s : State} {p : WorkerId → Worker → Prop} {i : WorkerId} {w : Worker}
    (h : ∀ j, p j (s.worker j)) (hw : p i w) : ∀ j, p j ((s.setWorker i w).worker j) := by
  intro j
  by_cases hj : j = i
  · subst hj
    simpa using hw
  · rw [setWorker_of_ne s w hj]
    exact h j

@[simp] theorem kept_setWorker (s : State) (i : WorkerId) (w : Worker) :
    kept (s.setWorker i w) = kept s := rfl

/-! ## The invariant -/

/-- A worker between two submissions holds none, and what it holds is its current id. -/
structure Worker.Ok (w : Worker) : Prop where
  idle : w.position.idle = true → w.held = none
  held : ∀ id, w.held = some id → w.submission_id = some id

/-- Somebody can still read the id. -/
def Circulates (s : State) (id : SubmissionId) : Prop :=
  id ∈ s.jobs ∨
    (∃ i, (s.worker i).submission_id = some id ∨ (s.worker i).submission = some id) ∨
    s.pc.names id

def Drawn (s : State) (id : SubmissionId) : Prop := 0 < id ∧ id < s.nextSubmission

structure Wellformed (s : State) : Prop where
  ok : ∀ i, (s.worker i).Ok
  spawned : ∀ i, (s.worker i).alive = true → i < s.global_worker_id
  kept : ∀ i ∈ kept s, i ∈ s.workers
  circulates : ∀ id, Circulates s id → id ∉ s.unsent ∧ Drawn s id
  unsent : ∀ id ∈ s.unsent, Drawn s id
  first : 0 < s.nextSubmission

theorem Worker.Ok.of_sameIds {w w' : Worker} (h : w.Ok) (hids : w.SameIds w')
    (hidle : w'.position.idle = true → w.position.idle = true) : w'.Ok := by
  obtain ⟨hid, hheld, -⟩ := hids
  refine ⟨fun hp => ?_, fun id hw => ?_⟩
  · rw [hheld]
    exact h.idle (hidle hp)
  · rw [hid]
    exact h.held id (hheld ▸ hw)

theorem Circulates.job {s : State} {id : SubmissionId} (h : id ∈ s.jobs) : Circulates s id :=
  .inl h

theorem Circulates.current {s : State} {i : WorkerId} {id : SubmissionId}
    (h : (s.worker i).submission_id = some id) : Circulates s id :=
  .inr (.inl ⟨i, .inl h⟩)

theorem Circulates.key {s : State} {i : WorkerId} {id : SubmissionId}
    (h : (s.worker i).submission = some id) : Circulates s id :=
  .inr (.inl ⟨i, .inr h⟩)

theorem Circulates.named {s : State} {id : SubmissionId} (h : s.pc.names id) :
    Circulates s id :=
  .inr (.inr h)

/-- A step of worker `i` that brings no new id into circulation. -/
theorem Circulates.of_setWorker {s t : State} {i : WorkerId} {w : Worker} {id : SubmissionId}
    (h : Circulates (t.setWorker i w) id) (hworker : t.worker = s.worker) (hpc : t.pc = s.pc)
    (hjobs : ∀ k ∈ t.jobs, Circulates s k)
    (hcurrent : ∀ k, w.submission_id = some k → Circulates s k)
    (hkey : ∀ k, w.submission = some k → Circulates s k) : Circulates s id := by
  rcases h with hjob | ⟨j, hj⟩ | hname
  · exact hjobs id hjob
  · by_cases hji : j = i
    · subst hji
      rw [setWorker_self] at hj
      exact hj.elim (hcurrent id) (hkey id)
    · rw [setWorker_of_ne t w hji, hworker] at hj
      exact .inr (.inl ⟨j, hj⟩)
  · exact .named (hpc ▸ hname)

theorem circulates_of_workerMove {s t : State} {i : WorkerId} {a : WorkerAction}
    (h : WorkerMove s i a t) {id : SubmissionId} (hid : Circulates t id) : Circulates s id := by
  have hsame : ∀ {w' : Worker}, (s.worker i).SameIds w' → Circulates (s.setWorker i w') id →
      Circulates s id := by
    rintro w' ⟨h1, -, h3⟩ h
    exact h.of_setWorker rfl rfl (fun _ => .job) (fun _ hk => .current (h1 ▸ hk))
      (fun _ hk => .key (h3 ▸ hk))
  cases h with
  | walk w' _ _ hids => exact hsame hids hid
  | leave => exact hsame (.goto _ _) hid
  | pop k jobs hp hq =>
      have hjobs := rpop_eq_some.mp hq
      refine hid.of_setWorker rfl rfl (fun k hk => .job (by simp [hjobs, hk])) ?_
        (fun _ hk => .key hk)
      rintro _ ⟨⟩
      exact .job (by simp [hjobs])
  | setKey =>
      exact hid.of_setWorker rfl rfl (fun _ => .job) (fun _ => .current) (fun _ => .current)
  | clearKey =>
      exact hid.of_setWorker rfl rfl (fun _ => .job) (fun _ => .current) nofun
  | requeue k _ hk =>
      refine hid.of_setWorker rfl rfl ?_ (fun _ => .current) (fun _ => .key)
      intro j hj
      rcases List.mem_cons.mp hj with rfl | hj
      · exact .current hk
      · exact .job hj
  | unbound => exact hsame (.goto _ _) hid
  | cleanup w' _ _ _ hids => exact hsame hids hid
  | record k v =>
      exact hid.of_setWorker rfl rfl (fun _ => .job) (fun _ => .current) (fun _ => .key)
  | drop => exact hid.of_setWorker rfl rfl (fun _ => .job) (fun _ => .current) (fun _ => .key)
  | caught => exact hsame (.goto _ _) hid
  | interrupt => exact hsame (.goto _ _) hid
  | kill => exact hsame (.goto _ _) hid

theorem circulates_of_orchestratorMove {s t : State} (h : OrchestratorMove s t)
    {id : SubmissionId} (hid : Circulates t id) : Circulates s id := by
  have hsame : ∀ {w : WorkerId} {w' : Worker} {pc : Pc}, (s.worker w).SameIds w' →
      (pc.names id → s.pc.names id) → Circulates ((s.setWorker w w').goto pc) id →
      Circulates s id := by
    rintro w w' pc ⟨h1, -, h3⟩ hpc (hjob | ⟨j, hj⟩ | hname)
    · exact .job hjob
    · exact Circulates.of_setWorker (s := s) (t := s) (i := w) (w := w') (.inr (.inl ⟨j, hj⟩)) rfl
        rfl (fun _ => .job) (fun _ hk => .current (h1 ▸ hk)) (fun _ hk => .key (h3 ▸ hk))
    · exact .named (hpc hname)
  cases h with
  | goto pc _ hnames =>
      rcases hid with hjob | hworker | hname
      · exact .job hjob
      · exact .inr (.inl hworker)
      · exact absurd hname (hnames id)
  | publish | append | stopPop | finish =>
      rcases hid with hjob | hworker | hname
      · exact .job hjob
      · exact .inr (.inl hworker)
      · exact False.elim hname
  | giveUp =>
      rcases hid with hjob | hworker | hname
      · exact .job hjob
      · exact .inr (.inl hworker)
      · exact False.elim hname
  | readKey scan w k hpc hk =>
      rcases hid with hjob | hworker | rfl
      · exact .job hjob
      · exact .inr (.inl hworker)
      · exact .key hk
  | push scan w k hpc =>
      have hk : Circulates s k := .named (by rw [hpc]; rfl)
      rcases hid with hjob | hworker | hname
      · rcases List.mem_cons.mp hjob with rfl | hjob
        · exact hk
        · exact .job hjob
      · exact .inr (.inl hworker)
      · obtain rfl : k = id := Option.some.inj hname
        exact hk
  | clear scan w stage stage' w' hpc _ _ _ hnames hids =>
      exact hsame hids (fun h => hpc ▸ hnames id h) hid
  | deleteKey scan w pushed hpc =>
      rcases hid with hjob | ⟨j, hj⟩ | hname
      · exact .job hjob
      · exact Circulates.of_setWorker (s := s) (t := s) (i := w)
          (w := (s.worker w).deleteKey) (.inr (.inl ⟨j, hj⟩)) rfl rfl
          (fun _ => .job) (fun _ => .current) nofun
      · exact .named (hpc ▸ hname)
  | terminate => exact hsame (.goto _ _) False.elim hid
  | spawn n =>
      rcases hid with hjob | ⟨j, hj⟩ | hname
      · exact .job hjob
      · exact Circulates.of_setWorker (s := s)
          (t := { s with global_worker_id := s.global_worker_id + 1 })
          (i := s.global_worker_id) (w := (s.worker s.global_worker_id).spawned)
          (.inr (.inl ⟨j, hj⟩)) rfl rfl (fun _ => .job) nofun (fun _ => .key)
      · exact False.elim hname
  | tune w w' pc _ _ hnames hids => exact hsame hids (fun h => absurd h (hnames id)) hid
  | stopKill => exact hsame (.goto _ _) False.elim hid

theorem ok_of_workerMove {s t : State} {i : WorkerId} {a : WorkerAction} (hs : ∀ j, (s.worker j).Ok)
    (h : WorkerMove s i a t) : ∀ j, (t.worker j).Ok := by
  have hset : ∀ {w' : Worker}, w'.Ok → ∀ j, ((s.setWorker i w').worker j).Ok :=
    fun hw => forall_setWorker (p := fun _ w => w.Ok) hs hw
  cases h with
  | walk w' hidle _ hids => exact hset ((hs i).of_sameIds hids fun _ => hidle)
  | leave hidle => exact hset ((hs i).of_sameIds (.goto _ _) nofun)
  | pop k jobs => exact hset ⟨nofun, fun _ h => h⟩
  | setKey => exact hset ⟨nofun, (hs i).held⟩
  | clearKey hp => exact hset ⟨fun _ => (hs i).idle (by rw [hp]; rfl), (hs i).held⟩
  | requeue => exact hset ⟨fun _ => rfl, nofun⟩
  | unbound => exact hset ((hs i).of_sameIds (.goto _ _) nofun)
  | cleanup w' _ _ hout hids =>
      refine hset ((hs i).of_sameIds hids fun hidle => ?_)
      cases hp : w'.position <;> simp_all [Position.inLoop, Position.idle]
  | record => exact hset ⟨fun _ => rfl, nofun⟩
  | drop => exact hset ⟨fun _ => rfl, nofun⟩
  | caught => exact hset ((hs i).of_sameIds (.goto _ _) nofun)
  | interrupt => exact hset ((hs i).of_sameIds (.goto _ _) nofun)
  | kill => exact hset ((hs i).of_sameIds (.goto _ _) nofun)

theorem ok_of_orchestratorMove {s t : State} (hs : ∀ j, (s.worker j).Ok)
    (h : OrchestratorMove s t) : ∀ j, (t.worker j).Ok := by
  have hset : ∀ {w : WorkerId} {w' : Worker}, w'.Ok → ∀ j, ((s.setWorker w w').worker j).Ok :=
    fun hw => forall_setWorker (p := fun _ w => w.Ok) hs hw
  cases h with
  | clear scan w _ _ w' _ _ _ _ _ hids hp =>
      exact hset ((hs w).of_sameIds hids fun hidle => hp ▸ hidle)
  | deleteKey scan w => exact hset ⟨(hs w).idle, (hs w).held⟩
  | terminate scan w => exact hset ((hs w).of_sameIds (.goto _ _) nofun)
  | spawn => exact hset ⟨fun _ => rfl, nofun⟩
  | tune w w' _ _ _ _ hids hp => exact hset ((hs w).of_sameIds hids fun hidle => hp ▸ hidle)
  | stopKill n w => exact hset ((hs w).of_sameIds (.goto _ _) nofun)
  | _ => exact hs

theorem Worker.alive_of_inLoop {w : Worker} (h : w.position.inLoop = true) : w.alive = true := by
  cases hp : w.position <;> simp_all [Worker.alive, Position.inLoop]

theorem WorkerMove.alive {s t : State} {i : WorkerId} {a : WorkerAction}
    (h : WorkerMove s i a t) : (s.worker i).alive = true := by
  have hidle : (s.worker i).position.idle = true → (s.worker i).alive = true := by
    intro h
    cases hp : (s.worker i).position <;> simp_all [Worker.alive, Position.idle]
  have htry : (s.worker i).position.inTry = true → (s.worker i).alive = true := by
    intro h
    cases hp : (s.worker i).position <;> simp_all [Worker.alive, Position.inTry]
  cases h with
  | walk _ h | leave h => exact hidle h
  | pop _ _ h | setKey h | clearKey h | requeue _ h | unbound h | record _ _ h =>
      exact Worker.alive_of_position h (by simp)
  | drop h | caught h | interrupt h => exact htry h
  | cleanup _ _ h | kill _ _ h => exact h

theorem Wellformed.worker {s t : State} {i : WorkerId} {a : WorkerAction} (hs : Wellformed s)
    (h : WorkerMove s i a t) : Wellformed t := by
  have hlt := hs.spawned i h.alive
  have hok := ok_of_workerMove hs.ok h
  have hcirc := fun id (hid : Circulates t id) => hs.circulates id (circulates_of_workerMove h hid)
  have hspawned : ∀ w' : Worker, ∀ j, ((s.setWorker i w').worker j).alive = true →
      j < s.global_worker_id :=
    fun w' => forall_setWorker (p := fun j w => w.alive = true → j < s.global_worker_id)
      hs.spawned fun _ => hlt
  cases h <;> exact ⟨hok, hspawned _, hs.kept, hcirc, hs.unsent, hs.first⟩

/-- The workers that are still to be examined are workers. -/
theorem kept_of_orchestratorMove {s t : State} (hs : ∀ i ∈ kept s, i ∈ s.workers)
    (h : OrchestratorMove s t) : ∀ i ∈ kept t, i ∈ t.workers := by
  have hmono : ∀ {p : Pc} {i : WorkerId}, (∀ i, i ∈ keptIn p s.workers → i ∈ kept s) →
      i ∈ keptIn p s.workers → i ∈ s.workers := fun hsub hi => hs _ (hsub _ hi)
  cases h with
  | goto pc hk => exact fun i => hmono fun i => (hk i).mp
  | publish | append | stopPop | finish | spawn | stopKill => exact fun i hi => hi
  | giveUp scan w hb hpc =>
      refine fun i => hmono (p := .join scan w) fun i hi => ?_
      rw [kept, hpc]
      simp only [keptIn, List.mem_append, List.mem_cons] at hi ⊢
      exact hi.imp id .inr
  | readKey scan w k hpc => exact fun i => hmono fun i hi => by rw [kept, hpc]; exact hi
  | push scan w k hpc => exact fun i => hmono fun i hi => by rw [kept, hpc]; exact hi
  | clear scan w stage stage' w' hpc hkeyed hkeyed' =>
      refine fun i => hmono (p := .frozen scan w stage') fun i hi => ?_
      rw [kept, hpc]
      simpa only [keptIn, hkeyed, hkeyed'] using hi
  | deleteKey scan w pushed hpc =>
      refine fun i => hmono (p := .frozen scan w (.terminate pushed)) fun i hi => ?_
      rw [kept, hpc]
      simp only [keptIn, Frozen.keyed, Bool.false_eq_true, if_false, if_true, List.mem_append,
        List.mem_cons] at hi ⊢
      exact hi.imp id .inr
  | terminate scan w pushed hpc =>
      exact fun i => hmono (p := .join scan w) fun i hi => by rw [kept, hpc]; exact hi
  | tune w w' pc _ hk => exact fun i hi => by simpa [kept, State.goto, hk] using hi

theorem Wellformed.orchestrator {s t : State} (hs : Wellformed s) (h : OrchestratorMove s t) :
    Wellformed t := by
  have hok := ok_of_orchestratorMove hs.ok h
  have hkept := kept_of_orchestratorMove hs.kept h
  have hcirc := fun id (hid : Circulates t id) =>
    hs.circulates id (circulates_of_orchestratorMove h hid)
  have hspawned : ∀ {w : WorkerId} {w' : Worker}, (w'.alive = true → (s.worker w).alive = true) →
      ∀ j, ((s.setWorker w w').worker j).alive = true → j < s.global_worker_id :=
    fun {w w'} hw => forall_setWorker (p := fun j w => w.alive = true → j < s.global_worker_id)
      hs.spawned fun h => hs.spawned w (hw h)
  cases h with
  | clear scan w _ _ w' _ _ _ _ _ _ hp =>
      exact ⟨hok, hspawned fun h => by simpa [Worker.alive, hp] using h, hkept, hcirc, hs.unsent, hs.first⟩
  | deleteKey scan w => exact ⟨hok, hspawned id, hkept, hcirc, hs.unsent, hs.first⟩
  | terminate scan w => exact ⟨hok, hspawned (fun h => by cases h), hkept, hcirc, hs.unsent, hs.first⟩
  | tune w w' _ _ _ _ _ hp =>
      exact ⟨hok, hspawned fun h => by simpa [Worker.alive, hp] using h, hkept, hcirc, hs.unsent, hs.first⟩
  | stopKill n w => exact ⟨hok, hspawned (fun h => by cases h), hkept, hcirc, hs.unsent, hs.first⟩
  | spawn n =>
      refine ⟨hok, ?_, hkept, hcirc, hs.unsent, hs.first⟩
      exact forall_setWorker
        (p := fun j w => w.alive = true → j < s.global_worker_id + 1)
        (fun j hj => Nat.lt_succ_of_lt (hs.spawned j hj)) fun _ => Nat.lt_succ_self _
  | _ => exact ⟨hok, hs.spawned, hkept, hcirc, hs.unsent, hs.first⟩

theorem Wellformed.step {cfg : Config} {s t : State} {a : Action} (hs : Wellformed s)
    (h : step cfg s a = some t) : Wellformed t := by
  cases a with
  | tick =>
      obtain rfl := Option.some.inj h
      exact ⟨hs.ok, hs.spawned, hs.kept, hs.circulates, hs.unsent, hs.first⟩
  | commit =>
      obtain rfl := Option.some.inj h
      refine ⟨hs.ok, hs.spawned, hs.kept, fun id hid => ?_, fun id hid => ?_, Nat.succ_pos _⟩
      · obtain ⟨hunsent, hpos, hlt⟩ := hs.circulates id hid
        refine ⟨?_, hpos, Nat.lt_succ_of_lt hlt⟩
        simpa [hunsent] using Nat.ne_of_lt hlt
      · rcases List.mem_cons.mp hid with rfl | hid
        · exact ⟨hs.first, Nat.lt_succ_self _⟩
        · obtain ⟨hpos, hlt⟩ := hs.unsent id hid
          exact ⟨hpos, Nat.lt_succ_of_lt hlt⟩
  | enqueue k =>
      obtain ⟨hk, rfl⟩ := enqueue_of_step h
      refine ⟨hs.ok, hs.spawned, hs.kept, fun id hid => ?_, fun id hid => ?_, hs.first⟩
      · by_cases hik : id = k
        · subst hik
          exact ⟨by simp, hs.unsent id hk⟩
        · have hid' : Circulates s id := by
            rcases hid with hjob | hrest
            · exact .job (by simpa [hik] using hjob)
            · exact .inr hrest
          obtain ⟨hunsent, hlt⟩ := hs.circulates id hid'
          exact ⟨fun h => hunsent (List.mem_filter.mp h).1, hlt⟩
      · exact hs.unsent id (List.mem_filter.mp hid).1
  | deleteRow k =>
      obtain rfl := Option.some.inj h
      exact ⟨hs.ok, hs.spawned, hs.kept, hs.circulates, hs.unsent, hs.first⟩
  | worker i a => exact hs.worker (workerMove_of_step h)
  | orchestrator => exact hs.orchestrator (orchestratorMove_of_next h)
  | interrupt =>
      obtain rfl := interrupt_of_step h
      refine ⟨hs.ok, hs.spawned, fun i hi => hi, fun id hid => hs.circulates id ?_, hs.unsent, hs.first⟩
      rcases hid with hjob | hworker | hname
      · exact .job hjob
      · exact .inr (.inl hworker)
      · exact False.elim hname

theorem wellformed_start : Wellformed start where
  ok := fun _ => ⟨nofun, nofun⟩
  spawned := nofun
  kept := nofun
  circulates := by
    rintro id (hjob | ⟨i, hi | hi⟩ | hname)
    · cases hjob
    · cases hi
    · cases hi
    · exact False.elim hname
  unsent := nofun
  first := Nat.one_pos

theorem wellformed {cfg : Config} {ok : State → Action → Prop} {s : State}
    (h : (system cfg).ReachableUnder ok s) : Wellformed s := by
  refine System.PreservedUnder.invariant ?_ ?_ h
  · intro s t a _ hs _ hstep
    exact hs.step hstep
  · rintro _ rfl
    exact wellformed_start

end ByteBattles.Judge.Orchestrator
