import ByteBattles.Judge.Orchestrator.CrashRecovery

/-!
# The retry of a frozen worker

The frozen branch of `check_heartbeat` interleaved with the worker concerned, which
is only slow and may go on at any moment.
-/

namespace ByteBattles.Judge.Orchestrator

open ByteBattles.Lib

/-! ## The interleavings -/

def Pc.concerns (w : WorkerId) : Pc → Bool
  | .check ⟨_, w' :: _, _⟩ | .gotHeartbeat _ w' _ | .frozen _ w' _ | .join _ w' => w' = w
  | _ => false

def Pc.joins (w : WorkerId) : Pc → Bool
  | .join _ w' => w' = w
  | _ => false

def InBranch (w : WorkerId) (s : State) : Action → Bool
  | .tick => true
  | .orchestrator => s.pc.concerns w
  | .worker i .next | .worker i (.record _) => i = w
  | _ => false

/-- One copy in the job list or with the worker. -/
def ownCopies (s : State) (w : WorkerId) (id : SubmissionId) : Nat :=
  s.jobs.count id + if (s.worker w).held = some id then 1 else 0

/-- The worker is in its loop, what it is at work on is its own, and no unjudged
submission is there twice; its key names nothing that is elsewhere. -/
structure Orderly (s : State) (w : WorkerId) : Prop where
  begins : ∃ ct todo alive, s.pc = .check ⟨ct, w :: todo, alive⟩
  inLoop : (s.worker w).position.inLoop = true
  ok : (s.worker w).Ok
  carries : (s.worker w).position.idle = false → (s.worker w).held ≠ none
  once : ∀ id ∈ s.jobs, s.rows id = some .PENDING → ownCopies s w id ≤ 1
  key : ∀ id ∈ (s.worker w).submission, s.rows id = some .PENDING → ownCopies s w id = 1

def isJudged : Option Verdict → Bool
  | none | some .PENDING => false
  | some _ => true

def putBackSince (s t : State) : List (SubmissionId × Option Verdict) :=
  t.putBack.take (t.putBack.length - s.putBack.length)

/-- What the terminated worker had not finished is in the job list once, and no
judged submission has been put back. -/
structure ExactRetry (w : WorkerId) (s t : State) : Prop where
  once : t.pc.joins w = true → (t.worker w).alive = false →
    ∀ id ∈ unfinished t w, t.jobs.count id = 1
  unjudged : ∀ e ∈ putBackSince s t, isJudged e.2 = false

/-! ## A worker that resumes -/

/-- Worker 1 hangs in the pipeline with submission 1, submission 2 waits, and
`check_heartbeat` begins. -/
def hangRun : List Action :=
  takeRun ++ [.commit, .enqueue 2, .tick, .tick, .tick, .orchestrator]

def resumeRun : List Action :=
  List.replicate 4 .orchestrator ++ [.worker 1 (.record .ACCEPTED)] ++
    List.replicate 6 (.worker 1 .next) ++ List.replicate 4 .orchestrator

def lateRun : List Action :=
  List.replicate 3 .orchestrator ++ [.worker 1 (.record .ACCEPTED), .orchestrator]

theorem not_exactRetry_resume :
    (∃ s, (system oneWorker).Reachable s ∧ Orderly s 1 ∧
      (∃ t, (system oneWorker).PathUnder (fun s a => InBranch 1 s a) s t ∧
        (t.worker 1).alive = false ∧ unfinished t 1 = some 2 ∧ t.jobs = [1]) ∧
      ∃ t, (system oneWorker).PathUnder (fun s a => InBranch 1 s a) s t ∧
        putBackSince s t = [(1, some .ACCEPTED)]) ∧
    ¬ ∀ cfg s w t, (system cfg).Reachable s → Orderly s w →
      (system cfg).PathUnder (fun s a => InBranch w s a) s t → ExactRetry w s t := by
  let ok : State → Action → Prop := fun s a => InBranch 1 s a
  obtain ⟨s, hs, hpc, hloop, hcarries, honce, hkey, hresume, hlate⟩ :=
    System.exists_path (system oneWorker) (fun _ _ => True) start hangRun
      (fun s => s.pc = .check ⟨3, [1], []⟩ ∧ (s.worker 1).position.inLoop = true ∧
        ((s.worker 1).position.idle = false → (s.worker 1).held ≠ none) ∧
        (∀ id ∈ s.jobs, s.rows id = some .PENDING → ownCopies s 1 id ≤ 1) ∧
        (∀ id ∈ (s.worker 1).submission, s.rows id = some .PENDING → ownCopies s 1 id = 1) ∧
        ((system oneWorker).runUnder (fun s a => InBranch 1 s a) s resumeRun).any (fun t =>
          decide (t.pc.joins 1 = true ∧ (t.worker 1).alive = false ∧ unfinished t 1 = some 2 ∧
            t.jobs = [1])) = true ∧
        ((system oneWorker).runUnder (fun s a => InBranch 1 s a) s lateRun).any (fun t =>
          decide (putBackSince s t = [(1, some .ACCEPTED)])) = true) (by decide)
  obtain ⟨t, ht, hjoin, hdead, hheld, hjobs⟩ := System.exists_path (system oneWorker) ok s resumeRun
    (fun t => t.pc.joins 1 = true ∧ (t.worker 1).alive = false ∧ unfinished t 1 = some 2 ∧
      t.jobs = [1]) hresume
  obtain ⟨u, hu, hput⟩ := System.exists_path (system oneWorker) ok s lateRun
    (fun t => putBackSince s t = [(1, some .ACCEPTED)]) hlate
  have hreach : (system oneWorker).Reachable s := ⟨_, rfl, hs⟩
  have horderly : Orderly s 1 :=
    ⟨⟨_, _, _, hpc⟩, hloop, (wellformed hreach).ok 1, hcarries, honce, hkey⟩
  refine ⟨⟨s, hreach, horderly, ⟨t, ht, hdead, hheld, hjobs⟩, u, hu, hput⟩, fun hall => ?_⟩
  have := (hall _ s 1 t hreach horderly ht).once hjoin hdead 2 hheld
  rw [hjobs] at this
  cases this

/-! ## Runs in which the worker resumes in time -/

def Pc.reads : Pc → Bool
  | .frozen _ _ .readSubmission => true
  | _ => false

/-- The id that is about to be put back. -/
def Pc.pushes : Pc → Option SubmissionId
  | .frozen _ _ (.push id) => some id
  | _ => none

/-- What has been put back when the worker is about to be terminated. -/
def Pc.terminates : Pc → Option (Option SubmissionId)
  | .frozen _ _ (.terminate pushed) => some pushed
  | _ => none

/-- The key does not name a judged submission when it is read, the verdict of the
submission is not written between the read and the push, and the worker that is
terminated has nothing unfinished but what has been put back. -/
def Timely (w : WorkerId) (s : State) : Action → Prop
  | .orchestrator =>
      (s.pc.reads = true → ∀ id ∈ (s.worker w).submission, isJudged (s.rows id) = false) ∧
        ∀ pushed ∈ s.pc.terminates, ∀ id ∈ unfinished s w, pushed = some id
  | .worker _ (.record _) => ∀ id ∈ s.pc.pushes, (s.worker w).submission_id ≠ some id
  | _ => True

instance (w : WorkerId) (s : State) (a : Action) : Decidable (Timely w s a) :=
  match a with
  | .orchestrator => inferInstanceAs (Decidable (_ ∧ _))
  | .worker _ (.record _) =>
      inferInstanceAs (Decidable (∀ id ∈ s.pc.pushes, (s.worker w).submission_id ≠ some id))
  | .worker _ .next | .worker _ (.raise _) | .worker _ .interrupt | .worker _ .die | .tick |
    .commit | .enqueue _ | .deleteRow _ | .interrupt => .isTrue trivial

/-- The worker has not been terminated. -/
structure Attending (s : State) (w : WorkerId) : Prop where
  held : (s.worker w).position.inLoop = true ∨ (s.worker w).held = none
  carries : (s.worker w).position.inLoop = true → (s.worker w).position.idle = false →
    (s.worker w).held ≠ none
  once : ∀ id, s.rows id = some .PENDING →
    ownCopies s w id ≤ 1 + if s.pc.pushedFor w = some id then 1 else 0
  key : ∀ id, (s.worker w).submission = some id → s.rows id = some .PENDING →
    1 ≤ ownCopies s w id
  push : ∀ id, s.pc.pushes = some id →
    isJudged (s.rows id) = false ∧ (s.rows id = some .PENDING → 1 ≤ ownCopies s w id)
  pushed : ∀ id, s.pc.pushedFor w = some id → s.rows id = some .PENDING → 2 ≤ ownCopies s w id

/-- The worker has been terminated, and the frozen branch is over. -/
structure Settled (s : State) (w : WorkerId) : Prop where
  dead : (s.worker w).alive = false
  ended : ∀ scan stage, s.pc ≠ .frozen scan w stage
  once : ∀ id ∈ unfinished s w, s.jobs.count id = 1

theorem ownCopies_of_held {s : State} {w : WorkerId} {id : SubmissionId}
    (h : (s.worker w).held = some id) : ownCopies s w id = s.jobs.count id + 1 := by
  rw [ownCopies, if_pos h]

theorem Orderly.attending {s : State} {w : WorkerId} (h : Orderly s w) : Attending s w := by
  obtain ⟨ct, todo, alive, hpc⟩ := h.begins
  refine ⟨.inl h.inLoop, fun _ => h.carries, fun id hrow => ?_, fun id hkey hrow => ?_, ?_, ?_⟩
  · by_cases hjob : id ∈ s.jobs
    · exact Nat.le_add_right_of_le (h.once id hjob hrow)
    · rw [ownCopies, List.count_eq_zero_of_not_mem hjob]
      split <;> omega
  · exact le_of_eq (h.key id hkey hrow).symm
  · simp [hpc, Pc.pushes]
  · simp [hpc, Pc.pushedFor]

/-! ## Steps of the worker -/

def WorkerAction.ordinary : WorkerAction → Bool
  | .next | .record _ => true
  | _ => false

theorem ownCopies_of_workerMove {s t : State} {w : WorkerId} {a : WorkerAction}
    {id : SubmissionId} (hs : Attending s w) (hok : (s.worker w).Ok) (h : WorkerMove s w a t)
    (ha : a.ordinary = true) (hrow : t.rows id = some .PENDING) :
    ownCopies t w id = ownCopies s w id := by
  have hsame : ∀ {w' : Worker}, (s.worker w).SameIds w' →
      ownCopies (s.setWorker w w') w id = ownCopies s w id := fun hids => by
    simp only [ownCopies, setWorker_self, hids.2.1]
    rfl
  cases h with
  | walk w' _ _ hids => exact hsame hids
  | leave => exact hsame (.goto _ _)
  | pop k jobs hp hq =>
      have hnone := hok.idle (by rw [hp]; rfl)
      have hcount := count_of_rpop hq id
      simp only [ownCopies, setWorker_self, Worker.take, hnone, Option.some.injEq, reduceCtorEq,
        if_false]
      change jobs.count id + _ = _
      omega
  | setKey =>
      simp only [ownCopies, setWorker_self, Worker.setKey, Worker.goto]
      rfl
  | clearKey =>
      simp only [ownCopies, setWorker_self, Worker.deleteKey, Worker.goto]
      rfl
  | requeue k hp hk =>
      have hheld : (s.worker w).held = some k := by
        cases hheld : (s.worker w).held with
        | none => exact absurd hheld (hs.carries (by rw [hp]; rfl) (by rw [hp]; rfl))
        | some j => rw [← hok.held j hheld, hk]
      simp only [ownCopies, setWorker_self, Worker.release, hheld, Option.some.injEq,
        reduceCtorEq, if_false]
      change (k :: s.jobs).count id + 0 = _
      rw [List.count_cons]
      simp
  | unbound => exact hsame (.goto _ _)
  | cleanup w' _ _ _ hids => exact hsame hids
  | record k v hp hk hv =>
      have hheld : (s.worker w).held ≠ some id := fun hheld => by
        obtain rfl : k = id := by simpa [hk] using hok.held id hheld
        exact storeVerdict_self hv hrow
      simp only [ownCopies, setWorker_self, Worker.release, reduceCtorEq, if_false, hheld]
      rfl
  | drop | caught | interrupt => cases ha
  | kill a hkill =>
      rcases hkill with rfl | rfl <;> cases ha

theorem Attending.worker {s t : State} {w : WorkerId} {a : WorkerAction} (hs : Attending s w)
    (hok : (s.worker w).Ok) (h : WorkerMove s w a t) (ha : a.ordinary = true)
    (htimely : Timely w s (.worker w a)) : Attending t w := by
  obtain ⟨hpc, -, -, -⟩ := frame_of_workerMove h
  have hcopies := fun id (hrow : t.rows id = some .PENDING) =>
    ownCopies_of_workerMove hs hok h ha hrow
  have hrows := fun id (hrow : t.rows id = some .PENDING) => rows_of_workerMove h hrow
  refine ⟨?_, ?_, fun id hrow => ?_, fun id hkey hrow => ?_, fun id hpush => ?_,
    fun id hpushed hrow => ?_⟩
  · cases h with
    | walk w' _ hp => exact .inl (by rw [setWorker_self]; exact Position.inLoop_of_idle hp)
    | leave hp => exact .inr (by rw [setWorker_self]; exact hok.idle hp)
    | pop | setKey | clearKey | requeue | record =>
        exact .inl (by rw [setWorker_self]; rfl)
    | unbound _ hnone =>
        right
        rw [setWorker_self]
        cases hheld : (s.worker w).held with
        | none => exact hheld
        | some j => simpa [hnone] using hok.held j hheld
    | cleanup w' hp _ _ hids =>
        right
        rw [setWorker_self, hids.2.1]
        exact hs.held.resolve_left fun h => by simp [hp] at h
    | drop | caught | interrupt => cases ha
    | kill a hkill => rcases hkill with rfl | rfl <;> cases ha
  · cases h with
    | walk w' _ hp => simp [hp]
    | pop => simp [Worker.take]
    | setKey hp =>
        intro _ _
        rw [setWorker_self]
        exact hs.carries (by rw [hp]; rfl) (by rw [hp]; rfl)
    | clearKey | requeue | record =>
        simp [Worker.goto, Worker.release, Position.idle]
    | leave | unbound => simp [Worker.goto, Position.inLoop]
    | cleanup w' _ _ hp => simp [hp]
    | drop | caught | interrupt => cases ha
    | kill a hkill => rcases hkill with rfl | rfl <;> cases ha
  · rw [hcopies id hrow, hpc]
    exact hs.once id (hrows id hrow)
  · rw [hcopies id hrow]
    have hkey' : (s.worker w).submission = some id → 1 ≤ ownCopies s w id := fun hkey =>
      hs.key id hkey (hrows id hrow)
    cases h with
    | walk w' _ _ hids | cleanup w' _ _ _ hids =>
        rw [setWorker_self, hids.2.2] at hkey
        exact hkey' hkey
    | setKey hp =>
        have hheld : (s.worker w).held = some id := by
          cases hheld : (s.worker w).held with
          | none => exact absurd hheld (hs.carries (by rw [hp]; rfl) (by rw [hp]; rfl))
          | some j =>
              rw [← hok.held j hheld]
              simpa [Worker.setKey, Worker.goto] using hkey
        rw [ownCopies_of_held hheld]
        omega
    | clearKey => simp [Worker.deleteKey, Worker.goto] at hkey
    | leave | unbound | pop | requeue | record =>
        rw [setWorker_self] at hkey
        exact hkey' hkey
    | drop | caught | interrupt => cases ha
    | kill a hkill => rcases hkill with rfl | rfl <;> cases ha
  · rw [hpc] at hpush
    obtain ⟨hunjudged, hone⟩ := hs.push id hpush
    refine ⟨?_, fun hrow => by rw [hcopies id hrow]; exact hone (hrows id hrow)⟩
    cases h with
    | record k v _ hk =>
        have hne : id ≠ k := fun h => htimely id hpush (h ▸ hk)
        change isJudged (storeVerdict s.rows k v id) = false
        unfold storeVerdict
        split
        · rw [Function.update_of_ne hne]
          exact hunjudged
        · exact hunjudged
    | _ => exact hunjudged
  · rw [hpc] at hpushed
    rw [hcopies id hrow]
    exact hs.pushed id hpushed (hrows id hrow)

/-! ## Steps of the orchestrator -/

/-- The step changes neither the job list nor the ids of the worker. -/
theorem Attending.of_same {s t : State} {w : WorkerId} (hs : Attending s w)
    (hjobs : t.jobs = s.jobs) (hrows : t.rows = s.rows) (hids : (s.worker w).SameIds (t.worker w))
    (hposition : (t.worker w).position = (s.worker w).position)
    (hfor : t.pc.pushedFor w = s.pc.pushedFor w) (hpush : t.pc.pushes = none) :
    Attending t w := by
  have hcopies : ∀ id, ownCopies t w id = ownCopies s w id := fun id => by
    simp only [ownCopies, hjobs, hids.2.1]
  refine ⟨?_, ?_, ?_, ?_, ?_, ?_⟩
  · rw [hposition, hids.2.1]
    exact hs.held
  · rw [hposition, hids.2.1]
    exact hs.carries
  · simp only [hcopies, hrows, hfor]
    exact hs.once
  · simp only [hcopies, hrows, hids.2.2]
    exact hs.key
  · simp [hpush]
  · simp only [hcopies, hrows, hfor]
    exact hs.pushed

/-- The orchestrator goes on to a statement that neither puts back nor has put back. -/
theorem Attending.goto {s : State} {w : WorkerId} {pc : Pc} (hs : Attending s w)
    (hfor : s.pc.pushedFor w = none) (hfor' : pc.pushedFor w = none) (hpush : pc.pushes = none) :
    Attending (s.goto pc) w :=
  hs.of_same rfl rfl ⟨rfl, rfl, rfl⟩ rfl (hfor'.trans hfor.symm) hpush

theorem Attending.frozen {s : State} {w : WorkerId} {scan : Scan} {stage : Frozen}
    (hs : Attending s w) (hpc : s.pc = .frozen scan w stage)
    (htimely : Timely w s .orchestrator) :
    Attending (frozenStep s scan w stage) w ∨ Settled (frozenStep s scan w stage) w := by
  have hfor : ∀ stage', (Pc.frozen scan w stage').pushedFor w = stage'.pushed := fun stage' =>
    if_pos rfl
  cases stage with
  | readSubmission =>
      left
      simp only [frozenStep]
      split
      case h_1 id hid =>
        refine ⟨hs.held, hs.carries, ?_, hs.key, fun id' hid' => ?_, ?_⟩
        · have := hs.once
          rw [hpc, hfor] at this
          simp only [State.goto, hfor]
          exact this
        · obtain rfl : id = id' := Option.some.inj hid'
          exact ⟨htimely.1 (by rw [hpc]; rfl) id hid, hs.key id hid⟩
        · simp [State.goto, hfor, Frozen.pushed]
      case h_2 => exact hs.goto (by rw [hpc, hfor]; rfl) (hfor _) rfl
  | push id =>
      left
      obtain ⟨-, hone⟩ := hs.push id (by rw [hpc]; rfl)
      have honce := hs.once
      rw [hpc, hfor] at honce
      have hcopies : ∀ k, ownCopies (frozenStep s scan w (.push id)) w k =
          ownCopies s w k + if id = k then 1 else 0 := fun k => by
        rw [ownCopies, ownCopies]
        change (id :: s.jobs).count k + (if (s.worker w).held = some k then 1 else 0) = _
        rw [List.count_cons]
        simp only [beq_iff_eq]
        omega
      refine ⟨hs.held, hs.carries, fun k hrow => ?_, fun k hkey hrow => ?_,
        fun k hk => (by cases hk), fun k hk hrow => ?_⟩
      · have hle := honce k hrow
        rw [hcopies]
        simp only [Frozen.pushed, reduceCtorEq, if_false] at hle
        simp only [frozenStep, hfor, Frozen.pushed, Option.some.injEq]
        omega
      · rw [hcopies]
        exact Nat.le_add_right_of_le (hs.key k hkey hrow)
      · simp only [frozenStep, hfor, Frozen.pushed, Option.some.injEq] at hk
        subst hk
        rw [hcopies, if_pos rfl]
        exact Nat.succ_le_succ (hone hrow)
  | deleteShutdown pushed =>
      left
      refine hs.of_same rfl rfl ?_ ?_ ?_ rfl
      · simp [frozenStep, State.goto, Worker.SameIds]
      · simp [frozenStep, State.goto]
      · rw [hpc]
        simp [frozenStep, State.goto, hfor, Frozen.pushed]
  | deleteHeartbeat pushed =>
      left
      refine hs.of_same rfl rfl ?_ ?_ ?_ rfl
      · simp [frozenStep, State.goto, Worker.SameIds]
      · simp [frozenStep, State.goto]
      · rw [hpc]
        simp [frozenStep, State.goto, hfor, Frozen.pushed]
  | deleteSubmission pushed =>
      left
      have hworker : (frozenStep s scan w (.deleteSubmission pushed)).worker w =
          (s.worker w).deleteKey := setWorker_self s w _
      have hpushed : (frozenStep s scan w (.deleteSubmission pushed)).pc.pushedFor w =
          s.pc.pushedFor w := by
        rw [hpc]
        simp [frozenStep, State.goto, hfor, Frozen.pushed]
      have hcopies : ∀ k, ownCopies (frozenStep s scan w (.deleteSubmission pushed)) w k =
          ownCopies s w k := fun k => by
        simp only [ownCopies, hworker]
        rfl
      refine ⟨?_, ?_, ?_, fun k hkey => ?_, fun k hk => (by cases hk), ?_⟩
      · rw [hworker]
        exact hs.held
      · rw [hworker]
        exact hs.carries
      · simp only [hcopies, hpushed]
        exact hs.once
      · rw [hworker] at hkey
        cases hkey
      · simp only [hcopies, hpushed]
        exact hs.pushed
  | terminate pushed =>
      right
      have hworker : (frozenStep s scan w (.terminate pushed)).worker w =
          (s.worker w).goto .ended := setWorker_self s w _
      refine ⟨by rw [hworker]; rfl, fun _ _ h => (by cases h), fun id hid => ?_⟩
      obtain ⟨hheld, hrow⟩ := mem_unfinished.mp hid
      rw [hworker] at hheld
      have hput : pushed = some id :=
        htimely.2 pushed (by rw [hpc]; rfl) id (mem_unfinished.mpr ⟨hheld, hrow⟩)
      -- the copy of the worker, and the one that has been put back
      have hfor' : s.pc.pushedFor w = some id := by rw [hpc, hfor]; exact hput
      have htwo := hs.pushed id hfor' hrow
      have honce := hs.once id hrow
      rw [if_pos hfor', ownCopies_of_held hheld] at honce
      rw [ownCopies_of_held hheld] at htwo
      change s.jobs.count id = 1
      omega

theorem Attending.orchestrator {cfg : Config} {s t : State} {w : WorkerId} (hs : Attending s w)
    (hin : s.pc.concerns w = true) (htimely : Timely w s .orchestrator)
    (h : orchestratorNext cfg s = some t) : Attending t w ∨ Settled t w := by
  have hstep := orchestratorStep_of_next h
  generalize hpc : s.pc = pc at hstep hin
  cases hstep with
  | getHeartbeat ct w' todo alive => exact .inl (hs.goto (by rw [hpc]; rfl) rfl rfl)
  | late scan w' hb =>
      obtain rfl : w' = w := by simpa [Pc.concerns] using hin
      exact .inl (hs.goto (by rw [hpc]; rfl) (if_pos rfl) rfl)
  | frozen scan w' stage =>
      obtain rfl : w' = w := by simpa [Pc.concerns] using hin
      exact hs.frozen hpc htimely
  | giveUp | inTime | join => exact .inl (hs.goto (by rw [hpc]; rfl) rfl rfl)
  | _ => simp [Pc.concerns] at hin

theorem Settled.orchestrator {cfg : Config} {s t : State} {w : WorkerId} (hs : Settled s w)
    (hin : s.pc.concerns w = true) (h : orchestratorNext cfg s = some t) : Settled t w := by
  have hstep := orchestratorStep_of_next h
  generalize hpc : s.pc = pc at hstep hin
  cases hstep with
  | late scan w' hb halive =>
      obtain rfl : w' = w := by simpa [Pc.concerns] using hin
      rw [hs.dead] at halive
      cases halive
  | frozen scan w' stage =>
      obtain rfl : w' = w := by simpa [Pc.concerns] using hin
      exact absurd hpc (hs.ended scan stage)
  | getHeartbeat | giveUp | inTime | join => exact ⟨hs.dead, nofun, hs.once⟩
  | _ => simp [Pc.concerns] at hin

/-! ## Runs -/

def PutBackUnjudged (s t : State) : Prop :=
  ∃ new, t.putBack = new ++ s.putBack ∧ ∀ e ∈ new, isJudged e.2 = false

theorem PutBackUnjudged.of_eq {s t u : State} (h : PutBackUnjudged s t)
    (heq : u.putBack = t.putBack) : PutBackUnjudged s u := by
  rwa [PutBackUnjudged, heq]

theorem PutBackUnjudged.orchestrator {s₀ s t : State} (h : PutBackUnjudged s₀ s)
    (hpush : ∀ id, s.pc.pushes = some id → isJudged (s.rows id) = false)
    (hmove : OrchestratorMove s t) : PutBackUnjudged s₀ t := by
  cases hmove with
  | push scan w id hpc =>
      obtain ⟨new, hnew, hall⟩ := h
      refine ⟨(id, s.rows id) :: new, by simp [hnew], fun e he => ?_⟩
      rcases List.mem_cons.mp he with rfl | he
      · exact hpush id (by rw [hpc]; rfl)
      · exact hall e he
  | _ => exact h.of_eq rfl

/-- The run so far: the worker has not been terminated, or is settled. -/
structure OnTime (s₀ : State) (w : WorkerId) (s : State) : Prop where
  wellformed : Wellformed s
  phase : Attending s w ∨ Settled s w
  putBack : PutBackUnjudged s₀ s

theorem OnTime.step {cfg : Config} {s₀ s t : State} {w : WorkerId} {a : Action}
    (hs : OnTime s₀ w s) (hin : InBranch w s a = true) (htimely : Timely w s a)
    (h : step cfg s a = some t) : OnTime s₀ w t := by
  refine ⟨hs.wellformed.step h, ?_, ?_⟩
  · cases a with
    | tick =>
        obtain rfl := Option.some.inj h
        refine hs.phase.imp (fun hs => ?_) fun hs => ⟨hs.dead, hs.ended, hs.once⟩
        exact ⟨hs.held, hs.carries, hs.once, hs.key, hs.push, hs.pushed⟩
    | orchestrator =>
        rcases hs.phase with hs | hs
        · exact hs.orchestrator hin htimely h
        · exact .inr (hs.orchestrator hin h)
    | worker i a =>
        have hmove := workerMove_of_step h
        have ha : a.ordinary = true ∧ i = w := by
          cases a <;> simp_all [InBranch, WorkerAction.ordinary]
        obtain ⟨ha, rfl⟩ := ha
        rcases hs.phase with hatt | hset
        · exact .inl (hatt.worker (hs.wellformed.ok i) hmove ha htimely)
        · exact absurd hmove.alive (by simp [hset.dead])
    | _ => cases hin
  · cases a with
    | tick =>
        obtain rfl := Option.some.inj h
        exact hs.putBack.of_eq rfl
    | orchestrator =>
        refine hs.putBack.orchestrator (fun id hpush => ?_) (orchestratorMove_of_next h)
        rcases hs.phase with hatt | hset
        · exact (hatt.push id hpush).1
        · cases hpc : s.pc with
          | frozen scan w' stage =>
              obtain rfl : w' = w := by simpa [InBranch, hpc, Pc.concerns] using hin
              exact absurd hpc (hset.ended scan stage)
          | _ => simp [hpc, Pc.pushes] at hpush
    | worker i a =>
        have hmove := workerMove_of_step h
        exact hs.putBack.of_eq (by cases hmove <;> rfl)
    | _ => cases hin

theorem OnTime.exactRetry {s₀ s : State} {w : WorkerId} (hs : OnTime s₀ w s) :
    ExactRetry w s₀ s := by
  refine ⟨fun _ hdead id hid => ?_, fun e he => ?_⟩
  · rcases hs.phase with hatt | hset
    · rcases hatt.held with hloop | hnone
      · simp [Worker.alive_of_inLoop hloop] at hdead
      · obtain ⟨hheld, -⟩ := mem_unfinished.mp hid
        simp [hnone] at hheld
    · exact hset.once id hid
  · obtain ⟨new, hnew, hall⟩ := hs.putBack
    rw [putBackSince, hnew, List.length_append, Nat.add_sub_cancel, List.take_left] at he
    exact hall e he

/-- **The retry of a frozen worker is exact** in every run in which the worker resumes
in time or not at all. -/
theorem exactRetry_of_timely {cfg : Config} {s t : State} {w : WorkerId}
    (hreach : (system cfg).Reachable s) (horderly : Orderly s w)
    (h : (system cfg).PathUnder (fun s a => InBranch w s a = true ∧ Timely w s a) s t) :
    ExactRetry w s t := by
  refine OnTime.exactRetry (System.PreservedUnder.path (I := OnTime s w) ?_ ?_ h)
  · intro u v a _ hu hok hstep
    exact hu.step hok.1 hok.2 hstep
  · exact ⟨wellformed hreach, .inl horderly.attending, [], rfl, nofun⟩

/-- The worker goes on hanging until it is terminated. -/
def exactRun : List Action := List.replicate 8 .orchestrator

theorem exactRetry_hang :
    ∃ s t, (system oneWorker).Reachable s ∧ (t.worker 1).position = .ended ∧
      unfinished t 1 = some 1 ∧ t.jobs = [1, 2] ∧ ExactRetry 1 s t := by
  obtain ⟨s, hs, hpc, hloop, hcarries, honce, hkey, hrun⟩ :=
    System.exists_path (system oneWorker) (fun _ _ => True) start hangRun
      (fun s => s.pc = .check ⟨3, [1], []⟩ ∧ (s.worker 1).position.inLoop = true ∧
        ((s.worker 1).position.idle = false → (s.worker 1).held ≠ none) ∧
        (∀ id ∈ s.jobs, s.rows id = some .PENDING → ownCopies s 1 id ≤ 1) ∧
        (∀ id ∈ (s.worker 1).submission, s.rows id = some .PENDING → ownCopies s 1 id = 1) ∧
        ((system oneWorker).runUnder (fun s a => InBranch 1 s a = true ∧ Timely 1 s a) s
          exactRun).any (fun t => decide ((t.worker 1).position = .ended ∧
            unfinished t 1 = some 1 ∧ t.jobs = [1, 2])) = true) (by decide)
  obtain ⟨t, ht, hended, hunfinished, hjobs⟩ := System.exists_path (system oneWorker)
    (fun s a => InBranch 1 s a = true ∧ Timely 1 s a) s exactRun
    (fun t => (t.worker 1).position = .ended ∧ unfinished t 1 = some 1 ∧ t.jobs = [1, 2]) hrun
  have hreach : (system oneWorker).Reachable s := ⟨_, rfl, hs⟩
  have horderly : Orderly s 1 :=
    ⟨⟨_, _, _, hpc⟩, hloop, (wellformed hreach).ok 1, hcarries, honce, hkey⟩
  exact ⟨s, t, hreach, hended, hunfinished, hjobs, exactRetry_of_timely hreach horderly ht⟩

end ByteBattles.Judge.Orchestrator
