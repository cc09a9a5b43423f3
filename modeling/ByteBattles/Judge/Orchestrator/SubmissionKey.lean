import ByteBattles.Judge.Orchestrator.CrashRecovery
import ByteBattles.Judge.Orchestrator.LeftBehind
import ByteBattles.Judge.Orchestrator.Restarts

/-!
# The submission key of a worker

A worker sets its key when it has taken a submission and deletes it when a verdict is
stored.  The key is there exactly while the worker is processing, in the runs in which
nothing else ends the processing and nobody else deletes the key.
-/

namespace ByteBattles.Judge.Orchestrator

open ByteBattles.Lib

/-! ## What the key tells -/

/-- The process is not between taking a submission and setting the key, nor between storing
a verdict and deleting the key. -/
def Process.Settled (p : Process) : Prop :=
  p.position ≠ .setSubmission ∧ p.position ≠ .deleteSubmission

structure Process.Tells (p : Process) (key : Option SubmissionId) : Prop where
  exists_iff : key.isSome = true ↔ p.position = .process
  holds : ∀ id, key = some id → p.submission_id = some id

def Pc.starting : Pc → Option WorkerId
  | .started _ w => some w
  | _ => none

/-- The worker whose submission is about to be put back, and the submission. -/
def Pc.pushing : Pc → Option (WorkerId × SubmissionId)
  | .frozen _ w (.push id) => some (w, id)
  | _ => none

structure TellsTruth (f : Fleet) : Prop where
  workers : ∀ i, (f.judge.worker i).process.Settled →
    (f.judge.worker i).process.Tells (f.judge.worker i).submission
  orphans : ∀ o ∈ f.orphans, o.2.alive = true → o.2.Settled →
    o.2.Tells (f.judge.worker o.1).submission
  /-- There is no key of a worker that is not in `self.workers` any more. -/
  absent : ∀ i, i ∉ f.judge.workers → f.judge.pc.starting ≠ some i →
    (f.judge.worker i).submission = none
  /-- `check_heartbeat` puts back what the worker is processing. -/
  requeued : ∀ w id, f.judge.pc.pushing = some (w, id) →
    (f.judge.worker w).position = .process ∧ (f.judge.worker w).submission_id = some id

/-! ## Runs that keep it -/

/-- The process leaves its iteration, or ends. -/
def WorkerAction.leaves : WorkerAction → Bool
  | .raise _ | .interrupt | .die => true
  | _ => false

/-- A worker leaves an iteration without its key, sets the key while it is in the list and
the only process with its identifier, and stores no verdict that its submission is about to
be put back for. -/
def WorkerKeepsKey (f : Fleet) (i : WorkerId) (a : WorkerAction) : Prop :=
  let s := f.judge
  (a.leaves = true → (s.worker i).submission = none) ∧
  (a = .next → (s.worker i).position = .setSubmission →
    (i ∈ s.workers ∨ s.pc.starting = some i) ∧
      ∀ o ∈ f.orphans, o.1 = i → o.2.alive = false) ∧
  ((s.worker i).position = .process → a.leaves = false → s.pc.pushing.map (·.1) ≠ some i)

/-- The orchestrator does not stop a worker that has a key, nor delete the key of one that is
processing, nor read the key of one that has stored its verdict. -/
def OrchestratorKeepsKeys (s : State) : Pc → Prop
  | .frozen _ w .readSubmission => (s.worker w).position ≠ .deleteSubmission
  | .frozen _ w (.deleteSubmission _) => (s.worker w).position ≠ .process
  | .frozen _ w (.terminate _) | .stopKill _ w => (s.worker w).submission = none
  | .stop (_ + 1) => ∀ w ∈ s.workers.getLast?, (s.worker w).submission = none
  | _ => True

/-- In the state before the action, none of the ways to break the keys is open. -/
def KeepsKeys (f : Fleet) : FleetAction → Prop
  | .judge (.worker i a) => WorkerKeepsKey f i a
  | .judge .orchestrator => OrchestratorKeepsKeys f.judge f.judge.pc
  | .judge .interrupt => ∀ w ∈ f.judge.pc.starting, (f.judge.worker w).submission = none
  | .judge _ => True
  | .restart => ∀ i < f.judge.global_worker_id, (f.judge.worker i).submission = none
  | .orphan n a => a = .next → ∀ o ∈ f.orphans[n]?, o.2.position ≠ .setSubmission

instance (f : Fleet) (i : WorkerId) (a : WorkerAction) : Decidable (WorkerKeepsKey f i a) :=
  inferInstanceAs (Decidable (_ ∧ (_ → _ → (_ ∨ _) ∧
    ∀ o ∈ f.orphans, o.1 = i → o.2.alive = false) ∧ _))

instance (s : State) (pc : Pc) : Decidable (OrchestratorKeepsKeys s pc) :=
  match pc with
  | .frozen _ _ .readSubmission | .frozen _ _ (.deleteSubmission _) =>
      inferInstanceAs (Decidable (_ ≠ _))
  | .frozen _ _ (.terminate _) | .stopKill _ _ => inferInstanceAs (Decidable (_ = none))
  | .stop (_ + 1) =>
      inferInstanceAs (Decidable (∀ w ∈ s.workers.getLast?, (s.worker w).submission = none))
  | .frozen _ _ (.push _) | .frozen _ _ (.deleteShutdown _) | .frozen _ _ (.deleteHeartbeat _) |
    .begin | .check _ | .gotHeartbeat _ _ _ | .join _ _ | .scale | .spawn _ | .started _ _ |
    .appended _ _ | .unlocked _ _ | .stop 0 | .stopSet _ _ | .stopJoin _ _ _ | .shutdown |
    .finished => .isTrue trivial

instance (f : Fleet) (a : FleetAction) : Decidable (KeepsKeys f a) :=
  match a with
  | .judge (.worker i a) => inferInstanceAs (Decidable (WorkerKeepsKey f i a))
  | .judge .orchestrator => inferInstanceAs (Decidable (OrchestratorKeepsKeys f.judge f.judge.pc))
  | .judge .interrupt =>
      inferInstanceAs (Decidable (∀ w ∈ f.judge.pc.starting, (f.judge.worker w).submission = none))
  | .restart =>
      inferInstanceAs (Decidable (∀ i < f.judge.global_worker_id,
        (f.judge.worker i).submission = none))
  | .orphan n a =>
      inferInstanceAs (Decidable (a = .next → ∀ o ∈ f.orphans[n]?, o.2.position ≠ .setSubmission))
  | .judge .tick | .judge .commit | .judge (.enqueue _) | .judge (.deleteRow _) => .isTrue trivial

/-! ## Worker steps -/

/-- What one step of a worker does to its key. -/
inductive KeyMove (w : Worker) : WorkerAction → Worker → Prop
  | quiet (w' : Worker) :
      w.position ≠ .process → w.position ≠ .deleteSubmission → w.position ≠ .setSubmission →
      w'.submission = w.submission → w'.position ≠ .process →
      (w'.position = .setSubmission → w'.submission_id.isSome = true) → KeyMove w .next w'
  | set : w.position = .setSubmission → KeyMove w .next (w.setKey.goto .process)
  | clear : w.position = .deleteSubmission → KeyMove w .next (w.deleteKey.goto .readShutdown)
  | record (v : Verdict) :
      w.position = .process → KeyMove w (.record v) (w.release .deleteSubmission)
  | leave (a : WorkerAction) (w' : Worker) :
      a.leaves = true → w'.submission = w.submission → w'.position ≠ .process →
      w'.position ≠ .setSubmission → KeyMove w a w'

theorem keyMove_of_next {s t : State} {i : WorkerId} (h : workerNext s i = some t) :
    ∃ jobs w', t = { s with jobs := jobs }.setWorker i w' ∧ KeyMove (s.worker i) .next w' := by
  unfold workerNext at h
  cases hp : (s.worker i).position with
  | setSubmission =>
      simp only [hp, Option.some.injEq] at h
      exact ⟨s.jobs, _, h.symm, .set hp⟩
  | deleteSubmission =>
      simp only [hp, Option.some.injEq] at h
      exact ⟨s.jobs, _, h.symm, .clear hp⟩
  | brpop =>
      simp only [hp] at h
      cases hq : rpop s.jobs with
      | none =>
          simp only [hq, Option.some.injEq] at h
          exact ⟨s.jobs, _, h.symm, .quiet _ (by simp [hp]) (by simp [hp]) (by simp [hp]) rfl
            nofun nofun⟩
      | some e =>
          simp only [hq, Option.some.injEq] at h
          exact ⟨e.2, _, h.symm, .quiet _ (by simp [hp]) (by simp [hp]) (by simp [hp]) rfl
            nofun fun _ => rfl⟩
  | retry =>
      simp only [hp] at h
      split at h
      case h_1 id hid =>
        exact ⟨id :: s.jobs, _, (Option.some.inj h).symm, .quiet _ (by simp [hp]) (by simp [hp])
          (by simp [hp]) rfl nofun nofun⟩
      case h_2 hid =>
        exact ⟨s.jobs, _, (Option.some.inj h).symm, .quiet _ (by simp [hp]) (by simp [hp])
          (by simp [hp]) rfl nofun nofun⟩
  | readShutdown | readLocalShutdown =>
      simp only [hp, Option.some.injEq] at h
      refine ⟨s.jobs, _, h.symm, .quiet _ (by simp [hp]) (by simp [hp]) (by simp [hp]) rfl ?_ ?_⟩
      · split <;> exact nofun
      · split <;> exact nofun
  | process | ended => simp [hp] at h
  | _ =>
      simp only [hp, Option.some.injEq] at h
      exact ⟨s.jobs, _, h.symm, .quiet _ (by simp [hp]) (by simp [hp]) (by simp [hp]) rfl
        nofun nofun⟩

theorem keyMove_of_step {s t : State} {i : WorkerId} {a : WorkerAction}
    (h : workerStep s i a = some t) :
    ∃ jobs rows w', t = { s with jobs := jobs, rows := rows }.setWorker i w' ∧
      KeyMove (s.worker i) a w' := by
  cases a with
  | next =>
      obtain ⟨jobs, w', rfl, hmove⟩ := keyMove_of_next h
      exact ⟨jobs, s.rows, w', rfl, hmove⟩
  | record v =>
      cases workerMove_of_step h with
      | record id _ hp => exact ⟨s.jobs, _, _, rfl, .record v hp⟩
      | kill _ ha => simp at ha
  | raise e =>
      cases workerMove_of_step h with
      | drop | caught => exact ⟨s.jobs, s.rows, _, rfl, .leave _ _ rfl rfl nofun nofun⟩
      | kill _ ha => simp at ha
  | interrupt =>
      cases workerMove_of_step h with
      | interrupt | kill => exact ⟨s.jobs, s.rows, _, rfl, .leave _ _ rfl rfl nofun nofun⟩
  | die =>
      cases workerMove_of_step h with
      | kill => exact ⟨s.jobs, s.rows, _, rfl, .leave _ _ rfl rfl nofun nofun⟩

/-! ## The invariant -/

structure Worker.Exact (w : Worker) : Prop where
  taken : w.position = .setSubmission → w.submission_id.isSome = true
  processing : w.position = .process →
    w.submission = w.submission_id ∧ w.submission_id.isSome = true
  idle : w.position ≠ .process → w.position ≠ .deleteSubmission → w.submission = none

structure Keyed (s : State) : Prop where
  exact : ∀ i, (s.worker i).Exact
  spawned : ∀ i, (s.worker i).alive = true → i < s.global_worker_id
  /-- A worker with a key is in the list or about to be. -/
  listed : ∀ i, (s.worker i).submission ≠ none → i ∈ s.workers ∨ s.pc.starting = some i
  /-- `check_heartbeat` drops no live worker from the list. -/
  scanned : ∀ i ∈ s.workers, (s.worker i).alive = true → i ∈ s.roster
  requeued : ∀ w id, s.pc.pushing = some (w, id) →
    (s.worker w).position = .process ∧ (s.worker w).submission_id = some id

theorem Worker.Exact.alive {w : Worker} (h : w.Exact) (hkey : w.submission ≠ none) :
    w.alive = true := by
  rw [Worker.alive, bne_iff_ne]
  intro hended
  exact hkey (h.idle (by simp [hended]) (by simp [hended]))

/-- A worker that leaves without a key keeps its key exact. -/
theorem KeyMove.exact {w w' : Worker} {a : WorkerAction} (h : KeyMove w a w') (hw : w.Exact)
    (ha : a.leaves = true → w.submission = none) : w'.Exact := by
  cases h with
  | quiet _ hprocess hdelete hset hkey hprocess' htaken =>
      refine ⟨htaken, fun hp => absurd hp hprocess', fun _ _ => ?_⟩
      rw [hkey]
      exact hw.idle hprocess hdelete
  | set hp => exact ⟨nofun, fun _ => ⟨rfl, hw.taken hp⟩, fun hne => absurd rfl hne⟩
  | clear hp => exact ⟨nofun, nofun, fun _ _ => rfl⟩
  | record v hp => exact ⟨nofun, nofun, fun _ hne => absurd rfl hne⟩
  | leave _ _ hleaves hkey hprocess hset =>
      refine ⟨fun hp => absurd hp hset, fun hp => absurd hp hprocess, fun _ _ => ?_⟩
      rw [hkey]
      exact ha hleaves

theorem Keyed.of_eq {s t : State} (h : Keyed s) (hpc : t.pc = s.pc)
    (hworkers : t.workers = s.workers) (hids : t.global_worker_id = s.global_worker_id)
    (hprocess : ∀ i, (t.worker i).process = (s.worker i).process)
    (hkey : ∀ i, (t.worker i).submission = (s.worker i).submission) : Keyed t := by
  have hposition : ∀ i, (t.worker i).position = (s.worker i).position :=
    fun i => congrArg Process.position (hprocess i)
  have hid : ∀ i, (t.worker i).submission_id = (s.worker i).submission_id :=
    fun i => congrArg Process.submission_id (hprocess i)
  have halive : ∀ i, (t.worker i).alive = (s.worker i).alive := by
    intro i
    rw [Worker.alive, Worker.alive, hposition]
  constructor
  · intro i
    obtain ⟨htaken, hprocessing, hidle⟩ := h.exact i
    constructor <;> rw [hposition]
    · rwa [hid]
    · rwa [hid, hkey]
    · rwa [hkey]
  · intro i hi
    rw [hids]
    exact h.spawned i (halive i ▸ hi)
  · intro i hi
    rw [hworkers, hpc]
    exact h.listed i (hkey i ▸ hi)
  · intro i hi hlive
    rw [State.roster, hpc, hworkers]
    exact h.scanned i (hworkers ▸ hi) (halive i ▸ hlive)
  · intro w id hpush
    rw [hposition, hid]
    exact h.requeued w id (hpc ▸ hpush)

/-! ## Steps of the judge -/

/-- A worker has no key that it has not set. -/
theorem KeyMove.key {w w' : Worker} {a : WorkerAction} (h : KeyMove w a w')
    (hkey : w'.submission ≠ none) :
    w.submission ≠ none ∨ a = .next ∧ w.position = .setSubmission := by
  cases h with
  | quiet _ _ _ _ hsame => exact .inl (hsame ▸ hkey)
  | set hp => exact .inr ⟨rfl, hp⟩
  | clear => exact absurd rfl hkey
  | record => exact .inl hkey
  | leave _ _ _ hsame => exact .inl (hsame ▸ hkey)

theorem Keyed.worker {f : Fleet} {t : State} {i : WorkerId} {a : WorkerAction}
    (hs : Keyed f.judge) (ha : WorkerKeepsKey f i a) (h : workerStep f.judge i a = some t) :
    Keyed t := by
  obtain ⟨hleave, hset, hpush⟩ := ha
  have hlive : (f.judge.worker i).alive = true := (workerMove_of_step h).alive
  obtain ⟨jobs, rows, w', rfl, hmove⟩ := keyMove_of_step h
  have hexact := hs.exact i
  constructor
  · exact forall_setWorker (s := { f.judge with jobs := jobs, rows := rows })
      (p := fun _ w => w.Exact) hs.exact (hmove.exact hexact hleave)
  · exact forall_setWorker (s := { f.judge with jobs := jobs, rows := rows })
      (p := fun j w => w.alive = true → j < f.judge.global_worker_id) hs.spawned
      fun _ => hs.spawned i hlive
  · refine forall_setWorker (s := { f.judge with jobs := jobs, rows := rows })
      (p := fun j w => w.submission ≠ none → j ∈ f.judge.workers ∨ f.judge.pc.starting = some j)
      hs.listed fun hkey => ?_
    rcases hmove.key hkey with hkey | ⟨hnext, hp⟩
    · exact hs.listed i hkey
    · exact (hset hnext hp).1
  · exact forall_setWorker (s := { f.judge with jobs := jobs, rows := rows })
      (p := fun j w => j ∈ f.judge.workers → w.alive = true → j ∈ f.judge.roster)
      hs.scanned fun hi _ => hs.scanned i hi hlive
  · intro w id hw
    obtain ⟨hp, hid⟩ := hs.requeued w id hw
    by_cases hwi : w = i
    · subst hwi
      -- it has its key and is about to be examined, so it can neither leave nor record
      have hkey := hexact.processing hp
      cases hl : a.leaves with
      | true =>
          have hnone := hleave hl
          rw [hkey.1, hid] at hnone
          cases hnone
      | false => exact absurd (congrArg (Option.map Prod.fst) hw) (hpush hp hl)
    · rw [setWorker_of_ne _ _ hwi]
      exact ⟨hp, hid⟩

theorem Worker.Exact.of_same {w w' : Worker} (h : w.Exact) (hids : w.SameIds w')
    (hposition : w'.position = w.position) : w'.Exact := by
  obtain ⟨hid, -, hkey⟩ := hids
  constructor <;> rw [hposition]
  · rw [hid]
    exact h.taken
  · rw [hid, hkey]
    exact h.processing
  · rw [hkey]
    exact h.idle

theorem Worker.Exact.of_none {w : Worker} (hset : w.position ≠ .setSubmission)
    (hprocess : w.position ≠ .process) (hkey : w.submission = none) : w.Exact :=
  ⟨fun hp => absurd hp hset, fun hp => absurd hp hprocess, fun _ _ => hkey⟩

theorem Keyed.lt_of_key {s : State} (hs : Keyed s) {i : WorkerId}
    (hkey : (s.worker i).submission ≠ none) : i < s.global_worker_id :=
  hs.spawned i ((hs.exact i).alive hkey)

theorem Keyed.fresh {s : State} (hs : Keyed s) :
    (s.worker s.global_worker_id).submission = none := by
  by_contra hkey
  exact absurd (hs.lt_of_key hkey) (Nat.lt_irrefl _)

theorem exact_of_orchestratorMove {s t : State} (hs : Keyed s) (ha : OrchestratorKeepsKeys s s.pc)
    (h : OrchestratorMove s t) : ∀ i, (t.worker i).Exact := by
  cases h with
  | clear scan w stage stage' w' hpc hstage hstage' hpushed hnames hids hposition =>
      exact forall_setWorker (p := fun _ w => w.Exact) hs.exact ((hs.exact w).of_same hids hposition)
  | tune w w' pc hkept hkeep hnames hids hposition =>
      exact forall_setWorker (p := fun _ w => w.Exact) hs.exact ((hs.exact w).of_same hids hposition)
  | deleteKey scan w pushed hpc =>
      rw [hpc] at ha
      exact forall_setWorker (p := fun _ w => w.Exact) hs.exact
        ⟨(hs.exact w).taken, fun hp => absurd hp ha, fun _ _ => rfl⟩
  | terminate scan w pushed hpc =>
      rw [hpc] at ha
      exact forall_setWorker (p := fun _ w => w.Exact) hs.exact (.of_none nofun nofun ha)
  | stopKill n w hpc =>
      rw [hpc] at ha
      exact forall_setWorker (p := fun _ w => w.Exact) hs.exact (.of_none nofun nofun ha)
  | spawn n hpc =>
      exact forall_setWorker (s := { s with global_worker_id := s.global_worker_id + 1 })
        (p := fun _ w => w.Exact) hs.exact (.of_none nofun nofun hs.fresh)
  | _ => exact hs.exact

/-- The orchestrator sets no submission key. -/
theorem key_of_orchestratorMove {s t : State} (h : OrchestratorMove s t) :
    ∀ i, (t.worker i).submission ≠ none → (s.worker i).submission ≠ none := by
  have hset : ∀ {u : State} {w : WorkerId} {w' : Worker},
      (w'.submission ≠ none → (u.worker w).submission ≠ none) →
      ∀ i, ((u.setWorker w w').worker i).submission ≠ none → (u.worker i).submission ≠ none := by
    intro u w w' hw
    exact forall_setWorker (p := fun i w => w.submission ≠ none → (u.worker i).submission ≠ none)
      (fun _ hi => hi) hw
  cases h with
  | clear scan w stage stage' w' hpc hstage hstage' hpushed hnames hids =>
      exact hset fun hkey => hids.2.2 ▸ hkey
  | tune w w' pc hkept hkeep hnames hids => exact hset fun hkey => hids.2.2 ▸ hkey
  | deleteKey => exact hset fun hkey => absurd rfl hkey
  | terminate | stopKill | spawn => exact hset fun hkey => hkey
  | _ => exact fun _ hkey => hkey

theorem spawned_of_next {cfg : Config} {s t : State}
    (hs : ∀ i, (s.worker i).alive = true → i < s.global_worker_id)
    (h : orchestratorNext cfg s = some t) :
    ∀ i, (t.worker i).alive = true → i < t.global_worker_id := by
  cases poolMove_of_next h with
  | keep _ hkeep =>
      intro i hi
      rw [hkeep.ids]
      exact hs i (hkeep.live i hi).1
  | plan => exact hs
  | grow n hpc =>
      exact forall_setWorker (s := { s with global_worker_id := s.global_worker_id + 1 })
        (p := fun i w => w.alive = true → i < s.global_worker_id + 1)
        (fun i hi => Nat.lt_succ_of_lt (hs i hi)) fun _ => Nat.lt_succ_self _

theorem Keyed.listed_of_next {cfg : Config} {s t : State} (hs : Keyed s)
    (ha : OrchestratorKeepsKeys s s.pc) (h : orchestratorNext cfg s = some t) {i : WorkerId}
    (hkey : (s.worker i).submission ≠ none) : i ∈ t.workers ∨ t.pc.starting = some i := by
  have hlisted := hs.listed i hkey
  have hscanned := fun hi => hs.scanned i hi ((hs.exact i).alive hkey)
  have hstep := orchestratorStep_of_next h
  rw [State.roster] at hscanned
  generalize s.pc = pc at hstep hlisted hscanned ha
  cases hstep with
  | publish ct alive =>
      have hroster := hscanned (hlisted.resolve_right (Option.not_mem_none i))
      rw [rosterIn, List.append_nil] at hroster
      exact .inl hroster
  | append n w =>
      left
      rcases hlisted with hmem | hw
      · exact List.mem_append_left _ hmem
      · obtain rfl := Option.some.inj hw
        exact List.mem_append_right _ (List.mem_singleton_self _)
  | stopPop n w workers hq =>
      rw [rpop_eq_some] at hq
      have hmem := hlisted.resolve_right (Option.not_mem_none i)
      rw [hq, List.mem_append, List.mem_singleton] at hmem
      rcases hmem with hmem | rfl
      · exact .inl hmem
      · exact absurd (ha i (by simp [hq])) hkey
  | frozen scan w stage =>
      have hmem := hlisted.resolve_right (Option.not_mem_none i)
      cases stage with
      | readSubmission =>
          cases hw : (s.worker w).submission <;> simp only [frozenStep, hw] <;> exact .inl hmem
      | _ => exact .inl hmem
  | _ => exact .inl (hlisted.resolve_right (Option.not_mem_none i))

theorem Keyed.scanned_of_next {cfg : Config} {s t : State} (hs : Keyed s)
    (h : orchestratorNext cfg s = some t) :
    ∀ i ∈ t.workers, (t.worker i).alive = true → i ∈ t.roster := by
  intro i hi hlive
  cases hscan : t.pc.scanning with
  | false =>
      rw [roster_of_not_scanning hscan]
      exact List.mem_append_left _ hi
  | true =>
      rw [workers_of_orchestratorMove (orchestratorMove_of_next h) hscan] at hi
      cases poolMove_of_next h with
      | keep _ hkeep =>
          obtain ⟨halive, hmem⟩ := hkeep.live i hlive
          exact hmem (hs.scanned i hi halive)
      | plan =>
          rw [State.roster, State.goto, rosterIn_scaleTo]
          exact hi
      | grow => cases hscan

/-- A worker whose key has just been read is processing it. -/
theorem Keyed.requeued_of_next {cfg : Config} {s t : State} (hs : Keyed s)
    (ha : OrchestratorKeepsKeys s s.pc) (h : orchestratorNext cfg s = some t) {w : WorkerId}
    {id : SubmissionId} (hw : t.pc.pushing = some (w, id)) :
    (t.worker w).position = .process ∧ (t.worker w).submission_id = some id := by
  have hstep := orchestratorStep_of_next h
  generalize s.pc = pc at hstep ha
  cases hstep with
  | frozen scan v stage =>
      cases stage with
      | readSubmission =>
          cases hkey : (s.worker v).submission with
          | none => simp [frozenStep, hkey, State.goto, Pc.pushing] at hw
          | some id' =>
              simp only [frozenStep, hkey, State.goto, Pc.pushing, Option.some.injEq,
                Prod.mk.injEq] at hw ⊢
              obtain ⟨rfl, rfl⟩ := hw
              have hp : (s.worker v).position = .process := by
                by_contra hne
                rw [(hs.exact v).idle hne ha] at hkey
                cases hkey
              exact ⟨hp, ((hs.exact v).processing hp).1 ▸ hkey⟩
      | _ => cases hw
  | scale =>
      simp only [State.goto, scaleTo] at hw
      grind [Pc.pushing]
  | _ => cases hw

theorem Keyed.orchestrator {cfg : Config} {s t : State} (hs : Keyed s)
    (ha : OrchestratorKeepsKeys s s.pc) (h : orchestratorNext cfg s = some t) : Keyed t where
  exact := exact_of_orchestratorMove hs ha (orchestratorMove_of_next h)
  spawned := spawned_of_next hs.spawned h
  listed := fun i hkey =>
    hs.listed_of_next ha h (key_of_orchestratorMove (orchestratorMove_of_next h) i hkey)
  scanned := hs.scanned_of_next h
  requeued := fun _ _ hw => hs.requeued_of_next ha h hw

theorem Keyed.interrupt {s : State} (hs : Keyed s)
    (ha : ∀ w ∈ s.pc.starting, (s.worker w).submission = none) :
    Keyed ({ s with shutdown := true }.goto .shutdown) where
  exact := hs.exact
  spawned := hs.spawned
  listed := by
    intro i hkey
    rcases hs.listed i hkey with hmem | hstarting
    · exact .inl hmem
    · exact absurd (ha i hstarting) hkey
  scanned := fun _ hi _ => hi
  requeued := nofun

theorem Keyed.step {cfg : Config} {f : Fleet} {t : State} {a : Action} (hs : Keyed f.judge)
    (ha : KeepsKeys f (.judge a)) (h : Orchestrator.step cfg f.judge a = some t) : Keyed t := by
  cases a with
  | tick | commit | deleteRow =>
      obtain rfl := Option.some.inj h
      exact hs.of_eq rfl rfl rfl (fun _ => rfl) fun _ => rfl
  | enqueue id =>
      obtain ⟨-, rfl⟩ := enqueue_of_step h
      exact hs.of_eq rfl rfl rfl (fun _ => rfl) fun _ => rfl
  | worker i a => exact hs.worker ha h
  | orchestrator => exact hs.orchestrator ha h
  | interrupt =>
      obtain rfl := interrupt_of_step h
      exact hs.interrupt ha

/-- Only a worker that has taken a submission sets its key. -/
theorem key_of_step {cfg : Config} {s t : State} {a : Action}
    (h : Orchestrator.step cfg s a = some t) {i : WorkerId} (hkey : (t.worker i).submission ≠ none) :
    (s.worker i).submission ≠ none ∨
      a = .worker i .next ∧ (s.worker i).position = .setSubmission := by
  cases a with
  | tick | commit | deleteRow =>
      obtain rfl := Option.some.inj h
      exact .inl hkey
  | enqueue id =>
      obtain ⟨-, rfl⟩ := enqueue_of_step h
      exact .inl hkey
  | worker j a =>
      obtain ⟨jobs, rows, w', rfl, hmove⟩ := keyMove_of_step h
      by_cases hij : i = j
      · subst hij
        rw [setWorker_self] at hkey
        rcases hmove.key hkey with hold | ⟨rfl, hp⟩
        · exact .inl hold
        · exact .inr ⟨rfl, hp⟩
      · rw [setWorker_of_ne _ _ hij] at hkey
        exact .inl hkey
  | orchestrator => exact .inl (key_of_orchestratorMove (orchestratorMove_of_next h) i hkey)
  | interrupt =>
      obtain rfl := interrupt_of_step h
      exact .inl hkey

/-! ## Steps of the fleet -/

structure FleetKeyed (f : Fleet) : Prop where
  judge : Keyed f.judge
  orphans : ∀ o ∈ f.orphans, o.2.alive = true →
    o.2.position ≠ .process ∧ (f.judge.worker o.1).submission = none

theorem FleetKeyed.judgeStep {cfg : Config} {f : Fleet} {t : State} {a : Action}
    (hf : FleetKeyed f) (ha : KeepsKeys f (.judge a))
    (h : Orchestrator.step cfg f.judge a = some t) : FleetKeyed { f with judge := t } where
  judge := hf.judge.step ha h
  orphans := by
    intro o ho hlive
    obtain ⟨hp, hnone⟩ := hf.orphans o ho hlive
    refine ⟨hp, ?_⟩
    by_contra hkey
    rcases key_of_step h hkey with hold | ⟨rfl, hset⟩
    · exact hold hnone
    · have hdead := (ha.2.1 rfl hset).2 o ho rfl
      rw [hlive] at hdead
      cases hdead

theorem mem_running {s : State} {o : WorkerId × Process} :
    o ∈ s.running ↔
      ∃ i < s.global_worker_id, (s.worker i).alive = true ∧ o = (i, (s.worker i).process) := by
  simp only [State.running, List.mem_filter, List.mem_map, List.mem_range]
  constructor
  · intro h
    obtain ⟨⟨i, hi, rfl⟩, hlive⟩ := h
    exact ⟨i, hi, hlive, rfl⟩
  · intro h
    obtain ⟨i, hi, hlive, rfl⟩ := h
    exact ⟨⟨i, hi, rfl⟩, hlive⟩

theorem FleetKeyed.restart {f : Fleet} (hf : FleetKeyed f)
    (ha : ∀ i < f.judge.global_worker_id, (f.judge.worker i).submission = none) :
    FleetKeyed ⟨f.judge.restarted, f.orphans ++ f.judge.running⟩ := by
  have hnone : ∀ i, (f.judge.worker i).submission = none := by
    intro i
    by_contra hkey
    exact hkey (ha i (hf.judge.lt_of_key hkey))
  refine ⟨?_, fun o ho hlive => ⟨?_, hnone o.1⟩⟩
  · exact
      { exact := fun i => .of_none nofun nofun (hnone i)
        spawned := nofun
        listed := fun i hkey => absurd (hnone i) hkey
        scanned := nofun
        requeued := nofun }
  · rcases List.mem_append.mp ho with hold | hrunning
    · exact (hf.orphans o hold hlive).1
    · obtain ⟨i, -, -, rfl⟩ := mem_running.mp hrunning
      intro hp
      obtain ⟨hkey, hid⟩ := (hf.judge.exact i).processing hp
      rw [← hkey, hnone i] at hid
      cases hid

/-- An orphan that is idle stays idle and sets no key. -/
theorem KeyMove.idle {w w' : Worker} {a : WorkerAction} (h : KeyMove w a w')
    (hprocess : w.position ≠ .process) (hkey : w.submission = none)
    (hset : a = .next → w.position ≠ .setSubmission) :
    w'.position ≠ .process ∧ w'.submission = none := by
  cases h with
  | quiet _ _ _ _ hsame hp => exact ⟨hp, hsame.trans hkey⟩
  | set hp => exact absurd hp (hset rfl)
  | clear => exact ⟨nofun, rfl⟩
  | record v hp => exact absurd hp hprocess
  | leave _ _ _ hsame hp => exact ⟨hp, hsame.trans hkey⟩

theorem FleetKeyed.orphanStep {f g : Fleet} {n : Nat} {i : WorkerId} {p : Process}
    {a : WorkerAction} (hf : FleetKeyed f) (hn : f.orphans[n]? = some (i, p))
    (ha : a = .next → p.position ≠ .setSubmission) (h : f.orphanStep n i p a = some g) :
    FleetKeyed g := by
  obtain ⟨t, ht, rfl⟩ := Option.map_eq_some_iff.mp h
  have hlive := (workerMove_of_step ht).alive
  obtain ⟨jobs, rows, w', rfl, hmove⟩ := keyMove_of_step ht
  rw [setWorker_self] at hlive hmove
  obtain ⟨hp, hkey⟩ := hf.orphans (i, p) (List.mem_of_getElem? hn) hlive
  obtain ⟨hp', hkey'⟩ := hmove.idle hp hkey ha
  -- the worker of the new orchestrator with the same identifier keeps its own process
  have hjudge : ({ f.judge.setWorker i ((f.judge.worker i).run p) with
        jobs := jobs, rows := rows }.setWorker i w').setWorker i
          (w'.run (f.judge.worker i).process) =
      { f.judge with jobs := jobs, rows := rows }.setWorker i
        (w'.run (f.judge.worker i).process) := by
    simp only [State.setWorker, Function.update_idem]
  have hkeys := forall_setWorker (s := { f.judge with jobs := jobs, rows := rows })
    (p := fun j w => w.submission = (f.judge.worker j).submission) (i := i)
    (w := w'.run (f.judge.worker i).process) (fun _ => rfl) (hkey'.trans hkey.symm)
  have hprocesses := forall_setWorker (s := { f.judge with jobs := jobs, rows := rows })
    (p := fun j w => w.process = (f.judge.worker j).process) (i := i)
    (w := w'.run (f.judge.worker i).process) (fun _ => rfl) rfl
  rw [setWorker_self, hjudge]
  refine ⟨hf.judge.of_eq rfl rfl rfl hprocesses hkeys, fun o ho halive => ?_⟩
  rw [hkeys]
  rcases List.mem_or_eq_of_mem_set ho with hold | rfl
  · exact hf.orphans o hold halive
  · exact ⟨hp', hkey⟩

theorem FleetKeyed.step {cfg : Config} {f g : Fleet} {a : FleetAction} (hf : FleetKeyed f)
    (ha : KeepsKeys f a) (h : f.step cfg a = some g) : FleetKeyed g := by
  cases a with
  | judge a =>
      obtain ⟨t, ht, rfl⟩ := Option.map_eq_some_iff.mp h
      exact hf.judgeStep ha ht
  | restart =>
      obtain rfl := Option.some.inj h
      exact hf.restart ha
  | orphan n a =>
      simp only [Fleet.step] at h
      split at h
      case h_1 => cases h
      case h_2 i p hn => exact hf.orphanStep hn (fun hnext => ha hnext _ hn) h

theorem keyed_start : Keyed start where
  exact := fun _ => .of_none nofun nofun rfl
  spawned := nofun
  listed := fun _ hkey => absurd rfl hkey
  scanned := nofun
  requeued := nofun

theorem fleetKeyed {cfg : Config} {f : Fleet} (h : (fleet cfg).ReachableUnder KeepsKeys f) :
    FleetKeyed f := by
  refine System.PreservedUnder.invariant ?_ ?_ h
  · intro s t a _ hs ha hstep
    exact hs.step ha hstep
  · rintro _ rfl
    exact ⟨keyed_start, nofun⟩

/-! ## Every run -/

theorem Worker.Exact.tells {w : Worker} (h : w.Exact) (hsettled : w.process.Settled) :
    w.process.Tells w.submission := by
  have hprocess : w.submission ≠ none → w.position = .process := by
    intro hkey
    by_contra hp
    exact hkey (h.idle hp hsettled.2)
  constructor
  · rw [Option.isSome_iff_ne_none]
    constructor
    · exact hprocess
    · intro hp
      rw [(h.processing hp).1, ← Option.isSome_iff_ne_none]
      exact (h.processing hp).2
  · intro id hid
    have hp := hprocess (by simp [hid])
    exact (h.processing hp).1.symm.trans hid

/-- **The submission key tells the truth** in the runs in which nobody breaks it. -/
theorem tellsTruth_of_keepsKeys {cfg : Config} {f : Fleet}
    (h : (fleet cfg).ReachableUnder KeepsKeys f) : TellsTruth f := by
  have hf := fleetKeyed h
  constructor
  · intro i hsettled
    exact (hf.judge.exact i).tells hsettled
  · intro o ho hlive _
    obtain ⟨hp, hkey⟩ := hf.orphans o ho hlive
    rw [hkey]
    exact ⟨⟨nofun, fun hprocess => absurd hprocess hp⟩, nofun⟩
  · intro i hlisted hstarting
    by_contra hkey
    exact (hf.judge.listed i hkey).elim hlisted hstarting
  · exact hf.judge.requeued

def fleetTakeRun : List FleetAction := takeRun.map .judge

theorem tellsTruth_processing :
    ∃ f : Fleet, ((f.judge.worker 1).position = .process ∧
      (f.judge.worker 1).submission = some 1) ∧ TellsTruth f := by
  obtain ⟨f, hf, hprocess, hkey⟩ := System.exists_path (fleet oneWorker) KeepsKeys ⟨start, []⟩
    fleetTakeRun (fun f => (f.judge.worker 1).position = .process ∧
      (f.judge.worker 1).submission = some 1) (by decide)
  exact ⟨f, ⟨hprocess, hkey⟩, tellsTruth_of_keepsKeys ⟨_, rfl, hf⟩⟩

/-- `process_submission` raises a `ValueError`, and the worker is back at the head of its
loop with its key. -/
theorem not_tellsTruth_valueError :
    ¬ ∀ cfg f, (fleet cfg).Reachable f → TellsTruth f := by
  intro hall
  obtain ⟨f, hf, hidle, hkey⟩ := System.exists_path (fleet oneWorker) (fun _ _ => True)
    ⟨start, []⟩ (fleetTakeRun ++ [.judge (.worker 1 (.raise .valueError))])
    (fun f => (f.judge.worker 1).process.position = .readShutdown ∧
      (f.judge.worker 1).submission = some 1) (by decide)
  have htells := (hall _ f ⟨_, rfl, hf⟩).workers 1 (by simp [Process.Settled, hidle])
  have hprocess := htells.exists_iff.mp (by simp [hkey])
  rw [hidle] at hprocess
  cases hprocess

end ByteBattles.Judge.Orchestrator
