import ByteBattles.Judge.Orchestrator.Wellformed

/-!
# Crash recovery

A submission is in the job list, with a worker that has popped it, or under the
submission key of a worker that `check_heartbeat` is going to examine.  Each of
these is a copy; a step moves a copy, makes one or abandons one.  Nothing is lost
in the runs that abandon no copy of an unjudged submission, except for one that
the frozen branch has just put back.
-/

namespace ByteBattles.Judge.Orchestrator

open ByteBattles.Lib

def Worker.Holds (w : Worker) (id : SubmissionId) : Prop :=
  w.position.inLoop = true ∧ w.held = some id

def Outstanding (s : State) (id : SubmissionId) : Prop :=
  s.rows id = some .PENDING ∧ id ∉ s.unsent

/-- The submission is in one of the places from which it is judged or put back. -/
def Recoverable (s : State) (id : SubmissionId) : Prop :=
  id ∈ s.jobs ∨ (∃ i, (s.worker i).Holds id) ∨
    ∃ i ∈ s.workers, (s.worker i).submission = some id

/-- No enqueued submission that is still `PENDING` is lost. -/
def NoneLost (s : State) : Prop := ∀ id, Outstanding s id → Recoverable s id

/-! ## A worker that dies -/

def oneWorker : Config := ⟨1, 1, 2⟩

def takeRun : List Action :=
  List.replicate 8 .orchestrator ++ [.commit, .enqueue 1] ++
    List.replicate 5 (.worker 1 .next)

def dropRun : List Action :=
  takeRun ++ [.worker 1 .die] ++ List.replicate 5 .orchestrator

theorem not_noneLost_drop :
    (∃ s, (system oneWorker).Reachable s ∧ Outstanding s 1 ∧ ¬ Recoverable s 1) ∧
      ¬ ∀ cfg s, (system cfg).Reachable s → NoneLost s := by
  obtain ⟨s, hs, hrow, hunsent, hjobs, hworkers, hspawned, h0, h1⟩ :=
    System.exists_path (system oneWorker) (fun _ _ => True) start dropRun
      (fun s => s.rows 1 = some .PENDING ∧ 1 ∉ s.unsent ∧ 1 ∉ s.jobs ∧ s.workers = [] ∧
        s.global_worker_id = 2 ∧ (s.worker 0).position.inLoop = false ∧
        (s.worker 1).position.inLoop = false) (by decide)
  have hreach : (system oneWorker).Reachable s := ⟨_, rfl, hs⟩
  have hlost : ¬ Recoverable s 1 := by
    rintro (hjob | ⟨i, hloop, -⟩ | ⟨i, hi, -⟩)
    · exact hjobs hjob
    · have hlt := (wellformed hreach).spawned i (Worker.alive_of_inLoop hloop)
      rw [hspawned] at hlt
      obtain rfl | rfl : i = 0 ∨ i = 1 := Nat.le_one_iff_eq_zero_or_eq_one.mp (Nat.le_of_lt_succ hlt)
      · simp [h0] at hloop
      · simp [h1] at hloop
    · simp [hworkers] at hi
  exact ⟨⟨s, hreach, ⟨hrow, hunsent⟩, hlost⟩, fun hall => hlost (hall _ s hreach 1 ⟨hrow, hunsent⟩)⟩

/-! ## Copies of a submission -/

/-- The copy of the submission that a worker has; `examined` says that
`check_heartbeat` still finds the submission key of the worker. -/
def Worker.token (examined : Prop) [Decidable examined] (id : SubmissionId) (w : Worker) : Nat :=
  if w.held = some id ∧ (w.position.inLoop = true ∨ examined ∧ w.submission = some id) then 1
  else 0

def token (s : State) (id : SubmissionId) (i : WorkerId) : Nat :=
  (s.worker i).token (i ∈ kept s) id

def copies (s : State) (id : SubmissionId) : Nat :=
  s.jobs.count id + ∑ i ∈ Finset.range s.global_worker_id, token s id i

theorem token_le_one (s : State) (id : SubmissionId) (i : WorkerId) : token s id i ≤ 1 := by
  unfold token Worker.token
  split <;> omega

theorem token_eq_zero {s : State} {id : SubmissionId} {i : WorkerId}
    (h : (s.worker i).held ≠ some id) : token s id i = 0 :=
  if_neg fun hw => h hw.1

/-- A worker in its loop has a copy of what it holds. -/
theorem token_of_inLoop {s : State} {id : SubmissionId} {i : WorkerId}
    (h : (s.worker i).position.inLoop = true) :
    token s id i = if (s.worker i).held = some id then 1 else 0 := by
  simp [token, Worker.token, h]

/-- A worker that has left its loop has a copy under its key. -/
theorem token_of_not_inLoop {s : State} {id : SubmissionId} {i : WorkerId}
    (h : (s.worker i).position.inLoop = false) :
    token s id i = if (s.worker i).held = some id ∧ i ∈ kept s ∧
      (s.worker i).submission = some id then 1 else 0 := by
  simp [token, Worker.token, h]

theorem token_congr {s t : State} {id : SubmissionId} {i : WorkerId}
    (hheld : (t.worker i).held = (s.worker i).held)
    (hkey : (t.worker i).submission = (s.worker i).submission)
    (hloop : (t.worker i).position.inLoop = (s.worker i).position.inLoop)
    (hkept : i ∈ kept t ↔ i ∈ kept s) : token t id i = token s id i := by
  simp only [token, Worker.token, hheld, hkey, hloop, hkept]

/-- A copy under a key stays where the worker is still examined. -/
theorem token_mono {s t : State} {id : SubmissionId} {i : WorkerId}
    (hworker : t.worker i = s.worker i) (hkept : i ∈ kept s → i ∈ kept t) :
    token s id i ≤ token t id i := by
  unfold token Worker.token
  rw [hworker]
  split
  case isTrue h =>
    rw [if_pos ⟨h.1, h.2.imp_right fun h => ⟨hkept h.1, h.2⟩⟩]
  case isFalse => exact Nat.zero_le _

theorem copies_mono {s t : State} {id : SubmissionId}
    (hjobs : s.jobs.count id ≤ t.jobs.count id)
    (hids : s.global_worker_id ≤ t.global_worker_id)
    (htoken : ∀ i < s.global_worker_id, token s id i ≤ token t id i) :
    copies s id ≤ copies t id := by
  apply Nat.add_le_add hjobs
  calc ∑ i ∈ Finset.range s.global_worker_id, token s id i
      ≤ ∑ i ∈ Finset.range s.global_worker_id, token t id i :=
        Finset.sum_le_sum fun i hi => htoken i (Finset.mem_range.mp hi)
    _ ≤ ∑ i ∈ Finset.range t.global_worker_id, token t id i :=
        Finset.sum_le_sum_of_subset (Finset.range_mono hids)

theorem copies_le_add {s t : State} {id : SubmissionId} (i : WorkerId)
    (hjobs : s.jobs.count id ≤ t.jobs.count id)
    (hids : s.global_worker_id ≤ t.global_worker_id)
    (htoken : ∀ j < s.global_worker_id, j ≠ i → token s id j ≤ token t id j) :
    copies s id ≤ copies t id + token s id i := by
  have hsum := Lib.sum_le_add (f := fun j : Nat => token s id j)
    (g := fun j : Nat => token t id j) i
    fun j (hj : j ∈ Finset.range s.global_worker_id) hji => htoken j (Finset.mem_range.mp hj) hji
  have hsub : ∑ j ∈ Finset.range s.global_worker_id, token t id j ≤
      ∑ j ∈ Finset.range t.global_worker_id, token t id j :=
    Finset.sum_le_sum_of_subset (Finset.range_mono hids)
  simp only [copies]
  omega

/-- A step of worker `i`. -/
theorem copies_setWorker {s t : State} {i : WorkerId} {w : Worker} (id : SubmissionId)
    (hi : i < s.global_worker_id) (hworker : t.worker = s.worker)
    (hids : t.global_worker_id = s.global_worker_id) (hkept : kept t = kept s) :
    copies (t.setWorker i w) id + s.jobs.count id + token s id i =
      copies s id + t.jobs.count id + w.token (i ∈ kept s) id := by
  have hsum := Lib.sum_change (f := fun j : Nat => token s id j)
    (g := fun j : Nat => token (t.setWorker i w) id j) (Finset.mem_range.mpr hi) fun j hj => by
      unfold token
      simp only [setWorker_of_ne t w hj, hworker, kept_setWorker, hkept]
  have hi' : token (t.setWorker i w) id i = w.token (i ∈ kept s) id := by
    simp only [token, setWorker_self, kept_setWorker, hkept]
  rw [hi'] at hsum
  have hcopies : copies (t.setWorker i w) id =
      t.jobs.count id + ∑ j ∈ Finset.range s.global_worker_id, token (t.setWorker i w) id j := by
    rw [copies]
    exact congrArg _ (by rw [← hids]; rfl)
  rw [hcopies, copies]
  omega

/-! ## Runs that abandon nothing -/

def unfinished (s : State) (i : WorkerId) : Option SubmissionId :=
  (s.worker i).held.filter fun id => s.rows id = some .PENDING

/-- The submission is named by the key of a worker that is still examined, or the
frozen branch for the worker has put it back. -/
def Backed (s : State) (i : WorkerId) (id : SubmissionId) : Prop :=
  (i ∈ kept s ∧ (s.worker i).submission = some id) ∨ s.pc.pushedFor i = some id

/-- The worker whose copy the orchestrator is about to abandon, and what it has put
back for that worker. -/
def abandons (s : State) : Option (WorkerId × Option SubmissionId) :=
  match s.pc with
  -- the worker is dropped from the list
  | .gotHeartbeat _ w hb =>
      if (s.worker w).alive = false ∨ hb = none then some (w, none) else none
  | .frozen _ w (.deleteSubmission pushed) =>
      if (s.worker w).position.inLoop then none else some (w, pushed)
  | .frozen _ w (.terminate pushed) =>
      if (s.worker w).position.inLoop then some (w, pushed) else none
  | .stop (_ + 1) =>
      match rpop s.workers with
      | some (w, _) => if (s.worker w).position.inLoop then none else some (w, none)
      | none => none
  | .stopKill _ w => if (s.worker w).position.inLoop then some (w, none) else none
  | _ => none

/-- The step abandons no copy of an unjudged submission that has not been put back. -/
def Safe (s : State) : Action → Prop
  | .worker i .interrupt | .worker i .die =>
      (s.worker i).position.inLoop = true → ∀ id ∈ unfinished s i, Backed s i id
  | .worker i (.raise .valueError) => unfinished s i = none
  | .orchestrator => ∀ e ∈ abandons s, ∀ id ∈ unfinished s e.1, e.2 = some id
  | _ => True

instance (s : State) (i : WorkerId) (id : SubmissionId) : Decidable (Backed s i id) :=
  inferInstanceAs (Decidable (_ ∨ _))

instance (s : State) (a : Action) : Decidable (Safe s a) :=
  match a with
  | .worker i .interrupt | .worker i .die =>
      inferInstanceAs (Decidable (_ → ∀ id ∈ unfinished s i, Backed s i id))
  | .worker _ (.raise .valueError) => inferInstanceAs (Decidable (_ = _))
  | .orchestrator =>
      inferInstanceAs (Decidable (∀ e ∈ abandons s, ∀ id ∈ unfinished s e.1, e.2 = some id))
  | .worker _ .next | .worker _ (.record _) | .worker _ (.raise .other) | .tick | .commit |
    .enqueue _ | .deleteRow _ | .interrupt => .isTrue trivial

theorem mem_unfinished {s : State} {i : WorkerId} {id : SubmissionId} :
    id ∈ unfinished s i ↔ (s.worker i).held = some id ∧ s.rows id = some .PENDING := by
  simp [unfinished, Option.filter_eq_some_iff]

theorem token_eq_zero_of_unfinished {s : State} {i : WorkerId} {id : SubmissionId}
    (hrow : s.rows id = some .PENDING) (h : unfinished s i = none) : token s id i = 0 :=
  token_eq_zero fun hheld => by
    have := mem_unfinished.mpr ⟨hheld, hrow⟩
    simp [h] at this

/-! ## Steps of a worker -/

theorem Position.inLoop_of_idle {p : Position} (h : p.idle = true) : p.inLoop = true := by
  cases p <;> simp_all [Position.idle, Position.inLoop]

theorem Position.inLoop_of_inTry {p : Position} (h : p.inTry = true) : p.inLoop = true := by
  cases p <;> simp_all [Position.inTry, Position.inLoop]

theorem Worker.token_congr {w w' : Worker} (examined : Prop) [Decidable examined]
    (id : SubmissionId) (hids : w.SameIds w') (hloop : w'.position.inLoop = w.position.inLoop) :
    w'.token examined id = w.token examined id := by
  obtain ⟨-, hheld, hkey⟩ := hids
  simp only [Worker.token, hheld, hkey, hloop]

theorem Worker.token_of_inLoop {w : Worker} {examined : Prop} [Decidable examined]
    {id : SubmissionId} (h : w.position.inLoop = true) :
    w.token examined id = if w.held = some id then 1 else 0 := by
  simp [Worker.token, h]

theorem rows_of_workerMove {s t : State} {i : WorkerId} {a : WorkerAction} {id : SubmissionId}
    (h : WorkerMove s i a t) (hrow : t.rows id = some .PENDING) : s.rows id = some .PENDING := by
  cases h with
  | record k v _ _ hv =>
      change storeVerdict s.rows k v id = _ at hrow
      unfold storeVerdict at hrow
      split at hrow
      case isTrue =>
        by_cases hk : id = k
        · subst hk
          simp [hv] at hrow
        · rwa [Function.update_of_ne hk] at hrow
      case isFalse => exact hrow
  | _ => exact hrow

/-- A verdict ends the interest in a submission. -/
theorem storeVerdict_self {rows : SubmissionId → Option Verdict} {id : SubmissionId} {v : Verdict}
    (hv : v ≠ .PENDING) : storeVerdict rows id v id ≠ some .PENDING := by
  unfold storeVerdict
  split
  case isTrue => simpa using hv
  case isFalse h =>
    intro hrow
    simp [hrow] at h

/-- The worker leaves its loop with its ids as they are. -/
theorem copies_of_leave {s : State} {i : WorkerId} {p : Position} {id : SubmissionId}
    (hi : i < s.global_worker_id) (hp : p.inLoop = false) (hrow : s.rows id = some .PENDING)
    (hsafe : (s.worker i).position.inLoop = true → ∀ id ∈ unfinished s i, Backed s i id) :
    copies s id ≤ copies (s.setWorker i ((s.worker i).goto p)) id ∨
      (s.pc.pushedFor i = some id ∧ (s.worker i).position.inLoop = true ∧
        ((s.worker i).goto p).token (i ∈ kept s) id = 0 ∧
        copies s id ≤ copies (s.setWorker i ((s.worker i).goto p)) id + 1) := by
  have key := copies_setWorker (w := (s.worker i).goto p) id hi rfl rfl rfl
  have hone := token_le_one s id i
  have hkey : (i ∈ kept s ∧ (s.worker i).submission = some id) → (s.worker i).held = some id →
      ((s.worker i).goto p).token (i ∈ kept s) id = 1 :=
    fun hnamed hheld => if_pos ⟨hheld, .inr hnamed⟩
  by_cases hheld : (s.worker i).held = some id
  · by_cases hnamed : i ∈ kept s ∧ (s.worker i).submission = some id
    · have := hkey hnamed hheld
      exact .inl (by omega)
    · have hnew : ((s.worker i).goto p).token (i ∈ kept s) id = 0 :=
        if_neg fun h => by simp [Worker.goto, hp] at h; exact hnamed h.2
      cases hloop : (s.worker i).position.inLoop with
      | true =>
          rcases hsafe hloop id (mem_unfinished.mpr ⟨hheld, hrow⟩) with h | h
          · exact absurd h hnamed
          · exact .inr ⟨h, rfl, hnew, by omega⟩
      | false =>
          have hold : token s id i = 0 := by
            rw [token_of_not_inLoop hloop, if_neg fun h => hnamed h.2]
          exact .inl (by omega)
  · have := token_eq_zero hheld
    exact .inl (by omega)

/-- A step of worker `i` keeps the number of copies, unless it abandons one that the
frozen branch has put back. -/
theorem copies_of_workerMove {s t : State} {i : WorkerId} {a : WorkerAction} {id : SubmissionId}
    (hs : Wellformed s) (h : WorkerMove s i a t) (hsafe : Safe s (.worker i a))
    (hrow : t.rows id = some .PENDING) :
    copies s id ≤ copies t id ∨
      (s.pc.pushedFor i = some id ∧ (s.worker i).position.inLoop = true ∧
        (t.worker i).position.inLoop = false ∧ token t id i = 0 ∧
        copies s id ≤ copies t id + 1) := by
  have hi := hs.spawned i h.alive
  have hrow' := rows_of_workerMove h hrow
  have hok := hs.ok i
  have hidle : (s.worker i).position.idle = true → token s id i = 0 := fun h =>
    token_eq_zero (by rw [hok.idle h]; exact nofun)
  cases h with
  | walk w' hp hp' hids =>
      have key := copies_setWorker (w := w') id hi rfl rfl rfl
      have := Worker.token_congr (i ∈ kept s) id hids (by
        rw [Position.inLoop_of_idle hp, Position.inLoop_of_idle hp'])
      unfold token at key
      exact .inl (by omega)
  | leave hp =>
      have key := copies_setWorker (w := (s.worker i).goto .deleteShutdown) id hi
        rfl rfl rfl
      have := hidle hp
      exact .inl (by omega)
  | pop k jobs hp hq =>
      have key := copies_setWorker (t := { s with jobs := jobs }) (w := (s.worker i).take k) id hi
        rfl rfl rfl
      have hnew : ((s.worker i).take k).token (i ∈ kept s) id = if k = id then 1 else 0 := by
        simp [Worker.token, Worker.take, Position.inLoop]
      have hcount := count_of_rpop hq id
      have := hidle (by rw [hp]; rfl)
      change copies _ id + _ + _ = _ + jobs.count id + _ at key
      exact .inl (by omega)
  | setKey hp =>
      have key := copies_setWorker (w := (s.worker i).setKey.goto .process) id hi rfl rfl rfl
      have hold : token s id i = if (s.worker i).held = some id then 1 else 0 :=
        token_of_inLoop (by rw [hp]; rfl)
      have hnew : ((s.worker i).setKey.goto .process).token (i ∈ kept s) id =
          if (s.worker i).held = some id then 1 else 0 := Worker.token_of_inLoop rfl
      exact .inl (by omega)
  | clearKey hp =>
      have key := copies_setWorker (w := (s.worker i).deleteKey.goto .readShutdown) id hi rfl rfl rfl
      have := hidle (by rw [hp]; rfl)
      exact .inl (by omega)
  | requeue k hp hk =>
      have key := copies_setWorker (t := { s with jobs := k :: s.jobs })
        (w := (s.worker i).release .sleep) id hi rfl rfl rfl
      have hone := token_le_one s id i
      change copies _ id + _ + _ = _ + (k :: s.jobs).count id + _ at key
      rw [List.count_cons] at key
      by_cases hheld : (s.worker i).held = some id
      · obtain rfl : k = id := by simpa [hk] using hok.held id hheld
        simp only [beq_self_eq_true, if_true] at key
        exact .inl (by omega)
      · have := token_eq_zero hheld
        exact .inl (by omega)
  | unbound hp hnone =>
      have key := copies_setWorker (w := (s.worker i).goto .ended) id hi rfl rfl rfl
      have : token s id i = 0 := token_eq_zero fun hheld => by
        simpa [hnone] using hok.held id hheld
      exact .inl (by omega)
  | cleanup w' hp _ hp' hids =>
      have key := copies_setWorker (w := w') id hi rfl rfl rfl
      have := Worker.token_congr (i ∈ kept s) id hids (by rw [hp, hp'])
      unfold token at key
      exact .inl (by omega)
  | record k v hp hk hv =>
      have key := copies_setWorker (t := { s with rows := storeVerdict s.rows k v })
        (w := (s.worker i).release .deleteSubmission) id hi rfl rfl rfl
      have : token s id i = 0 := token_eq_zero fun hheld => by
        obtain rfl : k = id := by simpa [hk] using hok.held id hheld
        exact storeVerdict_self hv hrow
      change copies _ id + s.jobs.count id + _ = _ + s.jobs.count id + _ at key
      exact .inl (by omega)
  | drop =>
      have key := copies_setWorker (w := (s.worker i).release .readShutdown) id hi rfl rfl rfl
      have := token_eq_zero_of_unfinished hrow' hsafe
      exact .inl (by omega)
  | caught hp =>
      have key := copies_setWorker (w := (s.worker i).goto .retry) id hi rfl rfl rfl
      have := Worker.token_congr (i ∈ kept s) id (.goto (s.worker i) .retry)
        (by rw [Position.inLoop_of_inTry hp]; rfl)
      unfold token at key
      exact .inl (by omega)
  | interrupt =>
      refine (copies_of_leave hi rfl hrow' hsafe).imp_right fun h => ?_
      exact ⟨h.1, h.2.1, by rw [setWorker_self]; rfl, by
        simpa only [token, setWorker_self, kept_setWorker] using h.2.2.1, h.2.2.2⟩
  | kill a ha _ =>
      have hsafe' : (s.worker i).position.inLoop = true →
          ∀ id ∈ unfinished s i, Backed s i id := by
        rcases ha with rfl | rfl <;> exact hsafe
      refine (copies_of_leave hi rfl hrow' hsafe').imp_right fun h => ?_
      exact ⟨h.1, h.2.1, by rw [setWorker_self]; rfl, by
        simpa only [token, setWorker_self, kept_setWorker] using h.2.2.1, h.2.2.2⟩

/-! ## Steps of the orchestrator -/

theorem Pc.pushedFor_unique {pc : Pc} {i j : WorkerId} {id id' : SubmissionId}
    (hi : pc.pushedFor i = some id) (hj : pc.pushedFor j = some id') : i = j := by
  cases pc with
  | frozen scan w stage =>
      have hwi : w = i := by
        by_contra hne
        simp [Pc.pushedFor, hne] at hi
      have hwj : w = j := by
        by_contra hne
        simp [Pc.pushedFor, hne] at hj
      rw [← hwi, hwj]
  | _ => cases hi

theorem token_of_tuned {s : State} {w : WorkerId} {w' : Worker} {pc : Pc} (id : SubmissionId)
    (j : WorkerId) (hids : (s.worker w).SameIds w') (hp : w'.position = (s.worker w).position)
    (hkept : keptIn pc s.workers = kept s) :
    token ((s.setWorker w w').goto pc) id j = token s id j := by
  have hkept' : j ∈ kept ((s.setWorker w w').goto pc) ↔ j ∈ kept s := by
    rw [← hkept]
    rfl
  by_cases hjw : j = w
  · subst hjw
    refine token_congr ?_ ?_ ?_ hkept'
    · simpa [State.goto] using hids.2.1
    · simpa [State.goto] using hids.2.2
    · simp [State.goto, hp]
  · have hworker : ((s.setWorker w w').goto pc).worker j = s.worker j :=
      setWorker_of_ne s w' hjw
    exact token_congr (by rw [hworker]) (by rw [hworker]) (by rw [hworker]) hkept'

theorem keptIn_frozen {s : State} {scan : Scan} {w : WorkerId} {stage stage' : Frozen}
    (hpc : s.pc = .frozen scan w stage) (h : stage'.keyed = stage.keyed) :
    keptIn (.frozen scan w stage') s.workers = kept s := by
  simp only [kept, hpc, keptIn, h]

/-- A worker that has left its loop is terminated. -/
theorem token_of_terminated {s : State} {w : WorkerId} {pc : Pc} (id : SubmissionId)
    (hout : (s.worker w).position.inLoop = false) (hkept : keptIn pc s.workers = kept s) :
    token ((s.setWorker w ((s.worker w).goto .ended)).goto pc) id w = token s id w := by
  refine token_congr ?_ ?_ ?_ (by rw [← hkept]; rfl)
  · simp [State.goto, Worker.goto]
  · simp [State.goto, Worker.goto]
  · simp only [State.goto, setWorker_self, Worker.goto, hout]
    rfl

/-- What is abandoned has been judged or put back. -/
theorem token_of_abandoned {s : State} {id : SubmissionId} {j : WorkerId}
    {pushed : Option SubmissionId} (hsafe : Safe s .orchestrator)
    (hrow : s.rows id = some .PENDING) (h : abandons s = some (j, pushed)) :
    token s id j = 0 ∨ pushed = some id := by
  by_cases hheld : (s.worker j).held = some id
  · exact .inr (hsafe _ h id (mem_unfinished.mpr ⟨hheld, hrow⟩))
  · exact .inl (token_eq_zero hheld)

theorem token_of_orchestratorMove {s t : State} {id : SubmissionId} {j : WorkerId}
    (h : OrchestratorMove s t) (hsafe : Safe s .orchestrator)
    (hrow : s.rows id = some .PENDING) (hj : j < s.global_worker_id) :
    token s id j ≤ token t id j ∨ s.pc.pushedFor j = some id := by
  have hsame : ∀ {u : State}, u.worker j = s.worker j → (j ∈ kept s → j ∈ kept u) →
      token s id j ≤ token u id j ∨ s.pc.pushedFor j = some id :=
    fun hworker hkept => .inl (token_mono hworker hkept)
  have hnone : abandons s = some (j, none) → token s id j = 0 := fun hab =>
    (token_of_abandoned hsafe hrow hab).resolve_right nofun
  cases h with
  | goto pc hk => exact hsame rfl (hk j).mpr
  | publish workers hk => exact hsame rfl (hk j).mpr
  | giveUp scan w hb hpc hdead =>
      by_cases hjw : j = w
      · subst hjw
        have := hnone (by simp only [abandons, hpc, if_pos hdead])
        exact .inl (by omega)
      · refine hsame rfl fun hk => ?_
        rw [kept, hpc] at hk
        simpa [kept, State.goto, keptIn, hjw] using hk
  | readKey scan w k hpc => exact hsame rfl fun hk => by rw [kept, hpc] at hk; exact hk
  | push scan w k hpc => exact hsame rfl fun hk => by rw [kept, hpc] at hk; exact hk
  | clear scan w stage stage' w' hpc hkeyed hkeyed' _ _ hids hp =>
      exact .inl (le_of_eq (token_of_tuned id j hids hp
        (keptIn_frozen hpc (hkeyed'.trans hkeyed.symm))).symm)
  | deleteKey scan w pushed hpc =>
      by_cases hjw : j = w
      · subst hjw
        cases hloop : (s.worker j).position.inLoop with
        | true =>
            refine .inl (le_of_eq ?_)
            rw [token_of_inLoop hloop, token_of_inLoop]
            · simp [State.goto, Worker.deleteKey]
            · simpa [State.goto, Worker.deleteKey] using hloop
        | false =>
            have habandoned : abandons s = some (j, pushed) := by simp [abandons, hpc, hloop]
            rcases token_of_abandoned hsafe hrow habandoned with hzero | hpushed
            · exact .inl (by omega)
            · right
              simpa [hpc, Pc.pushedFor, Frozen.pushed] using hpushed
      · refine hsame (setWorker_of_ne s _ hjw) fun hk => ?_
        rw [kept, hpc] at hk
        simpa [kept, State.goto, keptIn, Frozen.keyed, hjw] using hk
  | terminate scan w pushed hpc =>
      have hkept : keptIn (.join scan w) s.workers = kept s := by
        simp [kept, hpc, keptIn, Frozen.keyed]
      by_cases hjw : j = w
      · subst hjw
        cases hloop : (s.worker j).position.inLoop with
        | true =>
            have habandoned : abandons s = some (j, pushed) := by simp [abandons, hpc, hloop]
            rcases token_of_abandoned hsafe hrow habandoned with hzero | hpushed
            · exact .inl (by omega)
            · right
              simpa [hpc, Pc.pushedFor, Frozen.pushed] using hpushed
        | false => exact .inl (le_of_eq (token_of_terminated id hloop hkept).symm)
      · exact hsame (setWorker_of_ne s _ hjw) fun hk => by rw [← hkept] at hk; exact hk
  | spawn n hpc =>
      refine hsame (setWorker_of_ne _ _ (Nat.ne_of_lt hj)) fun hk => ?_
      rw [kept, hpc] at hk
      exact hk
  | append n w hpc =>
      refine hsame rfl fun hk => ?_
      rw [kept, hpc] at hk
      exact List.mem_append_left _ hk
  | tune w w' pc hk hk' _ hids hp =>
      exact .inl (le_of_eq (token_of_tuned id j hids hp ((hk' _).trans hk.symm)).symm)
  | stopPop n w workers hpc hq =>
      by_cases hjw : j = w
      · subst hjw
        cases hloop : (s.worker j).position.inLoop with
        | true =>
            refine .inl (le_of_eq ?_)
            rw [token_of_inLoop (s := s) hloop]
            exact (token_of_inLoop
              (s := { s with workers := workers }.goto (.stopSet n j)) hloop).symm
        | false =>
            have := hnone (by simp [abandons, hpc, hq, hloop])
            exact .inl (by omega)
      · refine hsame rfl fun hk => ?_
        rw [kept, hpc] at hk
        have : j ∈ workers ++ [w] := rpop_eq_some.mp hq ▸ hk
        simpa [kept, State.goto, keptIn, hjw] using this
  | stopKill n w hpc =>
      have hkept : keptIn (.stop n) s.workers = kept s := by
        simp [kept, hpc, keptIn]
      by_cases hjw : j = w
      · subst hjw
        cases hloop : (s.worker j).position.inLoop with
        | true =>
            have := hnone (by simp [abandons, hpc, hloop])
            exact .inl (by omega)
        | false => exact .inl (le_of_eq (token_of_terminated id hloop hkept).symm)
      · exact hsame (setWorker_of_ne s _ hjw) fun hk => by rw [← hkept] at hk; exact hk
  | finish hpc => exact hsame rfl fun hk => by rw [kept, hpc] at hk; exact hk

theorem rows_of_orchestratorMove {s t : State} (h : OrchestratorMove s t) : t.rows = s.rows := by
  cases h <;> rfl

theorem unsent_of_orchestratorMove {s t : State} (h : OrchestratorMove s t) :
    t.unsent = s.unsent := by
  cases h <;> rfl

theorem copies_of_orchestratorMove {s t : State} {id : SubmissionId} (h : OrchestratorMove s t)
    (hsafe : Safe s .orchestrator) (hrow : s.rows id = some .PENDING) :
    copies s id ≤ copies t id ∨
      ∃ w, s.pc.pushedFor w = some id ∧ copies s id ≤ copies t id + token s id w := by
  have hjobs : s.jobs.count id ≤ t.jobs.count id := by
    cases h with
    | push => exact List.count_le_count_cons
    | _ => exact Nat.le_refl _
  have hids : s.global_worker_id ≤ t.global_worker_id := by
    cases h with
    | spawn => exact Nat.le_succ _
    | _ => exact Nat.le_refl _
  have htoken := fun j (hj : j < s.global_worker_id) =>
    token_of_orchestratorMove h hsafe hrow (j := j) hj
  by_cases hpushed : ∃ w, s.pc.pushedFor w = some id
  · obtain ⟨w, hw⟩ := hpushed
    refine .inr ⟨w, hw, copies_le_add w hjobs hids fun j hj hjw => ?_⟩
    exact (htoken j hj).resolve_right fun h => hjw (Pc.pushedFor_unique h hw)
  · refine .inl (copies_mono hjobs hids fun j hj => ?_)
    exact (htoken j hj).resolve_right fun h => hpushed ⟨j, h⟩

/-! ## The invariant -/

/-- While the frozen branch for worker `w` is under way, what it has put back has a
copy apart from that of `w`. -/
def SpareCopy (s : State) (w : WorkerId) (id : SubmissionId) : Prop :=
  2 ≤ copies s id ∨
    ((s.worker w).position.inLoop = false ∧ 1 + token s id w ≤ copies s id)

structure Covered (s : State) : Prop where
  outstanding : ∀ id, Outstanding s id → 1 ≤ copies s id
  pushed : ∀ w id, s.pc.pushedFor w = some id → Outstanding s id → SpareCopy s w id

theorem SpareCopy.one_le {s : State} {w : WorkerId} {id : SubmissionId} (h : SpareCopy s w id) :
    1 + token s id w ≤ copies s id := by
  have := token_le_one s id w
  rcases h with h | ⟨-, h⟩ <;> omega

/-- Where copies are, a submission is recoverable. -/
theorem recoverable_of_copies {s : State} {id : SubmissionId} (hs : Wellformed s)
    (h : 1 ≤ copies s id) : Recoverable s id := by
  by_cases hjob : id ∈ s.jobs
  · exact .inl hjob
  · rw [copies, List.count_eq_zero_of_not_mem hjob, Nat.zero_add] at h
    obtain ⟨i, -, hi⟩ := Finset.exists_ne_zero_of_sum_ne_zero (Nat.one_le_iff_ne_zero.mp h)
    unfold token Worker.token at hi
    split at hi
    case isTrue hw =>
      rcases hw with ⟨hheld, hloop | ⟨hkept, hkey⟩⟩
      · exact .inr (.inl ⟨i, hloop, hheld⟩)
      · exact .inr (.inr ⟨i, hs.kept i hkept, hkey⟩)
    case isFalse => exact absurd rfl hi

/-- What is put back, is put back in addition to the copy that exists. -/
theorem copies_push {s t : State} {id : SubmissionId} (hjobs : t.jobs = id :: s.jobs)
    (hids : t.global_worker_id = s.global_worker_id) (hworker : t.worker = s.worker)
    (hkept : kept t = kept s) : copies t id = copies s id + 1 := by
  have htoken : ∀ j, token t id j = token s id j := fun j => by
    simp only [token, hworker, hkept]
  simp only [copies, hjobs, hids, htoken, List.count_cons_self]
  omega

theorem frame_of_workerMove {s t : State} {i : WorkerId} {a : WorkerAction}
    (h : WorkerMove s i a t) :
    t.pc = s.pc ∧ t.unsent = s.unsent ∧ kept t = kept s ∧ ∀ j, j ≠ i → t.worker j = s.worker j := by
  cases h <;> exact ⟨rfl, rfl, rfl, fun j hj => setWorker_of_ne _ _ hj⟩

/-- A worker that has left its loop keeps its copy. -/
theorem stays_out {s t : State} {i : WorkerId} {a : WorkerAction} {id : SubmissionId}
    (h : WorkerMove s i a t) (hout : (s.worker i).position.inLoop = false) :
    (t.worker i).position.inLoop = false ∧ token t id i = token s id i := by
  have hidle : (s.worker i).position.idle ≠ true := fun hp => by
    simp [Position.inLoop_of_idle hp] at hout
  have htry : (s.worker i).position.inTry ≠ true := fun hp => by
    simp [Position.inLoop_of_inTry hp] at hout
  cases h with
  | walk _ hp | leave hp => exact absurd hp hidle
  | drop hp | caught hp | interrupt hp => exact absurd hp htry
  | pop _ _ hp | setKey hp | clearKey hp | requeue _ hp | unbound hp | record _ _ hp =>
      rw [hp] at hout
      cases hout
  | cleanup w' _ _ hp hids =>
      rw [setWorker_self]
      refine ⟨hp, ?_⟩
      simpa only [token, setWorker_self, kept_setWorker] using
        Worker.token_congr (i ∈ kept s) id hids (by rw [hp, hout])
  | kill =>
      rw [setWorker_self]
      refine ⟨rfl, ?_⟩
      simpa only [token, setWorker_self, kept_setWorker] using
        Worker.token_congr (i ∈ kept s) id (.goto (s.worker i) .ended) (by rw [hout]; rfl)

theorem Covered.worker {s t : State} {i : WorkerId} {a : WorkerAction} (hs : Covered s)
    (hwf : Wellformed s) (h : WorkerMove s i a t) (hsafe : Safe s (.worker i a)) : Covered t := by
  obtain ⟨hpc, hunsent, hkept, hother⟩ := frame_of_workerMove h
  have hout : ∀ id, Outstanding t id → Outstanding s id := fun id hid =>
    ⟨rows_of_workerMove h hid.1, hunsent ▸ hid.2⟩
  -- a worker that abandons a copy in its loop leaves the spare one
  have hspare : ∀ {w id}, SpareCopy s w id → (s.worker w).position.inLoop = true →
      2 ≤ copies s id := fun hs hloop => hs.resolve_right fun h => by simp [hloop] at h
  refine ⟨fun id hid => ?_, fun w id hw hid => ?_⟩
  · have hone := hs.outstanding id (hout id hid)
    rcases copies_of_workerMove hwf h hsafe hid.1 with hle | ⟨hpushed, hloop, -, -, hle⟩
    · omega
    · have := hspare (hs.pushed i id hpushed (hout id hid)) hloop
      omega
  · rw [hpc] at hw
    have hsp := hs.pushed w id hw (hout id hid)
    rcases copies_of_workerMove hwf h hsafe hid.1 with hle | ⟨hpushed, hloop, hloop', htok, hle⟩
    · rcases hsp with htwo | ⟨hgone, hone⟩
      · exact .inl (by omega)
      · right
        by_cases hwi : w = i
        · subst hwi
          obtain ⟨hgone', htok⟩ : _ ∧ token t id w = token s id w := stays_out h hgone
          exact ⟨hgone', by omega⟩
        · have htok : token t id w = token s id w := by
            simp only [token, hother w hwi, hkept]
          rw [hother w hwi]
          exact ⟨hgone, by omega⟩
    · obtain rfl := Pc.pushedFor_unique hw hpushed
      have := hspare hsp hloop
      exact .inr ⟨hloop', by omega⟩

theorem SpareCopy.tuned {s : State} {v w : WorkerId} {w' : Worker} {pc : Pc} {id : SubmissionId}
    (h : SpareCopy s v id) (hids : (s.worker w).SameIds w')
    (hp : w'.position = (s.worker w).position) (hkept : keptIn pc s.workers = kept s) :
    SpareCopy ((s.setWorker w w').goto pc) v id := by
  have htok : ∀ j, token ((s.setWorker w w').goto pc) id j = token s id j :=
    fun j => token_of_tuned id j hids hp hkept
  have hcopies : copies s id ≤ copies ((s.setWorker w w').goto pc) id :=
    copies_mono (Nat.le_refl _) (Nat.le_refl _) fun j _ => le_of_eq (htok j).symm
  have hposition : (((s.setWorker w w').goto pc).worker v).position = (s.worker v).position := by
    by_cases hv : v = w
    · subst hv
      simp [State.goto, hp]
    · exact congrArg Worker.position (setWorker_of_ne s w' hv)
  rcases h with htwo | ⟨hgone, hone⟩
  · exact .inl (by omega)
  · exact .inr ⟨by rw [hposition, hgone], by rw [htok]; omega⟩

/-- The copy under the key goes; the one that has been put back remains. -/
theorem SpareCopy.deleteKey {s : State} {scan : Scan} {w : WorkerId}
    {pushed : Option SubmissionId} {id : SubmissionId} (h : SpareCopy s w id)
    (hpc : s.pc = .frozen scan w (.deleteSubmission pushed)) :
    SpareCopy ((s.setWorker w (s.worker w).deleteKey).goto (.frozen scan w (.terminate pushed)))
      w id := by
  generalize ht : (s.setWorker w (s.worker w).deleteKey).goto
    (.frozen scan w (.terminate pushed)) = t
  have hself : t.worker w = (s.worker w).deleteKey := by
    rw [← ht]
    exact setWorker_self s w _
  have hother : ∀ j, j ≠ w → token s id j ≤ token t id j := by
    intro j hj
    refine token_mono ?_ fun hk => ?_
    · rw [← ht]
      exact setWorker_of_ne s _ hj
    · rw [kept, hpc] at hk
      rw [← ht]
      simpa [kept, State.goto, keptIn, Frozen.keyed, hj] using hk
  have hjobs : s.jobs.count id ≤ t.jobs.count id := by
    rw [← ht]
    exact Nat.le_refl _
  have hids : s.global_worker_id ≤ t.global_worker_id := by
    rw [← ht]
    exact Nat.le_refl _
  cases hloop : (s.worker w).position.inLoop with
  | true =>
      have htwo : 2 ≤ copies s id := h.resolve_right fun h => by simp [hloop] at h
      refine .inl (le_trans htwo (copies_mono hjobs hids fun j _ => ?_))
      by_cases hj : j = w
      · subst hj
        rw [token_of_inLoop hloop, token_of_inLoop (by rw [hself]; exact hloop), hself]
        exact Nat.le_refl _
      · exact hother j hj
  | false =>
      have hle : copies s id ≤ copies t id + token s id w :=
        copies_le_add w hjobs hids fun j _ => hother j
      have hone := h.one_le
      have hzero : token t id w = 0 := by
        rw [token_of_not_inLoop (by rw [hself]; exact hloop), hself]
        simp [Worker.deleteKey]
      exact .inr ⟨by rw [hself]; exact hloop, by omega⟩

theorem Covered.orchestrator {s t : State} (hs : Covered s) (h : OrchestratorMove s t)
    (hsafe : Safe s .orchestrator) : Covered t := by
  have hout : ∀ id, Outstanding t id → Outstanding s id := fun id hid =>
    ⟨rows_of_orchestratorMove h ▸ hid.1, unsent_of_orchestratorMove h ▸ hid.2⟩
  refine ⟨fun id hid => ?_, fun w id hw hid => ?_⟩
  · have hone := hs.outstanding id (hout id hid)
    rcases copies_of_orchestratorMove h hsafe (hout id hid).1 with hle | ⟨w, hw, hle⟩
    · omega
    · have := (hs.pushed w id hw (hout id hid)).one_le
      omega
  · have hle := copies_of_orchestratorMove h hsafe (hout id hid).1
    cases h with
    | goto pc _ hnames => exact absurd (Pc.names_of_pushedFor hw) (hnames id)
    | tune _ _ pc _ _ hnames => exact absurd (Pc.names_of_pushedFor hw) (hnames id)
    | publish | giveUp | terminate | spawn | append | stopPop | stopKill | finish => cases hw
    | readKey scan w' k hpc =>
        simp [State.goto, Pc.pushedFor, Frozen.pushed] at hw
    | push scan w' k hpc =>
        obtain ⟨rfl, rfl⟩ : w' = w ∧ k = id := by
          simpa [Pc.pushedFor, Frozen.pushed] using hw
        have hone := hs.outstanding k (hout k hid)
        have := @copies_push s { s with
          jobs := k :: s.jobs
          putBack := (k, s.rows k) :: s.putBack
          pc := .frozen scan w' (.deleteShutdown (some k)) } k rfl rfl rfl
          (by rw [kept, kept, hpc]; rfl)
        exact .inl (by omega)
    | clear scan w' stage stage' w'' hpc hkeyed hkeyed' hpush _ hids hp =>
        have hw' : s.pc.pushedFor w = some id := by
          rw [hpc]
          simpa [State.goto, Pc.pushedFor, hpush] using hw
        exact (hs.pushed w id hw' (hout id hid)).tuned hids hp
          (keptIn_frozen hpc (hkeyed'.trans hkeyed.symm))
    | deleteKey scan w' pushed hpc =>
        obtain ⟨rfl, rfl⟩ : w' = w ∧ pushed = some id := by
          simpa [State.goto, Pc.pushedFor, Frozen.pushed] using hw
        have hw' : s.pc.pushedFor w' = some id := by
          rw [hpc]
          simp [Pc.pushedFor, Frozen.pushed]
        exact (hs.pushed w' id hw' (hout id hid)).deleteKey hpc

theorem Covered.of_same {s t : State} (hs : Covered s) (hpc : t.pc = s.pc)
    (hjobs : ∀ id, s.jobs.count id ≤ t.jobs.count id) (hworker : t.worker = s.worker)
    (hworkers : t.workers = s.workers) (hids : t.global_worker_id = s.global_worker_id)
    (hout : ∀ id, Outstanding t id → Outstanding s id ∨ (1 ≤ t.jobs.count id ∧ ¬ s.pc.names id)) :
    Covered t := by
  have htoken : ∀ id j, token t id j = token s id j := fun id j =>
    token_congr (by rw [hworker]) (by rw [hworker]) (by rw [hworker])
      (by rw [kept, kept, hpc, hworkers])
  have hmono : ∀ id, copies s id ≤ copies t id := fun id =>
    copies_mono (hjobs id) (le_of_eq hids.symm) fun j _ => le_of_eq (htoken id j).symm
  refine ⟨fun id hid => ?_, fun w id hw hid => ?_⟩
  · rcases hout id hid with hid | ⟨hjob, -⟩
    · exact le_trans (hs.outstanding id hid) (hmono id)
    · exact le_trans hjob (Nat.le_add_right _ _)
  · rw [hpc] at hw
    rcases hout id hid with hid | ⟨-, hnames⟩
    · have := hmono id
      rcases hs.pushed w id hw hid with htwo | ⟨hgone, hone⟩
      · exact .inl (by omega)
      · exact .inr ⟨by rw [hworker]; exact hgone, by rw [htoken]; omega⟩
    · exact absurd (Pc.names_of_pushedFor hw) hnames

theorem Covered.step {cfg : Config} {s t : State} {a : Action} (hs : Covered s)
    (hwf : Wellformed s) (hsafe : Safe s a) (h : step cfg s a = some t) : Covered t := by
  cases a with
  | tick =>
      obtain rfl := Option.some.inj h
      exact hs.of_same rfl (fun _ => Nat.le_refl _) rfl rfl rfl fun _ => .inl
  | commit =>
      obtain rfl := Option.some.inj h
      refine hs.of_same rfl (fun _ => Nat.le_refl _) rfl rfl rfl fun id hid => .inl ?_
      obtain ⟨hrow, hunsent⟩ := hid
      simp only [List.mem_cons, not_or] at hunsent
      exact ⟨by simpa [Function.update_of_ne hunsent.1] using hrow, hunsent.2⟩
  | enqueue k =>
      obtain ⟨hk, rfl⟩ := enqueue_of_step h
      refine hs.of_same rfl (fun id => List.count_le_count_cons) rfl rfl rfl fun id hid => ?_
      by_cases hik : id = k
      · subst hik
        refine .inr ⟨?_, fun hname => (hwf.circulates id (.named hname)).1 hk⟩
        rw [List.count_cons_self]
        omega
      · refine .inl ⟨hid.1, fun hmem => hid.2 (List.mem_filter.mpr ⟨hmem, ?_⟩)⟩
        simpa using hik
  | deleteRow k =>
      obtain rfl := Option.some.inj h
      refine hs.of_same rfl (fun _ => Nat.le_refl _) rfl rfl rfl fun id hid => .inl ?_
      obtain ⟨hrow, hunsent⟩ := hid
      by_cases hik : id = k
      · subst hik
        simp at hrow
      · exact ⟨by simpa [Function.update_of_ne hik] using hrow, hunsent⟩
  | worker i a => exact hs.worker hwf (workerMove_of_step h) hsafe
  | orchestrator => exact hs.orchestrator (orchestratorMove_of_next h) hsafe
  | interrupt =>
      obtain rfl := interrupt_of_step h
      refine ⟨fun id hid => le_trans (hs.outstanding id hid) ?_, fun w id hw => ?_⟩
      · exact copies_mono (Nat.le_refl _) (Nat.le_refl _) fun j _ =>
          token_mono rfl (hwf.kept j)
      · cases hw

theorem covered_start : Covered start := ⟨fun _ hid => absurd hid.1 nofun, nofun⟩

/-- **Crash recovery loses nothing** in the runs that abandon no copy of an unjudged
submission, unless the frozen branch has put it back. -/
theorem noneLost_of_safe {cfg : Config} {s : State}
    (h : (system cfg).ReachableUnder Safe s) : NoneLost s := by
  have hcovered : Covered s := by
    refine System.PreservedUnder.reachable (J := Wellformed) ?_ (fun s hs => wellformed hs) ?_ h
    · intro s t a hwf hs hsafe hstep
      exact hs.step hwf hsafe hstep
    · rintro _ rfl
      exact covered_start
  intro id hid
  exact recoverable_of_copies (wellformed h) (hcovered.outstanding id hid)

def retryRun : List Action :=
  takeRun ++ List.replicate 3 .tick ++ List.replicate 9 .orchestrator

theorem noneLost_retry :
    ∃ s, (system oneWorker).ReachableUnder Safe s ∧ s.jobs = [1] ∧
      (s.worker 1).position = .ended ∧ NoneLost s := by
  obtain ⟨s, hs, hjobs, hended⟩ := System.exists_path (system oneWorker) Safe start retryRun
    (fun s => s.jobs = [1] ∧ (s.worker 1).position = .ended) (by decide)
  exact ⟨s, ⟨_, rfl, hs⟩, hjobs, hended, noneLost_of_safe ⟨_, rfl, hs⟩⟩

end ByteBattles.Judge.Orchestrator
