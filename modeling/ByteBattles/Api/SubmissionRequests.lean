import ByteBattles.Api.CodeObjects

/-!
# Requests that submit

`create_submission` stores the code, inserts the row and queues the job, one after the
other and without compensation.  A request is all or nothing unless it stops in between.
-/

namespace ByteBattles.Api

open ByteBattles.Lib

open ByteBattles.Judge (Verdict)

variable {lib : Libraries} {cfg : Config} {env : Environment} {token : Option Token}
  {details : SubmissionCreate} {s t : Store} {st st' : State}

/-! ## When a request stops -/

/-- The request ends before it has changed anything. -/
def Refused (env : Environment) (token : Option Token) (details : SubmissionCreate) (s : Store) :
    Prop :=
  env.raises .query = true ∨ (getCurrentUser s.users env.now token).isOk = false ∨
    (s.visibleProblem details.problem_id).isNone = true ∨ env.raises .putObject = true

def InsertRaises (env : Environment) (details : SubmissionCreate) (s : Store) : Prop :=
  env.raises .commit = true ∨ s.HasKey (submissionKey env details)

def HasObject (env : Environment) (details : SubmissionCreate) (s : Store) : Prop :=
  s.submissionFiles.getObject (submissionKey env details) = some (Utf8.encode details.code)

/-- The request does not stop between the upload and the end of `enqueue_job`, unless its object
was there before. -/
def Completes (env : Environment) (token : Option Token) (details : SubmissionCreate) (s : Store) :
    Prop :=
  Refused env token details s ∨
    (¬ InsertRaises env details s ∧ env.raises .refresh = false ∧
      env.raises .enqueueJob = false) ∨
    (InsertRaises env details s ∧ HasObject env details s)

instance (env : Environment) (details : SubmissionCreate) (s : Store) :
    Decidable (InsertRaises env details s) := inferInstanceAs (Decidable (_ ∨ _))

instance (env : Environment) (details : SubmissionCreate) (s : Store) :
    Decidable (HasObject env details s) := inferInstanceAs (Decidable (_ = _))

instance (env : Environment) (token : Option Token) (details : SubmissionCreate) (s : Store) :
    Decidable (Refused env token details s) := inferInstanceAs (Decidable (_ ∨ _))

instance (env : Environment) (token : Option Token) (details : SubmissionCreate) (s : Store) :
    Decidable (Completes env token details s) := inferInstanceAs (Decidable (_ ∨ _))

/-- If the request ends with an error, nothing of it is left, or its object, its row and
its job are all there. -/
def AllOrNothing (lib : Libraries) (cfg : Config) (env : Environment) (token : Option Token)
    (details : SubmissionCreate) (s : Store) : Prop :=
  ∀ e t, serve lib cfg env (.createSubmission token details) s = (.error e, t) →
    ((∀ key, t.submissionFiles.getObject key = s.submissionFiles.getObject key) ∧
      t.submissions = s.submissions) ∨
    ∃ user, getCurrentUser s.users env.now token = .ok user ∧
      submissionKey env details ∈ t.submissionFiles.keys ∧
      s.inserted env details user ∈ t.submissions ∧ Str.ofInt s.submission_serial ∈ t.jobs

inductive RequestOutcome (env : Environment) (token : Option Token) (details : SubmissionCreate)
    (s : Store) : Except Error Response → Store → Prop
  | refused {e : Error} (hrefused : Refused env token details s) :
      RequestOutcome env token details s (.error e) s
  | codeOnly {e : Error} (hreached : ¬ Refused env token details s)
      (hraises : InsertRaises env details s) :
      RequestOutcome env token details s (.error e) (s.uploaded env details)
  | notQueued {e : Error} {user : User} (hreached : ¬ Refused env token details s)
      (hinserts : ¬ InsertRaises env details s)
      (hraises : env.raises .refresh = true ∨ env.raises .enqueueJob = true) :
      RequestOutcome env token details s (.error e) (s.submitted env details user)
  | queued {result : Except Error Response} {user : User}
      (hauth : getCurrentUser s.users env.now token = .ok user)
      (hinserts : ¬ InsertRaises env details s) (hrefresh : env.raises .refresh = false)
      (henqueue : env.raises .enqueueJob = false) :
      RequestOutcome env token details s result (s.enqueued env details user)

theorem not_refused {user : User} {problem : Problem} (hquery : env.raises .query = false)
    (hauth : getCurrentUser s.users env.now token = .ok user)
    (hproblem : s.visibleProblem details.problem_id = some problem)
    (hput : env.raises .putObject = false) : ¬ Refused env token details s := by
  simp [Refused, hquery, hauth, hproblem, hput, Except.isOk, Except.toBool]

theorem requestOutcome :
    (serve lib cfg env (.createSubmission token details)).Ends s
      (RequestOutcome env token details s) := by
  apply ends_respond
  refine ends_withCurrentUser (fun hquery => .refused (.inl hquery)) (fun e herror => ?_)
    fun hquery user hauth => ?_
  · exact .refused (.inr (.inl (by simp [herror, Except.isOk, Except.toBool])))
  · refine (createSubmission_ends details user).mono fun result t houtcome => ?_
    cases houtcome with
    | refused hrefused =>
        refine .refused ?_
        rcases hrefused with hraises | hproblem | hput
        · exact .inl hraises
        · exact .inr (.inr (.inl (by simp [hproblem])))
        · exact .inr (.inr (.inr hput))
    | codeOnly _ hproblem hput hraises =>
        exact .codeOnly (not_refused hquery hauth hproblem hput) hraises
    | notQueued _ hproblem hput hcommit hnew hraises =>
        exact .notQueued (not_refused hquery hauth hproblem hput)
          (by simp [InsertRaises, hcommit, hnew]) hraises
    | queued hproblem hcommit hnew hrefresh henqueue =>
        exact .queued hauth (by simp [InsertRaises, hcommit, hnew]) hrefresh henqueue

/-! ## What is in the job list -/

/-- The payloads are the ids of submissions that have been inserted. -/
structure Queued (st : State) : Prop where
  jobs : ∀ payload ∈ st.store.jobs, ∃ id < st.store.submission_serial, payload = Str.ofInt id
  picked : ∀ payload ∈ st.picked, ∃ id < st.store.submission_serial, payload = Str.ofInt id

theorem Queued.next_not_mem (h : Queued st) :
    Str.ofInt st.store.submission_serial ∉ st.store.jobs := by
  intro hmem
  obtain ⟨id, hid, heq⟩ := h.jobs _ hmem
  exact absurd (PyNumber.ofInt_injective heq) hid.ne'

/-- A request queues at most the job of the row it has inserted. -/
theorem jobs_of_effect {request : Request} (heffect : Effect lib env s request t) :
    s.submission_serial ≤ t.submission_serial ∧
      (t.jobs = s.jobs ∨ t.jobs = Str.ofInt s.submission_serial :: s.jobs ∧
        s.submission_serial < t.submission_serial) := by
  cases heffect with
  | submission hauth houtcome =>
      cases houtcome with
      | refused => exact ⟨le_refl _, .inl rfl⟩
      | codeOnly => exact ⟨le_refl _, .inl rfl⟩
      | notQueued => exact ⟨(Int.lt_succ _).le, .inl rfl⟩
      | queued => exact ⟨(Int.lt_succ _).le, .inr ⟨rfl, Int.lt_succ _⟩⟩
  | _ => exact ⟨le_refl _, .inl rfl⟩

theorem queued_start : Queued start where
  jobs := fun payload hpayload => by cases hpayload
  picked := fun payload hpayload => by cases hpayload

theorem Queued.move {a : Action} (h : Queued st) (hmove : Moves lib cfg st a st') :
    Queued st' := by
  cases hmove with
  | request hnow htoken hserve heffect =>
      obtain ⟨hserial, hjobs⟩ := jobs_of_effect heffect
      refine ⟨fun payload hpayload => ?_, fun payload hpayload => ?_⟩
      · rcases hjobs with hsame | ⟨hnew, hlt⟩
        · obtain ⟨id, hid, heq⟩ := h.jobs payload (hsame ▸ hpayload)
          exact ⟨id, hid.trans_le hserial, heq⟩
        · rcases List.mem_cons.mp (hnew ▸ hpayload) with rfl | hpayload
          · exact ⟨_, hlt, rfl⟩
          · obtain ⟨id, hid, heq⟩ := h.jobs payload hpayload
            exact ⟨id, hid.trans_le hserial, heq⟩
      · obtain ⟨id, hid, heq⟩ := h.picked payload hpayload
        exact ⟨id, hid.trans_le hserial, heq⟩
  | promote id => exact ⟨h.jobs, h.picked⟩
  | @pick jobs payload hjobs =>
      refine ⟨fun p hp => h.jobs p (by simp [hjobs, hp]), fun p hp => ?_⟩
      rcases List.mem_cons.mp hp with rfl | hp
      · exact h.jobs p (by simp [hjobs])
      · exact h.picked p hp
  | requeue hpicked =>
      refine ⟨fun p hp => ?_, h.picked⟩
      rcases List.mem_cons.mp hp with rfl | hp
      · exact h.picked p hpicked
      · exact h.jobs p hp
  | judged result hpicked => exact ⟨h.jobs, h.picked⟩

theorem queued_of_reachable (h : (system lib cfg).Reachable st) : Queued st := by
  refine System.PreservedUnder.invariant (I := Queued) ?_ ?_ h
  · intro st st' a _ hst _ hstep
    exact hst.move (moves_of_step hstep)
  · rintro _ rfl
    exact queued_start

/-! ## One request -/

theorem not_mem_inserted (hs : Consistent s) (user : User) :
    s.inserted env details user ∉ s.submissions :=
  fun hmem => lt_irrefl _ (hs.serial _ hmem)

/-- A request is all or nothing exactly when it does not stop in between. -/
theorem allOrNothing_iff (hqueued : Queued st) (hs : Consistent st.store) :
    AllOrNothing lib cfg env token details st.store ↔ Completes env token details st.store := by
  have hends := @requestOutcome lib cfg env token details st.store
  unfold AllOrNothing
  cases hserve : serve lib cfg env (.createSubmission token details) st.store with
  | mk result t =>
      have houtcome := hends.of_eq hserve
      cases houtcome with
      | refused hrefused =>
          refine iff_of_true ?_ (.inl hrefused)
          rintro e t heq
          obtain rfl := (Prod.mk.inj heq).2
          exact .inl ⟨fun _ => rfl, rfl⟩
      | @codeOnly e hreached hraises =>
          constructor
          · intro h
            rcases h e _ rfl with ⟨hfiles, -⟩ | ⟨user, -, -, hrow, -⟩
            · exact .inr (.inr ⟨hraises, Bucket.getObject_putObject_eq_iff.mp hfiles⟩)
            · exact absurd hrow (not_mem_inserted hs user)
          · rintro (hrefused | ⟨hinserts, -⟩ | ⟨-, hstored⟩)
            · exact absurd hrefused hreached
            · exact absurd hraises hinserts
            · rintro e' t heq
              obtain rfl := (Prod.mk.inj heq).2
              exact .inl ⟨Bucket.getObject_putObject_eq_iff.mpr hstored, rfl⟩
      | @notQueued e user hreached hinserts hraises =>
          refine iff_of_false (fun h => ?_) ?_
          · rcases h e _ rfl with ⟨-, hrows⟩ | ⟨user, -, -, -, hjob⟩
            · exact List.cons_ne_nil _ _ (List.append_right_eq_self.mp hrows)
            · exact hqueued.next_not_mem hjob
          · rintro (hrefused | ⟨-, hrefresh, henqueue⟩ | ⟨hinsert, -⟩)
            · exact hreached hrefused
            · simp [hrefresh, henqueue] at hraises
            · exact hinserts hinsert
      | @queued _ user hauth hinserts hrefresh henqueue =>
          refine iff_of_true ?_ (.inr (.inl ⟨hinserts, hrefresh, henqueue⟩))
          rintro e t heq
          obtain rfl := (Prod.mk.inj heq).2
          refine .inr ⟨user, hauth, ?_, ?_, ?_⟩
          · exact Bucket.mem_keys_putObject.mpr (.inl rfl)
          · exact List.mem_append_right _ (List.mem_singleton.mpr rfl)
          · exact List.mem_cons_self ..

/-! ## All requests -/

def Submission.Pending (r : Submission) : Prop := r.result .verdict = Verdict.PENDING

instance (r : Submission) : Decidable r.Pending :=
  (inferInstance : DecidableEq Verdict) (r.result .verdict) .PENDING

def PendingQueued (st : State) : Prop :=
  ∀ r ∈ st.store.submissions, r.Pending → Str.ofInt r.id ∉ st.picked →
    Str.ofInt r.id ∈ st.store.jobs

def submits : Action → Option (Environment × Option Token × SubmissionCreate)
  | .request env (.createSubmission token details) => some (env, token, details)
  | _ => none

/-- The step neither stops a request that submits in between, nor deletes a user who has
submissions. -/
def KeepsWhole (st : State) (a : Action) : Prop :=
  SparesAuthors st a ∧
    ∀ request ∈ submits a, Completes request.1 request.2.1 request.2.2 st.store

instance (st : State) (a : Action) : Decidable (KeepsWhole st a) :=
  inferInstanceAs (Decidable (_ ∧ ∀ request ∈ submits a, _))

inductive WholeOutcome (env : Environment) (details : SubmissionCreate) (s : Store) :
    Store → Prop
  | unchanged : WholeOutcome env details s s
  | again (hstored : HasObject env details s) :
      WholeOutcome env details s (s.uploaded env details)
  | queued (user : User) : WholeOutcome env details s (s.enqueued env details user)

theorem wholeOutcome {result : Except Error Response} (hcompletes : Completes env token details s)
    (houtcome : RequestOutcome env token details s result t) : WholeOutcome env details s t := by
  cases houtcome with
  | refused => exact .unchanged
  | codeOnly hreached hraises =>
      rcases hcompletes with hrefused | ⟨hinserts, -⟩ | ⟨-, hstored⟩
      · exact absurd hrefused hreached
      · exact absurd hraises hinserts
      · exact .again hstored
  | notQueued hreached hinserts hraises =>
      rcases hcompletes with hrefused | ⟨-, hrefresh, henqueue⟩ | ⟨hinsert, -⟩
      · exact absurd hrefused hreached
      · simp [hrefresh, henqueue] at hraises
      · exact absurd hinsert hinserts
  | queued => exact .queued _

structure Whole (st : State) : Prop where
  pending : PendingQueued st
  owned : ObjectsOwned st.store

theorem whole_start : Whole start where
  pending := fun r hr => by cases hr
  owned := fun key hkey => by cases hkey

theorem PendingQueued.of_subset (h : PendingQueued st)
    (hrows : st'.store.submissions ⊆ st.store.submissions)
    (hjobs : st'.store.jobs = st.store.jobs) (hpicked : st'.picked = st.picked) :
    PendingQueued st' := by
  intro r hr hpending hnot
  rw [hjobs]
  exact h r (hrows hr) hpending (hpicked ▸ hnot)

theorem Whole.submission {env : Environment} {history : List Event} {now : Nat} (h : Whole st)
    (houtcome : WholeOutcome env details st.store t) :
    Whole { st with store := t, now := now, history := history } := by
  cases houtcome with
  | unchanged => exact ⟨h.pending, h.owned⟩
  | again hstored =>
      refine ⟨h.pending, fun key hkey => ?_⟩
      rcases Bucket.mem_keys_putObject.mp hkey with rfl | hkey
      · exact h.owned _ (Bucket.mem_keys_iff_getObject.mpr ⟨_, hstored⟩)
      · exact h.owned key hkey
  | queued user =>
      refine ⟨fun r hr hpending hnot => ?_, (h.owned.submitted details user).of_eq rfl rfl⟩
      rcases List.mem_append.mp hr with hr | hr
      · exact List.mem_cons_of_mem _ (h.pending r hr hpending hnot)
      · rw [List.mem_singleton.mp hr]
        exact List.mem_cons_self ..

theorem Whole.request {env : Environment} {request : Request} {history : List Event} {now : Nat}
    (h : Whole st) (heffect : Effect lib env st.store request t)
    (hspares : ∀ token user, request = .deleteCurrentUser token →
      getCurrentUser st.store.users env.now token = .ok user →
        ∀ r ∈ st.store.submissions, r.user_id ≠ user.id)
    (hnot : ∀ token details, request ≠ .createSubmission token details) :
    Whole { st with store := t, now := now, history := history } := by
  cases heffect with
  | unchanged => exact ⟨h.pending, h.owned⟩
  | userDeleted hauth =>
      exact ⟨h.pending.of_subset (List.filter_subset_self _) rfl rfl,
        h.owned.removeUser (hspares _ _ rfl hauth)⟩
  | filesDeleted n hraises => exact ⟨h.pending, h.owned.deleteCodes _⟩
  | allFilesDeleted hraises => exact ⟨h.pending, h.owned.deleteCodes _⟩
  | folderDeleted hraises =>
      exact ⟨h.pending, (h.owned.deleteCodes _).of_eq rfl rfl⟩
  | problemDeleted =>
      exact ⟨h.pending.of_subset (List.filter_subset_self _) rfl rfl, h.owned.removeProblem _⟩
  | submission hauth houtcome => exact absurd rfl (hnot _ _)
  | _ => exact ⟨h.pending, h.owned.of_eq rfl rfl⟩

theorem Whole.move {a : Action} (h : Whole st) (hkeeps : KeepsWhole st a)
    (hmove : Moves lib cfg st a st') : Whole st' := by
  obtain ⟨hspares, hcompletes⟩ := hkeeps
  cases hmove with
  | @request env request result store hnow htoken hserve heffect =>
      by_cases hsubmits : ∃ token details, request = .createSubmission token details
      · obtain ⟨token, details, rfl⟩ := hsubmits
        exact h.submission (wholeOutcome (hcompletes _ rfl) (requestOutcome.of_eq hserve))
      · refine h.request heffect ?_ fun token details heq => hsubmits ⟨token, details, heq⟩
        rintro token user rfl hauth r hr
        exact hspares user (by simp [deletedUser, hauth, Except.toOption]) r hr
  | promote id => exact ⟨h.pending, h.owned.of_eq rfl rfl⟩
  | @pick jobs payload hjobs =>
      refine ⟨fun r hr hpending hnot => ?_, h.owned.of_eq rfl rfl⟩
      simp only [List.mem_cons, not_or] at hnot
      have hjob := h.pending r hr hpending hnot.2
      rw [hjobs, List.mem_append, List.mem_singleton] at hjob
      exact hjob.resolve_right hnot.1
  | requeue hpicked =>
      exact ⟨fun r hr hpending hnot => List.mem_cons_of_mem _ (h.pending r hr hpending hnot),
        h.owned.of_eq rfl rfl⟩
  | @judged id result hpicked =>
      refine ⟨fun r hr hpending hnot => ?_, h.owned.setResult _ _⟩
      obtain ⟨r', hr', rfl⟩ := List.mem_map.mp (setResult_submissions .. ▸ hr)
      by_cases hid : r'.id = id
      · rw [Submission.judged_id, hid] at hnot
        exact absurd hpicked hnot
      · rw [Submission.judged, if_neg hid] at hpending hnot ⊢
        exact h.pending r' hr' hpending hnot

def unqueuedRun : List Action :=
  submissionRun.dropLast ++
    [.request { quiet 7 CreateProblem.zeros with raises := fun c => c = .enqueueJob }
      (.createSubmission (some annToken) ⟨['p'], "print(3)".toList, .PYTHON⟩)]

theorem not_submissions_allOrNothing :
    ¬ ∀ st, (system plain halfHour).Reachable st →
      (∀ env token details, AllOrNothing plain halfHour env token details st.store) ∧
        PendingQueued st ∧ ObjectsOwned st.store := by
  obtain ⟨st, hpath, hpending, hjobs, hpicked⟩ :=
    System.exists_path (system plain halfHour) (fun _ _ => True) start unqueuedRun
      (fun st => (∃ r ∈ st.store.submissions, r.Pending) ∧
        st.store.jobs = [] ∧ st.picked = []) (by decide)
  intro hall
  obtain ⟨r, hr, hverdict⟩ := hpending
  have hjob := (hall st ⟨_, rfl, hpath⟩).2.1 r hr hverdict (by simp [hpicked])
  rw [hjobs] at hjob
  cases hjob

/-- **A request that submits is all or nothing** exactly when it does not stop between the
upload and the end of `enqueue_job`; in runs in which none does, and no user who has
submissions is deleted, every row that waits for a worker has a job and every object
belongs to a row. -/
theorem submissions_allOrNothing :
    (∀ st, (system lib cfg).Reachable st → ∀ env token details,
      (AllOrNothing lib cfg env token details st.store ↔
        Completes env token details st.store)) ∧
    ∀ st, (system lib cfg).ReachableUnder KeepsWhole st →
      PendingQueued st ∧ ObjectsOwned st.store := by
  constructor
  · intro st hst env token details
    exact allOrNothing_iff (queued_of_reachable hst) (consistent_of_reachable hst)
  · intro st hst
    have hwhole : Whole st := by
      refine System.PreservedUnder.invariant (I := Whole) ?_ ?_ hst
      · intro st st' a _ h hkeeps hstep
        exact h.move hkeeps (moves_of_step hstep)
      · rintro _ rfl
        exact whole_start
    exact ⟨hwhole.pending, hwhole.owned⟩

theorem submissions_allOrNothing_submission :
    ∃ st, (system plain halfHour).ReachableUnder KeepsWhole st ∧ st.store.jobs ≠ [] ∧
      PendingQueued st ∧ ObjectsOwned st.store := by
  obtain ⟨st, hpath, hjobs⟩ :=
    System.exists_path (system plain halfHour) KeepsWhole start submissionRun
      (fun st => st.store.jobs ≠ []) (by decide)
  have hreach : (system plain halfHour).ReachableUnder KeepsWhole st := ⟨_, rfl, hpath⟩
  exact ⟨st, hreach, hjobs, submissions_allOrNothing.2 st hreach⟩

end ByteBattles.Api
