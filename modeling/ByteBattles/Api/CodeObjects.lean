import ByteBattles.Api.Constraints

/-!
# Submissions and their code

Each row of a submission names an object in the submission bucket.  Rows go with their
problem or their user; the objects go only with the problem.
-/

namespace ByteBattles.Api

open ByteBattles.Lib

variable {lib : Libraries} {cfg : Config} {env : Environment} {s t : Store} {st st' : State}

/-- No object without its row. -/
def ObjectsOwned (s : Store) : Prop := ∀ key ∈ s.submissionFiles.keys, s.HasKey key

/-- No row without its object. -/
def RowsBacked (s : Store) : Prop :=
  ∀ r ∈ s.submissions, r.code_object_key ∈ s.submissionFiles.keys

/-! ## The operations on both sides -/

theorem ObjectsOwned.of_eq (h : ObjectsOwned s) (hfiles : t.submissionFiles = s.submissionFiles)
    (hsubmissions : t.submissions = s.submissions) : ObjectsOwned t := by
  unfold ObjectsOwned Store.HasKey
  rwa [hfiles, hsubmissions]

theorem RowsBacked.of_eq (h : RowsBacked s) (hfiles : t.submissionFiles = s.submissionFiles)
    (hsubmissions : t.submissions = s.submissions) : RowsBacked t := by
  unfold RowsBacked
  rwa [hfiles, hsubmissions]

theorem ObjectsOwned.deleteCodes (h : ObjectsOwned s) (keys : List Str) :
    ObjectsOwned (s.deleteCodes keys) := by
  intro key hkey
  exact h key (Bucket.mem_keys_deleteObjects.mp hkey).1

theorem ObjectsOwned.removeProblem (h : ObjectsOwned s) (problem_id : Str) :
    ObjectsOwned ((s.emptied problem_id).removeProblem problem_id) := by
  intro key hkey
  obtain ⟨hmem, hkept⟩ := Bucket.mem_keys_deleteObjects.mp hkey
  obtain ⟨r, hr, rfl⟩ := h key hmem
  have hother : r.problem_id ≠ problem_id := by
    intro heq
    apply hkept
    exact List.mem_map.mpr ⟨r, List.mem_filter.mpr ⟨hr, by simpa using heq⟩, rfl⟩
  exact ⟨r, List.mem_filter.mpr ⟨hr, by simpa using hother⟩, rfl⟩

/-- The keys of two problems are different. -/
theorem RowsBacked.removeProblem (h : RowsBacked s) (hs : Constraints s) (problem_id : Str) :
    RowsBacked ((s.emptied problem_id).removeProblem problem_id) := by
  intro r hr
  obtain ⟨hr, hother⟩ := List.mem_filter.mp hr
  refine Bucket.mem_keys_deleteObjects.mpr ⟨h r hr, fun hkey => ?_⟩
  obtain ⟨r', hr', hsame⟩ := List.mem_map.mp hkey
  obtain ⟨hr', hproblem⟩ := List.mem_filter.mp hr'
  obtain rfl := hs.code_object_keys.eq hr' hr hsame
  simp only [decide_eq_true_eq] at hproblem hother
  exact hother hproblem

theorem ObjectsOwned.removeUser (h : ObjectsOwned s) {id : Int}
    (hnone : ∀ r ∈ s.submissions, r.user_id ≠ id) : ObjectsOwned (s.removeUser id) := by
  intro key hkey
  obtain ⟨r, hr, rfl⟩ := h key hkey
  exact ⟨r, List.mem_filter.mpr ⟨hr, by simpa using hnone r hr⟩, rfl⟩

theorem RowsBacked.removeUser (h : RowsBacked s) (id : Int) : RowsBacked (s.removeUser id) :=
  fun r hr => h r (List.mem_of_mem_filter hr)

theorem ObjectsOwned.submitted (h : ObjectsOwned s) (details : SubmissionCreate) (user : User) :
    ObjectsOwned (s.submitted env details user) := by
  intro key hkey
  rcases Bucket.mem_keys_putObject.mp hkey with rfl | hkey
  · exact ⟨s.inserted env details user, List.mem_append_right _ (List.mem_singleton.mpr rfl), rfl⟩
  · obtain ⟨r, hr, rfl⟩ := h key hkey
    exact ⟨r, List.mem_append_left _ hr, rfl⟩

theorem RowsBacked.submitted (h : RowsBacked s) (details : SubmissionCreate) (user : User) :
    RowsBacked (s.submitted env details user) := by
  intro r hr
  apply Bucket.mem_keys_putObject.mpr
  rcases List.mem_append.mp hr with hr | hr
  · exact .inr (h r hr)
  · rw [List.mem_singleton.mp hr]
    exact .inl rfl

theorem ObjectsOwned.setResult (h : ObjectsOwned s) (id : Int)
    (result : Judge.JudgeWorker.SubmissionResult) : ObjectsOwned (s.setResult id result) := by
  intro key hkey
  obtain ⟨r, hr, rfl⟩ := h key hkey
  exact ⟨r.judged id result, List.mem_map_of_mem hr, r.judged_code_object_key⟩

theorem RowsBacked.setResult (h : RowsBacked s) (id : Int)
    (result : Judge.JudgeWorker.SubmissionResult) : RowsBacked (s.setResult id result) := by
  rw [RowsBacked, setResult_submissions, List.forall_mem_map]
  intro r hr
  rw [Submission.judged_code_object_key]
  exact h r hr

/-! ## Runs without a failure -/

def Action.Calm : Action → Prop
  | .request env _ => (∀ c, env.raises c = false) ∧ ∀ c, env.bundle.raises c = false
  | _ => True

def FreshUuid (st : State) : Action → Prop
  | .request env _ => ∀ r ∈ st.store.submissions, ¬ env.uuid.hex <+: r.code_object_key
  | _ => True

def deletedUser (st : State) : Action → Option User
  | .request env (.deleteCurrentUser token) =>
      (getCurrentUser st.store.users env.now token).toOption
  | _ => none

def SparesAuthors (st : State) (a : Action) : Prop :=
  ∀ user ∈ deletedUser st a, ∀ r ∈ st.store.submissions, r.user_id ≠ user.id

instance (st : State) (a : Action) : Decidable (SparesAuthors st a) :=
  inferInstanceAs (Decidable (∀ user ∈ deletedUser st a, _))

instance (st : State) : (a : Action) → Decidable (FreshUuid st a)
  | .request _ _ => List.decidableBAll _ _
  | .promote _ | .pick | .requeue _ | .judged _ _ => isTrue trivial

theorem not_hasKey_of_fresh
    (h : ∀ r ∈ s.submissions, ¬ env.uuid.hex <+: r.code_object_key) (details : SubmissionCreate) :
    ¬ s.HasKey (submissionKey env details) := by
  rintro ⟨r, hr, hkey⟩
  apply h r hr
  rw [hkey]
  exact List.prefix_append _ _

structure Corresponds (s : Store) : Prop where
  owned : ObjectsOwned s
  backed : RowsBacked s

theorem corresponds_iff : Corresponds s ↔ ∀ key, key ∈ s.submissionFiles.keys ↔ s.HasKey key := by
  constructor
  · rintro ⟨howned, hbacked⟩ key
    refine ⟨howned key, ?_⟩
    rintro ⟨r, hr, rfl⟩
    exact hbacked r hr
  · intro h
    exact ⟨fun key hkey => (h key).mp hkey, fun r hr => (h _).mpr ⟨r, hr, rfl⟩⟩

theorem Corresponds.effect (h : Corresponds s) (hs : Consistent s) {request : Request}
    (heffect : Effect lib env s request t) (hcalm : ∀ c, env.raises c = false)
    (hfresh : ∀ r ∈ s.submissions, ¬ env.uuid.hex <+: r.code_object_key)
    (hspares : ∀ token user, request = .deleteCurrentUser token →
      getCurrentUser s.users env.now token = .ok user →
        ∀ r ∈ s.submissions, r.user_id ≠ user.id) : Corresponds t := by
  cases heffect with
  | unchanged => exact h
  | userDeleted hauth =>
      exact ⟨h.owned.removeUser (hspares _ _ rfl hauth), h.backed.removeUser _⟩
  | filesDeleted n hraises => simp [hcalm] at hraises
  | allFilesDeleted hraises => simp [hcalm] at hraises
  | folderDeleted hraises => simp [hcalm] at hraises
  | problemDeleted =>
      exact ⟨h.owned.removeProblem _, h.backed.removeProblem hs.toConstraints _⟩
  | submission hauth houtcome =>
      cases houtcome with
      | refused => exact h
      | codeOnly _ _ _ hraises =>
          rcases hraises with hraises | hkey
          · simp [hcalm] at hraises
          · exact absurd hkey (not_hasKey_of_fresh hfresh _)
      | notQueued _ _ _ _ _ hraises => simp [hcalm] at hraises
      | queued =>
          exact ⟨(h.owned.submitted _ _).of_eq rfl rfl, (h.backed.submitted _ _).of_eq rfl rfl⟩
  | _ => exact ⟨h.owned.of_eq rfl rfl, h.backed.of_eq rfl rfl⟩

theorem corresponds_empty : Corresponds .empty where
  owned := fun key hkey => by cases hkey
  backed := fun r hr => by cases hr

/-- **Rows and objects correspond** in every run without a failure that deletes no user
who has submissions. -/
theorem codeObjects_correspond
    (h : (system lib cfg).ReachableUnder
      (fun st a => a.Calm ∧ FreshUuid st a ∧ SparesAuthors st a) st) :
    ∀ key, key ∈ st.store.submissionFiles.keys ↔ st.store.HasKey key := by
  apply corresponds_iff.mp
  refine System.PreservedUnder.reachable (J := fun st => Consistent st.store)
    (I := fun st => Corresponds st.store) ?_ ?_ ?_ h
  · intro st st' a hs hst hok hstep
    cases moves_of_step hstep with
    | request hnow htoken hserve heffect =>
        obtain ⟨hcalm, hfresh, hspares⟩ := hok
        refine hst.effect hs heffect hcalm.1 hfresh ?_
        rintro token user rfl hauth r hr
        exact hspares user (by simp [deletedUser, hauth, Except.toOption]) r hr
    | promote id => exact ⟨hst.owned.of_eq rfl rfl, hst.backed.of_eq rfl rfl⟩
    | pick hjobs => exact ⟨hst.owned.of_eq rfl rfl, hst.backed.of_eq rfl rfl⟩
    | requeue hpicked => exact ⟨hst.owned.of_eq rfl rfl, hst.backed.of_eq rfl rfl⟩
    | judged result hpicked => exact ⟨hst.owned.setResult _ _, hst.backed.setResult _ _⟩
  · intro st hst
    exact consistent_of_reachable (hst.mono fun _ _ _ => trivial)
  · rintro _ rfl
    exact corresponds_empty

/-- Deleting a user who has submissions leaves their objects behind. -/
theorem not_owned_of_removeUser (hs : Constraints s) (hbacked : RowsBacked s) {r : Submission}
    (hr : r ∈ s.submissions) : ¬ ObjectsOwned (s.removeUser r.user_id) := by
  intro howned
  obtain ⟨r', hr', hkey⟩ := howned r.code_object_key (hbacked r hr)
  obtain ⟨hr', huser⟩ := List.mem_filter.mp hr'
  obtain rfl := hs.code_object_keys.eq hr' hr hkey
  simp at huser

/-! ## Two runs -/

def submissionRun : List Action :=
  [.request (quiet 1 CreateProblem.zeros) (.register ann),
    .promote 1,
    .request (quiet 5 CreateProblem.zeros) (.login ann.username ann.password),
    .request (quiet 6 CreateProblem.zeros) (.createProblem (some annToken) (sumForm ['p'] true)),
    .request (quiet 7 CreateProblem.zeros)
      (.createSubmission (some annToken) ⟨['p'], "print(3)".toList, .PYTHON⟩)]

theorem calm_quiet (now : Nat) (uuid : Uuid) (request : Request) :
    (Action.request (quiet now uuid) request).Calm := ⟨fun _ => rfl, fun _ => rfl⟩

theorem calm_submissionRun : ∀ a ∈ submissionRun, a.Calm := by
  intro a ha
  simp only [submissionRun, List.mem_cons, List.not_mem_nil, or_false] at ha
  rcases ha with rfl | rfl | rfl | rfl | rfl
  · exact calm_quiet _ _ _
  · trivial
  · exact calm_quiet _ _ _
  · exact calm_quiet _ _ _
  · exact calm_quiet _ _ _

def deletion : Action := .request (quiet 8 CreateProblem.ones) (.deleteCurrentUser (some annToken))

theorem not_codeObjects_correspond :
    ¬ ∀ st, (system plain halfHour).ReachableUnder (fun st a => a.Calm ∧ FreshUuid st a) st →
      ∀ key, key ∈ st.store.submissionFiles.keys ↔ st.store.HasKey key := by
  have hcalm : ∀ a ∈ submissionRun ++ [deletion], a.Calm := by
    intro a ha
    rcases List.mem_append.mp ha with ha | ha
    · exact calm_submissionRun a ha
    · rw [List.mem_singleton.mp ha]
      exact calm_quiet _ _ _
  obtain ⟨st, hpath, hfiles, hrows⟩ :=
    System.exists_path_of (system plain halfHour) FreshUuid start hcalm
      (fun st => st.store.submissionFiles.keys ≠ [] ∧ st.store.submissions.isEmpty = true)
      (by decide)
  intro hall
  obtain ⟨key, hkey⟩ := List.exists_mem_of_ne_nil _ hfiles
  obtain ⟨r, hr, -⟩ := (hall st ⟨_, rfl, hpath⟩ key).mp hkey
  rw [List.isEmpty_iff.mp hrows] at hr
  cases hr

theorem codeObjects_correspond_submission :
    ∃ st, (system plain halfHour).ReachableUnder
        (fun st a => a.Calm ∧ FreshUuid st a ∧ SparesAuthors st a) st ∧
      st.store.submissionFiles.keys ≠ [] ∧
        ∀ key, key ∈ st.store.submissionFiles.keys ↔ st.store.HasKey key := by
  obtain ⟨st, hpath, hfiles⟩ :=
    System.exists_path_of (system plain halfHour)
      (fun st a => FreshUuid st a ∧ SparesAuthors st a) start calm_submissionRun
      (fun st => st.store.submissionFiles.keys ≠ []) (by decide)
  have hreach : (system plain halfHour).ReachableUnder
      (fun st a => a.Calm ∧ FreshUuid st a ∧ SparesAuthors st a) st := ⟨_, rfl, hpath⟩
  exact ⟨st, hreach, hfiles, codeObjects_correspond hreach⟩

end ByteBattles.Api
