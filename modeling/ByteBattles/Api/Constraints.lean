import ByteBattles.Api.Identifiers

/-!
# The constraints of the database

The primary, unique and foreign keys of the problems and submissions, and that the
routes keep them.
-/

namespace ByteBattles.Api

open ByteBattles.Lib

variable {lib : Libraries} {cfg : Config} {env : Environment} {s t : Store} {st st' : State}

structure Constraints (s : Store) : Prop where
  problem_ids : Table.Unique (·.id) s.problems
  submission_ids : Table.Unique (·.id) s.submissions
  code_object_keys : Table.Unique (·.code_object_key) s.submissions
  problem_fk : ∀ r ∈ s.submissions, r.problem_id ∈ s.problems.map (·.id)
  user_fk : ∀ r ∈ s.submissions, r.user_id ∈ s.users.map (·.id)

/-- The constraints, and that the sequence is ahead of the ids. -/
structure Consistent (s : Store) : Prop extends Constraints s where
  serial : ∀ r ∈ s.submissions, r.id < s.submission_serial

theorem consistent_empty : Consistent .empty where
  problem_ids := Table.unique_nil _
  submission_ids := Table.unique_nil _
  code_object_keys := Table.unique_nil _
  problem_fk := fun r hr => by cases hr
  user_fk := fun r hr => by cases hr
  serial := fun r hr => by cases hr

theorem Consistent.of_eq (h : Consistent s) (hproblems : t.problems = s.problems)
    (hsubmissions : t.submissions = s.submissions)
    (husers : ∀ id ∈ s.users.map (·.id), id ∈ t.users.map (·.id))
    (hserial : t.submission_serial = s.submission_serial) : Consistent t := by
  obtain ⟨⟨problem_ids, submission_ids, code_object_keys, problem_fk, user_fk⟩, serial⟩ := h
  constructor
  · constructor
    · rwa [hproblems]
    · rwa [hsubmissions]
    · rwa [hsubmissions]
    · rwa [hsubmissions, hproblems]
    · rw [hsubmissions]
      exact fun r hr => husers _ (user_fk r hr)
  · rwa [hsubmissions, hserial]

theorem Consistent.removeUser (h : Consistent s) (id : Int) : Consistent (s.removeUser id) where
  problem_ids := h.problem_ids
  submission_ids := h.submission_ids.filter _
  code_object_keys := h.code_object_keys.filter _
  problem_fk := fun r hr => h.problem_fk r (List.mem_of_mem_filter hr)
  user_fk := by
    intro r hr
    obtain ⟨hr, hid⟩ := List.mem_filter.mp hr
    obtain ⟨user, huser, heq⟩ := List.mem_map.mp (h.user_fk r hr)
    refine List.mem_map.mpr ⟨user, List.mem_filter.mpr ⟨huser, ?_⟩, heq⟩
    rwa [heq]
  serial := fun r hr => h.serial r (List.mem_of_mem_filter hr)

theorem Consistent.removeProblem (h : Consistent s) (id : Str) :
    Consistent (s.removeProblem id) where
  problem_ids := h.problem_ids.filter _
  submission_ids := h.submission_ids.filter _
  code_object_keys := h.code_object_keys.filter _
  problem_fk := by
    intro r hr
    obtain ⟨hr, hid⟩ := List.mem_filter.mp hr
    obtain ⟨problem, hproblem, heq⟩ := List.mem_map.mp (h.problem_fk r hr)
    refine List.mem_map.mpr ⟨problem, List.mem_filter.mpr ⟨hproblem, ?_⟩, heq⟩
    rwa [heq]
  user_fk := fun r hr => h.user_fk r (List.mem_of_mem_filter hr)
  serial := fun r hr => h.serial r (List.mem_of_mem_filter hr)

theorem Consistent.addProblem (h : Consistent s) {problem : Problem}
    (hnew : problem.id ∉ s.problems.map (·.id)) (testcases : List CreateProblem.TestCase) :
    Consistent (s.addProblem problem testcases) where
  problem_ids := h.problem_ids.append fun p hp heq => hnew (List.mem_map.mpr ⟨p, hp, heq⟩)
  submission_ids := h.submission_ids
  code_object_keys := h.code_object_keys
  problem_fk := by
    intro r hr
    rw [Store.addProblem, List.map_append]
    exact List.mem_append_left _ (h.problem_fk r hr)
  user_fk := h.user_fk
  serial := h.serial

theorem Consistent.addSubmission (h : Consistent s) {r : Submission}
    (hid : r.id = s.submission_serial) (hkey : ¬ s.HasKey r.code_object_key)
    (hproblem : r.problem_id ∈ s.problems.map (·.id)) (huser : r.user_id ∈ s.users.map (·.id)) :
    Consistent (s.addSubmission r) where
  problem_ids := h.problem_ids
  submission_ids := by
    apply h.submission_ids.append
    intro r' hr'
    rw [hid]
    exact (h.serial r' hr').ne
  code_object_keys := h.code_object_keys.append fun r' hr' heq => hkey ⟨r', hr', heq⟩
  problem_fk := by
    intro r' hr'
    rcases List.mem_append.mp hr' with hr' | hr'
    · exact h.problem_fk r' hr'
    · rwa [List.mem_singleton.mp hr']
  user_fk := by
    intro r' hr'
    rcases List.mem_append.mp hr' with hr' | hr'
    · exact h.user_fk r' hr'
    · rwa [List.mem_singleton.mp hr']
  serial := by
    intro r' hr'
    rcases List.mem_append.mp hr' with hr' | hr'
    · exact (h.serial r' hr').trans (Int.lt_succ _)
    · rw [List.mem_singleton.mp hr', hid]
      exact Int.lt_succ _

theorem visibleProblem_eq_some {problem_id : Str} {problem : Problem}
    (h : s.visibleProblem problem_id = some problem) :
    problem ∈ s.problems ∧ problem.id = problem_id ∧ problem.visibility = true :=
  ⟨List.mem_of_find?_eq_some h, by simpa using List.find?_some h⟩

theorem Consistent.submitted (h : Consistent s) {token : Option Token}
    {details : SubmissionCreate} {current_user : User} {problem : Problem}
    (hauth : getCurrentUser s.users env.now token = .ok current_user)
    (hproblem : s.visibleProblem details.problem_id = some problem)
    (hnew : ¬ s.HasKey (submissionKey env details)) :
    Consistent (s.submitted env details current_user) := by
  obtain ⟨_, _, -, -, hfound⟩ := getCurrentUser_eq_ok.mp hauth
  have huser := (userById_eq_some hfound).1
  obtain ⟨hmem, hid, -⟩ := visibleProblem_eq_some hproblem
  have huploaded : Consistent (s.uploaded env details) :=
    h.of_eq rfl rfl (fun _ hid => hid) rfl
  refine huploaded.addSubmission (r := s.inserted env details current_user) rfl hnew ?_ ?_
  · exact List.mem_map.mpr ⟨problem, hmem, hid⟩
  · exact List.mem_map.mpr ⟨current_user, huser, rfl⟩

theorem Consistent.effect (h : Consistent s) {request : Request}
    (heffect : Effect lib env s request t) : Consistent t := by
  cases heffect with
  | unchanged => exact h
  | registered hvalid husername hemail =>
      refine h.of_eq rfl rfl (fun id hid => ?_) rfl
      rw [Store.registered, Store.addUser, List.map_append]
      exact List.mem_append_left _ hid
  | updated hauth hvalid hchanged =>
      refine h.of_eq rfl rfl (fun id hid => ?_) rfl
      rwa [Store.setUser, Table.map_id_replace]
  | userDeleted hauth => exact h.removeUser _
  | @created token form t' id tags testcases hnew hresume =>
      have hfiles : Consistent (s.setTestcaseFiles t'.bucket) :=
        h.of_eq rfl rfl (fun _ hid => hid) rfl
      exact @Consistent.addProblem _ hfiles (form.problem tags) hnew _
  | @problemDeleted token problem_id =>
      have hfiles : Consistent (s.emptied problem_id) :=
        h.of_eq rfl rfl (fun _ hid => hid) rfl
      exact hfiles.removeProblem problem_id
  | submission hauth houtcome =>
      cases houtcome with
      | refused => exact h
      | codeOnly => exact h.of_eq rfl rfl (fun _ hid => hid) rfl
      | notQueued _ hproblem _ _ hnew _ => exact h.submitted hauth hproblem hnew
      | queued hproblem _ hnew _ _ =>
          exact (h.submitted hauth hproblem hnew).of_eq rfl rfl (fun _ hid => hid) rfl
  | _ => exact h.of_eq rfl rfl (fun _ hid => hid) rfl

/-! ## Results -/

def Submission.judged (r : Submission) (id : Int)
    (result : Judge.JudgeWorker.SubmissionResult) : Submission :=
  if r.id = id then { r with result := Judge.JudgeWorker.assigned result } else r

section

variable (s : Store) (r : Submission) (id : Int) (result : Judge.JudgeWorker.SubmissionResult)

theorem setResult_submissions :
    (s.setResult id result).submissions = s.submissions.map (·.judged id result) := rfl

variable {r id result}

theorem Submission.column_judged {α : Type} (column : Submission → α)
    (hcolumn : ∀ row, column { r with result := row } = column r) :
    column (r.judged id result) = column r := by
  unfold Submission.judged
  split
  · exact hcolumn _
  · rfl

@[simp] theorem Submission.judged_id : (r.judged id result).id = r.id :=
  column_judged (·.id) fun _ => rfl

@[simp] theorem Submission.judged_problem_id : (r.judged id result).problem_id = r.problem_id :=
  column_judged (·.problem_id) fun _ => rfl

@[simp] theorem Submission.judged_user_id : (r.judged id result).user_id = r.user_id :=
  column_judged (·.user_id) fun _ => rfl

@[simp] theorem Submission.judged_code_object_key :
    (r.judged id result).code_object_key = r.code_object_key :=
  column_judged (·.code_object_key) fun _ => rfl

end

theorem Consistent.setResult (h : Consistent s) (id : Int)
    (result : Judge.JudgeWorker.SubmissionResult) : Consistent (s.setResult id result) := by
  constructor
  · constructor
    · exact h.problem_ids
    · exact h.submission_ids.map fun r => r.judged_id
    · exact h.code_object_keys.map fun r => r.judged_code_object_key
    · rw [setResult_submissions, List.forall_mem_map]
      intro r hr
      rw [Submission.judged_problem_id]
      exact h.problem_fk r hr
    · rw [setResult_submissions, List.forall_mem_map]
      intro r hr
      rw [Submission.judged_user_id]
      exact h.user_fk r hr
  · rw [setResult_submissions, List.forall_mem_map]
    intro r hr
    rw [Submission.judged_id]
    exact h.serial r hr

theorem Consistent.promote (h : Consistent s) (id : Int) : Consistent (s.promote id) := by
  refine h.of_eq rfl rfl (fun k hk => ?_) rfl
  obtain ⟨user, huser, rfl⟩ := List.mem_map.mp hk
  rw [promote_users]
  exact List.mem_map.mpr ⟨user.promoted id, List.mem_map_of_mem huser, user.promoted_id id⟩

theorem consistent_invariant : StoreInvariant lib Consistent where
  empty := consistent_empty
  effect := fun h heffect => h.effect heffect
  promote := fun id h => h.promote id
  jobs := fun _ h => h.of_eq rfl rfl (fun _ hid => hid) rfl
  result := fun id result h => h.setResult id result

theorem consistent_of_reachable (h : (system lib cfg).Reachable st) : Consistent st.store :=
  consistent_invariant.of_reachable h

end ByteBattles.Api
