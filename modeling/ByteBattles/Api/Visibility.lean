import ByteBattles.Api.Constraints

/-!
# Hidden problems

What the reading routes show to a client who is not an administrator depends only on the
users, on the visible problems, and on their submissions with the objects they name.
-/

namespace ByteBattles.Api

open ByteBattles.Lib

variable {lib : Libraries} {cfg : Config} {env : Environment} {s t : Store}

/-! ## What is visible -/

def Store.visibleProblems (s : Store) : List Problem := s.problems.filter (·.visibility = true)

def Store.visibleSubmissions (s : Store) : List Submission :=
  s.submissions.filter fun r => (s.problemOf r).any (·.visibility)

/-- The stores differ only in hidden problems and in what belongs to them. -/
structure AgreeOnVisible (s t : Store) : Prop where
  users : s.users = t.users
  problems : s.visibleProblems = t.visibleProblems
  submissions : s.visibleSubmissions = t.visibleSubmissions
  code : ∀ r ∈ s.visibleSubmissions,
    s.submissionFiles.getObject r.code_object_key = t.submissionFiles.getObject r.code_object_key
  testcase : ∀ r ∈ s.visibleSubmissions, ∀ key, r.result .incorrect_testcase_key = some key →
    s.submissionFiles.getObject key = t.submissionFiles.getObject key ∧
      s.testcaseFiles.getObject key = t.testcaseFiles.getObject key

def Request.Reads : Request → Prop
  | .getProblems _ _ _ | .getProblemById _ _ | .getSubmissions _ _ _ _ _
  | .getSubmissionById _ => True
  | _ => False

/-! ## Problems -/

theorem visibleProblem_eq (s : Store) (problem_id : Str) :
    s.visibleProblem problem_id = s.visibleProblems.find? (·.id = problem_id) := by
  rw [Store.visibleProblem, Store.visibleProblems, List.find?_filter]
  congr
  funext p
  simp [and_comm]

theorem AgreeOnVisible.visibleProblem (h : AgreeOnVisible s t) (problem_id : Str) :
    s.visibleProblem problem_id = t.visibleProblem problem_id := by
  rw [visibleProblem_eq, visibleProblem_eq, h.problems]

theorem AgreeOnVisible.getProblems (h : AgreeOnVisible s t) {now : Nat} {token : Option Token}
    (hadmin : getOptionalCurrentAdmin s.users now token = none) (page limit : Int) :
    getProblems s now token page limit = getProblems t now token page limit := by
  have hproblems : s.problems.filter (·.visibility = true) =
      t.problems.filter (·.visibility = true) := h.problems
  unfold Api.getProblems
  rw [← h.users, hadmin, hproblems]
  rfl

theorem AgreeOnVisible.getProblemById (h : AgreeOnVisible s t) {now : Nat} {token : Option Token}
    (hadmin : getOptionalCurrentAdmin s.users now token = none) (problem_id : Str) :
    getProblemById s now token problem_id = getProblemById t now token problem_id := by
  have hproblem := h.visibleProblem problem_id
  unfold Api.getProblemById
  rw [← h.users, hadmin, hproblem]
  rfl

/-! ## Submissions -/

theorem problemOf_visible (hs : Constraints s) {problem_id : Str} {problem : Problem}
    (hproblem : s.visibleProblem problem_id = some problem) {r : Submission}
    (hr : r.problem_id = problem.id) : s.problemOf r = some problem := by
  obtain ⟨hmem, -, -⟩ := visibleProblem_eq_some hproblem
  rw [Store.problemOf, Store.problemById, hr]
  exact hs.problem_ids.find? hmem

theorem filter_problem (hs : Constraints s) (user : User) {problem_id : Str} {problem : Problem}
    (hproblem : s.visibleProblem problem_id = some problem) :
    (s.submissions.filter fun r => r.user_id = user.id ∧ r.problem_id = problem.id) =
      s.visibleSubmissions.filter fun r => r.user_id = user.id ∧ r.problem_id = problem.id := by
  rw [Store.visibleSubmissions, List.filter_filter]
  apply List.filter_congr
  intro r _
  by_cases hr : r.problem_id = problem.id
  · have hvisible := (visibleProblem_eq_some hproblem).2.2
    simp [problemOf_visible hs hproblem hr, hvisible]
  · simp [hr]

theorem filter_visible (s : Store) (user : User) :
    (s.submissions.filter fun r => r.user_id = user.id ∧ (s.problemOf r).any (·.visibility)) =
      s.visibleSubmissions.filter fun r => r.user_id = user.id := by
  rw [Store.visibleSubmissions, List.filter_filter]
  apply List.filter_congr
  intro r _
  simp

theorem AgreeOnVisible.submissionsOf (h : AgreeOnVisible s t) (hs : Constraints s)
    (ht : Constraints t) (user : User) (problem_id : Option Str) :
    s.submissionsOf user problem_id = t.submissionsOf user problem_id := by
  unfold Store.submissionsOf
  cases truthy problem_id with
  | none =>
      simp only [filter_visible]
      rw [h.submissions]
  | some problem_id =>
      have hsame := h.visibleProblem problem_id
      cases hproblem : s.visibleProblem problem_id with
      | none => simp only [← hsame, hproblem]
      | some problem =>
          rw [hproblem] at hsame
          simp only [hproblem, ← hsame]
          rw [filter_problem hs user hproblem, filter_problem ht user hsame.symm, h.submissions]

theorem AgreeOnVisible.getSubmissions (h : AgreeOnVisible s t) (hs : Constraints s)
    (ht : Constraints t) (now : Nat) (token : Option Token) (problem_id username : Option Str)
    (page limit : Int) :
    getSubmissions s now token problem_id username page limit =
      getSubmissions t now token problem_id username page limit := by
  unfold Api.getSubmissions
  simp only [h.users, h.submissionsOf hs ht]

/-- The response for the visible submission with the id, if there is one. -/
def Store.visibleResponse (s : Store) (id : Int) : Except Error SubmissionResponse :=
  match s.visibleSubmissions.find? (·.id = id) with
  | none => .error (notFound "Submission not found")
  | some r => s.submissionResponse r

/-- A hidden submission is as good as none. -/
theorem getSubmissionById_eq (hs : Constraints s) (id : Int) :
    getSubmissionById s id = s.visibleResponse id := by
  unfold Api.getSubmissionById Store.visibleResponse
  cases hfind : s.submissionById id with
  | none =>
      have hnone : s.visibleSubmissions.find? (·.id = id) = none := by
        apply List.find?_eq_none.mpr
        intro r hr
        exact List.find?_eq_none.mp hfind r (List.mem_of_mem_filter hr)
      rw [hnone]
  | some r =>
      have hr : r ∈ s.submissions := List.mem_of_find?_eq_some hfind
      obtain rfl : r.id = id := by simpa using List.find?_some hfind
      obtain ⟨problem, hproblem, hid⟩ := List.mem_map.mp (hs.problem_fk r hr)
      have hof : s.problemOf r = some problem := by
        rw [Store.problemOf, Store.problemById, ← hid]
        exact hs.problem_ids.find? hproblem
      simp only [hof]
      by_cases hvisible : problem.visibility = true
      · have hmem : r ∈ s.visibleSubmissions :=
          List.mem_filter.mpr ⟨hr, by simp [hof, hvisible]⟩
        have hfound : s.visibleSubmissions.find? (·.id = r.id) = some r :=
          (hs.submission_ids.filter _).find? hmem
        rw [hfound]
        simp [hvisible]
      · have hnone : s.visibleSubmissions.find? (·.id = r.id) = none := by
          apply List.find?_eq_none.mpr
          intro r' hr' heq
          obtain ⟨hr', hvisible'⟩ := List.mem_filter.mp hr'
          obtain rfl := hs.submission_ids.eq hr' hr (of_decide_eq_true heq)
          exact hvisible (by simpa [hof] using hvisible')
        rw [hnone]
        simp [hvisible]

theorem AgreeOnVisible.incorrectTestcase (h : AgreeOnVisible s t) {r : Submission}
    (hr : r ∈ s.visibleSubmissions) : s.incorrectTestcase r = t.incorrectTestcase r := by
  unfold Store.incorrectTestcase
  cases hkey : truthy (r.result .incorrect_testcase_key) with
  | none => rfl
  | some key =>
      obtain ⟨hcode, htestcase⟩ := h.testcase r hr key (Option.filter_eq_some_iff.mp hkey).1
      have hexists : fileExists s.submissionFiles key = fileExists t.submissionFiles key := by
        rw [fileExists, fileExists, hcode]
      have hget : getFile s.testcaseFiles key = getFile t.testcaseFiles key := by
        rw [getFile, getFile, htestcase]
      simp only [hexists, hget]

theorem AgreeOnVisible.submissionResponse (h : AgreeOnVisible s t) {r : Submission}
    (hr : r ∈ s.visibleSubmissions) : s.submissionResponse r = t.submissionResponse r := by
  unfold Store.submissionResponse Store.code getFile
  simp only [h.users, h.code r hr, h.incorrectTestcase hr]

theorem AgreeOnVisible.getSubmissionById (h : AgreeOnVisible s t) (hs : Constraints s)
    (ht : Constraints t) (id : Int) : getSubmissionById s id = getSubmissionById t id := by
  rw [getSubmissionById_eq hs, getSubmissionById_eq ht, Store.visibleResponse,
    Store.visibleResponse, ← h.submissions]
  cases hfind : s.visibleSubmissions.find? (·.id = id) with
  | none => rfl
  | some r => exact h.submissionResponse (List.mem_of_find?_eq_some hfind)

/-! ## The result -/

theorem respond_reading_congr {α : Type} (response : α → Response)
    {route : Store → Except Error α} (h : route s = route t) :
    (respond response (reading route) s).1 = (respond response (reading route) t).1 := by
  rw [respond_reading, respond_reading, h]

/-- **Hidden problems are invisible** to clients who are not administrators. -/
theorem hidden_invisible (h : AgreeOnVisible s t) (hs : Constraints s) (ht : Constraints t)
    {request : Request} (hreads : request.Reads)
    (hadmin : getOptionalCurrentAdmin s.users env.now request.token = none) :
    (serve lib cfg env request s).1 = (serve lib cfg env request t).1 := by
  cases request with
  | getProblems token page limit =>
      exact respond_reading_congr _ (h.getProblems hadmin page limit)
  | getProblemById token problem_id =>
      exact respond_reading_congr _ (h.getProblemById hadmin problem_id)
  | getSubmissions token problem_id username page limit =>
      exact respond_reading_congr _
        (h.getSubmissions hs ht env.now token problem_id username page limit)
  | getSubmissionById id =>
      exact respond_reading_congr _ (h.getSubmissionById hs ht id)
  | _ => cases hreads

def shown : Store :=
  { Store.empty with
    users := [Store.empty.newUser 0 ann.username ann.email ann.password]
    problems := [(sumForm ['p'] true).problem []]
    submissions := [⟨⟨['p'], .PYTHON, ['a'], pendingRow⟩, 1, 0, 1⟩]
    submissionFiles := [(['a'], [])] }

def shownAndHidden : Store :=
  { shown with
    problems := shown.problems ++ [(sumForm ['q'] false).problem []]
    submissions := shown.submissions ++ [⟨⟨['q'], .PYTHON, ['b'], pendingRow⟩, 2, 0, 1⟩]
    submissionFiles := (['b'], []) :: shown.submissionFiles }

theorem constraints_shown : Constraints shown where
  problem_ids := by simp [Table.Unique, shown]
  submission_ids := by simp [Table.Unique, shown]
  code_object_keys := by simp [Table.Unique, shown]
  problem_fk := by simp [shown, ProblemForm.problem, sumForm]
  user_fk := by simp [shown, Store.newUser, Store.empty]

theorem constraints_shownAndHidden : Constraints shownAndHidden where
  problem_ids := by simp [Table.Unique, shownAndHidden, shown, ProblemForm.problem, sumForm]
  submission_ids := by simp [Table.Unique, shownAndHidden, shown]
  code_object_keys := by simp [Table.Unique, shownAndHidden, shown]
  problem_fk := by simp [shownAndHidden, shown, ProblemForm.problem, sumForm]
  user_fk := by simp [shownAndHidden, shown, Store.newUser, Store.empty]

theorem agreeOnVisible_shown : AgreeOnVisible shown shownAndHidden where
  users := rfl
  problems := rfl
  submissions := rfl
  code := by
    intro r hr
    obtain rfl : r = _ := List.mem_singleton.mp hr
    rfl
  testcase := by
    intro r hr key hkey
    obtain rfl : r = _ := List.mem_singleton.mp hr
    cases hkey

theorem hidden_invisible_submission :
    (serve plain halfHour (quiet 0 CreateProblem.zeros) (.getSubmissionById 2) shown).1 =
      (serve plain halfHour (quiet 0 CreateProblem.zeros) (.getSubmissionById 2)
        shownAndHidden).1 :=
  hidden_invisible agreeOnVisible_shown constraints_shown constraints_shownAndHidden
    trivial rfl

end ByteBattles.Api
