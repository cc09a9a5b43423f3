import ByteBattles.Api.CodeObjects
import ByteBattles.Judge.JudgeWorker.Findings

/-!
# The failing testcase of a submission

The judge stores the input key of the testcase at which a submission fails.  The API
looks for that key in the bucket of the submissions before it reads the input from the
bucket of the testcases.
-/

namespace ByteBattles.Api

open ByteBattles.Lib

open CreateProblem (KeyOf)

open Judge.JudgeWorker (Job SubmissionResult Finds assigned compiles failures firstFailing
  judgeSubmission)

variable {lib : Libraries} {cfg : Config} {env : Environment} {s t : Store} {st st' : State}

/-! ## The keys of the two buckets -/

/-- The inputs of testcases have a slash in their keys, the objects of submissions have none. -/
structure KeysApart (s : Store) : Prop where
  inputs : ∀ tc ∈ s.testcases, '/' ∈ tc.input_key
  codes : ∀ key ∈ s.submissionFiles.keys, '/' ∉ key

theorem keyOf_slash_mem {id key : Str} (h : KeyOf id key) : '/' ∈ key := by
  obtain ⟨filename, u, -, rfl⟩ := h
  simp [generateObjectKey, problemFolder]

theorem slash_not_mem_submissionKey (env : Environment) (details : SubmissionCreate) :
    '/' ∉ submissionKey env details := by
  have hextension : '/' ∉ EXTENSIONS details.language := by
    cases details.language <;> decide
  simpa [submissionKey, codeObjectKey, env.uuid.slash_not_mem] using hextension

theorem keysApart_empty : KeysApart .empty where
  inputs := fun tc htc => by cases htc
  codes := fun key hkey => by cases hkey

theorem KeysApart.of_subset (h : KeysApart s) (htestcases : t.testcases ⊆ s.testcases)
    (hkeys : t.submissionFiles.keys ⊆ s.submissionFiles.keys) : KeysApart t where
  inputs := fun tc htc => h.inputs tc (htestcases htc)
  codes := fun key hkey => h.codes key (hkeys hkey)

theorem KeysApart.uploaded (h : KeysApart s) (env : Environment) (details : SubmissionCreate) :
    KeysApart (s.uploaded env details) where
  inputs := h.inputs
  codes := by
    intro key hkey
    rcases Bucket.mem_keys_putObject.mp hkey with rfl | hkey
    · exact slash_not_mem_submissionKey env details
    · exact h.codes key hkey

theorem KeysApart.created (h : KeysApart s) {form : ProblemForm} {c : CreateProblem.State}
    {id : Str} {tags : List Str} {n : Nat}
    (hresume : CreateProblem.resume s.categories env.bundle s.creation form.toRequest =
      (c, .created id tags n)) : KeysApart (s.created form tags c) where
  inputs := by
    intro tc htc
    rcases stored_of_mem_created hresume htc with hold | hstored
    · exact h.inputs tc hold
    · exact keyOf_slash_mem hstored.input
  codes := h.codes

theorem KeysApart.deleted (h : KeysApart s) (keys : List Str) :
    KeysApart (s.deleteCodes keys) :=
  h.of_subset (List.Subset.refl _) fun _ hkey => (Bucket.mem_keys_deleteObjects.mp hkey).1

theorem KeysApart.effect (h : KeysApart s) {request : Request}
    (heffect : Effect lib env s request t) : KeysApart t := by
  cases heffect with
  | created hnew hresume => exact h.created hresume
  | filesDeleted n hraises => exact h.deleted _
  | allFilesDeleted hraises => exact h.deleted _
  | @folderDeleted token problem_id hraises =>
      exact (h.deleted (s.codeKeysOf problem_id)).of_subset (List.Subset.refl _)
        (List.Subset.refl _)
  | @problemDeleted token problem_id =>
      exact (h.deleted (s.codeKeysOf problem_id)).of_subset
        (fun _ htc => List.mem_of_mem_filter htc) (List.Subset.refl _)
  | @submission token details user result t hauth houtcome =>
      have huploaded := h.uploaded env details
      cases houtcome with
      | refused => exact h
      | codeOnly => exact huploaded
      | notQueued => exact huploaded.of_subset (List.Subset.refl _) (List.Subset.refl _)
      | queued => exact huploaded.of_subset (List.Subset.refl _) (List.Subset.refl _)
  | _ => exact h.of_subset (List.Subset.refl _) (List.Subset.refl _)

theorem keysApart_invariant : StoreInvariant lib KeysApart where
  empty := keysApart_empty
  effect := fun h heffect => h.effect heffect
  promote := fun _ h => h.of_subset (List.Subset.refl _) (List.Subset.refl _)
  jobs := fun _ h => h.of_subset (List.Subset.refl _) (List.Subset.refl _)
  result := fun _ _ h => h.of_subset (List.Subset.refl _) (List.Subset.refl _)

theorem keysApart_of_reachable (h : (system lib cfg).Reachable st) : KeysApart st.store :=
  keysApart_invariant.of_reachable h

/-! ## Reading a submission back -/

structure Shows (s : Store) (submission : Submission) (input : Option (List Byte)) : Prop where
  property : s.incorrectTestcase submission = .ok input
  response : ∀ response, getSubmissionById s submission.id = .ok response →
    response.incorrect_testcase = input.bind Utf8.decode

structure ReadsBack (judging : Judge.JudgeWorker.Environment) (job : Job)
    (result : SubmissionResult) (s : Store) (submission : Submission) : Prop where
  failing : result.verdict ∈ failures → ∃ tc,
    firstFailing judging job.limits 1 job.testcases = some tc ∧
      Shows s submission (some (judging.testcaseFile tc.input_key))
  notFailing : result.verdict = .ACCEPTED ∨ result.verdict = .COMPILATION_ERROR →
    Shows s submission none

def HasInputs (judging : Judge.JudgeWorker.Environment) (job : Job) (s : Store) : Prop :=
  ∀ tc ∈ job.testcases,
    s.testcaseFiles.getObject tc.input_key = some (judging.testcaseFile tc.input_key)

def NoneFails (judging : Judge.JudgeWorker.Environment) (job : Job) : Prop :=
  compiles judging job.submission.language = true →
    firstFailing judging job.limits 1 job.testcases = none

/-- The bucket of the submissions has an object under the key of the failing input. -/
def Mirrored (judging : Judge.JudgeWorker.Environment) (job : Job) (s : Store) : Prop :=
  ∃ tc, firstFailing judging job.limits 1 job.testcases = some tc ∧
    tc.input_key ∈ s.submissionFiles.keys

section

variable {submission : Submission} {input : Option (List Byte)} {key : Str}
  {judging : Judge.JudgeWorker.Environment} {job : Job} {result : SubmissionResult}

theorem submissionById_eq_some {id : Int} (h : s.submissionById id = some submission) :
    submission ∈ s.submissions ∧ submission.id = id :=
  ⟨List.mem_of_find?_eq_some h, by simpa using List.find?_some h⟩

theorem responseTextOrNone_ok {text : Option Str} (h : responseTextOrNone input = .ok text) :
    text = input.bind Utf8.decode := by
  cases input with
  | none => exact (Except.ok.inj h).symm
  | some data =>
      rw [responseTextOrNone, responseText] at h
      cases hdecode : Utf8.decode data with
      | none => simp [hdecode, Except.map] at h
      | some decoded =>
          simp only [hdecode, Except.map, Except.ok.injEq] at h
          rw [← h, Option.bind_some, hdecode]

/-- The response decodes what the property yields. -/
theorem submissionResponse_ok {response : SubmissionResponse}
    (hproperty : s.incorrectTestcase submission = .ok input)
    (h : s.submissionResponse submission = .ok response) :
    response.incorrect_testcase = input.bind Utf8.decode := by
  rw [Store.submissionResponse] at h
  split at h
  case h_1 => cases h
  case h_2 user _ =>
    simp only [hproperty, bind, Except.bind] at h
    cases hcode : s.code submission with
    | error e => simp [hcode] at h
    | ok code =>
        cases htext : responseTextOrNone input with
        | error e => simp [hcode, htext] at h
        | ok text =>
            cases hcodeText : responseText code with
            | error e => simp [hcode, htext, hcodeText] at h
            | ok codeText =>
                simp only [hcode, htext, hcodeText, pure, Except.pure, Except.ok.injEq] at h
                rw [← h]
                exact responseTextOrNone_ok htext

theorem shows_of_property (hrow : s.submissionById submission.id = some submission)
    (hproperty : s.incorrectTestcase submission = .ok input) : Shows s submission input := by
  refine ⟨hproperty, fun response h => ?_⟩
  rw [getSubmissionById, hrow] at h
  dsimp only at h
  split at h
  case h_1 => cases h
  case h_2 =>
    split at h
    case isTrue => cases h
    case isFalse => exact submissionResponse_ok hproperty h

theorem fileExists_iff {bucket : Bucket (List Byte)} :
    fileExists bucket key = true ↔ key ∈ bucket.keys := by
  rw [fileExists, Option.isSome_iff_exists, Bucket.mem_keys_iff_getObject]

/-- Without a key nothing is looked for. -/
theorem incorrectTestcase_none
    (h : submission.result .incorrect_testcase_key = (none : Option Str)) :
    s.incorrectTestcase submission = .ok none := by
  rw [Store.incorrectTestcase, h]
  rfl

/-- With a key, the bucket of the submissions decides. -/
theorem incorrectTestcase_some (hkey : key ≠ [])
    (h : submission.result .incorrect_testcase_key = some key) :
    s.incorrectTestcase submission =
      if key ∈ s.submissionFiles.keys then (getFile s.testcaseFiles key).map some
      else .ok none := by
  have htruthy : truthy (some key) = some key := by simp [truthy, hkey]
  rw [Store.incorrectTestcase, h, htruthy]
  simp only [fileExists_iff]

theorem readsBack_of_none (hrow : s.submissionById submission.id = some submission)
    (hkey : submission.result .incorrect_testcase_key = (none : Option Str))
    (hverdict : result.verdict ∉ failures) : ReadsBack judging job result s submission where
  failing := fun h => absurd h hverdict
  notFailing := fun _ => shows_of_property hrow (incorrectTestcase_none hkey)

theorem readsBack_iff_mirrored {tc : TestCase} (hkey : tc.input_key ≠ [])
    (hdata : s.testcaseFiles.getObject tc.input_key = some (judging.testcaseFile tc.input_key))
    (hrow : s.submissionById submission.id = some submission)
    (hstored : submission.result .incorrect_testcase_key = some tc.input_key)
    (hfirst : firstFailing judging job.limits 1 job.testcases = some tc)
    (hverdict : result.verdict ∈ failures) :
    ReadsBack judging job result s submission ↔ Mirrored judging job s := by
  have hproperty := incorrectTestcase_some (s := s) hkey hstored
  constructor
  · intro h
    obtain ⟨tc', hfirst', hshows⟩ := h.failing hverdict
    obtain rfl : tc = tc' := Option.some.inj (hfirst.symm.trans hfirst')
    refine ⟨tc, hfirst, ?_⟩
    by_contra hout
    have hshown := hshows.property
    rw [hproperty, if_neg hout] at hshown
    cases hshown
  · rintro ⟨tc', hfirst', hin⟩
    obtain rfl : tc = tc' := Option.some.inj (hfirst.symm.trans hfirst')
    have hfile : getFile s.testcaseFiles tc.input_key =
        .ok (judging.testcaseFile tc.input_key) := by
      rw [getFile, hdata]
    rw [if_pos hin, hfile] at hproperty
    constructor
    · exact fun _ => ⟨tc, hfirst, shows_of_property hrow hproperty⟩
    · rintro (h | h)
      · rw [h] at hverdict
        exact absurd hverdict (by decide)
      · rw [h] at hverdict
        exact absurd hverdict (by decide)

theorem readsBack_iff_of_finds (hfinds : Finds judging job result)
    (hkeys : ∀ tc ∈ job.testcases, tc.input_key ≠ [])
    (hfiles : result.verdict ∈ failures → HasInputs judging job s)
    (hrow : s.submissionById submission.id = some submission)
    (hresult : submission.result = assigned result) :
    ReadsBack judging job result s submission ↔
      NoneFails judging job ∨ Mirrored judging job s := by
  have hassigned : submission.result .incorrect_testcase_key = result.incorrect_testcase_key := by
    rw [hresult]
    rfl
  cases hfinds with
  | notCompiled hcompiles hverdict hkey =>
      refine iff_of_true ?_ (.inl fun h => ?_)
      · exact readsBack_of_none hrow (hassigned.trans hkey) (by rw [hverdict]; decide)
      · simp [hcompiles] at h
  | accepted hcompiles hnone hverdict hkey =>
      refine iff_of_true ?_ (.inl fun _ => hnone)
      exact readsBack_of_none hrow (hassigned.trans hkey) (by rw [hverdict]; decide)
  | @failed tc hcompiles hfirst hverdict hkey =>
      have hmem := Judge.JudgeWorker.mem_of_firstFailing hfirst
      have hfails : ¬ NoneFails judging job := by
        intro h
        have hnone := h hcompiles
        rw [hfirst] at hnone
        cases hnone
      rw [or_iff_right hfails]
      exact readsBack_iff_mirrored (hkeys tc hmem) (hfiles hverdict tc hmem) hrow
        (hassigned.trans hkey) hfirst hverdict

end

/-! ## Judged submissions -/

structure Judgement (st : State) (s : Store) where
  config : Judge.JudgeWorker.Config
  judging : Judge.JudgeWorker.Environment
  row : Judge.JudgeWorker.Submission
  problem : Judge.JudgeWorker.Problem
  result : SubmissionResult
  submission : Submission
  row_eq : st.store.judgeDatabase.submissions submission.id = some row
  problem_eq : st.store.judgeDatabase.problems row.problem_id = some problem
  judged : (judgeSubmission config judging st.store.judgeDatabase submission.id).result =
    .ok result
  stored : s.submissionById submission.id = some submission
  stored_result : submission.result = assigned result
  inputs : result.verdict ∈ failures → HasInputs judging (st.store.judgeDatabase.job row problem) s

namespace Judgement

variable (j : Judgement st s)

def job : Job := st.store.judgeDatabase.job j.row j.problem

theorem finds : Finds j.judging j.job j.result :=
  Judge.JudgeWorker.judgeSubmission_finds j.row_eq j.problem_eq _ j.judged

theorem mem_testcases {tc : TestCase} (h : tc ∈ j.job.testcases) : tc ∈ st.store.testcases := by
  rw [job, Judge.JudgeWorker.Database.job, Judge.JudgeWorker.Database.testcasesOf,
    List.mem_insertionSort] at h
  exact List.mem_of_mem_filter h

end Judgement

/-! ## A run that fails, and one that does not -/

def inputKey : Str := generateObjectKey ['p'] ['1'] CreateProblem.zeros

def prints (exit_code : Int) : Judge.JudgeWorker.Environment where
  raises := fun _ => none
  elapsed := fun _ => 0
  elapsed_nonneg := Judge.JudgeWorker.elapsed_zero
  sandbox := some ['b']
  submissionFile := fun _ => []
  testcaseFile := fun key => if key = inputKey then [49] else [50]
  compilation := ⟨some 0, none⟩
  execution := fun _ => ⟨[(1, [50]), (2, Utf8.encode "0.1 64\n".toList)], some exit_code⟩

def workspace : Judge.JudgeWorker.Config where
  ACQUIRE_TIMEOUT_SECONDS := 10
  WORKSPACE_DIR := "/workspace".toList

structure Ready (exit_code : Int) (st : State) : Prop where
  picked : Str.ofInt 1 ∈ st.picked
  row : (st.store.submissionById 1).any (·.problem_id == ['p']) = true
  problem : (st.store.problemById ['p']).any (fun problem =>
    (firstFailing (prints exit_code) problem.limits 1
      (st.store.judgeDatabase.testcasesOf ['p'])).isSome == (exit_code != 0)) = true
  keys : (st.store.judgeDatabase.testcasesOf ['p']).map (·.input_key) = [inputKey]
  file : st.store.testcaseFiles.getObject inputKey = some [49]
  returns : (judgeSubmission workspace (prints exit_code) st.store.judgeDatabase 1).raised = none

theorem exists_ready (exit_code : Int) (h : exit_code ∈ [(0 : Int), 1]) :
    ∃ st, (system plain halfHour).Reachable st ∧ Ready exit_code st := by
  obtain ⟨st, hpath, hpicked, hrow, hproblem, hkeys, hfile, hreturns⟩ :=
    System.exists_path (system plain halfHour) (fun _ _ => True) start (submissionRun ++ [.pick])
      (fun st => Str.ofInt 1 ∈ st.picked ∧
        (st.store.submissionById 1).any (·.problem_id == ['p']) = true ∧
        (∀ exit_code ∈ [(0 : Int), 1], (st.store.problemById ['p']).any (fun problem =>
          (firstFailing (prints exit_code) problem.limits 1
            (st.store.judgeDatabase.testcasesOf ['p'])).isSome == (exit_code != 0)) = true) ∧
        (st.store.judgeDatabase.testcasesOf ['p']).map (·.input_key) = [inputKey] ∧
        st.store.testcaseFiles.getObject inputKey = some [49] ∧
        ∀ exit_code ∈ [(0 : Int), 1],
          (judgeSubmission workspace (prints exit_code) st.store.judgeDatabase 1).raised = none)
      (by decide +kernel)
  exact ⟨st, ⟨_, rfl, hpath⟩, hpicked, hrow, hproblem _ h, hkeys, hfile, hreturns _ h⟩

theorem submissionById_setResult {id : Int} {submission : Submission} {result : SubmissionResult}
    (h : s.submissionById id = some submission) :
    (s.setResult id result).submissionById id =
      some { submission with result := assigned result } := by
  have hsame : (fun r : Submission => decide (r.id = id)) ∘ (·.judged id result) =
      fun r : Submission => decide (r.id = id) := by
    funext r
    rw [Function.comp_apply, Submission.judged_id]
  have hfound : s.submissions.find? (fun r => decide (r.id = id)) = some submission := h
  have hid := (submissionById_eq_some h).2
  rw [Store.submissionById, setResult_submissions, List.find?_map, hsame, hfound, Option.map_some,
    Submission.judged, if_pos hid]

theorem Ready.exists_judgement {exit_code : Int} (hst : (system plain halfHour).Reachable st)
    (h : Ready exit_code st) :
    ∃ st', (system plain halfHour).Reachable st' ∧ ∃ j : Judgement st st'.store,
      compiles j.judging j.job.submission.language = true ∧
        (firstFailing j.judging j.job.limits 1 j.job.testcases).isSome = (exit_code != 0) := by
  obtain ⟨submission, hsubmission, hof⟩ := (Option.any_eq_true _ _).mp h.row
  obtain ⟨problem, hproblem, hfails⟩ := (Option.any_eq_true _ _).mp h.problem
  obtain ⟨result, hjudged⟩ := raisedBy_eq_none h.returns
  have hid : submission.id = 1 := (submissionById_eq_some hsubmission).2
  rw [beq_iff_eq] at hof
  have hstep : step plain halfHour st (.judged 1 result) =
      some { st with store := st.store.setResult 1 result } := if_pos h.picked
  refine ⟨_, reachable_step hst hstep, ?_⟩
  refine ⟨{
    config := workspace
    judging := prints exit_code
    row := submission.toSubmission
    problem := problem.toProblem
    result := result
    submission := { submission with result := assigned result }
    row_eq := ?_
    problem_eq := ?_
    judged := ?_
    stored := ?_
    stored_result := rfl
    inputs := ?_ }, ?_, ?_⟩
  · show (st.store.submissionById submission.id).map _ = _
    rw [hid, hsubmission]
    rfl
  · show (st.store.problemById submission.problem_id).map _ = _
    rw [hof, hproblem]
    rfl
  · show (judgeSubmission _ _ _ submission.id).result = _
    rw [hid]
    exact hjudged
  · show (st.store.setResult 1 result).submissionById submission.id = _
    exact (congrArg _ hid).trans (submissionById_setResult hsubmission)
  · intro _ tc htc
    have hkey : tc.input_key = inputKey := by
      apply List.mem_singleton.mp
      rw [← h.keys, ← hof]
      exact List.mem_map_of_mem htc
    rw [hkey]
    exact h.file
  · show compiles (prints exit_code) submission.language = true
    cases submission.language <;> rfl
  · show (firstFailing (prints exit_code) problem.limits 1
      (st.store.judgeDatabase.testcasesOf submission.problem_id)).isSome = _
    rw [hof]
    exact beq_iff_eq.mp hfails

/-! ## The result -/

theorem Judgement.input_key_ne (j : Judgement st s) (h : (system lib cfg).Reachable st) :
    ∀ tc ∈ j.job.testcases, tc.input_key ≠ [] := by
  intro tc htc
  exact List.ne_nil_of_mem ((keysApart_of_reachable h).inputs tc (j.mem_testcases htc))

/-- No object of a submission has the key of an input. -/
theorem Judgement.not_mirrored (j : Judgement st s) (h : (system lib cfg).Reachable st)
    (h' : (system lib cfg).Reachable st') : ¬ Mirrored j.judging j.job st'.store := by
  rintro ⟨tc, hfirst, hkey⟩
  have hmem := j.mem_testcases (Judge.JudgeWorker.mem_of_firstFailing hfirst)
  exact (keysApart_of_reachable h').codes _ hkey ((keysApart_of_reachable h).inputs tc hmem)

theorem not_failingTestcase_shown :
    ¬ ∀ lib cfg st st', (system lib cfg).Reachable st → (system lib cfg).Reachable st' →
      ∀ j : Judgement st st'.store,
        ReadsBack j.judging j.job j.result st'.store j.submission := by
  intro hall
  obtain ⟨st, hst, hready⟩ := exists_ready 1 (by simp)
  obtain ⟨st', hst', j, hcompiles, hfails⟩ := hready.exists_judgement hst
  have hreads := hall plain halfHour st st' hst hst' j
  rw [readsBack_iff_of_finds j.finds (j.input_key_ne hst) j.inputs j.stored j.stored_result]
    at hreads
  rcases hreads with hnone | hmirrored
  · simp [hnone hcompiles] at hfails
  · exact j.not_mirrored hst hst' hmirrored

/-- **The failing testcase is shown** exactly if no run fails or an object of the other bucket has
its key, and in no reachable state there is such an object. -/
theorem failingTestcase_shown_iff (h : (system lib cfg).Reachable st) (j : Judgement st s) :
    (ReadsBack j.judging j.job j.result s j.submission ↔
      NoneFails j.judging j.job ∨ Mirrored j.judging j.job s) ∧
    ∀ st', (system lib cfg).Reachable st' → ¬ Mirrored j.judging j.job st'.store := by
  refine ⟨?_, fun st' h' => j.not_mirrored h h'⟩
  exact readsBack_iff_of_finds j.finds (j.input_key_ne h) j.inputs j.stored j.stored_result

theorem failingTestcase_shown_accepted :
    ∃ st st', (system plain halfHour).Reachable st ∧ (system plain halfHour).Reachable st' ∧
      ∃ j : Judgement st st'.store,
        ReadsBack j.judging j.job j.result st'.store j.submission := by
  obtain ⟨st, hst, hready⟩ := exists_ready 0 (by simp)
  obtain ⟨st', hst', j, -, hfails⟩ := hready.exists_judgement hst
  refine ⟨st, st', hst, hst', j, (failingTestcase_shown_iff hst j).1.mpr (.inl fun _ => ?_)⟩
  exact Option.not_isSome_iff_eq_none.mp (by simp [hfails])

end ByteBattles.Api
