import ByteBattles.Api.CodeObjects
import ByteBattles.Judge.JudgeWorker.Acceptance

/-!
# Problems that can be solved

The API checks how a bundle is laid out; the judge needs its files to be text and the
memory limit to leave room for a program.
-/

namespace ByteBattles.Api

open ByteBattles.Lib

open CreateProblem (Distinct Holds pairedFiles upload_holds upload_stored)

open Judge.JudgeWorker (Solvable)

variable {lib : Libraries} {cfg : Config} {env : Environment} {s t : Store} {st : State}

/-! ## The testcases of a problem -/

def TestcasesOwned (s : Store) : Prop :=
  ∀ tc ∈ s.testcases, tc.problem_id ∈ s.problems.map (·.id)

theorem TestcasesOwned.created (h : TestcasesOwned s) {form : ProblemForm}
    {c : CreateProblem.State} {id : Str} {tags : List Str} {count : Nat}
    (hresume : CreateProblem.resume s.categories env.bundle s.creation form.toRequest =
      (c, .created id tags count)) : TestcasesOwned (s.created form tags c) := by
  have hproblems : (s.created form tags c).problems = s.problems ++ [form.problem tags] := rfl
  intro tc htc
  rw [hproblems, List.map_append]
  rcases stored_of_mem_created hresume htc with hold | hstored
  · exact List.mem_append_left _ (h tc hold)
  · have hid : tc.problem_id = form.id := hstored.problem
    rw [hid]
    exact List.mem_append_right _ (List.mem_singleton.mpr rfl)

theorem TestcasesOwned.effect (h : TestcasesOwned s) {request : Request}
    (heffect : Effect lib env s request t) : TestcasesOwned t := by
  cases heffect with
  | created hnew hresume => exact h.created hresume
  | @problemDeleted token problem_id =>
      intro tc htc
      obtain ⟨htc, hother⟩ := List.mem_filter.mp htc
      obtain ⟨problem, hproblem, hid⟩ := List.mem_map.mp (h tc htc)
      refine List.mem_map.mpr ⟨problem, List.mem_filter.mpr ⟨hproblem, ?_⟩, hid⟩
      simpa [hid] using hother
  | submission hauth houtcome =>
      cases houtcome with
      | _ => exact h
  | _ => exact h

theorem testcasesOwned_invariant : StoreInvariant lib TestcasesOwned where
  empty := fun tc htc => by cases htc
  effect := fun h heffect => h.effect heffect
  promote := fun _ h => h
  jobs := fun _ h => h
  result := fun _ _ h => h

theorem testcasesOwned_of_reachable (h : (system lib cfg).Reachable st) :
    TestcasesOwned st.store :=
  testcasesOwned_invariant.of_reachable h

/-! ## What the judge needs -/

def ProblemForm.files (form : ProblemForm) : List (Str × Str) :=
  match form.zip with
  | some zip =>
      match pairedFiles form.filename zip with
      | .ok files => files
      | .error _ => []
  | none => []

def ProblemForm.decodes (form : ProblemForm) (path : Str) : Bool :=
  ((form.zip.bind (·.read path)).bind Utf8.decode).isSome

def ProblemForm.Judgeable (form : ProblemForm) : Prop :=
  0 < form.memory_limit_mb ∧
    ∀ file ∈ form.files, form.decodes file.1 = true ∧ form.decodes file.2 = true

instance (form : ProblemForm) : Decidable form.Judgeable := inferInstanceAs (Decidable (_ ∧ _))

structure Keeps (s t : Store) (problem_id : Str) : Prop where
  problem : t.problemById problem_id = s.problemById problem_id
  testcases : t.testcases.filter (·.problem_id = problem_id) =
    s.testcases.filter (·.problem_id = problem_id)
  files : ∀ tc ∈ s.testcases, tc.problem_id = problem_id → ∀ key ∈ [tc.input_key, tc.output_key],
    t.testcaseFiles.getObject key = s.testcaseFiles.getObject key

structure Judges (judging : Judge.JudgeWorker.Environment) (t : Store) (problem_id : Str)
    (submission : Submission) : Prop where
  row : t.submissionById submission.id = some submission
  problem : submission.problem_id = problem_id
  calm : judging.Calm submission.language
  reads : ∀ key data, t.testcaseFiles.getObject key = some data → judging.testcaseFile key = data

theorem creationOutcome (token : Option Token) (form : ProblemForm) :
    (serve lib cfg env (.createProblem token form)).Ends s (CreationOutcome env s form) := by
  apply ends_respond
  refine ends_withCurrentAdmin (fun _ => .refused _) (fun _ _ => .refused _) fun _ _ _ => ?_
  refine (createProblem_outcome form).mono fun result t houtcome => ?_
  cases houtcome with
  | refused e => exact .refused e
  | failed hresume => exact .failed hresume
  | created hnew hresume => exact .created hnew hresume

theorem files_of_validate {categories : List Str} {form : ProblemForm}
    {v : CreateProblem.Validated}
    (h : CreateProblem.validate categories form.toRequest = .ok v) :
    form.zip = some v.zip ∧ form.files = v.files ∧ form.files ≠ [] := by
  obtain ⟨hzip, hpaired, -⟩ := CreateProblem.validate_eq_ok.mp h
  rw [form.toRequest_zip] at hzip
  rw [form.toRequest_filename] at hpaired
  have hfiles : form.files = v.files := by
    unfold ProblemForm.files
    rw [hzip]
    dsimp only
    rw [hpaired]
  exact ⟨hzip, hfiles, hfiles ▸ CreateProblem.pairedFiles_ne_nil hpaired⟩

theorem forall_mem_iff_of_forall₂ {α β : Type} {R : α → β → Prop} {P : α → Prop} {Q : β → Prop}
    {xs : List α} {ys : List β} (h : List.Forall₂ R xs ys)
    (hPQ : ∀ x, ∀ y ∈ ys, R x y → (P x ↔ Q y)) : (∀ x ∈ xs, P x) ↔ ∀ y ∈ ys, Q y := by
  induction h with
  | nil => simp
  | @cons x y xs ys hxy _ ih =>
      rw [List.forall_mem_cons, List.forall_mem_cons, hPQ x y List.mem_cons_self hxy,
        ih fun x y hy => hPQ x y (List.mem_cons_of_mem _ hy)]

section

variable {form : ProblemForm} {c : CreateProblem.State} {id : Str} {tags : List Str} {count : Nat}

theorem created_holds (howned : TestcasesOwned s) (hnew : form.id ∉ s.problems.map (·.id))
    (hresume : CreateProblem.resume s.categories env.bundle s.creation form.toRequest =
      (c, .created id tags count))
    (hdistinct : Distinct env.bundle 0 (2 * form.files.length)) :
    ∃ zip, form.zip = some zip ∧ form.files ≠ [] ∧
      List.Forall₂ (fun file tc => Holds zip c.bucket file (unnumbered tc)) form.files
        ((s.created form tags c).testcases.filter (·.problem_id = form.id)) := by
  obtain ⟨v, testcases, hv, hupload, htestcases⟩ := resume_uploads hresume
  obtain ⟨hzip, hfiles, hne⟩ := files_of_validate hv
  have hholds := upload_holds hupload (by rwa [Nat.mul_zero, Nat.zero_add, ← hfiles])
  have hold : s.testcases.filter (·.problem_id = form.id) = [] := by
    refine List.filter_eq_nil_iff.mpr fun tc htc => ?_
    rw [decide_eq_true_eq]
    intro hid
    exact hnew (hid ▸ howned tc htc)
  have hadded : (numbered s.testcase_serial testcases).filter (·.problem_id = form.id) =
      numbered s.testcase_serial testcases := by
    refine List.filter_eq_self.mpr fun tc htc => ?_
    rw [decide_eq_true_eq]
    exact (upload_stored hupload _ (unnumbered_mem htc)).problem
  refine ⟨v.zip, hzip, hne, ?_⟩
  rw [htestcases, List.filter_append, hold, hadded, List.nil_append, hfiles,
    ← List.forall₂_map_right_iff, map_numbered]
  exact hholds

theorem created_problem (hnew : form.id ∉ s.problems.map (·.id)) :
    (s.created form tags c).problemById form.id = some (form.problem tags) := by
  have hnone : s.problems.find? (fun p => decide (p.id = form.id)) = none := by
    refine List.find?_eq_none.mpr fun p hp => ?_
    rw [decide_eq_true_eq]
    exact fun hid => hnew (List.mem_map.mpr ⟨p, hp, hid⟩)
  show (s.problems ++ [form.problem tags]).find? _ = _
  rw [List.find?_append, hnone, Option.none_or]
  exact List.find?_cons_of_pos (decide_eq_true rfl)

variable {judging : Judge.JudgeWorker.Environment}

theorem decodes_iff {path key : Str} {data : List Byte}
    (hread : form.zip.bind (·.read path) = some data) (hfile : judging.testcaseFile key = data) :
    form.decodes path = true ↔ judging.Decodes key := by
  rw [ProblemForm.decodes, hread, Option.bind_some, Option.isSome_iff_exists]
  simp only [Judge.JudgeWorker.Environment.Decodes, Judge.JudgeWorker.decoded_eq_ok_iff, hfile]

/-- The files of the bundle are text if their objects are. -/
theorem decodes_of_holds {zip : CreateProblem.ZipFile} {file : Str × Str} {tc : TestCase}
    {stored : Bucket (List Byte)} (hzip : form.zip = some zip)
    (hholds : Holds zip stored file (unnumbered tc))
    (hreads : ∀ key ∈ [tc.input_key, tc.output_key], ∀ data,
      stored.getObject key = some data → judging.testcaseFile key = data) :
    (form.decodes file.1 = true ∧ form.decodes file.2 = true) ↔
      judging.Decodes tc.input_key ∧ judging.Decodes tc.output_key := by
  have hread (path : Str) : form.zip.bind (·.read path) = zip.read path := by rw [hzip]; rfl
  obtain ⟨input, hinput, hinput'⟩ := hholds.input
  obtain ⟨output, houtput, houtput'⟩ := hholds.output
  have hfirst : judging.testcaseFile tc.input_key = input :=
    hreads _ List.mem_cons_self _ hinput'
  have hsecond : judging.testcaseFile tc.output_key = output :=
    hreads _ (List.mem_cons_of_mem _ List.mem_cons_self) _ houtput'
  rw [decodes_iff ((hread file.1).trans hinput) hfirst,
    decodes_iff ((hread file.2).trans houtput) hsecond]

end

theorem judgeable_iff {form : ProblemForm} (hne : form.files ≠ []) :
    form.Judgeable ↔ ∀ file ∈ form.files, 0 < form.memory_limit_mb ∧
      form.decodes file.1 = true ∧ form.decodes file.2 = true := by
  constructor
  · rintro ⟨hpos, hdecodes⟩ file hfile
    exact ⟨hpos, hdecodes file hfile⟩
  · intro hall
    obtain ⟨file, hfile⟩ := List.exists_mem_of_ne_nil _ hne
    exact ⟨(hall file hfile).1, fun file hfile => (hall file hfile).2⟩

/-- What the judge needs of the rows and objects of the problem. -/
theorem Judges.solvable_iff {judging : Judge.JudgeWorker.Environment} {problem_id : Str}
    {submission : Submission} {problem : Problem} (h : Judges judging t problem_id submission)
    (hproblem : t.problemById problem_id = some problem) (config : Judge.JudgeWorker.Config) :
    Solvable config judging t.judgeDatabase submission.id ↔
      ∀ tc ∈ t.testcases.filter (·.problem_id = problem_id), 0 < problem.memory_limit_mb ∧
        judging.Decodes tc.input_key ∧ judging.Decodes tc.output_key := by
  have hs : t.judgeDatabase.submissions submission.id = some submission.toSubmission := by
    show (t.submissionById submission.id).map _ = _
    rw [h.row]
    rfl
  have hp : t.judgeDatabase.problems submission.problem_id = some problem.toProblem := by
    show (t.problemById submission.problem_id).map _ = _
    rw [h.problem, hproblem]
    rfl
  have hmem (tc : TestCase) : tc ∈ t.judgeDatabase.testcasesOf submission.problem_id ↔
      tc ∈ t.testcases.filter (·.problem_id = problem_id) := by
    rw [h.problem, Judge.JudgeWorker.Database.testcasesOf, List.mem_insertionSort]
    rfl
  rw [Judge.JudgeWorker.solvable_iff h.calm hs hp]
  simp only [hmem]

/-- **A problem that the API accepts can be solved** exactly if its memory limit is positive
and the files of its bundle are text. -/
theorem problem_solvable_iff {token : Option Token} {form : ProblemForm} {response : Response}
    {submission : Submission} {judging : Judge.JudgeWorker.Environment}
    (h : (system lib cfg).Reachable st)
    (hserve : serve lib cfg env (.createProblem token form) st.store = (.ok response, s))
    (hdistinct : Distinct env.bundle 0 (2 * form.files.length)) (hkeeps : Keeps s t form.id)
    (hjudges : Judges judging t form.id submission) (config : Judge.JudgeWorker.Config) :
    Solvable config judging t.judgeDatabase submission.id ↔ form.Judgeable := by
  have houtcome := (creationOutcome token form).of_eq hserve
  cases houtcome with
  | @created _ c id tags count hnew hresume =>
      obtain ⟨zip, hzip, hne, hholds⟩ :=
        created_holds (testcasesOwned_of_reachable h) hnew hresume hdistinct
      have hproblem : t.problemById form.id = some (form.problem tags) :=
        hkeeps.problem.trans (created_problem hnew)
      rw [hjudges.solvable_iff hproblem config, judgeable_iff hne, hkeeps.testcases]
      refine (forall_mem_iff_of_forall₂ hholds fun file tc htc hfile => ?_).symm
      obtain ⟨htc, hid⟩ := List.mem_filter.mp htc
      have hreads : ∀ key ∈ [tc.input_key, tc.output_key], ∀ data,
          c.bucket.getObject key = some data → judging.testcaseFile key = data := by
        intro key hkey data hstored
        apply hjudges.reads
        rw [hkeeps.files tc htc (of_decide_eq_true hid) key hkey]
        exact hstored
      rw [decodes_of_holds hzip hfile hreads]
      rfl

/-! ## A submission to a new problem -/

/-- A submission leaves problems and testcases alone. -/
theorem keeps_of_submission {token : Option Token} {details : SubmissionCreate}
    (heffect : Effect lib env s (.createSubmission token details) t) (problem_id : Str) :
    Keeps s t problem_id := by
  cases heffect with
  | unchanged => exact ⟨rfl, rfl, fun _ _ _ _ _ => rfl⟩
  | submission hauth houtcome =>
      cases houtcome <;> exact ⟨rfl, rfl, fun _ _ _ _ _ => rfl⟩

def creation (form : ProblemForm) (s : Store) : Except Error Response × Store :=
  serve plain halfHour (quiet 6 CreateProblem.zeros) (.createProblem (some annToken) form) s

def withSubmission (form : ProblemForm) (s : Store) : Store :=
  (serve plain halfHour (quiet 7 CreateProblem.zeros)
    (.createSubmission (some annToken) ⟨form.id, "print(3)".toList, .PYTHON⟩)
    (creation form s).2).2

theorem keeps_withSubmission (form : ProblemForm) (s : Store) :
    Keeps (creation form s).2 (withSubmission form s) form.id := by
  unfold withSubmission
  generalize (creation form s).2 = s'
  generalize hrequest : Request.createSubmission (some annToken) _ = request
  have heffect := @serve_effect plain halfHour (quiet 7 CreateProblem.zeros) s' request
  unfold Handler.Ends at heffect
  subst hrequest
  exact keeps_of_submission heffect form.id

def undisturbed (s : Store) : Judge.JudgeWorker.Environment :=
  { Judge.JudgeWorker.leaving (Judge.JudgeWorker.printing []) with
    testcaseFile := fun key => (s.testcaseFiles.getObject key).getD [] }

theorem judges_undisturbed {problem_id : Str} {submission : Submission}
    (hrow : s.submissionById submission.id = some submission)
    (hproblem : submission.problem_id = problem_id) :
    Judges (undisturbed s) s problem_id submission where
  row := hrow
  problem := hproblem
  calm := ⟨fun _ => rfl, rfl, by cases submission.language <;> rfl⟩
  reads := by
    intro key data hdata
    show (s.testcaseFiles.getObject key).getD [] = data
    rw [hdata]
    rfl

/-- The problem is accepted in a state in which a submission to it is accepted. -/
structure Submits (form : ProblemForm) (st : State) : Prop where
  created : (creation form st.store).1.isOk = true
  submitted : ((withSubmission form st.store).submissionById 1).any
    (·.problem_id == form.id) = true

theorem Submits.exists_judges {form : ProblemForm} (h : Submits form st) :
    ∃ response s submission, creation form st.store = (.ok response, s) ∧
      Keeps s (withSubmission form st.store) form.id ∧
      Judges (undisturbed (withSubmission form st.store)) (withSubmission form st.store) form.id
        submission := by
  obtain ⟨submission, hfound, hproblem⟩ := (Option.any_eq_true _ _).mp h.submitted
  have hid : submission.id = 1 := by simpa using List.find?_some hfound
  obtain ⟨response, hresponse⟩ : ∃ response, (creation form st.store).1 = .ok response := by
    have hcreated := h.created
    cases hresult : (creation form st.store).1 with
    | ok response => exact ⟨response, rfl⟩
    | error e =>
        rw [hresult] at hcreated
        cases hcreated
  refine ⟨response, (creation form st.store).2, submission, Prod.ext hresponse rfl, ?_, ?_⟩
  · exact keeps_withSubmission form st.store
  · exact judges_undisturbed (hid ▸ hfound) (beq_iff_eq.mp hproblem)

def binaryForm : ProblemForm :=
  { sumForm ['p'] true with
    zip := some ⟨[("t/inputs/1".toList, some [0xFF]), ("t/outputs/1".toList, some [50])]⟩ }

theorem distinct_calm : Distinct CreateProblem.calm 0 2 := by
  intro i j hi hij hj
  obtain ⟨rfl, rfl⟩ : i = 0 ∧ j = 1 := by omega
  intro h
  exact absurd (congrArg Uuid.hex h) (by decide)

theorem not_problem_solvable :
    ¬ ∀ lib cfg env st s t token form response submission judging config,
      (system lib cfg).Reachable st →
      serve lib cfg env (.createProblem token form) st.store = (.ok response, s) →
      Distinct env.bundle 0 (2 * form.files.length) → Keeps s t form.id →
      Judges judging t form.id submission →
      Solvable config judging t.judgeDatabase submission.id := by
  intro hall
  obtain ⟨st, hpath, hsubmits, hbinary⟩ := System.exists_path (system plain halfHour)
    (fun _ _ => True) start (submissionRun.take 3)
    (fun st => ((creation binaryForm st.store).1.isOk = true ∧
      ((withSubmission binaryForm st.store).submissionById 1).any
        (·.problem_id == ['p']) = true) ∧
      ((withSubmission binaryForm st.store).problemById ['p']).isSome = true ∧
      ((withSubmission binaryForm st.store).testcases.filter (·.problem_id = ['p'])).any (fun tc =>
        (Utf8.decode ((undisturbed (withSubmission binaryForm st.store)).testcaseFile
          tc.input_key)).isNone) = true) (by decide +kernel)
  obtain ⟨response, s, submission, hcreation, hkeeps, hjudges⟩ :=
    (show Submits binaryForm st from ⟨hsubmits.1, hsubmits.2⟩).exists_judges
  have hsolvable := hall plain halfHour _ st s _ _ binaryForm response submission _
    Judge.JudgeWorker.anyConfig ⟨_, rfl, hpath⟩ hcreation distinct_calm hkeeps hjudges
  generalize withSubmission binaryForm st.store = t at *
  obtain ⟨problem, hproblem⟩ := Option.isSome_iff_exists.mp hbinary.1
  obtain ⟨tc, htc, hfails⟩ := List.any_eq_true.mp hbinary.2
  obtain ⟨-, ⟨text, htext⟩, -⟩ := (hjudges.solvable_iff hproblem _).mp hsolvable tc htc
  have hdecode := Judge.JudgeWorker.decoded_eq_ok_iff.mp htext
  rw [Option.isNone_iff_eq_none.mp hfails] at hdecode
  cases hdecode

theorem problem_solvable_sum :
    ∃ st response s, ∃ submission : Submission, (system plain halfHour).Reachable st ∧
      creation (sumForm ['p'] true) st.store = (.ok response, s) ∧
      Solvable Judge.JudgeWorker.anyConfig
        (undisturbed (withSubmission (sumForm ['p'] true) st.store))
        (withSubmission (sumForm ['p'] true) st.store).judgeDatabase submission.id := by
  obtain ⟨st, hpath, hcreated, hsubmitted⟩ := System.exists_path (system plain halfHour)
    (fun _ _ => True) start (submissionRun.take 3)
    (fun st => (creation (sumForm ['p'] true) st.store).1.isOk = true ∧
      ((withSubmission (sumForm ['p'] true) st.store).submissionById 1).any
        (·.problem_id == ['p']) = true) (by decide +kernel)
  obtain ⟨response, s, submission, hcreation, hkeeps, hjudges⟩ :=
    (show Submits (sumForm ['p'] true) st from ⟨hcreated, hsubmitted⟩).exists_judges
  have hreach : (system plain halfHour).Reachable st := ⟨_, rfl, hpath⟩
  refine ⟨st, response, s, submission, hreach, hcreation, ?_⟩
  exact (problem_solvable_iff hreach hcreation distinct_calm hkeeps hjudges _).mpr (by decide)

end ByteBattles.Api
