import ByteBattles.Api.CodeRoundTrip
import ByteBattles.Api.ProblemRoundTrip

/-!
# What the stores hold for a worker

A problem was created, and a submission to it committed.  As long as the folder of the
problem is left alone and no uuid is drawn twice, every read that a worker makes for the
submission is answered with the form, the bundle and the code, whenever it is made.
-/

namespace ByteBattles.Api

open ByteBattles.Lib

open CreateProblem (Distinct Holds ZipFile)

variable {lib : Libraries} {cfg : Config}

/-- What the stores hold for the submission with the id: its row, if there is one, with the
key of the code; the code, if it is there; the limits, and testcases with the files of the
bundle. -/
structure Offers (zip : ZipFile) (form : ProblemForm) (details : SubmissionCreate) (id : Int)
    (key : Str) (testcases : List TestCase) (s : Store) : Prop where
  row : ∀ r ∈ s.submissions, r.id = id →
    r.problem_id = form.id ∧ r.language = details.language ∧ r.code_object_key = key
  code : ∀ data, s.submissionFiles.getObject key = some data → data = Utf8.encode details.code
  limits : s.judgeDatabase.problems form.id = some ⟨form.time_limit_sec, form.memory_limit_mb⟩
  ordered : s.judgeDatabase.testcasesOf form.id = testcases
  held : List.Forall₂ (fun file tc => Holds zip s.testcaseFiles file (unnumbered tc))
    form.files testcases

section

variable {s s₁ s₂ s₃ st : State} {env env' : Environment} {token token' : Option Token}
  {form : ProblemForm} {details : SubmissionCreate} {created : ProblemCreateResponse}

/-- **What a worker is given stays**: every later store that has the row offers the form, the
bundle and the code. -/
theorem offers_of_path (h : (system lib cfg).Reachable s)
    (hcreate : step lib cfg s (.request env (.createProblem token form)) = some s₁)
    (hok : (serve lib cfg env (.createProblem token form) s.store).1 =
      .ok (.problemCreated created))
    (hdistinct : Distinct env.bundle 0 (2 * form.files.length))
    (hbetween : (system lib cfg).PathUnder (fun _ a => Spares form.id a) s₁ s₂)
    (hsubmit : step lib cfg s₂ (.request env' (.createSubmission token' details)) = some s₃)
    (hproblem : details.problem_id = form.id)
    (hrow : ∃ r ∈ s₃.store.submissions, r.id = s₂.store.submission_serial)
    (hafter : (system lib cfg).PathUnder (fun st a => Spares form.id a ∧ FreshUuid st a) s₃ st)
    (hstays : ∃ r ∈ st.store.submissions, r.id = s₂.store.submission_serial) :
    ∃ zip, form.zip = some zip ∧
      Offers zip form details s₂.store.submission_serial (submissionKey env' details)
        (s₁.store.judgeDatabase.testcasesOf form.id) st.store := by
  have hpath : (system lib cfg).PathUnder (fun _ a => Spares form.id a) s₁ st :=
    (hbetween.tail ⟨.request env' (.createSubmission token' details), trivial, hsubmit⟩).trans
      (hafter.mono fun _ _ hok => hok.1)
  have hreach₂ : (system lib cfg).Reachable s₂ := by
    obtain ⟨s₀, h₀, hprefix⟩ := reachable_step h hcreate
    exact ⟨s₀, h₀, hprefix.trans (hbetween.mono fun _ _ _ => trivial)⟩
  obtain ⟨hnew, hserial, hstored⟩ :=
    committed_of_step (consistent_of_reachable hreach₂) hsubmit hrow
  have hlt : s₂.store.submission_serial < s₃.store.submission_serial := by omega
  have hrows : ∀ r ∈ st.store.submissions, r.id = s₂.store.submission_serial →
      r.problem_id = form.id ∧ r.language = details.language ∧
        r.code_object_key = submissionKey env' details := by
    intro r hr hid
    obtain ⟨r₀, hr₀, hsame, hkept⟩ :=
      (evolves_of_path hafter).submissions.old r hr (hid ▸ hlt)
    obtain ⟨user, rfl⟩ := hnew r₀ hr₀ (hsame.trans hid)
    exact ⟨hkept.problem_id.trans hproblem, hkept.language, hkept.code_object_key⟩
  have hcode : CodeIs s₂.store.submission_serial (Utf8.encode details.code) st.store := by
    apply codeIs_of_path (reachable_step hreach₂ hsubmit) hlt _ (hafter.mono fun _ _ hok => hok.2)
    intro r hr hid data hdata
    exact Option.some.inj (hdata.symm.trans (hstored r hr hid))
  have hfound := (keeps_created_of_path h hcreate hok hpath).2
  obtain ⟨zip, hzip, hsame, hheld⟩ := held_of_path h hcreate hok hdistinct hpath
  refine ⟨zip, hzip, hrows, ?_, ?_, hsame, hsame ▸ hheld⟩
  · intro data hdata
    obtain ⟨r, hr, hid⟩ := hstays
    rw [← (hrows r hr hid).2.2] at hdata
    exact hcode r hr hid data hdata
  · show (st.store.problemById form.id).map _ = _
    rw [hfound]
    rfl

end

end ByteBattles.Api
