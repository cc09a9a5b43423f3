import ByteBattles.Judge.JudgeWorker.Inputs
import ByteBattles.Lib.Prefixes

/-!
# What a result rests on

Before a worker commits a result, every call that the result was computed from has been
made and has returned: the queries, the code, and for each testcase that was run its two
files and the bytes that were sent.
-/

namespace ByteBattles.Judge.JudgeWorker

open ByteBattles.Lib

/-! ## Runs that return -/

/-- If the part returns, none of its calls has raised. -/
abbrev Undisturbed {α : Type} (env : Environment) (m : Run α) : Prop :=
  m.Yields fun calls _ => ∀ c ∈ calls, env.raises c.step = none

section

variable {α β : Type} {cfg : Config} {env : Environment}

theorem undisturbed_pure (a : α) : Undisturbed env (pure a : Run α) :=
  Traced.yields_pure fun c hc => by cases hc

theorem undisturbed_ofExcept (r : Except Exc α) : Undisturbed env (Traced.ofExcept r) :=
  Traced.yields_ofExcept fun _ _ c hc => by cases hc

theorem undisturbed_call (c : Call) : Undisturbed env (env.call c) := by
  intro _ hreturns c' hc'
  rw [Environment.calls_call] at hc'
  rw [List.mem_singleton.mp hc', ← Environment.raised_call]
  exact Traced.raised_of_ok hreturns

theorem Undisturbed.bind {m : Run α} {f : α → Run β} (hm : Undisturbed env m)
    (hf : ∀ a, Undisturbed env (f a)) : Undisturbed env (m >>= f) := by
  refine Traced.Yields.bind hm fun calls a hcalls => ?_
  intro b hb c hc
  exact (List.mem_append.mp hc).elim (hcalls c) (hf a b hb c)

theorem Undisturbed.catching {m : Run α} {handler : Exc → Run α} (hm : Undisturbed env m)
    (hh : ∀ e, (handler e).Returns fun _ => False) : Undisturbed env (m.catching handler) := by
  intro a ha
  cases hresult : m.result with
  | ok b =>
      rw [Traced.catching_ok handler hresult] at ha ⊢
      exact hm a ha
  | error e =>
      rw [Traced.catching_error handler hresult] at ha
      exact (hh e a ha).elim

theorem Undisturbed.ensuring {m : Run α} {cleanup : Run Unit} (hm : Undisturbed env m)
    (hcleanup : Undisturbed env cleanup) : Undisturbed env (m.ensuring cleanup) := by
  intro a ha c hc
  cases hresult : cleanup.result with
  | ok _ =>
      simp only [Traced.ensuring, hresult] at ha
      exact (List.mem_append.mp hc).elim (hm a ha c) (hcleanup () hresult c)
  | error e =>
      simp only [Traced.ensuring, hresult] at ha
      cases ha

theorem never_rollbackAndRaise (db : Session) (e : Exc) :
    (rollbackAndRaise env db e : Run α).Returns fun _ => False := by
  unfold rollbackAndRaise
  split
  · exact Traced.returns_bind fun _ => Traced.returns_raise
  · exact Traced.returns_raise

theorem never_lookupFailed (container_id : Str) (e : Exc) :
    (lookupFailed container_id e : Run α).Returns fun _ => False := by
  unfold lookupFailed
  split <;> exact Traced.returns_raise

theorem undisturbed_session {db : Session} {body : Run α}
    {update : α → Option (Int × SubmissionResult)} (hbody : Undisturbed env body) :
    Undisturbed env (session env db body update) := by
  refine Undisturbed.ensuring (Undisturbed.catching (hbody.bind fun a => ?_) fun e =>
    never_rollbackAndRaise db e) (undisturbed_call _)
  exact (undisturbed_call _).bind fun _ => undisturbed_pure a

theorem undisturbed_getContainer {container_id : Str} {body : Run α}
    (hbody : Undisturbed env body) : Undisturbed env (getContainer env container_id body) := by
  apply Undisturbed.bind
  · exact (undisturbed_call _).catching (never_lookupFailed container_id)
  · exact fun _ => hbody.ensuring (undisturbed_call _)

theorem undisturbed_readJob (db : Database) (submission_id : Int) :
    Undisturbed env (readJob env db submission_id) := by
  have hsubmission : Undisturbed env (getSubmission env db submission_id) := by
    apply (undisturbed_call _).bind
    intro _
    cases db.submissions submission_id with
    | none => exact undisturbed_ofExcept _
    | some submission => exact undisturbed_pure submission
  have hlimits (problem_id : Str) : Undisturbed env (getTimeMemLimit env db problem_id) := by
    apply (undisturbed_call _).bind
    intro _
    cases db.problems problem_id with
    | none => exact undisturbed_ofExcept _
    | some problem => exact undisturbed_pure problem.limits
  refine hsubmission.bind fun submission => Undisturbed.bind ?_ fun testcases =>
    (hlimits submission.problem_id).bind fun limits => undisturbed_pure _
  exact (undisturbed_call _).bind fun _ => undisturbed_pure _

theorem undisturbed_compile (container : Str) (language : Language) (result : SubmissionResult) :
    Undisturbed env (compile cfg env container language result) := by
  have hcompiled (line : Str) :
      Undisturbed env (do return result.compiled (← compileWith cfg env container line)) := by
    apply Undisturbed.bind
    · exact (undisturbed_call _).bind fun _ => undisturbed_ofExcept _
    · exact fun r => undisturbed_pure _
  cases language with
  | PYTHON => exact undisturbed_pure result
  | C => exact hcompiled _
  | CPP => exact hcompiled _

theorem undisturbed_runTestcase (sandbox : Sandbox) (idx : Nat) (testcase : TestCase) :
    Undisturbed env (runTestcase env sandbox idx testcase) := by
  unfold runTestcase runProgram
  refine (undisturbed_call _).bind fun _ => (undisturbed_ofExcept _).bind fun _ => ?_
  refine (undisturbed_call _).bind fun _ => (undisturbed_ofExcept _).bind fun _ => ?_
  iterate 6 refine (undisturbed_call _).bind fun _ => ?_
  exact undisturbed_ofExcept _

theorem undisturbed_judgeTestcases (sandbox : Sandbox) (idx : Nat)
    (max_runtime_ms max_memory_used_kb : Int) (testcases : List TestCase) :
    Undisturbed env
      (judgeTestcases env sandbox idx max_runtime_ms max_memory_used_kb testcases) := by
  induction testcases generalizing idx max_runtime_ms max_memory_used_kb with
  | nil => exact undisturbed_pure _
  | cons testcase testcases ih =>
      apply (undisturbed_runTestcase sandbox idx testcase).bind
      intro run_result
      dsimp only
      split
      · exact ih _ _ _
      · exact undisturbed_pure _

theorem undisturbed_judge (submission_id : Int) (job : Job) (container : Str) :
    Undisturbed env (judge cfg env submission_id job container) := by
  unfold judge
  refine (undisturbed_call _).bind fun _ => (undisturbed_call _).bind fun _ => ?_
  apply (undisturbed_compile container _ _).bind
  intro result
  split
  · exact (undisturbed_judgeTestcases _ _ _ _ _).bind fun _ => undisturbed_ofExcept _
  · exact undisturbed_pure result

theorem undisturbed_judgeSubmission (db : Database) (submission_id : Int) :
    Undisturbed env (judgeSubmission cfg env db submission_id) := by
  apply (undisturbed_session (undisturbed_readJob db submission_id)).bind
  intro job
  apply (undisturbed_call _).bind
  intro _
  cases env.sandbox with
  | none => exact undisturbed_ofExcept _
  | some container_id =>
      apply (undisturbed_call _).bind
      intro _
      exact undisturbed_getContainer (undisturbed_judge submission_id job container_id)

end

/-! ## What was read and sent -/

/-- For the run with the number, the two files of the testcase with that number were read,
and the bytes of the first were sent. -/
def Fed (env : Environment) (first : Nat) (testcases : List TestCase) (calls : List Call)
    (idx : Nat) : Prop :=
  ∃ testcase, numberedFrom first testcases idx = some testcase ∧
    .readTestcaseInput idx testcase.input_key ∈ calls ∧
    .readTestcaseOutput idx testcase.output_key ∈ calls ∧
    .sendall idx (env.testcaseFile testcase.input_key) ∈ calls

def AllFed (env : Environment) (first : Nat) (testcases : List TestCase) (calls : List Call) :
    Prop :=
  ∀ idx, .execStart idx ∈ calls → Fed env first testcases calls idx

section

variable {cfg : Config} {env : Environment} {first idx : Nat} {testcase : TestCase}
  {testcases : List TestCase} {calls calls' : List Call}

theorem Fed.mono (h : Fed env first testcases calls idx) (hsubset : calls ⊆ calls') :
    Fed env first testcases calls' idx := by
  obtain ⟨testcase, hnumber, hinput, houtput, hsent⟩ := h
  exact ⟨testcase, hnumber, hsubset hinput, hsubset houtput, hsubset hsent⟩

theorem Fed.cons (h : Fed env (first + 1) testcases calls idx) :
    Fed env first (testcase :: testcases) calls idx := by
  obtain ⟨tc, hnumber, hrest⟩ := h
  exact ⟨tc, numberedFrom_cons hnumber, hrest⟩

/-- Calls that start no program may come before and after. -/
theorem AllFed.extend (h : AllFed env first testcases calls) {before after : List Call}
    (hbefore : ∀ c ∈ before, c.executed = none) (hafter : ∀ c ∈ after, c.executed = none) :
    AllFed env first testcases (before ++ calls ++ after) := by
  intro idx hidx
  have hmem : .execStart idx ∈ calls := by
    simp only [List.mem_append] at hidx
    apply hidx.elim
    · intro hidx
      apply hidx.elim
      · intro hidx
        cases hbefore _ hidx
      · exact id
    · intro hidx
      cases hafter _ hidx
  apply (h idx hmem).mono
  intro c hc
  exact List.mem_append_left _ (List.mem_append_right _ hc)

theorem mem_executed : idx ∈ executed calls ↔ .execStart idx ∈ calls := by
  unfold executed
  rw [List.mem_filterMap]
  constructor
  · intro h
    obtain ⟨c, hc, hidx⟩ := h
    cases c with
    | execStart n => exact Option.some.inj hidx ▸ hc
    | _ => cases hidx
  · intro h
    exact ⟨_, h, rfl⟩

theorem runTestcase_fed {sandbox : Sandbox} :
    (runTestcase env sandbox first testcase).Yields fun calls _ =>
      AllFed env first (testcase :: testcases) calls := by
  unfold runTestcase
  refine Traced.yields_call_bind (Traced.yields_ofExcept_bind fun input_data hinput => ?_)
  refine Traced.yields_call_bind (Traced.yields_ofExcept_bind fun expected_output _ => ?_)
  have hbytes : Utf8.encode input_data = env.testcaseFile testcase.input_key :=
    Utf8.encode_of_decode (decoded_eq_ok_iff.mp hinput)
  unfold runProgram
  iterate 6 refine Traced.yields_call_bind ?_
  refine Traced.yields_ofExcept fun run _ idx hidx => ?_
  have hnumber : idx = first := by simpa using hidx
  rw [hnumber]
  exact ⟨testcase, numberedFrom_cons_self, by simp, by simp, by simp [hbytes]⟩

theorem judgeTestcases_fed {sandbox : Sandbox} (max_runtime_ms max_memory_used_kb : Int) :
    (judgeTestcases env sandbox first max_runtime_ms max_memory_used_kb testcases).Yields
      fun calls _ => AllFed env first testcases calls := by
  induction testcases generalizing first max_runtime_ms max_memory_used_kb with
  | nil => exact Traced.yields_pure fun idx hidx => by cases hidx
  | cons testcase testcases ih =>
      refine Traced.Yields.bind (@runTestcase_fed _ _ _ testcases _) fun calls run hcalls => ?_
      dsimp only
      split
      · intro j hj idx hidx
        apply (List.mem_append.mp hidx).elim
        · intro hmem
          exact (hcalls idx hmem).mono (List.subset_append_left _ _)
        · intro hmem
          have hrest := @Fed.cons _ _ _ testcase _ _ (ih _ _ j hj idx hmem)
          exact hrest.mono (List.subset_append_right _ _)
      · apply Traced.yields_pure
        rw [List.append_nil]
        exact hcalls

structure Feeds (cfg : Config) (env : Environment) (job : Job) (container : Str)
    (calls : List Call) : Prop where
  code : .readSubmissionCode job.submission.code_object_key ∈ calls
  archive : .putArchive container cfg.WORKSPACE_DIR
    [((FILENAME job.submission.language).toList,
      env.submissionFile job.submission.code_object_key)] ∈ calls
  fed : AllFed env 1 job.testcases calls

theorem Feeds.extend {job : Job} {container : Str} (h : Feeds cfg env job container calls)
    {before after : List Call} (hbefore : ∀ c ∈ before, c.executed = none)
    (hafter : ∀ c ∈ after, c.executed = none) :
    Feeds cfg env job container (before ++ calls ++ after) where
  code := List.mem_append_left _ (List.mem_append_right _ h.code)
  archive := List.mem_append_left _ (List.mem_append_right _ h.archive)
  fed := h.fed.extend hbefore hafter

theorem judge_feeds (submission_id : Int) (job : Job) (container : Str) :
    (judge cfg env submission_id job container).Yields fun calls _ =>
      Feeds cfg env job container calls := by
  have hfeeds (calls : List Call) (h : AllFed env 1 job.testcases calls) :
      Feeds cfg env job container
        (.readSubmissionCode job.submission.code_object_key ::
          .putArchive container cfg.WORKSPACE_DIR
            [((FILENAME job.submission.language).toList,
              env.submissionFile job.submission.code_object_key)] :: calls) := by
    refine ⟨List.mem_cons_self, List.mem_cons_of_mem _ List.mem_cons_self, ?_⟩
    have hbefore : ∀ c ∈ [Call.readSubmissionCode job.submission.code_object_key,
        .putArchive container cfg.WORKSPACE_DIR
          [((FILENAME job.submission.language).toList,
            env.submissionFile job.submission.code_object_key)]], c.executed = none := by
      intro c hc
      simp only [List.mem_cons, List.not_mem_nil, or_false] at hc
      apply hc.elim <;> intro hc <;> rw [hc] <;> rfl
    have hall := @AllFed.extend _ _ _ _ h _ [] hbefore (fun c hc => by cases hc)
    rwa [List.append_nil] at hall
  unfold judge copyCodeToContainer
  refine Traced.yields_call_bind (Traced.yields_call_bind ?_)
  have hcompile : NoneExecuted (compile cfg env container job.submission.language
      { submission_id := submission_id, verdict := .PENDING }) := makes_compile fun _ => rfl
  have hreturns : (compile cfg env container job.submission.language
      { submission_id := submission_id, verdict := .PENDING }).Returns fun _ => True :=
    fun _ _ => trivial
  refine Traced.Yields.bind (hcompile.yields hreturns) fun calls result hcalls => ?_
  split
  · refine Traced.Yields.bind (judgeTestcases_fed 0 0) fun calls' judged hfed => ?_
    refine Traced.yields_ofExcept fun result _ => hfeeds _ ?_
    have hall := @AllFed.extend _ _ _ _ hfed _ [] hcalls.1 fun c hc => by cases hc
    simpa using hall
  · refine Traced.yields_pure (hfeeds _ ?_)
    intro idx hidx
    rw [List.append_nil] at hidx
    cases hcalls.1 _ hidx

/-- A session that returns has made the calls of its body, and two more. -/
theorem session_yields {α : Type} {db : Session} {body : Run α}
    {update : α → Option (Int × SubmissionResult)} {Q : List Call → α → Prop}
    (hbody : body.Yields Q) : (session env db body update).Yields fun calls a =>
      ∃ inner, calls = inner ++ [.commit db (update a), .close db] ∧ Q inner a := by
  refine Traced.Yields.ensuring fun a ha => ?_
  have hnever : ((do
      let a ← body
      env.call (.commit db (update a))
      return a : Run α).catching (rollbackAndRaise env db)).Yields fun calls a =>
        ∃ inner, calls = inner ++ [.commit db (update a)] ∧ Q inner a := by
    intro a ha
    cases hresult : (do
        let a ← body
        env.call (.commit db (update a))
        return a : Run α).result with
    | ok b =>
        rw [Traced.catching_ok _ hresult] at ha ⊢
        have htry : (do
            let a ← body
            env.call (.commit db (update a))
            return a : Run α).Yields fun calls a =>
              ∃ inner, calls = inner ++ [.commit db (update a)] ∧ Q inner a := by
          refine Traced.Yields.bind hbody fun inner a hinner => ?_
          exact Traced.yields_call_bind (Traced.yields_pure ⟨inner, rfl, hinner⟩)
        exact htry a ha
    | error e =>
        rw [Traced.catching_error _ hresult] at ha
        exact (never_rollbackAndRaise db e a ha).elim
  obtain ⟨inner, hcalls, hinner⟩ := hnever a ha
  refine ⟨inner, ?_, hinner⟩
  rw [hcalls, List.append_assoc]
  rfl

theorem readJob_yields (db : Database) (submission_id : Int) :
    (readJob env db submission_id).Yields fun calls job =>
      (∀ table, .query .submission table ∈ calls) ∧ ∃ submission problem,
        db.submissions submission_id = some submission ∧
          db.problems submission.problem_id = some problem ∧ job = db.job submission problem := by
  intro job hjob
  refine ⟨?_, returns_readJob_iff job hjob⟩
  have hqueries : (readJob env db submission_id).Yields fun calls _ =>
      calls = [.query .submission .submissions, .query .submission .testcases,
        .query .submission .problems] := by
    have hsubmission : (getSubmission env db submission_id).Yields fun calls _ =>
        calls = [.query .submission .submissions] := by
      apply Traced.yields_call_bind
      cases db.submissions submission_id with
      | none => exact fun _ h => by cases h
      | some submission => exact Traced.yields_pure rfl
    have htestcases (problem_id : Str) : (getTestcases env db problem_id).Yields fun calls _ =>
        calls = [.query .submission .testcases] := Traced.yields_call_bind (Traced.yields_pure rfl)
    have hlimits (problem_id : Str) : (getTimeMemLimit env db problem_id).Yields fun calls _ =>
        calls = [.query .submission .problems] := by
      apply Traced.yields_call_bind
      cases db.problems problem_id with
      | none => exact fun _ h => by cases h
      | some problem => exact Traced.yields_pure rfl
    refine hsubmission.bind fun calls submission hcalls => ?_
    refine (htestcases _).bind fun calls' testcases hcalls' => ?_
    refine (hlimits _).bind fun calls'' limits hcalls'' => Traced.yields_pure ?_
    rw [hcalls, hcalls', hcalls'']
    rfl
  rw [hqueries job hjob]
  intro table
  cases table <;> simp

theorem getContainer_feeds (submission_id : Int) (job : Job) (container_id : Str) :
    (getContainer env container_id (judge cfg env submission_id job container_id)).Yields
      fun calls _ => Feeds cfg env job container_id calls := by
  have hlookup : NoneExecuted ((env.call (.getContainer container_id)).catching
      (lookupFailed container_id) : Run Unit) := by
    refine Traced.Makes.catching (makes_call rfl) fun e => ?_
    unfold lookupFailed
    split <;> exact Traced.makes_raise _
  have hreturns : ((env.call (.getContainer container_id)).catching
      (lookupFailed container_id) : Run Unit).Returns fun _ => True := fun _ _ => trivial
  refine Traced.Yields.bind (hlookup.yields hreturns) fun before _ hbefore => ?_
  refine Traced.Yields.ensuring fun result hresult => ?_
  have hfeeds := judge_feeds submission_id job container_id result hresult
  have hextended := hfeeds.extend hbefore.1 (fun c hc => List.mem_singleton.mp hc ▸ rfl :
    ∀ c ∈ [Call.stopContainer container_id], c.executed = none)
  rw [List.append_assoc] at hextended
  exact hextended

structure Evidence (cfg : Config) (env : Environment) (db : Database) (submission_id : Int)
    (calls : List Call) (submission : Submission) (problem : Problem) (container : Str)
    (result : SubmissionResult) : Prop where
  returned : ∀ c ∈ calls, env.raises c.step = none
  queries : ∀ table, .query .submission table ∈ calls
  submission_row : db.submissions submission_id = some submission
  problem_row : db.problems submission.problem_id = some problem
  feeds : Feeds cfg env (db.job submission problem) container calls
  explained : Explained env (db.job submission problem) (executed calls) result

theorem judgeSubmission_evidence (db : Database) (submission_id : Int) :
    (judgeSubmission cfg env db submission_id).Yields fun calls result =>
      ∃ submission problem container,
        Evidence cfg env db submission_id calls submission problem container result := by
  have hread : NoneExecuted (session env .submission (readJob env db submission_id)
      fun _ => none) := makes_session (makes_readJob fun _ => rfl) (fun _ _ => rfl) rfl rfl
  have hparts : (judgeSubmission cfg env db submission_id).Yields fun calls _ =>
      (∀ table, .query .submission table ∈ calls) ∧ ∃ submission problem container,
        db.submissions submission_id = some submission ∧
          db.problems submission.problem_id = some problem ∧
            Feeds cfg env (db.job submission problem) container calls := by
    refine Traced.Yields.bind ((session_yields (readJob_yields db submission_id)).and_makes hread)
      fun calls job hjob => ?_
    obtain ⟨⟨inner, rfl, hqueries, submission, problem, hs, hp, rfl⟩, hnone⟩ := hjob
    apply Traced.yields_call_bind
    cases env.sandbox with
    | none => exact fun _ h => by cases h
    | some container_id =>
        apply Traced.yields_call_bind
        intro result hresult
        have hfeeds := getContainer_feeds submission_id (db.job submission problem) container_id
          result hresult
        refine ⟨fun table => ?_, submission, problem, container_id, hs, hp, ?_⟩
        · exact List.mem_append_left _ (List.mem_append_left _ (hqueries table))
        · have hbefore : ∀ c ∈ (inner ++ [.commit .submission none, .close .submission]) ++
              [.acquireWarmSandbox submission.language cfg.ACQUIRE_TIMEOUT_SECONDS,
                .publishEvent submission_id submission.language], c.executed = none := by
            rw [List.forall_mem_append]
            refine ⟨hnone, fun c hc => ?_⟩
            simp only [List.mem_cons, List.not_mem_nil, or_false] at hc
            apply hc.elim <;> intro hc <;> rw [hc] <;> rfl
          have hextended := @Feeds.extend _ _ _ _ _ hfeeds _ [] hbefore fun c hc => by cases hc
          rw [List.append_nil, List.append_assoc] at hextended
          exact hextended
  intro result hresult
  obtain ⟨hqueries, submission, problem, container, hs, hp, hfeeds⟩ := hparts result hresult
  obtain ⟨submission', problem', hs', hp', hexplained⟩ := judgeSubmission_executes result hresult
  obtain rfl := Option.some.inj (hs.symm.trans hs')
  obtain rfl := Option.some.inj (hp.symm.trans hp')
  exact ⟨submission, problem, container,
    undisturbed_judgeSubmission db submission_id result hresult, hqueries, hs, hp, hfeeds,
    hexplained⟩

/-! ## Before the commit -/

def Call.commits : Call → Bool
  | .commit _ (some _) => true
  | _ => false

theorem not_commits_of_quiet {c : Call} (h : c.quiet = true) : c.commits = false := by
  cases c with
  | commit db update =>
      cases update with
      | none => rfl
      | some _ => cases h
  | _ => rfl

abbrev NoneCommitted {α : Type} (m : Run α) : Prop := m.Makes fun c => c.commits = false

theorem noneCommitted_call {c : Call} (h : c.commits = false) : NoneCommitted (env.call c) :=
  makes_call h

theorem noneCommitted_handle (local? : Option Int) (e : Exc) :
    NoneCommitted (handle env local? e) := by
  unfold handle
  split
  · exact Traced.makes_pure _
  · split
    · exact Traced.makes_pure _
    · cases local? with
      | none => exact Traced.makes_raise _
      | some submission_id =>
          refine (noneCommitted_call rfl).bind fun _ _ => (noneCommitted_call rfl).bind ?_
          exact fun _ _ => Traced.makes_pure _

theorem committed_of_update {db : Database} {submission_id : Int} {given result : SubmissionResult}
    {id : Int} {pre post : List Call}
    (h : (updateSubmissionResult env db submission_id given).calls =
      pre ++ .commit .result (some (id, result)) :: post) :
    id = submission_id ∧ result = given := by
  have hmakes : (updateSubmissionResult env db submission_id given).Makes fun c =>
      c.commits = true → c = .commit .result (some (submission_id, given)) := by
    refine makes_session ?_ (fun found _ => ?_) (fun h => by cases h) (fun h => by cases h)
    · exact (makes_call fun h => by cases h).bind fun _ _ => Traced.makes_pure _
    · intro hcommits
      cases found with
      | false => cases hcommits
      | true => rfl
  have hmem : Call.commit .result (some (id, result)) ∈
      (updateSubmissionResult env db submission_id given).calls := by
    rw [h]
    exact List.mem_append_right _ List.mem_cons_self
  have heq := hmakes _ hmem rfl
  simp only [Call.commit.injEq, Option.some.injEq, Prod.mk.injEq, true_and] at heq
  exact heq

/-- Before an iteration commits a result, it has judged the submission. -/
theorem judged_before_commit {db : Database} {previous : Option Int} {payload : Option Str}
    {id : Int} {result : SubmissionResult} {pre post : List Call}
    (h : (consume cfg env db previous payload).calls =
      pre ++ .commit .result (some (id, result)) :: post) :
    (judgeSubmission cfg env db id).result = .ok result ∧
      (judgeSubmission cfg env db id).calls ⊆ pre := by
  have hcommits : ¬ (Call.commit .result (some (id, result))).commits = false := by
    simp [Call.commits]
  obtain ⟨_, pre₁, -, rfl, htry⟩ := (noneCommitted_call rfl).split_bind hcommits h
  obtain ⟨post₁, htry⟩ := Traced.split_of_catching (noneCommitted_handle _) hcommits htry
  obtain ⟨_, pre₂, -, rfl, hpopped⟩ := (noneCommitted_call rfl).split_bind hcommits htry
  cases payload with
  | none =>
      have hnil : ([] : List Call) = pre₂ ++ .commit .result (some (id, result)) :: post₁ := hpopped
      simp at hnil
  | some payload =>
      have hint : NoneCommitted (Traced.ofExcept (intOf payload) : Run Int) :=
        Traced.makes_ofExcept _
      obtain ⟨submission_id, pre₃, -, rfl, hwork⟩ := hint.split_bind hcommits hpopped
      obtain ⟨_, pre₄, -, rfl, hprocess⟩ := (noneCommitted_call rfl).split_bind hcommits hwork
      have hdelete (result : SubmissionResult) : NoneCommitted (do
          env.call (.deleteSubmission submission_id)
          return Outcome.processed result : Run Outcome) :=
        (noneCommitted_call rfl).bind fun _ _ => Traced.makes_pure _
      obtain ⟨post₂, hprocess⟩ := Traced.split_of_bind hdelete hcommits hprocess
      have hjudge : NoneCommitted (judgeSubmission cfg env db submission_id) := fun c hc =>
        not_commits_of_quiet (quiet_judgeSubmission db submission_id c hc)
      obtain ⟨given, pre₅, hgiven, rfl, hupdate⟩ := hjudge.split_bind hcommits hprocess
      have hreturn (given : SubmissionResult) : NoneCommitted (pure given : Run SubmissionResult) :=
        Traced.makes_pure _
      obtain ⟨post₃, hupdate⟩ := Traced.split_of_bind (fun _ => hreturn given) hcommits hupdate
      obtain ⟨rfl, rfl⟩ := committed_of_update hupdate
      refine ⟨hgiven, fun c hc => ?_⟩
      simp [hc]

/-- **A result rests on calls that have returned**: before an iteration commits a result, it
has queried the rows, read the code and copied it, and for each testcase that was run read
its two files and sent the first; all of these calls have returned, and the result follows
from what they brought. -/
theorem evidence_of_commit {db : Database} {previous : Option Int} {payload : Option Str}
    {id : Int} {result : SubmissionResult} {pre post : List Call}
    (h : (consume cfg env db previous payload).calls =
      pre ++ .commit .result (some (id, result)) :: post) :
    ∃ calls ⊆ pre, ∃ submission problem container,
      Evidence cfg env db id calls submission problem container result := by
  obtain ⟨hresult, hsubset⟩ := judged_before_commit h
  exact ⟨_, hsubset, judgeSubmission_evidence db id result hresult⟩

end

end ByteBattles.Judge.JudgeWorker
