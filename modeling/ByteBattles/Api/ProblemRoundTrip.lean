import ByteBattles.Api.FolderIsolation
import ByteBattles.Api.Lifecycle
import ByteBattles.Api.Tags
import ByteBattles.Judge.JudgeWorker.Inputs

/-!
# Created problems

No route changes a problem.  Until it is deleted, or a problem whose folder contains it
is created or deleted, the API shows what the form said, and programs read the files of
the bundle, in its order.
-/

namespace ByteBattles.Api

open ByteBattles.Lib

open CreateProblem (Distinct Holds KeyOf Within)

variable {lib : Libraries} {cfg : Config} {env : Environment} {s t u : Store}
  {st st' st'' : State} {q : Str} {form : ProblemForm}

def Spares (q : Str) : Action → Prop
  | .request _ (.deleteProblem _ p) => ¬ Within p q
  | .request _ (.createProblem _ form) => form.id = q ∨ ¬ Within form.id q
  | _ => True

instance (q : Str) : DecidablePred (Spares q)
  | .request _ (.deleteProblem _ p) => inferInstanceAs (Decidable (¬ Within p q))
  | .request _ (.createProblem _ form) =>
      inferInstanceAs (Decidable (form.id = q ∨ ¬ Within form.id q))
  | .request _ (.register _) | .request _ (.login _ _) | .request _ (.refresh _)
  | .request _ (.getCurrentUser _) | .request _ (.updateCurrentUser _ _)
  | .request _ (.deleteCurrentUser _) | .request _ (.getUser _ _) | .request _ (.createTag _ _)
  | .request _ (.getProblems _ _ _) | .request _ (.getProblemById _ _)
  | .request _ (.createSubmission _ _) | .request _ (.getSubmissions _ _ _ _ _)
  | .request _ (.getSubmissionById _)
  | .promote _ | .pick | .requeue _ | .judged _ _ => isTrue trivial

/-! ## The problem stays -/

theorem Keeps.refl (s : Store) (q : Str) : Keeps s s q := ⟨rfl, rfl, fun _ _ _ _ _ => rfl⟩

theorem mem_testcases_iff (h : Keeps s t q) {tc : TestCase} (hq : tc.problem_id = q) :
    tc ∈ t.testcases ↔ tc ∈ s.testcases := by
  have hmem : tc ∈ t.testcases.filter (·.problem_id = q) ↔
      tc ∈ s.testcases.filter (·.problem_id = q) := by rw [h.testcases]
  simpa [List.mem_filter, hq] using hmem

theorem Keeps.trans (h : Keeps s t q) (h' : Keeps t u q) : Keeps s u q where
  problem := h'.problem.trans h.problem
  testcases := h'.testcases.trans h.testcases
  files := by
    intro tc htc hq key hkey
    have hmem : tc ∈ t.testcases := (mem_testcases_iff h hq).mpr htc
    exact (h'.files tc hmem hq key hkey).trans (h.files tc htc hq key hkey)

theorem Keeps.of_eq (hproblems : t.problems = s.problems) (htestcases : t.testcases = s.testcases)
    (hfiles : t.testcaseFiles = s.testcaseFiles) : Keeps s t q where
  problem := by rw [Store.problemById, hproblems, ← Store.problemById]
  testcases := by rw [htestcases]
  files := fun _ _ _ _ _ => by rw [hfiles]

def KeysOf (q : Str) (s : Store) : Prop :=
  ∀ tc ∈ s.testcases, tc.problem_id = q → KeyOf q tc.input_key ∧ KeyOf q tc.output_key

theorem KeysOf.of_mem (h : KeysOf q s) {tc : TestCase} (htc : tc ∈ s.testcases)
    (hq : tc.problem_id = q) {key : Str} (hkey : key ∈ [tc.input_key, tc.output_key]) :
    KeyOf q key := by
  simp only [List.mem_cons, List.not_mem_nil, or_false] at hkey
  apply hkey.elim
  · rintro rfl
    exact (h tc htc hq).1
  · rintro rfl
    exact (h tc htc hq).2

theorem KeysOf.keeps (h : KeysOf q s) (hkeeps : Keeps s t q) : KeysOf q t := by
  intro tc htc hq
  exact h tc ((mem_testcases_iff hkeeps hq).mp htc) hq

def HasProblem (q : Str) (s : Store) : Prop := q ∈ s.problems.map (·.id)

theorem find?_problem_of_hasProblem (h : HasProblem q s) (new : Problem) :
    (s.problems ++ [new]).find? (·.id = q) = s.problems.find? (·.id = q) := by
  obtain ⟨p, hp, hid⟩ := List.mem_map.mp h
  have hsome : (s.problems.find? (·.id = q)).isSome = true :=
    List.find?_isSome.mpr ⟨p, hp, by simpa using hid⟩
  obtain ⟨found, hfound⟩ := Option.isSome_iff_exists.mp hsome
  rw [List.find?_append, hfound]
  rfl

/-- A `create_problem` with an id that is taken changes nothing. -/
theorem createProblem_taken {token : Option Token} (htaken : HasProblem form.id s) :
    (serve lib cfg env (.createProblem token form)).Ends s fun _ t => t = s := by
  apply ends_respond
  refine ends_withCurrentAdmin (fun _ => rfl) (fun _ _ => rfl) fun _ _ _ => ?_
  unfold createProblem
  refine Handler.Ends.refuseIf_bind (fun _ => rfl) fun _ => ?_
  apply Handler.Ends.read_bind
  have hmem : form.toRequest.id ∈ s.creation.problems := htaken
  rw [CreateProblem.check, if_pos hmem]
  exact Handler.Ends.raise rfl

theorem keeps_created {c : CreateProblem.State} {id : Str} {tags : List Str} {count : Nat}
    (hproblem : HasProblem q s) (hne : form.id ≠ q)
    (hresume : CreateProblem.resume s.categories env.bundle s.creation form.toRequest =
      (c, .created id tags count))
    (hfiles : ∀ key, KeyOf q key → c.bucket.getObject key = s.testcaseFiles.getObject key)
    (hkeys : KeysOf q s) : Keeps s (s.created form tags c) q where
  problem := find?_problem_of_hasProblem hproblem (form.problem tags)
  testcases := by
    obtain ⟨v, testcases, -, hupload, hadded⟩ := resume_uploads hresume
    have hother : (numbered s.testcase_serial testcases).filter (·.problem_id = q) = [] := by
      apply List.filter_eq_nil_iff.mpr
      intro tc htc
      have hid : tc.problem_id = form.id :=
        (CreateProblem.upload_stored hupload _ (unnumbered_mem htc)).problem
      simpa [hid] using hne
    rw [hadded, List.filter_append, hother, List.append_nil]
  files := by
    intro tc htc hq key hkey
    exact hfiles key (hkeys.of_mem htc hq hkey)

theorem keeps_removeProblem {p : Str} (hne : p ≠ q)
    (hfiles : ∀ key, KeyOf q key →
      (s.emptied p).testcaseFiles.getObject key = s.testcaseFiles.getObject key)
    (hkeys : KeysOf q s) : Keeps s ((s.emptied p).removeProblem p) q where
  problem := by
    show (s.problems.filter (·.id ≠ p)).find? (·.id = q) = s.problems.find? (·.id = q)
    rw [List.find?_filter]
    congr
    funext problem
    by_cases hq : problem.id = q
    · simp [hq, hne.symm]
    · simp [hq]
  testcases := by
    show (s.testcases.filter (·.problem_id ≠ p)).filter (·.problem_id = q) = _
    rw [List.filter_filter]
    apply List.filter_congr
    intro tc _
    by_cases hq : tc.problem_id = q
    · simp [hq, hne.symm]
    · simp [hq]
  files := by
    intro tc htc hq key hkey
    exact hfiles key (hkeys.of_mem htc hq hkey)

theorem keeps_of_effect {request : Request} (heffect : Effect lib env s request t)
    (hspares : Spares q (.request env request)) (hproblem : HasProblem q s) (hkeys : KeysOf q s)
    (hother : ∀ token form, request = .createProblem token form → form.id ≠ q) :
    Keeps s t q := by
  have hbucket {p : Str} (hon : request.IsOn p) (hout : ¬ Within p q) {key : Str}
      (hkey : KeyOf q key) : t.testcaseFiles.getObject key = s.testcaseFiles.getObject key :=
    effect_getObject heffect hon hkey hout
  cases heffect with
  | unchanged => exact .refl s q
  | @creationFailed token form c status_code detail hresume =>
      have hne : form.id ≠ q := hother token form rfl
      refine ⟨rfl, rfl, fun tc htc hq key hkey => ?_⟩
      exact hbucket rfl (hspares.resolve_left hne) (hkeys.of_mem htc hq hkey)
  | @created token form c id tags count hnew hresume =>
      have hne : form.id ≠ q := hother token form rfl
      apply keeps_created hproblem hne hresume _ hkeys
      intro key hkey
      exact hbucket rfl (hspares.resolve_left hne) hkey
  | folderDeleted =>
      refine ⟨rfl, rfl, fun tc htc hq key hkey => ?_⟩
      exact hbucket rfl hspares (hkeys.of_mem htc hq hkey)
  | @problemDeleted token p =>
      have hne : p ≠ q := fun heq => hspares (.inl heq.symm)
      apply keeps_removeProblem hne _ hkeys
      intro key hkey
      exact hbucket rfl hspares hkey
  | submission hauth houtcome =>
      cases houtcome <;> exact .of_eq rfl rfl rfl
  | _ => exact .of_eq rfl rfl rfl

theorem keeps_of_step {a : Action} (hspares : Spares q a) (hproblem : HasProblem q st.store)
    (hkeys : KeysOf q st.store) (hstep : step lib cfg st a = some st') :
    Keeps st.store st'.store q := by
  cases moves_of_step hstep with
  | @request env request result store hnow htoken hserve heffect =>
      by_cases hother : ∀ token form, request = .createProblem token form → form.id ≠ q
      · exact keeps_of_effect heffect hspares hproblem hkeys hother
      · simp only [not_forall, not_not] at hother
        obtain ⟨token, form, rfl, rfl⟩ := hother
        have hsame : store = st.store := (createProblem_taken hproblem).of_eq hserve
        rw [hsame]
        exact .refl st.store form.id
  | promote id => exact .of_eq rfl rfl rfl
  | pick hjobs => exact .of_eq rfl rfl rfl
  | requeue hpicked => exact .of_eq rfl rfl rfl
  | judged result hpicked => exact .of_eq rfl rfl rfl

theorem hasProblem_iff : HasProblem q s ↔ (s.problemById q).isSome = true := by
  rw [HasProblem, Store.problemById, List.find?_isSome, List.mem_map]
  simp

/-- **A problem stays** along every path whose actions leave its folder alone. -/
theorem keeps_of_path (hproblem : HasProblem q st.store) (hkeys : KeysOf q st.store)
    (hpath : (system lib cfg).PathUnder (fun _ a => Spares q a) st st') :
    Keeps st.store st'.store q := by
  apply System.PreservedUnder.path (I := fun st' => Keeps st.store st'.store q) ?_
    (.refl st.store q) hpath
  intro u v a _ hu hspares hstep
  have hproblem' : HasProblem q u.store := by
    rw [hasProblem_iff, hu.problem]
    exact hasProblem_iff.mp hproblem
  exact hu.trans (keeps_of_step hspares hproblem' (hkeys.keeps hu) hstep)

/-! ## What was created -/

theorem createProblem_ok {token : Option Token} :
    (serve lib cfg env (.createProblem token form)).Ends s fun result t =>
      ∀ response, result = .ok response → ∃ c id tags count, ¬ HasProblem form.id s ∧
        CreateProblem.resume s.categories env.bundle s.creation form.toRequest =
          (c, .created id tags count) ∧
        t = s.created form tags c ∧
        response = .problemCreated ⟨id, form.title, form.difficulty, tags, count⟩ := by
  apply ends_respond
  refine ends_withCurrentAdmin (fun _ _ h => by cases h) (fun _ _ _ h => by cases h)
    fun _ _ _ => ?_
  unfold createProblem
  refine Handler.Ends.refuseIf_bind (fun _ _ h => by cases h) fun _ => ?_
  apply Handler.Ends.read_bind
  by_cases hnew : form.toRequest.id ∈ s.creation.problems
  · rw [CreateProblem.check, if_pos hnew]
    exact Handler.Ends.raise fun _ h => by cases h
  · by_cases hzip : CreateProblem.zipSuffix <:+ form.toRequest.filename
    · rw [CreateProblem.check, if_neg hnew, if_neg (not_not_intro hzip)]
      cases hresume : CreateProblem.resume s.categories env.bundle s.creation form.toRequest with
      | mk c response =>
          cases response with
          | error status_code detail => exact fun _ h => by cases h
          | created id tags count =>
              intro response h
              exact ⟨c, id, tags, count, hnew, rfl, rfl, (Except.ok.inj h).symm⟩
    · rw [CreateProblem.check, if_neg hnew, if_pos hzip]
      exact Handler.Ends.raise fun _ h => by cases h

theorem hasProblem_created {c : CreateProblem.State} {tags : List Str} :
    HasProblem form.id (s.created form tags c) := by
  apply List.mem_map.mpr
  exact ⟨form.problem tags, List.mem_append_right _ (List.mem_singleton.mpr rfl), rfl⟩

theorem keysOf_created (howned : TestcasesOwned s) (hnew : ¬ HasProblem form.id s)
    {c : CreateProblem.State} {id : Str} {tags : List Str} {count : Nat}
    (hresume : CreateProblem.resume s.categories env.bundle s.creation form.toRequest =
      (c, .created id tags count)) : KeysOf form.id (s.created form tags c) := by
  intro tc htc hid
  apply (stored_of_mem_created hresume htc).elim
  · intro hold
    exact absurd (hid ▸ howned tc hold) hnew
  · intro hstored
    exact ⟨hstored.input, hstored.output⟩

theorem visibleProblem_eq_ite (hs : Constraints s) {problem : Problem}
    (h : s.problemById q = some problem) :
    s.visibleProblem q = if problem.visibility = true then some problem else none := by
  obtain ⟨hmem, rfl⟩ := problemById_eq_some h
  split
  case isTrue hvisible =>
    cases hfound : s.visibleProblem problem.id with
    | none =>
        have hnone := List.find?_eq_none.mp hfound problem hmem
        simp [hvisible] at hnone
    | some found =>
        obtain ⟨hfmem, hfid, -⟩ := visibleProblem_eq_some hfound
        rw [hs.problem_ids.eq hfmem hmem hfid]
  case isFalse hhidden =>
    apply List.find?_eq_none.mpr
    intro found hfmem hfound
    obtain ⟨hfid, hfvisible⟩ := of_decide_eq_true hfound
    rw [hs.problem_ids.eq hfmem hmem hfid] at hfvisible
    exact hhidden hfvisible

theorem getProblemById_eq_ite (hs : Constraints s) {problem : Problem} {now : Nat}
    {token : Option Token} (h : s.problemById q = some problem) :
    getProblemById s now token q =
      if problem.visibility = true ∨ (getOptionalCurrentAdmin s.users now token).isSome = true then
        .ok problem.detailResponse
      else .error (notFound "requested problem doesn't exist") := by
  unfold getProblemById
  rw [visibleProblem_eq_ite hs h, h]
  by_cases hadmin : (getOptionalCurrentAdmin s.users now token).isSome = true
  · simp [hadmin]
  · by_cases hvisible : problem.visibility = true
    · simp [hadmin, hvisible]
    · simp [hadmin, hvisible]

theorem numbered_pairwise (serial : Int) (testcases : List CreateProblem.TestCase) :
    (numbered serial testcases).Pairwise (·.id ≤ ·.id) := by
  induction testcases generalizing serial with
  | nil => exact .nil
  | cons tc testcases ih =>
      refine List.pairwise_cons.mpr ⟨fun tc' htc' => ?_, ih (serial + 1)⟩
      have hle : serial + 1 ≤ tc'.id := le_of_mem_numbered htc'
      show serial ≤ tc'.id
      omega

/-- The judge runs the testcases of a new problem in the order of its files. -/
theorem testcasesOf_created (howned : TestcasesOwned s) (hnew : ¬ HasProblem form.id s)
    {c : CreateProblem.State} {id : Str} {tags : List Str} {count : Nat}
    (hresume : CreateProblem.resume s.categories env.bundle s.creation form.toRequest =
      (c, .created id tags count)) :
    (s.created form tags c).judgeDatabase.testcasesOf form.id =
      (s.created form tags c).testcases.filter (·.problem_id = form.id) := by
  obtain ⟨v, testcases, -, hupload, hadded⟩ := resume_uploads hresume
  have hold : s.testcases.filter (·.problem_id = form.id) = [] := by
    apply List.filter_eq_nil_iff.mpr
    intro tc htc
    rw [decide_eq_true_eq]
    intro hid
    exact hnew (hid ▸ howned tc htc)
  apply List.Pairwise.insertionSort_eq
  show ((s.created form tags c).testcases.filter (·.problem_id = form.id)).Pairwise (·.id ≤ ·.id)
  rw [hadded, List.filter_append, hold, List.nil_append]
  exact (numbered_pairwise _ _).filter _

theorem exists_of_forall₂_getElem? {α β : Type} {R : α → β → Prop} {xs : List α} {ys : List β}
    (h : List.Forall₂ R xs ys) {i : Nat} {y : β} (hy : ys[i]? = some y) :
    ∃ x, xs[i]? = some x ∧ R x y := by
  induction h generalizing i with
  | nil => cases hy
  | cons hxy _ ih =>
      cases i with
      | zero =>
          rw [List.getElem?_cons_zero] at hy
          obtain rfl := Option.some.inj hy
          exact ⟨_, List.getElem?_cons_zero, hxy⟩
      | succ i =>
          rw [List.getElem?_cons_succ] at hy ⊢
          exact ih hy

theorem created_of_step {token : Option Token} {created : ProblemCreateResponse}
    (hstep : step lib cfg st (.request env (.createProblem token form)) = some st')
    (hok : (serve lib cfg env (.createProblem token form) st.store).1 =
      .ok (.problemCreated created)) :
    ∃ c id, ¬ HasProblem form.id st.store ∧
      CreateProblem.resume st.store.categories env.bundle st.store.creation form.toRequest =
        (c, .created id created.tags created.testcases) ∧
      st'.store = st.store.created form created.tags c := by
  cases moves_of_step hstep with
  | request hnow htoken hserve heffect =>
      obtain ⟨c, id, tags, count, hnew, hresume, hstore, hresponse⟩ := createProblem_ok _ hok
      obtain rfl := Response.problemCreated.inj hresponse
      rw [hserve] at hstore
      exact ⟨c, id, hnew, hresume, hstore⟩

/-- A problem is made only of JSON that the validator accepts. -/
theorem array_data_of_created {c : CreateProblem.State} {id : Str} {tags : List Str} {count : Nat}
    (hresume : CreateProblem.resume s.categories env.bundle s.creation form.toRequest =
      (c, .created id tags count)) : ∃ array_data, form.array_data = some array_data := by
  obtain ⟨requested, htags, -, -⟩ := linked_of_created hresume
  obtain ⟨array_data, harray_data, -⟩ := Option.map_eq_some_iff.mp htags
  exact ⟨array_data, harray_data⟩

def ReadsInputs (judging : Judge.JudgeWorker.Environment) (s : Store) (problem_id : Str) : Prop :=
  ∀ idx tc,
    Judge.JudgeWorker.numberedFrom 1 (s.judgeDatabase.testcasesOf problem_id) idx = some tc →
      judging.raises (.readTestcaseInput idx) = none →
        s.testcaseFiles.getObject tc.input_key = some (judging.testcaseFile tc.input_key)

section

variable {token : Option Token} {created : ProblemCreateResponse}

/-- What an accepted `create_problem` has made stays. -/
theorem keeps_created_of_path (h : (system lib cfg).Reachable st)
    (hstep : step lib cfg st (.request env (.createProblem token form)) = some st')
    (hok : (serve lib cfg env (.createProblem token form) st.store).1 =
      .ok (.problemCreated created))
    (hpath : (system lib cfg).PathUnder (fun _ a => Spares form.id a) st' st'') :
    Keeps st'.store st''.store form.id ∧
      st''.store.problemById form.id = some (form.problem created.tags) := by
  obtain ⟨c, id, hnew, hresume, hstore⟩ := created_of_step hstep hok
  have hkeeps : Keeps st'.store st''.store form.id := by
    apply keeps_of_path _ _ hpath
    · rw [hstore]
      exact hasProblem_created
    · rw [hstore]
      exact keysOf_created (testcasesOwned_of_reachable h) hnew hresume
  refine ⟨hkeeps, ?_⟩
  rw [hkeeps.problem, hstore]
  exact created_problem hnew

/-- The testcases that a worker runs hold the files of the bundle, in its order. -/
theorem held_of_path (h : (system lib cfg).Reachable st)
    (hstep : step lib cfg st (.request env (.createProblem token form)) = some st')
    (hok : (serve lib cfg env (.createProblem token form) st.store).1 =
      .ok (.problemCreated created))
    (hdistinct : Distinct env.bundle 0 (2 * form.files.length))
    (hpath : (system lib cfg).PathUnder (fun _ a => Spares form.id a) st' st'') :
    ∃ zip, form.zip = some zip ∧
      st''.store.judgeDatabase.testcasesOf form.id = st'.store.judgeDatabase.testcasesOf form.id ∧
      List.Forall₂ (fun file tc => Holds zip st''.store.testcaseFiles file (unnumbered tc))
        form.files (st''.store.judgeDatabase.testcasesOf form.id) := by
  obtain ⟨c, id, hnew, hresume, hstore⟩ := created_of_step hstep hok
  have howned : TestcasesOwned st.store := testcasesOwned_of_reachable h
  obtain ⟨zip, hzip, -, hholds⟩ := created_holds howned hnew hresume hdistinct
  have hkeeps := (keeps_created_of_path h hstep hok hpath).1
  have hsame : st''.store.judgeDatabase.testcasesOf form.id =
      st'.store.judgeDatabase.testcasesOf form.id := by
    show (st''.store.testcases.filter _).insertionSort _ =
      (st'.store.testcases.filter _).insertionSort _
    rw [hkeeps.testcases]
  have hordered : st'.store.judgeDatabase.testcasesOf form.id =
      st'.store.testcases.filter (·.problem_id = form.id) := by
    rw [hstore]
    exact testcasesOf_created howned hnew hresume
  refine ⟨zip, hzip, hsame, ?_⟩
  rw [hsame, hordered, hstore]
  rw [hstore] at hkeeps
  apply List.forall₂_iff_zip.mpr
  refine ⟨hholds.length_eq, fun {file tc} hmem => ?_⟩
  have hheld := (List.forall₂_iff_zip.mp hholds).2 hmem
  obtain ⟨htc, hproblem⟩ := List.mem_filter.mp (List.of_mem_zip hmem).2
  have hfiles := hkeeps.files tc htc (of_decide_eq_true hproblem)
  obtain ⟨input, hinput, hstored⟩ := hheld.input
  obtain ⟨output, houtput, hstored'⟩ := hheld.output
  constructor
  · exact ⟨input, hinput, (hfiles tc.input_key (by simp)).trans hstored⟩
  · exact ⟨output, houtput, (hfiles tc.output_key (by simp)).trans hstored'⟩

/-- **A problem comes back**: as long as its folder is left alone, the API shows it to
administrators, and to everyone if it is visible, with what the form said, its JSON read
and its empty optional fields missing; and the judge reads its limits. -/
theorem problem_round_trip (h : (system lib cfg).Reachable st)
    (hstep : step lib cfg st (.request env (.createProblem token form)) = some st')
    (hok : (serve lib cfg env (.createProblem token form) st.store).1 =
      .ok (.problemCreated created))
    (hpath : (system lib cfg).PathUnder (fun _ a => Spares form.id a) st' st'') :
    (∀ now token, getProblemById st''.store now token form.id =
      if form.visibility = true ∨
          (getOptionalCurrentAdmin st''.store.users now token).isSome = true then
        .ok (form.problem created.tags).detailResponse
      else .error (notFound "requested problem doesn't exist")) ∧
    (∃ constraints sample_io, form.constraints = .value constraints ∧
      form.sample_io = .value sample_io ∧
      (form.problem created.tags).constraints = constraints ∧
      (form.problem created.tags).sample_io = sample_io) ∧
    st''.store.judgeDatabase.problems form.id =
      some ⟨form.time_limit_sec, form.memory_limit_mb⟩ := by
  have hs : Consistent st''.store := by
    obtain ⟨s₀, h₀, hprefix⟩ := reachable_step h hstep
    exact consistent_of_reachable ⟨s₀, h₀, hprefix.trans (hpath.mono fun _ _ _ => trivial)⟩
  have hproblem := (keeps_created_of_path h hstep hok hpath).2
  refine ⟨?_, ?_, ?_⟩
  · intro now token
    exact getProblemById_eq_ite hs.toConstraints hproblem
  · obtain ⟨c, id, -, hresume, -⟩ := created_of_step hstep hok
    obtain ⟨array_data, harray_data⟩ := array_data_of_created hresume
    obtain ⟨-, hconstraints, hsample_io⟩ := ProblemForm.array_data_eq_some harray_data
    refine ⟨_, _, hconstraints, hsample_io, ?_, ?_⟩
    · simp [ProblemForm.problem, harray_data]
    · simp [ProblemForm.problem, harray_data]
  · show (st''.store.problemById form.id).map _ = _
    rw [hproblem]
    rfl

/-- **The bundle reaches the programs**: as long as the folder of the problem is left alone,
what any worker writes to the standard input of the `idx`-th run of a submission to it is,
byte for byte, the input file of the `idx`-th pair in the bundle. -/
theorem bundle_reaches_programs (h : (system lib cfg).Reachable st)
    (hstep : step lib cfg st (.request env (.createProblem token form)) = some st')
    (hok : (serve lib cfg env (.createProblem token form) st.store).1 =
      .ok (.problemCreated created))
    (hdistinct : Distinct env.bundle 0 (2 * form.files.length))
    (hpath : (system lib cfg).PathUnder (fun _ a => Spares form.id a) st' st'') :
    ∃ zip, form.zip = some zip ∧ ∀ submission : Submission,
      st''.store.submissionById submission.id = some submission →
      submission.problem_id = form.id → ∀ config judging,
        ReadsInputs judging st''.store form.id → ∀ idx data, .sendall idx data ∈
            (Judge.JudgeWorker.processSubmission config judging st''.store.judgeDatabase
              submission.id).calls →
          ∃ file, 1 ≤ idx ∧ form.files[idx - 1]? = some file ∧ zip.read file.1 = some data := by
  obtain ⟨zip, hzip, -, hholds⟩ := held_of_path h hstep hok hdistinct hpath
  refine ⟨zip, hzip, fun submission hrow hproblem config judging hreads idx data hcall => ?_⟩
  have hfeeds : (Judge.JudgeWorker.Call.sendall idx data).feeds = true := rfl
  obtain ⟨found, problem, _, hfound, -, -, hsupplied⟩ :=
    Judge.JudgeWorker.processSubmission_supplied st''.store.judgeDatabase submission.id _ hcall
      hfeeds
  have hread : st''.store.judgeDatabase.submissions submission.id =
      some submission.toSubmission := by
    show (st''.store.submissionById submission.id).map _ = _
    rw [hrow]
    rfl
  obtain rfl : found = submission.toSubmission := Option.some.inj (hfound.symm.trans hread)
  obtain ⟨tc, hnumber, hraises, rfl⟩ := hsupplied
  change Judge.JudgeWorker.numberedFrom 1
    (st''.store.judgeDatabase.testcasesOf submission.problem_id) idx = some tc at hnumber
  rw [hproblem] at hnumber
  have hobject := hreads idx tc hnumber hraises
  rw [Judge.JudgeWorker.numberedFrom] at hnumber
  split at hnumber
  case isFalse => cases hnumber
  case isTrue hle =>
    obtain ⟨file, hfile, hheld⟩ := exists_of_forall₂_getElem? hholds hnumber
    obtain ⟨input, hinput, hstored⟩ := hheld.input
    refine ⟨file, hle, hfile, ?_⟩
    rw [hinput, ← hobject]
    exact hstored.symm

end

/-! ## A problem with a submission -/

def creating : Action :=
  .request (quiet 6 CreateProblem.zeros) (.createProblem (some annToken) (sumForm ['p'] true))

def afterwards : List Action :=
  [.request (quiet 7 CreateProblem.zeros)
      (.createSubmission (some annToken) ⟨['p'], "print(3)".toList, .PYTHON⟩),
    .request (quiet 8 CreateProblem.ones) (.deleteProblem (some annToken) ['q'])]

def sumCreated : ProblemCreateResponse := ⟨['p'], "Sum".toList, .EASY, [], 1⟩

theorem exists_created :
    ∃ st st' st'' : State, (system plain halfHour).Reachable st ∧
      step plain halfHour st creating = some st' ∧
      (serve plain halfHour (quiet 6 CreateProblem.zeros)
        (.createProblem (some annToken) (sumForm ['p'] true)) st.store).1 =
          .ok (.problemCreated sumCreated) ∧
      (system plain halfHour).PathUnder (fun _ a => Spares ['p'] a) st' st'' ∧
      st''.store.submissions.map (·.problem_id) = [['p']] := by
  obtain ⟨st, hfirst, hok, hrest⟩ :=
    System.exists_path (system plain halfHour) (fun _ _ => True) start (submissionRun.take 3)
      (fun st => (serve plain halfHour (quiet 6 CreateProblem.zeros)
          (.createProblem (some annToken) (sumForm ['p'] true)) st.store).1 =
            .ok (.problemCreated sumCreated) ∧
        (step plain halfHour st creating).any (fun st' =>
          ((system plain halfHour).runUnder (fun _ a => Spares ['p'] a) st' afterwards).any
            fun st'' => decide (st''.store.submissions.map (·.problem_id) = [['p']])) = true)
      (by decide +kernel)
  obtain ⟨st', hstep, hafter⟩ := (Option.any_eq_true _ _).mp hrest
  obtain ⟨st'', hpath, hrows⟩ := System.exists_path _ _ _ _ _ hafter
  exact ⟨st, st', st'', ⟨_, rfl, hfirst⟩, hstep, hok, hpath, hrows⟩

theorem problem_round_trip_sum :
    ∃ st'' : State, getProblemById st''.store 9 none ['p'] =
      .ok ((sumForm ['p'] true).problem []).detailResponse := by
  obtain ⟨st, st', st'', hreach, hstep, hok, hpath, -⟩ := exists_created
  exact ⟨st'', (problem_round_trip hreach hstep hok hpath).1 9 none⟩

theorem bundle_reaches_programs_sum :
    ∃ st'' : State, ∃ zip, (sumForm ['p'] true).zip = some zip ∧
      ∃ submission ∈ st''.store.submissions, submission.problem_id = ['p'] ∧
      ∀ config judging, ReadsInputs judging st''.store ['p'] → ∀ idx data, .sendall idx data ∈
          (Judge.JudgeWorker.processSubmission config judging st''.store.judgeDatabase
            submission.id).calls →
        ∃ file, 1 ≤ idx ∧ (sumForm ['p'] true).files[idx - 1]? = some file ∧
          zip.read file.1 = some data := by
  obtain ⟨st, st', st'', hreach, hstep, hok, hpath, hrows⟩ := exists_created
  obtain ⟨zip, hzip, hprograms⟩ :=
    bundle_reaches_programs hreach hstep hok distinct_calm hpath
  have hreach'' : (system plain halfHour).Reachable st'' := by
    obtain ⟨s₀, h₀, hprefix⟩ := reachable_step hreach hstep
    exact ⟨s₀, h₀, hprefix.trans (hpath.mono fun _ _ _ => trivial)⟩
  obtain ⟨submission, hsubmission, hproblem⟩ :
      ∃ r ∈ st''.store.submissions, r.problem_id = ['p'] := by
    have hmem : ['p'] ∈ st''.store.submissions.map (·.problem_id) := by rw [hrows]; simp
    exact List.mem_map.mp hmem
  have hrow : st''.store.submissionById submission.id = some submission :=
    (consistent_of_reachable hreach'').submission_ids.find? hsubmission
  exact ⟨st'', zip, hzip, submission, hsubmission, hproblem, hprograms submission hrow hproblem⟩

end ByteBattles.Api
