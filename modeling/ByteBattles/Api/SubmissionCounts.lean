import ByteBattles.Api.SubmissionRequests

/-!
# Submission counts

A problem has a column for the number of its submissions and one for the number of the
accepted ones.  The columns start at zero with the problem, and no route and no result
write assigns them.
-/

namespace ByteBattles.Api

open ByteBattles.Lib

open ByteBattles.Judge (Verdict)

variable {lib : Libraries} {cfg : Config} {env : Environment} {s t : Store} {st st' : State}
  {a : Action}

def Store.submissionsTo (s : Store) (problem_id : Str) : List Submission :=
  s.submissions.filter (·.problem_id = problem_id)

def Submission.verdict (r : Submission) : Verdict := r.result .verdict

def Store.acceptedTo (s : Store) (problem_id : Str) : List Submission :=
  (s.submissionsTo problem_id).filter fun r => r.verdict = .ACCEPTED

structure CountsRight (s : Store) : Prop where
  listed : ∀ now token page limit problems, getProblems s now token page limit = .ok problems →
    ∀ p ∈ problems, p.accepted_submissions = (s.acceptedTo p.id).length
  detailed : ∀ now token problem_id problem, getProblemById s now token problem_id = .ok problem →
    problem.accepted_submissions = (s.acceptedTo problem.id).length
  total : ∀ p ∈ s.problems, p.total_submissions = (s.submissionsTo p.id).length

def Inserts (st : State) : Action → Prop
  | .request env (.createSubmission token details) =>
      ¬ Refused env token details st.store ∧ ¬ InsertRaises env details st.store
  | _ => False

/-! ## The columns -/

def CountersZero (s : Store) : Prop :=
  ∀ p ∈ s.problems, p.accepted_submissions = 0 ∧ p.total_submissions = 0

theorem CountersZero.of_subset (h : CountersZero s) (hproblems : t.problems ⊆ s.problems) :
    CountersZero t := fun p hp => h p (hproblems hp)

theorem CountersZero.created (h : CountersZero s) (form : ProblemForm) (tags : List Str)
    (c : CreateProblem.State) : CountersZero (s.created form tags c) := by
  intro p hp
  rcases List.mem_append.mp hp with hp | hp
  · exact h p hp
  · rw [List.mem_singleton.mp hp]
    exact ⟨rfl, rfl⟩

theorem CountersZero.effect (h : CountersZero s) {request : Request}
    (heffect : Effect lib env s request t) : CountersZero t := by
  cases heffect with
  | created hnew hresume => exact h.created _ _ _
  | problemDeleted => exact h.of_subset fun _ hp => List.mem_of_mem_filter hp
  | submission hauth houtcome =>
      cases houtcome with
      | _ => exact h.of_subset (List.Subset.refl _)
  | _ => exact h.of_subset (List.Subset.refl _)

theorem countersZero_invariant : StoreInvariant lib CountersZero where
  empty := fun p hp => by cases hp
  effect := fun h heffect => h.effect heffect
  promote := fun _ h => h.of_subset (List.Subset.refl _)
  jobs := fun _ h => h.of_subset (List.Subset.refl _)
  result := fun _ _ h => h.of_subset (List.Subset.refl _)

/-! ## The rows -/

theorem submissions_subset_of_effect {request : Request} (heffect : Effect lib env s request t)
    (hother : ∀ token details, request ≠ .createSubmission token details) :
    t.submissions ⊆ s.submissions := by
  cases heffect with
  | userDeleted hauth => exact fun _ hr => List.mem_of_mem_filter hr
  | problemDeleted => exact fun _ hr => List.mem_of_mem_filter hr
  | submission hauth houtcome => exact absurd rfl (hother _ _)
  | _ => exact List.Subset.refl _

theorem ends_of_refused {token : Option Token} {details : SubmissionCreate}
    (h : Refused env token details s) :
    (serve lib cfg env (.createSubmission token details)).Ends s fun _ t => t = s := by
  apply ends_respond
  refine ends_withCurrentUser (fun _ => rfl) (fun _ _ => rfl) fun hquery user hauth => ?_
  unfold createSubmission
  refine Environment.ends_call (fun _ => rfl) fun _ => ?_
  apply Handler.Ends.read_bind
  cases hproblem : s.visibleProblem details.problem_id with
  | none => exact Handler.Ends.raise rfl
  | some problem =>
      refine Environment.ends_call (fun _ => rfl) fun hput => ?_
      exact absurd h (not_refused hquery hauth hproblem hput)

/-- A request that inserts no row leaves the table as it is or smaller. -/
theorem submissions_subset_of_request {request : Request} {result : Except Error Response}
    (hserve : serve lib cfg env request s = (result, t))
    (hstops : ∀ token details, request = .createSubmission token details →
      Refused env token details s ∨ InsertRaises env details s) :
    t.submissions ⊆ s.submissions := by
  by_cases hsubmits : ∃ token details, request = .createSubmission token details
  · obtain ⟨token, details, rfl⟩ := hsubmits
    rcases hstops token details rfl with hrefused | hraises
    · have hsame := (ends_of_refused hrefused).of_eq hserve
      rw [hsame]
      exact List.Subset.refl _
    · cases requestOutcome.of_eq hserve with
      | refused => exact List.Subset.refl _
      | codeOnly => exact List.Subset.refl _
      | notQueued _ hnew => exact absurd hraises hnew
      | queued _ hnew => exact absurd hraises hnew
  · refine submissions_subset_of_effect ((serve_effect request).of_eq hserve) ?_
    intro token details heq
    exact hsubmits ⟨token, details, heq⟩

/-- A step that inserts no row leaves the table as it is or smaller, up to results. -/
theorem submissions_eq_nil_of_step (hstep : step lib cfg st a = some st')
    (hinserts : ¬ Inserts st a) (hnone : st.store.submissions = []) :
    st'.store.submissions = [] := by
  cases moves_of_step hstep with
  | @request env request result store hnow htoken hserve heffect =>
      apply List.eq_nil_of_subset_nil
      rw [← hnone]
      refine submissions_subset_of_request hserve ?_
      rintro token details rfl
      by_contra hreached
      exact hinserts (not_or.mp hreached)
  | judged result hpicked =>
      rw [setResult_submissions, hnone]
      rfl
  | _ => exact hnone

theorem submissions_ne_nil_of_step (hstep : step lib cfg st a = some st')
    (hinserts : Inserts st a) : st'.store.submissions ≠ [] := by
  cases moves_of_step hstep with
  | @request env request result store hnow htoken hserve heffect =>
      cases request with
      | createSubmission token details =>
          obtain ⟨hreached, hnew⟩ := hinserts
          cases requestOutcome.of_eq hserve with
          | refused hrefused => exact absurd hrefused hreached
          | codeOnly _ hraises => exact absurd hraises hnew
          | notQueued => exact List.append_ne_nil_of_right_ne_nil _ (List.cons_ne_nil _ _)
          | queued => exact List.append_ne_nil_of_right_ne_nil _ (List.cons_ne_nil _ _)
      | _ => exact absurd hinserts id
  | _ => exact absurd hinserts id

/-! ## The counts -/

/-- The problems that are listed are problems of the database. -/
theorem exists_problem_of_listed {now : Nat} {token : Option Token} {page limit : Int}
    {problems : List ProblemResponse} (h : getProblems s now token page limit = .ok problems)
    {p : ProblemResponse} (hp : p ∈ problems) : ∃ problem ∈ s.problems, problem.response = p := by
  unfold getProblems at h
  split at h
  case h_1 => cases h
  case h_2 page _ =>
    obtain rfl := Except.ok.inj h
    obtain ⟨problem, hproblem, rfl⟩ := List.mem_map.mp hp
    refine ⟨problem, ?_, rfl⟩
    have hsorted := List.mem_of_mem_drop (List.mem_of_mem_take hproblem)
    rw [byId, List.mem_insertionSort] at hsorted
    split at hsorted
    · exact hsorted
    · exact List.mem_of_mem_filter hsorted

theorem exists_problem_of_detailed {now : Nat} {token : Option Token} {problem_id : Str}
    {p : ProblemDetailResponse} (h : getProblemById s now token problem_id = .ok p) :
    ∃ problem ∈ s.problems, problem.detailResponse = p := by
  unfold getProblemById at h
  dsimp only at h
  split at h
  case h_1 => cases h
  case h_2 problem hfound =>
    refine ⟨problem, ?_, Except.ok.inj h⟩
    split at hfound
    · exact List.mem_of_find?_eq_some hfound
    · exact List.mem_of_find?_eq_some hfound

/-- With the columns at zero, the counts are right as long as there is nothing to count. -/
theorem countsRight_iff (hzero : CountersZero s) (hs : Constraints s) :
    CountsRight s ↔ s.submissions = [] := by
  constructor
  · intro h
    apply List.eq_nil_iff_forall_not_mem.mpr
    intro r hr
    obtain ⟨p, hp, hid⟩ := List.mem_map.mp (hs.problem_fk r hr)
    have htotal := h.total p hp
    rw [(hzero p hp).2] at htotal
    have hmem : r ∈ s.submissionsTo p.id := List.mem_filter.mpr ⟨hr, by simpa using hid.symm⟩
    have hpositive := List.length_pos_of_mem hmem
    omega
  · intro hnone
    have haccepted (problem_id : Str) : s.acceptedTo problem_id = [] := by
      rw [Store.acceptedTo, Store.submissionsTo, hnone]
      rfl
    constructor
    · intro now token page limit problems h p hp
      obtain ⟨problem, hproblem, rfl⟩ := exists_problem_of_listed h hp
      rw [haccepted]
      exact (hzero problem hproblem).1
    · intro now token problem_id p h
      obtain ⟨problem, hproblem, rfl⟩ := exists_problem_of_detailed h
      rw [haccepted]
      exact (hzero problem hproblem).1
    · intro p hp
      rw [Store.submissionsTo, hnone]
      exact (hzero p hp).2

theorem countsRight_iff_of_reachable (h : (system lib cfg).Reachable st) :
    CountsRight st.store ↔ st.store.submissions = [] :=
  countsRight_iff (countersZero_invariant.of_reachable h) (consistent_of_reachable h).toConstraints

/-- **The counts are right** in every run that commits no submission; the first one that
commits makes them wrong. -/
theorem counts_right_until_submission :
    (∀ st, (system lib cfg).ReachableUnder (fun st a => ¬ Inserts st a) st →
      CountsRight st.store) ∧
    ∀ st st' a, (system lib cfg).Reachable st → step lib cfg st a = some st' → Inserts st a →
      ¬ CountsRight st'.store := by
  constructor
  · intro st h
    apply (countsRight_iff_of_reachable (h.mono fun _ _ _ => trivial)).mpr
    refine System.PreservedUnder.invariant (I := fun st => st.store.submissions = []) ?_ ?_ h
    · intro st st' a _ hnone hinserts hstep
      exact submissions_eq_nil_of_step hstep hinserts hnone
    · rintro _ rfl
      rfl
  · intro st st' a h hstep hinserts hcounts
    have hreach := reachable_step h hstep
    exact submissions_ne_nil_of_step hstep hinserts
      ((countsRight_iff_of_reachable hreach).mp hcounts)

/-! ## An accepted submission -/

def acceptedRun : List Action :=
  submissionRun ++ [.pick, .judged 1
    { submission_id := 1, verdict := .ACCEPTED, runtime_ms := some 0, memory_kb := some 9000 }]

theorem not_counts_right :
    ¬ ∀ st, (system plain halfHour).Reachable st → CountsRight st.store := by
  obtain ⟨st, hpath, haccepted, hreported⟩ :=
    System.exists_path (system plain halfHour) (fun _ _ => True) start acceptedRun
      (fun st => (st.store.acceptedTo ['p']).length = 1 ∧
        (getProblemById st.store 8 none ['p']).toOption.any
          (fun p => p.id == ['p'] && p.accepted_submissions == 0) = true)
      (by decide +kernel)
  intro hall
  obtain ⟨p, hp, hcount⟩ := (Option.any_eq_true _ _).mp hreported
  have hok : getProblemById st.store 8 none ['p'] = .ok p := by
    cases hresult : getProblemById st.store 8 none ['p'] with
    | error e => simp [hresult, Except.toOption] at hp
    | ok q =>
        rw [hresult] at hp
        exact congrArg _ (Option.some.inj hp)
  rw [Bool.and_eq_true, beq_iff_eq, beq_iff_eq] at hcount
  have hright := (hall st ⟨_, rfl, hpath⟩).detailed 8 none ['p'] p hok
  rw [hcount.1, haccepted, hcount.2] at hright
  exact absurd hright (by decide)

end ByteBattles.Api
