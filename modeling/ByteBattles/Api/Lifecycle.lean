import ByteBattles.Api.CodeObjects
import ByteBattles.Lib.Versions

/-!
# Rows over a run

Ids of accounts, submissions and testcases are drawn from sequences and are given out
once.  Of a submission only the result columns change; of an account, what an update
assigns and its type.  So nothing that names a row by its id, be it a token, a job or a
link, ever comes to mean another row.
-/

namespace ByteBattles.Api

open ByteBattles.Lib

variable {lib : Libraries} {cfg : Config} {env : Environment} {s t u : Store}
  {st st' : State} {ok : State → Action → Prop}

/-! ## What is kept of a row -/

structure Submission.Kept (r r' : Submission) : Prop where
  problem_id : r'.problem_id = r.problem_id
  user_id : r'.user_id = r.user_id
  language : r'.language = r.language
  code_object_key : r'.code_object_key = r.code_object_key
  submitted_at : r'.submitted_at = r.submitted_at

theorem Submission.Kept.refl (r : Submission) : r.Kept r := ⟨rfl, rfl, rfl, rfl, rfl⟩

theorem Submission.Kept.trans {r r' r'' : Submission} (h : r.Kept r') (h' : r'.Kept r'') :
    r.Kept r'' where
  problem_id := h'.problem_id.trans h.problem_id
  user_id := h'.user_id.trans h.user_id
  language := h'.language.trans h.language
  code_object_key := h'.code_object_key.trans h.code_object_key
  submitted_at := h'.submitted_at.trans h.submitted_at

theorem Submission.kept_judged (r : Submission) (id : Int)
    (result : Judge.JudgeWorker.SubmissionResult) : r.Kept (r.judged id result) where
  problem_id := r.judged_problem_id
  user_id := r.judged_user_id
  language := column_judged (·.language) fun _ => rfl
  code_object_key := r.judged_code_object_key
  submitted_at := column_judged (·.submitted_at) fun _ => rfl

/-- The dates and the verification stay, and no administrator loses that type. -/
structure User.Kept (u u' : User) : Prop where
  is_verified : u'.is_verified = u.is_verified
  created_at : u'.created_at = u.created_at
  admin : u.user_type = .ADMIN → u'.user_type = .ADMIN

theorem User.Kept.refl (u : User) : u.Kept u := ⟨rfl, rfl, fun hadmin => hadmin⟩

theorem User.Kept.trans {u u' u'' : User} (h : u.Kept u') (h' : u'.Kept u'') : u.Kept u'' where
  is_verified := h'.is_verified.trans h.is_verified
  created_at := h'.created_at.trans h.created_at
  admin := fun hadmin => h'.admin (h.admin hadmin)

theorem User.kept_promoted (u : User) (id : Int) : u.Kept (u.promoted id) where
  is_verified := u.column_promoted id (·.is_verified) rfl
  created_at := u.column_promoted id (·.created_at) rfl
  admin := by
    intro hadmin
    unfold User.promoted
    split
    · rfl
    · exact hadmin

theorem User.kept_changed {users : List User} {current_user user : User} {salt : Nat}
    {updates : UserUpdate} (h : changedUser lib salt users current_user updates = .ok user) :
    current_user.Kept user := by
  obtain ⟨_, -, -, -, huser⟩ := changedUser_eq_ok h
  rw [huser]
  exact ⟨rfl, rfl, fun hadmin => hadmin⟩

/-! ## One step -/

/-- The three tables whose ids are drawn from sequences, now and later. -/
structure Store.Evolves (s t : Store) : Prop where
  users : Table.Evolves (·.id) User.Kept s.user_serial s.users t.user_serial t.users
  submissions : Table.Evolves (·.id) Submission.Kept s.submission_serial s.submissions
    t.submission_serial t.submissions
  testcases : Table.Evolves (·.id) (· = ·) s.testcase_serial s.testcases
    t.testcase_serial t.testcases

theorem Store.Evolves.refl (s : Store) : s.Evolves s where
  users := .refl User.Kept.refl
  submissions := .refl Submission.Kept.refl
  testcases := .refl fun _ => rfl

theorem Store.Evolves.trans (h : s.Evolves t) (h' : t.Evolves u) : s.Evolves u where
  users := h.users.trans (fun hr hr' => hr.trans hr') h'.users
  submissions := h.submissions.trans (fun hr hr' => hr.trans hr') h'.submissions
  testcases := h.testcases.trans (fun hr hr' => hr.trans hr') h'.testcases

theorem Store.Evolves.of_subset (husers : t.users ⊆ s.users)
    (hsubmissions : t.submissions ⊆ s.submissions) (htestcases : t.testcases ⊆ s.testcases)
    (hserials : t.user_serial = s.user_serial ∧ t.submission_serial = s.submission_serial ∧
      t.testcase_serial = s.testcase_serial) : s.Evolves t where
  users := .of_subset User.Kept.refl hserials.1.ge husers
  submissions := .of_subset Submission.Kept.refl hserials.2.1.ge hsubmissions
  testcases := .of_subset (fun _ => rfl) hserials.2.2.ge htestcases

theorem Store.Evolves.of_eq (husers : t.users = s.users)
    (hsubmissions : t.submissions = s.submissions) (htestcases : t.testcases = s.testcases)
    (hserials : t.user_serial = s.user_serial ∧ t.submission_serial = s.submission_serial ∧
      t.testcase_serial = s.testcase_serial) : s.Evolves t :=
  .of_subset (husers ▸ List.Subset.refl _) (hsubmissions ▸ List.Subset.refl _)
    (htestcases ▸ List.Subset.refl _) hserials

theorem le_of_mem_numbered {serial : Int} {testcases : List CreateProblem.TestCase}
    {tc : TestCase} (h : tc ∈ numbered serial testcases) : serial ≤ tc.id := by
  induction testcases generalizing serial with
  | nil => cases h
  | cons row testcases ih =>
      apply Or.elim (List.mem_cons.mp h)
      · rintro rfl
        exact le_rfl
      · intro hrest
        have hle : serial + 1 ≤ tc.id := ih hrest
        omega

theorem evolves_submitted (details : SubmissionCreate) (user : User) :
    s.Evolves (s.submitted env details user) where
  users := .refl User.Kept.refl
  submissions := by
    apply Table.Evolves.append Submission.Kept.refl (Int.le_add_one le_rfl)
    intro r hr
    rw [List.mem_singleton.mp hr]
    exact le_rfl
  testcases := .refl fun _ => rfl

theorem evolves_registered (new_user : UserCreate) :
    s.Evolves (s.registered lib env new_user) where
  users := by
    apply Table.Evolves.append User.Kept.refl (Int.le_add_one le_rfl)
    intro user huser
    rw [List.mem_singleton.mp huser]
    exact le_rfl
  submissions := .refl Submission.Kept.refl
  testcases := .refl fun _ => rfl

theorem evolves_created (form : ProblemForm) (tags : List Str) (c : CreateProblem.State) :
    s.Evolves (s.created form tags c) where
  users := .refl User.Kept.refl
  submissions := .refl Submission.Kept.refl
  testcases := by
    have hle : s.testcase_serial ≤
        s.testcase_serial + (c.testcases.drop s.testcases.length).length := by omega
    exact .append (fun _ => rfl) hle fun tc htc => le_of_mem_numbered htc

theorem evolves_updated {token : Option Token} {current_user user : User} {salt : Nat}
    {updates : UserUpdate} (hauth : getCurrentUser s.users env.now token = .ok current_user)
    (hchanged : changedUser lib salt s.users current_user updates = .ok user) :
    s.Evolves (s.setUser user) where
  users := by
    obtain ⟨_, payload, -, -, hfound⟩ := getCurrentUser_eq_ok.mp hauth
    have hcurrent : current_user ∈ s.users := (userById_eq_some hfound).1
    exact .replace User.Kept.refl hcurrent (changedUser_id hchanged) (User.kept_changed hchanged)
  submissions := .refl Submission.Kept.refl
  testcases := .refl fun _ => rfl

theorem evolves_of_effect {request : Request} (heffect : Effect lib env s request t) :
    s.Evolves t := by
  cases heffect with
  | unchanged => exact .refl s
  | @registered body new_user hvalid husername hemail => exact evolves_registered new_user
  | updated hauth hvalid hchanged => exact evolves_updated hauth hchanged
  | userDeleted hauth =>
      exact .of_subset (List.filter_subset_self ..) (List.filter_subset_self ..)
        (List.Subset.refl _)
        ⟨rfl, rfl, rfl⟩
  | @created token form c id tags testcases hnew hresume => exact evolves_created form tags c
  | problemDeleted =>
      exact .of_subset (List.Subset.refl _) (List.filter_subset_self ..)
        (List.filter_subset_self ..)
        ⟨rfl, rfl, rfl⟩
  | @submission token details current_user result t hauth houtcome =>
      have hsubmitted : s.Evolves (s.submitted env details current_user) :=
        evolves_submitted details current_user
      cases houtcome with
      | refused => exact .refl s
      | codeOnly => exact .of_eq rfl rfl rfl ⟨rfl, rfl, rfl⟩
      | notQueued => exact hsubmitted
      | queued => exact hsubmitted.trans (.of_eq rfl rfl rfl ⟨rfl, rfl, rfl⟩)
  | _ => exact .of_eq rfl rfl rfl ⟨rfl, rfl, rfl⟩

theorem evolves_promote (s : Store) (id : Int) : s.Evolves (s.promote id) where
  users := .map (fun u => u.promoted_id id) fun u => u.kept_promoted id
  submissions := .refl Submission.Kept.refl
  testcases := .refl fun _ => rfl

theorem evolves_setResult (s : Store) (id : Int) (result : Judge.JudgeWorker.SubmissionResult) :
    s.Evolves (s.setResult id result) where
  users := .refl User.Kept.refl
  submissions := .map (fun r => r.judged_id) fun r => r.kept_judged id result
  testcases := .refl fun _ => rfl

theorem evolves_of_step {a : Action} (hstep : step lib cfg st a = some st') :
    st.store.Evolves st'.store := by
  cases moves_of_step hstep with
  | request hnow htoken hserve heffect => exact evolves_of_effect heffect
  | promote id => exact evolves_promote st.store id
  | pick hjobs => exact .of_eq rfl rfl rfl ⟨rfl, rfl, rfl⟩
  | requeue hpicked => exact .of_eq rfl rfl rfl ⟨rfl, rfl, rfl⟩
  | @judged id result hpicked => exact evolves_setResult st.store id result

/-! ## Whole runs -/

theorem evolves_of_path (hpath : (system lib cfg).PathUnder ok st st') :
    st.store.Evolves st'.store := by
  apply System.PreservedUnder.path (I := fun st' => st.store.Evolves st'.store) ?_
    (.refl st.store) hpath
  intro u v a _ hu _ hstep
  exact hu.trans (evolves_of_step hstep)

/-- A row that a request adds has the next id. -/
theorem submissions_of_effect {request : Request} (heffect : Effect lib env s request t) :
    ∀ r ∈ t.submissions, r ∈ s.submissions ∨ r.id = s.submission_serial := by
  have hsubmitted (details : SubmissionCreate) (user : User) :
      ∀ r ∈ (s.submitted env details user).submissions, r ∈ s.submissions ∨
        r.id = s.submission_serial := by
    intro r hr
    apply (List.mem_append.mp hr).imp_right
    intro hrow
    rw [List.mem_singleton.mp hrow]
    rfl
  intro r hr
  cases heffect with
  | userDeleted hauth => exact .inl (List.mem_of_mem_filter hr)
  | problemDeleted => exact .inl (List.mem_of_mem_filter hr)
  | submission hauth houtcome =>
      cases houtcome with
      | notQueued => exact hsubmitted _ _ r hr
      | queued => exact hsubmitted _ _ r hr
      | _ => exact .inl hr
  | _ => exact .inl hr

/-- **Submissions are kept**: in every run, what a row says of the code, its language, its
problem, its author and its time stays until the row goes; and its id is not given out
again. -/
theorem submissions_kept (h : (system lib cfg).Reachable st)
    (hpath : (system lib cfg).PathUnder (fun _ _ => True) st st') :
    (∀ r ∈ st.store.submissions, ∀ r' ∈ st'.store.submissions, r'.id = r.id → r.Kept r') ∧
    ∀ id < st.store.submission_serial, (∀ r ∈ st.store.submissions, r.id ≠ id) →
      ∀ r' ∈ st'.store.submissions, r'.id ≠ id := by
  have hs : Consistent st.store := consistent_of_reachable h
  have hevolves := (evolves_of_path hpath).submissions
  refine ⟨?_, ?_⟩
  · intro r hr r' hr' hid
    exact hevolves.version hs.submission_ids hr (hs.serial r hr) hr' hid
  · intro id hdrawn hgone
    exact hevolves.gone hdrawn hgone

def judgement : List Action :=
  [.pick, .judged 1
    { submission_id := 1, verdict := .ACCEPTED, runtime_ms := some 0, memory_kb := some 9000 }]

theorem submissions_kept_judged :
    ∃ st st', (system plain halfHour).Reachable st ∧
      (system plain halfHour).PathUnder (fun _ _ => True) st st' ∧
      (∃ r ∈ st.store.submissions, ∃ r' ∈ st'.store.submissions, r'.id = r.id ∧
        r'.result .verdict ≠ r.result .verdict) ∧
      ∀ r ∈ st.store.submissions, ∀ r' ∈ st'.store.submissions, r'.id = r.id → r.Kept r' := by
  obtain ⟨st, st', hfirst, hlast, hverdict⟩ :=
    System.exists_path_then (system plain halfHour) (fun _ _ => True) start submissionRun judgement
      (fun st st' => ∃ r ∈ st.store.submissions, ∃ r' ∈ st'.store.submissions, r'.id = r.id ∧
        (r'.result .verdict : Judge.Verdict) ≠ (r.result .verdict : Judge.Verdict)) (by decide)
  have hreach : (system plain halfHour).Reachable st := ⟨_, rfl, hfirst⟩
  exact ⟨st, st', hreach, hlast, hverdict, (submissions_kept hreach hlast).1⟩

/-! ## Deleted accounts -/

theorem deleteCurrentUser_ok {token : Option Token} :
    (serve lib cfg env (.deleteCurrentUser token)).Ends s fun result t =>
      ∀ response, result = .ok response → ∃ user,
        getCurrentUser s.users env.now token = .ok user ∧ t = s.removeUser user.id := by
  apply ends_respond
  refine ends_withCurrentUser (fun _ _ h => by cases h) (fun _ _ _ h => by cases h)
    fun _ current_user hauth => ?_
  unfold deleteCurrentUser
  refine Environment.ends_call (fun _ _ h => by cases h) fun _ => ?_
  apply Handler.Ends.write
  intro _ _
  exact ⟨current_user, hauth, rfl⟩

def Request.needsUser : Request → Bool
  | .getCurrentUser _ | .updateCurrentUser _ _ | .deleteCurrentUser _ | .createTag _ _
  | .createProblem _ _ | .deleteProblem _ _ | .createSubmission _ _ => true
  | _ => false

/-- The same request with no token, where the user is optional. -/
def Request.anonymous : Request → Request
  | .getUser _ username => .getUser none username
  | .getProblems _ page limit => .getProblems none page limit
  | .getProblemById _ problem_id => .getProblemById none problem_id
  | .getSubmissions _ problem_id username page limit =>
      .getSubmissions none problem_id username page limit
  | request => request

section

variable {token : Option Token} {token_data : TokenPayload} {request : Request}

theorem respond_error {α : Type} {response : α → Response} {route : Route α} {e : Error}
    (h : route s = (.error e, t)) : respond response route s = (.error e, t) := by
  rw [respond, Handler.bind_apply, h]

theorem withCurrentUser_gone {α : Type} {route : User → Route α}
    (hverified : verifyAccessToken env.now token = .ok token_data)
    (hgone : userById s.users token_data.sub = none) :
    withCurrentUser env token route s =
      (.error (if env.raises .query = true then .server else credentialsException), s) := by
  unfold withCurrentUser
  rw [hverified, Handler.bind_apply, Handler.ofExcept_apply]
  dsimp only
  rw [Environment.call, Handler.bind_apply, Handler.refuseIf_apply]
  by_cases hraises : env.raises .query = true
  · rw [if_pos hraises, if_pos hraises]
  · rw [if_neg hraises, if_neg hraises]
    dsimp only
    rw [Handler.bind_apply, Handler.read_apply]
    dsimp only
    rw [tokenUser, hgone, Handler.bind_apply, Handler.ofExcept_apply]

theorem serve_gone (hneeds : request.needsUser = true)
    (hverified : verifyAccessToken env.now request.token = .ok token_data)
    (hgone : userById s.users token_data.sub = none) :
    serve lib cfg env request s =
      (.error (if env.raises .query = true then .server else credentialsException), s) := by
  cases request with
  | getCurrentUser | updateCurrentUser | deleteCurrentUser | createTag | createProblem
  | deleteProblem | createSubmission =>
      exact respond_error (withCurrentUser_gone hverified hgone)
  | _ => cases hneeds

/-- Where the user is optional, the token is as good as none. -/
theorem serve_anonymous (hverified : verifyAccessToken env.now request.token = .ok token_data)
    (hgone : userById s.users token_data.sub = none) :
    serve lib cfg env request s = serve lib cfg env request.anonymous s := by
  have huser : getOptionalCurrentUser s.users env.now request.token =
      getOptionalCurrentUser s.users env.now none := by
    rw [getOptionalCurrentUser, getCurrentUser, hverified]
    simp [bind, Except.bind, tokenUser, hgone, Except.toOption]
    rfl
  have hadmin : getOptionalCurrentAdmin s.users env.now request.token =
      getOptionalCurrentAdmin s.users env.now none := congrArg (Option.filter _) huser
  have hsame {α : Type} {response : α → Response} {route route' : Store → Except Error α}
      (h : route s = route' s) :
      respond response (reading route) s = respond response (reading route') s := by
    rw [respond_reading, respond_reading, h]
  cases request with
  | getUser token username =>
      apply hsame
      simp only [getUser, show getOptionalCurrentUser _ _ token = _ from huser]
  | getProblems token page limit =>
      apply hsame
      simp only [getProblems, show getOptionalCurrentAdmin _ _ token = _ from hadmin]
  | getProblemById token problem_id =>
      apply hsame
      simp only [getProblemById, show getOptionalCurrentAdmin _ _ token = _ from hadmin]
  | getSubmissions token problem_id username page limit =>
      apply hsame
      simp only [getSubmissions, show getOptionalCurrentUser _ _ token = _ from huser]
  | _ => rfl

end

/-- **A deleted account stays out**: whatever happens after it is deleted, every access token
that names it is refused by every route that needs a user, and is as good as none on the
others; no login gives out such a token; and no submission is its own.  Another account that
takes its username has another id. -/
theorem deleted_account_stays_out {token : Option Token} {current_user : User}
    {response : Response} {st'' : State} (h : (system lib cfg).Reachable st)
    (hauth : getCurrentUser st.store.users env.now token = .ok current_user)
    (hok : (serve lib cfg env (.deleteCurrentUser token) st.store).1 = .ok response)
    (hstep : step lib cfg st (.request env (.deleteCurrentUser token)) = some st')
    (hpath : (system lib cfg).PathUnder (fun _ _ => True) st' st'') :
    (∀ (env : Environment) (request : Request) token_data,
      verifyAccessToken env.now request.token = .ok token_data →
      token_data.sub = current_user.id →
        serve lib cfg env request st''.store =
          if request.needsUser = true then
            (.error (if env.raises .query = true then .server else credentialsException), st''.store)
          else serve lib cfg env request.anonymous st''.store) ∧
    (∀ env identifier password tokens,
      (login lib cfg env identifier password st''.store).1 = .ok tokens →
        ∃ id, id ≠ current_user.id ∧
          tokens = ⟨createAccessToken cfg env.now ⟨id⟩, createRefreshToken cfg env.now ⟨id⟩⟩) ∧
    ∀ r ∈ st''.store.submissions, r.user_id ≠ current_user.id := by
  have hremoved : st'.store = st.store.removeUser current_user.id := by
    cases moves_of_step hstep with
    | request hnow htoken hserve heffect =>
        obtain ⟨user, haccepted, hstore⟩ := deleteCurrentUser_ok response hok
        obtain rfl : user = current_user := Except.ok.inj (haccepted.symm.trans hauth)
        rw [hserve] at hstore
        exact hstore
  have hreach : (system lib cfg).Reachable st'' := by
    obtain ⟨s₀, h₀, hprefix⟩ := reachable_step h hstep
    exact ⟨s₀, h₀, hprefix.trans hpath⟩
  have hdrawn : current_user.id < st'.store.user_serial := by
    obtain ⟨_, payload, -, -, hfound⟩ := getCurrentUser_eq_ok.mp hauth
    rw [hremoved]
    exact (identified_of_reachable h).serial current_user (userById_eq_some hfound).1
  have hgone : ∀ user ∈ st''.store.users, user.id ≠ current_user.id := by
    apply (evolves_of_path hpath).users.gone hdrawn
    intro user huser
    rw [hremoved] at huser
    simpa using (List.mem_filter.mp huser).2
  refine ⟨?_, ?_, ?_⟩
  · intro env request token_data hverified hsub
    have hnone : userById st''.store.users token_data.sub = none := by
      apply List.find?_eq_none.mpr
      intro user huser
      simpa [hsub] using hgone user huser
    split
    case isTrue hneeds => exact serve_gone hneeds hverified hnone
    case isFalse => exact serve_anonymous hverified hnone
  · intro env identifier password tokens htokens
    obtain ⟨user, hfound, -, rfl⟩ := login_ok tokens htokens
    exact ⟨user.id, hgone user (userByLogin_eq_some hfound).1, rfl⟩
  · intro r hr heq
    obtain ⟨user, huser, hid⟩ := List.mem_map.mp ((consistent_of_reachable hreach).user_fk r hr)
    exact hgone user huser (hid.trans heq)

def registration : Action := .request (quiet 9 CreateProblem.zeros) (.register ann)

theorem exists_of_isOk {ε α : Type} {result : Except ε α} (h : result.isOk = true) :
    ∃ a, result = .ok a := by
  cases result with
  | error e => cases h
  | ok a => exact ⟨a, rfl⟩

theorem ok_of_toOption {ε α : Type} {result : Except ε α} {a : α}
    (h : result.toOption = some a) : result = .ok a := by
  cases result with
  | error e => cases h
  | ok b => exact congrArg _ (Option.some.inj h)

theorem deleted_account_stays_out_again :
    ∃ st'' : State, st''.store.users.map (·.username) = [ann.username] ∧
      serve plain halfHour (quiet 10 CreateProblem.ones) (.getCurrentUser (some annToken))
        st''.store = (.error credentialsException, st''.store) := by
  obtain ⟨st, hfirst, haccepted, hserved, hdeleted⟩ :=
    System.exists_path (system plain halfHour) (fun _ _ => True) start submissionRun
      (fun st =>
        (getCurrentUser st.store.users 8 (some annToken)).toOption.any (·.id == 1) = true ∧
        (serve plain halfHour (quiet 8 CreateProblem.ones) (.deleteCurrentUser (some annToken))
          st.store).1.isOk = true ∧
        (step plain halfHour st deletion).any (fun st' =>
          ((system plain halfHour).runUnder (fun _ _ => True) st' [registration]).any fun st'' =>
            decide (st''.store.users.map (·.username) = [ann.username])) = true) (by decide)
  have hreach : (system plain halfHour).Reachable st := ⟨_, rfl, hfirst⟩
  obtain ⟨st', hstep, hagain⟩ := (Option.any_eq_true _ _).mp hdeleted
  obtain ⟨st'', hlast, husernames⟩ := System.exists_path _ _ _ _ _ hagain
  obtain ⟨response, hresponse⟩ := exists_of_isOk hserved
  obtain ⟨current_user, hcurrent, hid⟩ := (Option.any_eq_true _ _).mp haccepted
  have hauth : getCurrentUser st.store.users (quiet 8 CreateProblem.ones).now (some annToken) =
      .ok current_user := ok_of_toOption hcurrent
  have hout := (deleted_account_stays_out hreach hauth hresponse hstep hlast).1
  have hverified : verifyAccessToken 10 (some annToken) = .ok ⟨1⟩ := by
    rw [verifyAccessToken, verifyToken_eq_ok]
    exact ⟨⟨['1'], accessType, 1800⟩, by decide, by decide, rfl, by decide⟩
  refine ⟨st'', husernames, ?_⟩
  have hsub : (1 : Int) = current_user.id := (eq_of_beq hid).symm
  exact hout (quiet 10 CreateProblem.ones) (.getCurrentUser (some annToken)) ⟨1⟩ hverified hsub

end ByteBattles.Api
