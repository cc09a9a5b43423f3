import ByteBattles.Api.Lifecycle

/-!
# Who may change what

An administrator changes the catalogue.  A user changes the own account, and the own
submissions come and go with the account.  Nobody becomes an administrator by a request.
-/

namespace ByteBattles.Api

open ByteBattles.Lib

variable {lib : Libraries} {cfg : Config} {env : Environment} {s t : Store}
  {st st' : State} {request : Request} {id : Int}

/-- The user whose access token the request presents. -/
def caller (s : Store) (env : Environment) (request : Request) : Option User :=
  (getCurrentUser s.users env.now request.token).toOption

def ByAdmin (caller : Option User) : Prop := ∃ user ∈ caller, user.user_type = .ADMIN

/-- A change of the store that the caller has the right to. -/
structure WithinRights (caller : Option User) (s t : Store) : Prop where
  /-- Problems, tags, testcases and their files are changed by administrators. -/
  catalogue : ByAdmin caller ∨ t.problems = s.problems ∧ t.categories = s.categories ∧
    t.testcases = s.testcases ∧ t.testcaseFiles = s.testcaseFiles
  /-- An account is changed or removed by its own user. -/
  accounts : ∀ user ∈ s.users, user ∈ t.users ∨ ∃ c ∈ caller, c.id = user.id
  /-- No account becomes an administrator's, and no new account is one. -/
  ranks : ∀ user ∈ t.users, user.user_type = .ADMIN →
    ∃ before ∈ s.users, before.id = user.id ∧ before.user_type = .ADMIN
  /-- A submission is unchanged, or goes with its problem or its author. -/
  kept : ∀ r ∈ s.submissions, r ∈ t.submissions ∨
    (ByAdmin caller ∧ r.problem_id ∉ t.problems.map (·.id)) ∨
    ((∃ c ∈ caller, c.id = r.user_id) ∧ r.user_id ∉ t.users.map (·.id))
  /-- A new submission is its caller's, pending, and to a problem that is shown. -/
  added : ∀ r ∈ t.submissions, r ∈ s.submissions ∨ (∃ c ∈ caller, c.id = r.user_id) ∧
    r.result = pendingRow ∧ (s.visibleProblem r.problem_id).isSome = true

theorem mem_caller {user : User} :
    user ∈ caller s env request ↔ getCurrentUser s.users env.now request.token = .ok user := by
  unfold caller
  cases getCurrentUser s.users env.now request.token with
  | error e => simp [Except.toOption]
  | ok found => simp [Except.toOption]

/-! ## One request -/

def Request.needsAdmin : Request → Bool
  | .createTag _ _ | .createProblem _ _ | .deleteProblem _ _ => true
  | _ => false

theorem byAdmin_of_getCurrentAdmin {user : User}
    (h : getCurrentAdmin s.users env.now request.token = .ok user) :
    ByAdmin (caller s env request) := by
  rw [getCurrentAdmin] at h
  cases hauth : getCurrentUser s.users env.now request.token with
  | error e => simp [hauth, bind, Except.bind] at h
  | ok found =>
      simp only [hauth, bind, Except.bind, adminOnly] at h
      split at h
      case isTrue => cases h
      case isFalse hadmin => exact ⟨found, mem_caller.mpr hauth, not_not.mp hadmin⟩

/-- A route of administrators does nothing for anyone else. -/
theorem ends_admin {α : Type} {response : α → Response} {route : User → Route α}
    (hserve : serve lib cfg env request =
      respond response (withCurrentAdmin env request.token route)) :
    (serve lib cfg env request).Ends s fun _ t => ByAdmin (caller s env request) ∨ t = s := by
  rw [hserve]
  apply ends_respond
  refine ends_withCurrentAdmin (fun _ => .inr rfl) (fun _ _ => .inr rfl) fun _ user hadmin => ?_
  exact .inl (byAdmin_of_getCurrentAdmin hadmin)

theorem serve_needsAdmin (hneeds : request.needsAdmin = true) :
    (serve lib cfg env request).Ends s fun _ t => ByAdmin (caller s env request) ∨ t = s := by
  cases request with
  | createTag token tag => exact ends_admin rfl
  | createProblem token form => exact ends_admin rfl
  | deleteProblem token problem_id => exact ends_admin rfl
  | _ => cases hneeds

variable {c : Option User}

theorem WithinRights.refl (s : Store) : WithinRights c s s where
  catalogue := .inr ⟨rfl, rfl, rfl, rfl⟩
  accounts := fun _ huser => .inl huser
  ranks := fun user huser hadmin => ⟨user, huser, rfl, hadmin⟩
  kept := fun _ hr => .inl hr
  added := fun _ hr => .inl hr

theorem WithinRights.of_admin (hadmin : ByAdmin c) (husers : t.users = s.users)
    (hsubmissions : t.submissions ⊆ s.submissions)
    (hgone : ∀ r ∈ s.submissions, r ∈ t.submissions ∨ r.problem_id ∉ t.problems.map (·.id)) :
    WithinRights c s t where
  catalogue := .inl hadmin
  accounts := fun _ huser => .inl (husers ▸ huser)
  ranks := fun user huser h => ⟨user, husers ▸ huser, rfl, h⟩
  kept := fun r hr => (hgone r hr).imp_right fun hproblem => .inl ⟨hadmin, hproblem⟩
  added := fun _ hr => .inl (hsubmissions hr)

theorem withinRights_registered (new_user : UserCreate) :
    WithinRights c s (s.registered lib env new_user) where
  catalogue := .inr ⟨rfl, rfl, rfl, rfl⟩
  accounts := fun _ huser => .inl (List.mem_append_left _ huser)
  ranks := by
    intro user huser hadmin
    apply (List.mem_append.mp huser).elim
    · intro hold
      exact ⟨user, hold, rfl, hadmin⟩
    · intro hnew
      rw [List.mem_singleton.mp hnew] at hadmin
      cases hadmin
  kept := fun _ hr => .inl hr
  added := fun _ hr => .inl hr

theorem withinRights_updated {current_user user : User} {salt : Nat} {updates : UserUpdate}
    (hcurrent : current_user ∈ s.users) (hcaller : current_user ∈ c)
    (hchanged : changedUser lib salt s.users current_user updates = .ok user) :
    WithinRights c s (s.setUser user) where
  catalogue := .inr ⟨rfl, rfl, rfl, rfl⟩
  accounts := by
    intro before hbefore
    by_cases hid : before.id = user.id
    · exact .inr ⟨current_user, hcaller, (changedUser_id hchanged).symm.trans hid.symm⟩
    · refine .inl (List.mem_map.mpr ⟨before, hbefore, if_neg hid⟩)
  ranks := by
    intro after hafter hadmin
    apply (Table.mem_replace hafter).elim
    · rintro rfl
      obtain ⟨_, -, -, -, hrow⟩ := changedUser_eq_ok hchanged
      rw [hrow] at hadmin
      exact ⟨current_user, hcurrent, (changedUser_id hchanged).symm, hadmin⟩
    · intro hold
      exact ⟨after, hold.1, rfl, hadmin⟩
  kept := fun _ hr => .inl hr
  added := fun _ hr => .inl hr

theorem withinRights_removeUser {current_user : User} (hcaller : current_user ∈ c) :
    WithinRights c s (s.removeUser current_user.id) where
  catalogue := .inr ⟨rfl, rfl, rfl, rfl⟩
  accounts := by
    intro user huser
    by_cases hid : user.id = current_user.id
    · exact .inr ⟨current_user, hcaller, hid.symm⟩
    · exact .inl (List.mem_filter.mpr ⟨huser, by simpa using hid⟩)
  ranks := fun user huser hadmin => ⟨user, List.mem_of_mem_filter huser, rfl, hadmin⟩
  kept := by
    intro r hr
    by_cases hid : r.user_id = current_user.id
    · refine .inr (.inr ⟨⟨current_user, hcaller, hid.symm⟩, ?_⟩)
      rintro huser
      obtain ⟨user, hleft, hsame⟩ := List.mem_map.mp huser
      have hne : user.id ≠ current_user.id := by simpa using (List.mem_filter.mp hleft).2
      exact hne (hsame.trans hid)
    · exact .inl (List.mem_filter.mpr ⟨hr, by simpa using hid⟩)
  added := fun _ hr => .inl (List.mem_of_mem_filter hr)

theorem submission_of_removeProblem {problem_id : Str} {r : Submission} (hr : r ∈ s.submissions) :
    r ∈ (s.removeProblem problem_id).submissions ∨
      r.problem_id ∉ (s.removeProblem problem_id).problems.map (·.id) := by
  by_cases hid : r.problem_id = problem_id
  · refine .inr fun hproblem => ?_
    obtain ⟨problem, hleft, hsame⟩ := List.mem_map.mp hproblem
    have hne : problem.id ≠ problem_id := by simpa using (List.mem_filter.mp hleft).2
    exact hne (hsame.trans hid)
  · exact .inl (List.mem_filter.mpr ⟨hr, by simpa using hid⟩)

/-- Code and jobs give nobody any rights. -/
theorem WithinRights.of_eq {u : Store} (h : WithinRights c s t) (husers : u.users = t.users)
    (hsubmissions : u.submissions = t.submissions)
    (hcatalogue : u.problems = t.problems ∧ u.categories = t.categories ∧
      u.testcases = t.testcases ∧ u.testcaseFiles = t.testcaseFiles) : WithinRights c s u where
  catalogue := by
    rw [hcatalogue.1, hcatalogue.2.1, hcatalogue.2.2.1, hcatalogue.2.2.2]
    exact h.catalogue
  accounts := by
    rw [husers]
    exact h.accounts
  ranks := by
    rw [husers]
    exact h.ranks
  kept := by
    rw [hsubmissions, husers, hcatalogue.1]
    exact h.kept
  added := by
    rw [hsubmissions]
    exact h.added

theorem withinRights_submitted {details : SubmissionCreate} {current_user : User}
    {problem : Problem} (hcaller : current_user ∈ c)
    (hproblem : s.visibleProblem details.problem_id = some problem) :
    WithinRights c s (s.submitted env details current_user) where
  catalogue := .inr ⟨rfl, rfl, rfl, rfl⟩
  accounts := fun _ huser => .inl huser
  ranks := fun user huser hadmin => ⟨user, huser, rfl, hadmin⟩
  kept := fun _ hr => .inl (List.mem_append_left _ hr)
  added := by
    intro r hr
    apply (List.mem_append.mp hr).imp_right
    intro hnew
    rw [List.mem_singleton.mp hnew]
    refine ⟨⟨current_user, hcaller, rfl⟩, rfl, ?_⟩
    show (s.visibleProblem details.problem_id).isSome = true
    rw [hproblem]
    rfl

theorem withinRights_of_effect (heffect : Effect lib env s request t)
    (hadmin : request.needsAdmin = true → ByAdmin (caller s env request) ∨ t = s) :
    WithinRights (caller s env request) s t := by
  have hcatalogue (hneeds : request.needsAdmin = true) (husers : t.users = s.users)
      (hsubmissions : t.submissions ⊆ s.submissions)
      (hgone : ∀ r ∈ s.submissions, r ∈ t.submissions ∨ r.problem_id ∉ t.problems.map (·.id)) :
      WithinRights (caller s env request) s t := by
    apply (hadmin hneeds).elim
    · intro hby
      exact .of_admin hby husers hsubmissions hgone
    · rintro rfl
      exact .refl t
  cases heffect with
  | unchanged => exact .refl s
  | @registered body new_user hvalid husername hemail => exact withinRights_registered new_user
  | updated hauth hvalid hchanged =>
      obtain ⟨_, payload, -, -, hfound⟩ := getCurrentUser_eq_ok.mp hauth
      exact withinRights_updated (userById_eq_some hfound).1 (mem_caller.mpr hauth) hchanged
  | userDeleted hauth => exact withinRights_removeUser (mem_caller.mpr hauth)
  | problemDeleted =>
      refine hcatalogue rfl rfl (List.filter_subset_self ..) fun r hr => ?_
      exact submission_of_removeProblem hr
  | @submission token details current_user result t hauth houtcome =>
      have hcaller : current_user ∈ caller s env (.createSubmission token details) :=
        mem_caller.mpr hauth
      cases houtcome with
      | refused => exact .refl s
      | codeOnly => exact (WithinRights.refl s).of_eq rfl rfl ⟨rfl, rfl, rfl, rfl⟩
      | notQueued _ hproblem => exact withinRights_submitted hcaller hproblem
      | queued hproblem =>
          exact (withinRights_submitted hcaller hproblem).of_eq rfl rfl ⟨rfl, rfl, rfl, rfl⟩
  | _ => exact hcatalogue rfl rfl (List.Subset.refl _) fun _ hr => .inl hr

/-- **Requests keep within rights**: whatever the request, the store, the time and the calls
that raise, the store changes only as its caller has the right to. -/
theorem requests_within_rights (lib : Libraries) (cfg : Config) (env : Environment) (s : Store)
    (request : Request) :
    (serve lib cfg env request).Ends s fun _ t => WithinRights (caller s env request) s t := by
  have heffect : (serve lib cfg env request).Ends s fun _ t => Effect lib env s request t :=
    serve_effect request
  exact withinRights_of_effect heffect fun hneeds => serve_needsAdmin hneeds

/-! ## Whole runs -/

/-- The request is made by neither the user nor an administrator, and no operator makes the
user one. -/
def Leaves (id : Int) (st : State) : Action → Prop
  | .request env request =>
      ∀ c ∈ caller st.store env request, c.id ≠ id ∧ c.user_type ≠ .ADMIN
  | .promote k => k ≠ id
  | _ => True

instance (id : Int) (st : State) : DecidablePred (Leaves id st)
  | .request env request =>
      inferInstanceAs (Decidable (∀ c ∈ caller st.store env request, _))
  | .promote _ => inferInstanceAs (Decidable (¬ _))
  | .pick | .requeue _ | .judged _ _ => isTrue trivial

/-- The catalogue, the account and its submissions are in `t` as in `s`, but for results. -/
structure Untouched (id : Int) (s t : Store) : Prop where
  catalogue : t.problems = s.problems ∧ t.categories = s.categories ∧
    t.testcases = s.testcases ∧ t.testcaseFiles = s.testcaseFiles
  account : ∀ user ∈ s.users, user.id = id → user ∈ t.users
  submissions : ∀ r ∈ s.submissions, r.user_id = id → ∃ r' ∈ t.submissions, r'.id = r.id ∧ r.Kept r'
  no_more : ∀ r' ∈ t.submissions, r'.user_id = id → ∃ r ∈ s.submissions, r.id = r'.id ∧ r.Kept r'

theorem Untouched.refl (s : Store) : Untouched id s s where
  catalogue := ⟨rfl, rfl, rfl, rfl⟩
  account := fun _ huser _ => huser
  submissions := fun r hr _ => ⟨r, hr, rfl, .refl r⟩
  no_more := fun r hr _ => ⟨r, hr, rfl, .refl r⟩

theorem Untouched.trans {u : Store} (h : Untouched id s t) (h' : Untouched id t u) :
    Untouched id s u where
  catalogue := ⟨h'.catalogue.1.trans h.catalogue.1, h'.catalogue.2.1.trans h.catalogue.2.1,
    h'.catalogue.2.2.1.trans h.catalogue.2.2.1, h'.catalogue.2.2.2.trans h.catalogue.2.2.2⟩
  account := fun user huser hid => h'.account user (h.account user huser hid) hid
  submissions := by
    intro r hr hid
    obtain ⟨r', hr', hsame, hkept⟩ := h.submissions r hr hid
    obtain ⟨r'', hr'', hsame', hkept'⟩ := h'.submissions r' hr' (hkept.user_id.trans hid)
    exact ⟨r'', hr'', hsame'.trans hsame, hkept.trans hkept'⟩
  no_more := by
    intro r'' hr'' hid
    obtain ⟨r', hr', hsame', hkept'⟩ := h'.no_more r'' hr'' hid
    obtain ⟨r, hr, hsame, hkept⟩ := h.no_more r' hr' (hkept'.user_id.symm.trans hid)
    exact ⟨r, hr, hsame.trans hsame', hkept.trans hkept'⟩

theorem untouched_of_withinRights {c : Option User} (h : WithinRights c s t)
    (hleaves : ∀ user ∈ c, user.id ≠ id ∧ user.user_type ≠ .ADMIN) : Untouched id s t := by
  have hnot : ¬ ByAdmin c := by
    rintro ⟨user, huser, hadmin⟩
    exact (hleaves user huser).2 hadmin
  have hother : ¬ ∃ user ∈ c, user.id = id := by
    rintro ⟨user, huser, hid⟩
    exact (hleaves user huser).1 hid
  constructor
  · exact h.catalogue.resolve_left hnot
  · rintro user huser rfl
    exact (h.accounts user huser).resolve_right hother
  · rintro r hr rfl
    have hkept := (h.kept r hr).resolve_right fun hgone =>
      hgone.elim (fun hadmin => hnot hadmin.1) fun hauthor => hother hauthor.1
    exact ⟨r, hkept, rfl, .refl r⟩
  · rintro r hr rfl
    have hold := (h.added r hr).resolve_right fun hnew => hother hnew.1
    exact ⟨r, hold, rfl, .refl r⟩

theorem untouched_promote {k : Int} (hne : k ≠ id) : Untouched id s (s.promote k) where
  catalogue := ⟨rfl, rfl, rfl, rfl⟩
  account := by
    rintro user huser rfl
    exact List.mem_map.mpr ⟨user, huser, if_neg fun heq => hne heq.symm⟩
  submissions := fun r hr _ => ⟨r, hr, rfl, .refl r⟩
  no_more := fun r hr _ => ⟨r, hr, rfl, .refl r⟩

theorem untouched_setResult (k : Int) (result : Judge.JudgeWorker.SubmissionResult) :
    Untouched id s (s.setResult k result) where
  catalogue := ⟨rfl, rfl, rfl, rfl⟩
  account := fun _ huser _ => huser
  submissions := by
    intro r hr _
    rw [setResult_submissions]
    exact ⟨r.judged k result, List.mem_map_of_mem hr, r.judged_id, r.kept_judged k result⟩
  no_more := by
    intro r' hr' _
    rw [setResult_submissions] at hr'
    obtain ⟨r, hr, rfl⟩ := List.mem_map.mp hr'
    exact ⟨r, hr, r.judged_id.symm, r.kept_judged k result⟩

theorem untouched_jobs (jobs : List Str) : Untouched id s { s with jobs := jobs } where
  catalogue := ⟨rfl, rfl, rfl, rfl⟩
  account := fun _ huser _ => huser
  submissions := fun r hr _ => ⟨r, hr, rfl, .refl r⟩
  no_more := fun r hr _ => ⟨r, hr, rfl, .refl r⟩

theorem untouched_of_step {a : Action} (hleaves : Leaves id st a)
    (hstep : step lib cfg st a = some st') : Untouched id st.store st'.store := by
  cases moves_of_step hstep with
  | @request env request result store hnow htoken hserve heffect =>
      have hrights := withinRights_of_effect heffect fun hneeds =>
        (serve_needsAdmin hneeds).of_eq hserve
      exact untouched_of_withinRights hrights hleaves
  | promote k => exact untouched_promote hleaves
  | @pick jobs payload hjobs => exact untouched_jobs jobs
  | @requeue payload hpicked => exact untouched_jobs (payload :: st.store.jobs)
  | judged result hpicked => exact untouched_setResult _ result

/-- **Nothing changes behind one's back**: along every path whose requests are made neither
by the user nor by an administrator, the catalogue, the account and its submissions stay,
but for the results that workers store. -/
theorem untouched_by_others (hpath : (system lib cfg).PathUnder (Leaves id) st st') :
    Untouched id st.store st'.store := by
  apply System.PreservedUnder.path (I := fun st' => Untouched id st.store st'.store) ?_
    (.refl st.store) hpath
  intro u v a _ hu hleaves hstep
  exact hu.trans (untouched_of_step hleaves hstep)

/-! ## Administrators -/

def Promotes (id : Int) : Action → Prop
  | .promote k => k = id
  | _ => False

instance (id : Int) : DecidablePred (Promotes id)
  | .promote _ => inferInstanceAs (Decidable (_ = _))
  | .request _ _ | .pick | .requeue _ | .judged _ _ => isFalse not_false

theorem rank_of_step {a : Action} (hstep : step lib cfg st a = some st')
    (hpromotes : ¬ Promotes id a) {user : User} (huser : user ∈ st'.store.users)
    (hid : user.id = id) (hadmin : user.user_type = .ADMIN) :
    ∃ before ∈ st.store.users, before.id = id ∧ before.user_type = .ADMIN := by
  cases moves_of_step hstep with
  | @request env request result store hnow htoken hserve heffect =>
      have hrights := withinRights_of_effect heffect fun hneeds =>
        (serve_needsAdmin hneeds).of_eq hserve
      obtain ⟨before, hbefore, hsame, hrank⟩ := hrights.ranks user huser hadmin
      exact ⟨before, hbefore, hsame.trans hid, hrank⟩
  | promote k =>
      obtain ⟨before, hbefore, rfl⟩ := List.mem_map.mp huser
      change (before.promoted k).id = id at hid
      change (before.promoted k).user_type = .ADMIN at hadmin
      rw [User.promoted_id] at hid
      have hother : before.id ≠ k := fun heq => hpromotes (heq.symm.trans hid)
      rw [User.promoted, if_neg hother] at hadmin
      exact ⟨before, hbefore, hid, hadmin⟩
  | pick hjobs => exact ⟨user, huser, hid, hadmin⟩
  | requeue hpicked => exact ⟨user, huser, hid, hadmin⟩
  | judged result hpicked => exact ⟨user, huser, hid, hadmin⟩

/-- **Operators make the administrators**: an administrator whom no operator has promoted on
the way was one before; no sequence of requests makes one. -/
theorem promoted_by_operators
    (hpath : (system lib cfg).PathUnder (fun _ a => ¬ Promotes id a) st st') {user : User}
    (huser : user ∈ st'.store.users) (hid : user.id = id) (hadmin : user.user_type = .ADMIN) :
    ∃ before ∈ st.store.users, before.id = id ∧ before.user_type = .ADMIN := by
  have hrun : ∀ user ∈ st'.store.users, user.id = id → user.user_type = .ADMIN →
      ∃ before ∈ st.store.users, before.id = id ∧ before.user_type = .ADMIN := by
    apply System.PreservedUnder.path (I := fun st' => ∀ user ∈ st'.store.users, user.id = id →
      user.user_type = .ADMIN → ∃ before ∈ st.store.users, before.id = id ∧
        before.user_type = .ADMIN) ?_ ?_ hpath
    rotate_left
    · intro user huser hid hadmin
      exact ⟨user, huser, hid, hadmin⟩
    intro u v a _ hu hallowed hstep user huser hid hadmin
    obtain ⟨before, hbefore, hsame, hrank⟩ := rank_of_step hstep hallowed huser hid hadmin
    exact hu before hbefore hsame hrank
  exact hrun user huser hid hadmin

/-! ## Two users -/

/-- Another user signs up and changes the own address, and a worker judges the submission. -/
def othersRun : List Action :=
  [.request (quiet 8 CreateProblem.ones)
      (.register { ann with username := "bob".toList, email := "bob@x".toList }),
    .request (quiet 9 CreateProblem.ones) (.login "bob".toList ann.password),
    .request (quiet 10 CreateProblem.ones)
      (.updateCurrentUser (some (createAccessToken halfHour 9 ⟨2⟩))
        ⟨none, some "b@x".toList, none, none⟩)] ++ judgement

theorem untouched_by_others_judged :
    ∃ st st' : State, st'.store.users.map (·.email) = ["ann@x".toList, "b@x".toList] ∧
      (∃ user ∈ st.store.users, user.id = 1) ∧ Untouched 1 st.store st'.store := by
  obtain ⟨st, hfirst, huser, hrest⟩ :=
    System.exists_path (system plain halfHour) (fun _ _ => True) start submissionRun
      (fun st => (∃ user ∈ st.store.users, user.id = 1) ∧
        ((system plain halfHour).runUnder (Leaves 1) st othersRun).any (fun st' =>
          decide (st'.store.users.map (·.email) = ["ann@x".toList, "b@x".toList])) = true)
      (by decide +kernel)
  obtain ⟨st', hpath, hemails⟩ := System.exists_path _ _ _ _ _ hrest
  exact ⟨st, st', hemails, huser, untouched_by_others hpath⟩

theorem promoted_by_operators_others :
    ∃ st st' : State, (∃ user ∈ st'.store.users, user.id = 2) ∧
      ∃ before ∈ st.store.users, before.id = 1 ∧ before.user_type = .ADMIN := by
  obtain ⟨st, hfirst, hrest⟩ :=
    System.exists_path (system plain halfHour) (fun _ _ => True) start submissionRun
      (fun st => ((system plain halfHour).runUnder (fun _ a => ¬ Promotes 1 a) st othersRun).any
        (fun st' => decide ((∃ user ∈ st'.store.users, user.id = 2) ∧
          ∃ user ∈ st'.store.users, user.id = 1 ∧ user.user_type = .ADMIN)) = true)
      (by decide +kernel)
  obtain ⟨st', hpath, hother, user, huser, hid, hadmin⟩ := System.exists_path _ _ _ _ _ hrest
  exact ⟨st, st', hother, promoted_by_operators hpath huser hid hadmin⟩

end ByteBattles.Api
