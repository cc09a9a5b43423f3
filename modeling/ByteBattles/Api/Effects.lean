import ByteBattles.Api.CreateProblem.Uploads
import ByteBattles.Api.Service

/-!
# What a request does to the store

`Effect` lists the stores in which a request can end, with what it has checked on the
way and the call that ended it early.  The invariants of the service are case analyses
over it.
-/

namespace ByteBattles.Api

open ByteBattles.Lib

variable {lib : Libraries} {cfg : Config} {env : Environment} {s : Store}

/-! ## The stores between two calls -/

def Store.registered (s : Store) (lib : Libraries) (env : Environment) (new_user : UserCreate) :
    Store :=
  s.addUser (s.newUser env.now new_user.username.text new_user.email.text
    (lib.hash env.salt new_user.password.text))

def submissionKey (env : Environment) (details : SubmissionCreate) : Str :=
  codeObjectKey (EXTENSIONS details.language) env.uuid

def Store.uploaded (s : Store) (env : Environment) (details : SubmissionCreate) : Store :=
  s.putCode (submissionKey env details) (Utf8.encode details.code)

def Store.inserted (s : Store) (env : Environment) (details : SubmissionCreate) (user : User) :
    Submission :=
  s.newSubmission env.now user details (submissionKey env details)

def Store.submitted (s : Store) (env : Environment) (details : SubmissionCreate) (user : User) :
    Store :=
  (s.uploaded env details).addSubmission (s.inserted env details user)

def Store.enqueued (s : Store) (env : Environment) (details : SubmissionCreate) (user : User) :
    Store :=
  (s.submitted env details user).enqueueJob s.submission_serial

def Store.deleteCodes (s : Store) (keys : List Str) : Store :=
  { s with submissionFiles := s.submissionFiles.deleteObjects keys }

def Store.emptied (s : Store) (problem_id : Str) : Store :=
  (s.deleteCodes (s.codeKeysOf problem_id)).setTestcaseFiles
    (deleteProblemFolder s.testcaseFiles problem_id)

def Store.created (s : Store) (form : ProblemForm) (tags : List Str) (t : CreateProblem.State) :
    Store :=
  (s.setTestcaseFiles t.bucket).addProblem (form.problem tags)
    (t.testcases.drop s.testcases.length)

inductive CreationOutcome (env : Environment) (s : Store) (form : ProblemForm) {α : Type} :
    Except Error α → Store → Prop
  | refused (e : Error) : CreationOutcome env s form (.error e) s
  /-- The handler has run, or raised. -/
  | failed {e : Error} {t : CreateProblem.State} {status_code : Nat} {detail : String}
      (hresume : CreateProblem.resume s.categories env.bundle s.creation form.toRequest =
        (t, .error status_code detail)) :
      CreationOutcome env s form (.error e) (s.setTestcaseFiles t.bucket)
  | created {a : α} {t : CreateProblem.State} {id : Str} {tags : List Str} {testcases : Nat}
      (hnew : form.id ∉ s.problems.map (·.id))
      (hresume : CreateProblem.resume s.categories env.bundle s.creation form.toRequest =
        (t, .created id tags testcases)) :
      CreationOutcome env s form (.ok a) (s.created form tags t)

inductive SubmissionOutcome (env : Environment) (s : Store) (details : SubmissionCreate)
    (current_user : User) : Except Error SubmissionResponse → Store → Prop
  | refused {e : Error} (hrefused : env.raises .query = true ∨
        s.visibleProblem details.problem_id = none ∨ env.raises .putObject = true) :
      SubmissionOutcome env s details current_user (.error e) s
  | codeOnly {e : Error} {problem : Problem} (hquery : env.raises .query = false)
      (hproblem : s.visibleProblem details.problem_id = some problem)
      (hput : env.raises .putObject = false)
      (hraises : env.raises .commit = true ∨ s.HasKey (submissionKey env details)) :
      SubmissionOutcome env s details current_user (.error e) (s.uploaded env details)
  | notQueued {e : Error} {problem : Problem} (hquery : env.raises .query = false)
      (hproblem : s.visibleProblem details.problem_id = some problem)
      (hput : env.raises .putObject = false) (hcommit : env.raises .commit = false)
      (hnew : ¬ s.HasKey (submissionKey env details))
      (hraises : env.raises .refresh = true ∨ env.raises .enqueueJob = true) :
      SubmissionOutcome env s details current_user (.error e)
        (s.submitted env details current_user)
  | queued {result : Except Error SubmissionResponse} {problem : Problem}
      (hproblem : s.visibleProblem details.problem_id = some problem)
      (hcommit : env.raises .commit = false) (hnew : ¬ s.HasKey (submissionKey env details))
      (hrefresh : env.raises .refresh = false) (henqueue : env.raises .enqueueJob = false) :
      SubmissionOutcome env s details current_user result (s.enqueued env details current_user)

inductive DeletionOutcome (env : Environment) (s : Store) (problem_id : Str) :
    Except Error Unit → Store → Prop
  | missing {e : Error} (hproblem : s.problemById problem_id = none) :
      DeletionOutcome env s problem_id (.error e) s
  | file {e : Error} {problem : Problem} {k : Nat}
      (hproblem : s.problemById problem_id = some problem)
      (hlt : k < (s.codeKeysOf problem_id).length)
      (hbefore : ∀ i < k, env.raises (.deleteFile i) = false)
      (hraises : env.raises (.deleteFile k) = true) :
      DeletionOutcome env s problem_id (.error e)
        (s.deleteCodes ((s.codeKeysOf problem_id).take k))
  | folder {e : Error} {problem : Problem} (hproblem : s.problemById problem_id = some problem)
      (hfiles : ∀ i < (s.codeKeysOf problem_id).length, env.raises (.deleteFile i) = false)
      (hraises : env.raises .deleteFolder = true) :
      DeletionOutcome env s problem_id (.error e) (s.deleteCodes (s.codeKeysOf problem_id))
  | row {e : Error} {problem : Problem} (hproblem : s.problemById problem_id = some problem)
      (hfiles : ∀ i < (s.codeKeysOf problem_id).length, env.raises (.deleteFile i) = false)
      (hfolder : env.raises .deleteFolder = false)
      (hraises : env.raises .delete = true ∨ env.raises .commit = true) :
      DeletionOutcome env s problem_id (.error e) (s.emptied problem_id)
  | deleted : DeletionOutcome env s problem_id (.ok ())
      ((s.emptied problem_id).removeProblem problem_id)

inductive Effect (lib : Libraries) (env : Environment) (s : Store) : Request → Store → Prop
  | unchanged (request : Request) : Effect lib env s request s
  | registered {body : UserCreateBody} {new_user : UserCreate}
      (hvalid : body.validate lib = some new_user)
      (husername : userByUsername s.users new_user.username.text = none)
      (hemail : userByEmail s.users new_user.email.text = none) :
      Effect lib env s (.register body) (s.registered lib env new_user)
  | updated {token : Option Token} {body : UserUpdateBody} {updates : UserUpdate}
      {current_user user : User}
      (hauth : getCurrentUser s.users env.now token = .ok current_user)
      (hvalid : body.validate lib = some updates)
      (hchanged : changedUser lib env.salt s.users current_user updates = .ok user) :
      Effect lib env s (.updateCurrentUser token body) (s.setUser user)
  | userDeleted {token : Option Token} {current_user : User}
      (hauth : getCurrentUser s.users env.now token = .ok current_user) :
      Effect lib env s (.deleteCurrentUser token) (s.removeUser current_user.id)
  | tagged {token : Option Token} {tag : TagCreate} (hnew : tag.slug ∉ s.categories) :
      Effect lib env s (.createTag token tag)
        { s with categories := s.categories ++ [tag.slug] }
  /-- The handler has run, or raised. -/
  | creationFailed {token : Option Token} {form : ProblemForm} {t : CreateProblem.State}
      {status_code : Nat} {detail : String}
      (hresume : CreateProblem.resume s.categories env.bundle s.creation form.toRequest =
        (t, .error status_code detail)) :
      Effect lib env s (.createProblem token form) (s.setTestcaseFiles t.bucket)
  | created {token : Option Token} {form : ProblemForm} {t : CreateProblem.State} {id : Str}
      {tags : List Str} {testcases : Nat} (hnew : form.id ∉ s.problems.map (·.id))
      (hresume : CreateProblem.resume s.categories env.bundle s.creation form.toRequest =
        (t, .created id tags testcases)) :
      Effect lib env s (.createProblem token form) (s.created form tags t)
  | filesDeleted {token : Option Token} {problem_id : Str} (n : Nat)
      (hraises : env.raises (.deleteFile n) = true) :
      Effect lib env s (.deleteProblem token problem_id)
        (s.deleteCodes ((s.codeKeysOf problem_id).take n))
  | allFilesDeleted {token : Option Token} {problem_id : Str}
      (hraises : env.raises .deleteFolder = true) :
      Effect lib env s (.deleteProblem token problem_id)
        (s.deleteCodes (s.codeKeysOf problem_id))
  | folderDeleted {token : Option Token} {problem_id : Str}
      (hraises : env.raises .delete = true ∨ env.raises .commit = true) :
      Effect lib env s (.deleteProblem token problem_id) (s.emptied problem_id)
  | problemDeleted {token : Option Token} {problem_id : Str} :
      Effect lib env s (.deleteProblem token problem_id)
        ((s.emptied problem_id).removeProblem problem_id)
  | submission {token : Option Token} {details : SubmissionCreate} {current_user : User}
      {result : Except Error SubmissionResponse} {t : Store}
      (hauth : getCurrentUser s.users env.now token = .ok current_user)
      (houtcome : SubmissionOutcome env s details current_user result t) :
      Effect lib env s (.createSubmission token details) t

/-! ## Dependencies -/

section

variable {α : Type} {token : Option Token} {route : User → Route α}
  {P : Except Error α → Store → Prop}

theorem ends_withCurrentUser (hquery : env.raises .query = true → P (.error .server) s)
    (herror : ∀ e, getCurrentUser s.users env.now token = .error e → P (.error e) s)
    (hroute : env.raises .query = false → ∀ current_user,
      getCurrentUser s.users env.now token = .ok current_user → (route current_user).Ends s P) :
    (withCurrentUser env token route).Ends s P := by
  have hbind (token_data : TokenPayload)
      (hverified : verifyAccessToken env.now token = .ok token_data) :
      getCurrentUser s.users env.now token = tokenUser s.users token_data := by
    rw [getCurrentUser, hverified]
    rfl
  refine Handler.Ends.ofExcept_bind (fun e hrejected => ?_) fun token_data hverified => ?_
  · apply herror
    rw [getCurrentUser, hrejected]
    rfl
  · rw [hbind token_data hverified] at herror hroute
    refine Environment.ends_call hquery fun hreturns => ?_
    apply Handler.Ends.read_bind
    exact Handler.Ends.ofExcept_bind herror (hroute hreturns)

theorem ends_withCurrentAdmin (hquery : env.raises .query = true → P (.error .server) s)
    (herror : ∀ e, getCurrentAdmin s.users env.now token = .error e → P (.error e) s)
    (hroute : env.raises .query = false → ∀ current_user,
      getCurrentAdmin s.users env.now token = .ok current_user → (route current_user).Ends s P) :
    (withCurrentAdmin env token route).Ends s P := by
  refine ends_withCurrentUser hquery (fun e hrejected => ?_) fun hreturns user haccepted => ?_
  · apply herror
    rw [getCurrentAdmin, hrejected]
    rfl
  · have hadmin : getCurrentAdmin s.users env.now token = adminOnly user := by
      rw [getCurrentAdmin, haccepted]
      rfl
    rw [hadmin] at herror hroute
    exact Handler.Ends.ofExcept_bind herror (hroute hreturns)

theorem ends_reading {f : Store → Except Error α} (h : P (f s) s) :
    (reading f).Ends s P := h

theorem ends_respond {response : α → Response} {m : Route α}
    {P : Except Error Response → Store → Prop} (h : m.Ends s fun r t => P (r.map response) t) :
    (respond response m).Ends s P :=
  Handler.Ends.bind h (fun _ _ h => h) fun _ _ h => h

end

/-! ## One route after the other -/

theorem register_ends (body : UserCreateBody) :
    (register lib env body).Ends s fun _ t => Effect lib env s (.register body) t := by
  unfold register
  refine ends_parsed (.unchanged _) fun new_user hvalid => ?_
  refine Handler.Ends.refuseIf_bind (fun _ => .unchanged _) fun _ => ?_
  refine Environment.ends_call (fun _ => .unchanged _) fun _ => ?_
  apply Handler.Ends.read_bind
  refine Handler.Ends.refuseIf_bind (fun _ => .unchanged _) fun hfree => ?_
  rw [not_or, Option.not_isSome_iff_eq_none, Option.not_isSome_iff_eq_none] at hfree
  refine Environment.ends_call (fun _ => .unchanged _) fun _ => ?_
  apply Handler.Ends.write_bind
  have heffect := @Effect.registered lib env s body new_user hvalid hfree.1 hfree.2
  exact Environment.ends_call (fun _ => heffect) fun _ => heffect

theorem login_ends (username password : Str) :
    (login lib cfg env username password).Ends s fun _ t =>
      Effect lib env s (.login username password) t := by
  unfold login
  refine Handler.Ends.refuseIf_bind (fun _ => .unchanged _) fun _ => ?_
  refine Environment.ends_call (fun _ => .unchanged _) fun _ => ?_
  apply Handler.Ends.read_bind
  cases userByLogin s.users username with
  | none => exact .unchanged _
  | some user =>
      exact Handler.Ends.refuseIf_bind (fun _ => .unchanged _) fun _ => .unchanged _

theorem refresh_ends (refresh_token : Token) :
    (refresh cfg env refresh_token).Ends s fun _ t =>
      Effect lib env s (.refresh refresh_token) t :=
  Handler.Ends.ofExcept (.unchanged _)

theorem updateCurrentUser_ends {token : Option Token} {body : UserUpdateBody}
    {current_user : User} (hauth : getCurrentUser s.users env.now token = .ok current_user) :
    (updateCurrentUser lib env body current_user).Ends s fun _ t =>
      Effect lib env s (.updateCurrentUser token body) t := by
  unfold updateCurrentUser
  refine ends_parsed (.unchanged _) fun updates hvalid => ?_
  apply Handler.Ends.read_bind
  refine Handler.Ends.ofExcept_bind (fun _ _ => .unchanged _) fun user hchanged => ?_
  refine Environment.ends_call (fun _ => .unchanged _) fun _ => ?_
  apply Handler.Ends.write_bind
  have heffect := Effect.updated hauth hvalid hchanged
  exact Environment.ends_call (fun _ => heffect) fun _ => heffect

theorem deleteCurrentUser_ends {token : Option Token} {current_user : User}
    (hauth : getCurrentUser s.users env.now token = .ok current_user) :
    (deleteCurrentUser env current_user).Ends s fun _ t =>
      Effect lib env s (.deleteCurrentUser token) t := by
  unfold deleteCurrentUser
  refine Environment.ends_call (fun _ => .unchanged _) fun _ => ?_
  apply Handler.Ends.write
  exact .userDeleted hauth

theorem createTag_ends {token : Option Token} (tag : TagCreate) :
    (createTag env tag).Ends s fun _ t => Effect lib env s (.createTag token tag) t := by
  unfold createTag
  apply Handler.Ends.read_bind
  refine Environment.ends_call (fun _ => .unchanged _) fun _ => ?_
  refine Handler.Ends.refuseIf_bind (fun _ => .unchanged _) fun hnew => ?_
  apply Handler.Ends.write_bind
  exact Environment.ends_call (fun _ => .tagged hnew) fun _ => .tagged hnew

theorem createProblem_outcome (form : ProblemForm) :
    (createProblem env form).Ends s (CreationOutcome env s form) := by
  unfold createProblem
  refine Handler.Ends.refuseIf_bind (fun _ => .refused _) fun _ => ?_
  apply Handler.Ends.read_bind
  by_cases hnew : form.toRequest.id ∈ s.creation.problems
  · rw [CreateProblem.check, if_pos hnew]
    exact .refused _
  · by_cases hzip : CreateProblem.zipSuffix <:+ form.toRequest.filename
    · rw [CreateProblem.check, if_neg hnew, if_neg (not_not_intro hzip)]
      cases hresume : CreateProblem.resume s.categories env.bundle s.creation form.toRequest with
      | mk t response =>
          cases response with
          | error status_code detail => exact .failed hresume
          | created id tags testcases => exact .created hnew hresume
    · rw [CreateProblem.check, if_neg hnew, if_pos hzip]
      exact .refused _

theorem createProblem_ends {token : Option Token} (form : ProblemForm) :
    (createProblem env form).Ends s fun _ t =>
      Effect lib env s (.createProblem token form) t := by
  refine (createProblem_outcome form).mono fun result t houtcome => ?_
  cases houtcome with
  | refused e => exact .unchanged _
  | failed hresume => exact .creationFailed hresume
  | created hnew hresume => exact .created hnew hresume

theorem deleteCode_deleteCodes (s : Store) (key : Str) (keys : List Str) :
    (s.deleteCode key).deleteCodes keys = s.deleteCodes (key :: keys) := by
  simp only [Store.deleteCode, Store.deleteCodes]
  rw [← Bucket.deleteObjects_append, List.singleton_append]

/-- All the files are deleted, or those before the first call that raises. -/
theorem deleteFiles_ends (n : Nat) (keys : List Str) :
    (deleteFiles env n keys).Ends s fun result t =>
      match result with
      | .ok () => t = s.deleteCodes keys ∧
          ∀ i < keys.length, env.raises (.deleteFile (n + i)) = false
      | .error _ => ∃ k < keys.length, (∀ i < k, env.raises (.deleteFile (n + i)) = false) ∧
          env.raises (.deleteFile (n + k)) = true ∧ t = s.deleteCodes (keys.take k) := by
  induction keys generalizing n s with
  | nil =>
      apply Handler.Ends.pure
      simp [Store.deleteCodes, Bucket.deleteObjects_nil]
  | cons key keys ih =>
      unfold deleteFiles
      refine Environment.ends_call (fun hraises => ?_) fun hreturns => ?_
      · exact ⟨0, by simp, by simp, hraises, by simp [Store.deleteCodes, Bucket.deleteObjects_nil]⟩
      · apply Handler.Ends.write_bind
        have hbefore {m : Nat} (hrest : ∀ i < m, env.raises (.deleteFile (n + 1 + i)) = false) :
            ∀ i < m + 1, env.raises (.deleteFile (n + i)) = false := by
          intro i hi
          cases i with
          | zero => exact hreturns
          | succ i =>
              have := hrest i (by omega)
              rwa [Nat.add_right_comm, Nat.add_assoc] at this
        refine (ih (n + 1)).mono fun result t h => ?_
        cases result with
        | ok u =>
            obtain ⟨rfl, hfiles⟩ := h
            exact ⟨deleteCode_deleteCodes s key keys, hbefore hfiles⟩
        | error e =>
            obtain ⟨k, hlt, hfiles, hraises, rfl⟩ := h
            refine ⟨k + 1, by simpa using hlt, hbefore hfiles, ?_, ?_⟩
            · rwa [Nat.add_right_comm, Nat.add_assoc] at hraises
            · rw [List.take_succ_cons, deleteCode_deleteCodes]

theorem problemById_eq_some {problem_id : Str} {problem : Problem}
    (h : s.problemById problem_id = some problem) :
    problem ∈ s.problems ∧ problem.id = problem_id :=
  ⟨List.mem_of_find?_eq_some h, by simpa using List.find?_some h⟩

theorem deleteProblem_outcome (problem_id : Str) :
    (deleteProblem env problem_id).Ends s (DeletionOutcome env s problem_id) := by
  unfold deleteProblem
  apply Handler.Ends.read_bind
  cases hproblem : s.problemById problem_id with
  | none => exact .missing hproblem
  | some problem =>
      obtain ⟨-, rfl⟩ := problemById_eq_some hproblem
      refine Handler.Ends.bind (deleteFiles_ends 0 _) ?_ ?_
      · rintro e t ⟨k, hlt, hbefore, hraises, rfl⟩
        simp only [Nat.zero_add] at hbefore hraises
        exact .file hproblem hlt hbefore hraises
      · rintro _ t ⟨rfl, hfiles⟩
        simp only [Nat.zero_add] at hfiles
        refine Environment.ends_call (fun hraises => .folder hproblem hfiles hraises)
          fun hfolder => ?_
        apply Handler.Ends.write_bind
        refine Environment.ends_call
          (fun hraises => .row hproblem hfiles hfolder (.inl hraises)) fun _ => ?_
        refine Environment.ends_call
          (fun hraises => .row hproblem hfiles hfolder (.inr hraises)) fun _ => ?_
        apply Handler.Ends.write
        exact .deleted

theorem deleteProblem_ends {token : Option Token} (problem_id : Str) :
    (deleteProblem env problem_id).Ends s fun _ t =>
      Effect lib env s (.deleteProblem token problem_id) t := by
  refine (deleteProblem_outcome problem_id).mono fun result t houtcome => ?_
  cases houtcome with
  | missing => exact .unchanged _
  | @file e problem k hproblem hlt hbefore hraises => exact .filesDeleted k hraises
  | folder hproblem hfiles hraises => exact .allFilesDeleted hraises
  | row hproblem hfiles hfolder hraises => exact .folderDeleted hraises
  | deleted => exact .problemDeleted

theorem createSubmission_ends (details : SubmissionCreate) (current_user : User) :
    (createSubmission env details current_user).Ends s
      (SubmissionOutcome env s details current_user) := by
  unfold createSubmission
  refine Environment.ends_call (fun hquery => .refused (.inl hquery)) fun hquery => ?_
  apply Handler.Ends.read_bind
  cases hproblem : s.visibleProblem details.problem_id with
  | none => exact .refused (.inr (.inl hproblem))
  | some problem =>
      refine Environment.ends_call (fun hput => .refused (.inr (.inr hput))) fun hput => ?_
      apply Handler.Ends.write_bind
      have hcode := @SubmissionOutcome.codeOnly env s details current_user .server problem
        hquery hproblem hput
      refine Environment.ends_call (fun hraises => hcode (.inl hraises)) fun hcommit => ?_
      refine Handler.Ends.refuseIf_bind (fun hkey => hcode (.inr hkey)) fun hnew => ?_
      apply Handler.Ends.write_bind
      have hrow := @SubmissionOutcome.notQueued env s details current_user .server problem
        hquery hproblem hput hcommit hnew
      refine Environment.ends_call (fun hraises => hrow (.inl hraises)) fun hrefresh => ?_
      refine Environment.ends_call (fun hraises => hrow (.inr hraises)) fun henqueue => ?_
      apply Handler.Ends.write_bind
      exact Environment.ends_call
        (fun _ => .queued hproblem hcommit hnew hrefresh henqueue)
        fun _ => .queued hproblem hcommit hnew hrefresh henqueue

/-- **Every request has one of the effects.** -/
theorem serve_effect (request : Request) :
    (serve lib cfg env request).Ends s fun _ t => Effect lib env s request t := by
  cases request with
  | register body => exact ends_respond (register_ends body)
  | login username password => exact ends_respond (login_ends username password)
  | refresh refresh_token => exact ends_respond (refresh_ends refresh_token)
  | getCurrentUser token =>
      apply ends_respond
      exact ends_withCurrentUser (fun _ => .unchanged _) (fun _ _ => .unchanged _)
        fun _ _ _ => .unchanged _
  | updateCurrentUser token updates =>
      apply ends_respond
      exact ends_withCurrentUser (fun _ => .unchanged _) (fun _ _ => .unchanged _)
        fun _ _ hauth => updateCurrentUser_ends hauth
  | deleteCurrentUser token =>
      apply ends_respond
      exact ends_withCurrentUser (fun _ => .unchanged _) (fun _ _ => .unchanged _)
        fun _ _ hauth => deleteCurrentUser_ends hauth
  | createTag token tag =>
      apply ends_respond
      exact ends_withCurrentAdmin (fun _ => .unchanged _) (fun _ _ => .unchanged _)
        fun _ _ _ => createTag_ends tag
  | createProblem token form =>
      apply ends_respond
      exact ends_withCurrentAdmin (fun _ => .unchanged _) (fun _ _ => .unchanged _)
        fun _ _ _ => createProblem_ends form
  | deleteProblem token problem_id =>
      apply ends_respond
      exact ends_withCurrentAdmin (fun _ => .unchanged _) (fun _ _ => .unchanged _)
        fun _ _ _ => deleteProblem_ends problem_id
  | createSubmission token details =>
      apply ends_respond
      exact ends_withCurrentUser (fun _ => .unchanged _) (fun _ _ => .unchanged _)
        fun _ current_user hauth =>
          (createSubmission_ends details current_user).mono fun _ _ h => .submission hauth h
  | getUser token username => exact ends_respond (ends_reading (.unchanged _))
  | getProblems token page limit => exact ends_respond (ends_reading (.unchanged _))
  | getProblemById token problem_id => exact ends_respond (ends_reading (.unchanged _))
  | getSubmissions token problem_id username page limit =>
      exact ends_respond (ends_reading (.unchanged _))
  | getSubmissionById submission_id => exact ends_respond (ends_reading (.unchanged _))

/-! ## The testcases of a new problem -/

def unnumbered (tc : TestCase) : CreateProblem.TestCase :=
  ⟨tc.problem_id, tc.input_key, tc.output_key⟩

theorem map_numbered (serial : Int) (testcases : List CreateProblem.TestCase) :
    (numbered serial testcases).map unnumbered = testcases := by
  induction testcases generalizing serial with
  | nil => rfl
  | cons tc testcases ih =>
      rw [numbered, List.map_cons, ih]
      rfl

theorem unnumbered_mem {serial : Int} {testcases : List CreateProblem.TestCase} {tc : TestCase}
    (h : tc ∈ numbered serial testcases) : unnumbered tc ∈ testcases := by
  have hmem : unnumbered tc ∈ (numbered serial testcases).map unnumbered :=
    List.mem_map_of_mem h
  rwa [map_numbered] at hmem

section

variable {form : ProblemForm} {c : CreateProblem.State} {id : Str} {tags : List Str} {count : Nat}

/-- A request that is accepted uploads its files and adds their testcases. -/
theorem resume_uploads
    (hresume : CreateProblem.resume s.categories env.bundle s.creation form.toRequest =
      (c, .created id tags count)) :
    ∃ v testcases, CreateProblem.validate s.categories form.toRequest = .ok v ∧
      CreateProblem.upload env.bundle form.id v.zip 0 v.files s.testcaseFiles =
        (c.bucket, some testcases) ∧
      (s.created form tags c).testcases = s.testcases ++ numbered s.testcase_serial testcases := by
  obtain ⟨v, testcases, hv, -, hupload, hadded⟩ := CreateProblem.resume_created hresume
  refine ⟨v, testcases, hv, hupload, ?_⟩
  have hlength : s.creation.testcases.length = s.testcases.length := List.length_map _
  have hdrop : c.testcases.drop s.testcases.length = testcases := by
    rw [hadded, ← hlength, List.drop_left]
  show s.testcases ++ numbered s.testcase_serial (c.testcases.drop s.testcases.length) = _
  rw [hdrop]

theorem stored_of_mem_created
    (hresume : CreateProblem.resume s.categories env.bundle s.creation form.toRequest =
      (c, .created id tags count)) {tc : TestCase} (htc : tc ∈ (s.created form tags c).testcases) :
    tc ∈ s.testcases ∨ CreateProblem.Stored form.id c.bucket (unnumbered tc) := by
  obtain ⟨v, testcases, -, hupload, htestcases⟩ := resume_uploads hresume
  rw [htestcases] at htc
  rcases List.mem_append.mp htc with hold | hnew
  · exact .inl hold
  · exact .inr (CreateProblem.upload_stored hupload _ (unnumbered_mem hnew))

end

/-! ## Steps of the service -/

variable {st st' : State} {a : Action}

inductive Moves (lib : Libraries) (cfg : Config) (st : State) : Action → State → Prop
  | request {env : Environment} {request : Request} {result : Except Error Response} {store : Store}
      (hnow : st.now ≤ env.now) (htoken : st.CanPresent request.token)
      (hserve : serve lib cfg env request st.store = (result, store))
      (heffect : Effect lib env st.store request store) :
      Moves lib cfg st (.request env request)
        { st with
          store := store
          now := env.now
          history := st.history ++ [⟨st.store, env, request, result⟩] }
  | promote (id : Int) : Moves lib cfg st (.promote id) { st with store := st.store.promote id }
  | pick {jobs : List Str} {payload : Str} (hjobs : st.store.jobs = jobs ++ [payload]) :
      Moves lib cfg st .pick
        { st with store := { st.store with jobs := jobs }, picked := payload :: st.picked }
  | requeue {payload : Str} (hpicked : payload ∈ st.picked) :
      Moves lib cfg st (.requeue payload)
        { st with store := { st.store with jobs := payload :: st.store.jobs } }
  | judged {id : Int} (result : Judge.JudgeWorker.SubmissionResult)
      (hpicked : Str.ofInt id ∈ st.picked) :
      Moves lib cfg st (.judged id result) { st with store := st.store.setResult id result }

theorem moves_of_step (h : step lib cfg st a = some st') : Moves lib cfg st a st' := by
  cases a with
  | request env request =>
      simp only [step, Option.ite_none_right_eq_some] at h
      obtain ⟨⟨hnow, htoken⟩, h⟩ := h
      obtain rfl := Option.some.inj h
      exact .request hnow htoken rfl (serve_effect request)
  | promote id =>
      obtain rfl := Option.some.inj h
      exact .promote id
  | pick =>
      simp only [step] at h
      split at h
      case h_1 => cases h
      case h_2 payload hjobs =>
        obtain rfl := Option.some.inj h
        obtain ⟨jobs, hjobs⟩ := List.getLast?_eq_some_iff.mp hjobs
        rw [hjobs, List.dropLast_concat]
        exact .pick hjobs
  | requeue payload =>
      simp only [step, Option.ite_none_right_eq_some] at h
      obtain ⟨hpicked, h⟩ := h
      obtain rfl := Option.some.inj h
      exact .requeue hpicked
  | judged id result =>
      simp only [step, Option.ite_none_right_eq_some] at h
      obtain ⟨hpicked, h⟩ := h
      obtain rfl := Option.some.inj h
      exact .judged result hpicked

/-- What the empty store satisfies, and everything that happens to a store preserves. -/
structure StoreInvariant (lib : Libraries) (I : Store → Prop) : Prop where
  empty : I .empty
  effect : ∀ {env : Environment} {s t : Store} {request : Request},
    I s → Effect lib env s request t → I t
  promote : ∀ {s : Store} (id : Int), I s → I (s.promote id)
  jobs : ∀ {s : Store} (jobs : List Str), I s → I { s with jobs := jobs }
  result : ∀ {s : Store} (id : Int) (result : Judge.JudgeWorker.SubmissionResult),
    I s → I (s.setResult id result)

theorem StoreInvariant.of_reachable {I : Store → Prop} (hI : StoreInvariant lib I)
    (h : (system lib cfg).Reachable st) : I st.store := by
  refine System.PreservedUnder.invariant (I := fun st => I st.store) ?_ ?_ h
  · intro st st' a _ hst _ hstep
    cases moves_of_step hstep with
    | request hnow htoken hserve heffect => exact hI.effect hst heffect
    | promote id => exact hI.promote id hst
    | @pick jobs payload hjobs => exact hI.jobs jobs hst
    | @requeue payload hpicked => exact hI.jobs (payload :: st.store.jobs) hst
    | @judged id result hpicked => exact hI.result id result hst
  · rintro _ rfl
    exact hI.empty

theorem reachable_step (h : (system lib cfg).Reachable st) (hstep : step lib cfg st a = some st') :
    (system lib cfg).Reachable st' :=
  System.ReachableUnder.step (a := a) h trivial hstep

end ByteBattles.Api
