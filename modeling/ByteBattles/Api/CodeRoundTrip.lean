import ByteBattles.Api.Lifecycle
import ByteBattles.Judge.JudgeWorker.Inputs

/-!
# Submitted code

The code of a submission is encoded and stored under a new key.  What the API shows of
the submission afterwards, and what a worker copies into a container, is that code.
-/

namespace ByteBattles.Api

open ByteBattles.Lib

variable {lib : Libraries} {cfg : Config} {env : Environment} {s t : Store}
  {st st' st'' : State} {details : SubmissionCreate} {id : Int} {code : List Byte}

def CodeIs (id : Int) (code : List Byte) (s : Store) : Prop :=
  ∀ r ∈ s.submissions, r.id = id →
    ∀ data, s.submissionFiles.getObject r.code_object_key = some data → data = code

def CodeStored (id : Int) (code : List Byte) (s : Store) : Prop :=
  ∀ r ∈ s.submissions, r.id = id →
    s.submissionFiles.getObject r.code_object_key = some code

def FailsDeletion (problem_id : Str) : Action → Prop
  | .request env (.deleteProblem _ p) => p = problem_id ∧ ∃ c, env.raises c = true
  | _ => False

/-! ## The object of a row -/

theorem getObject_deleteCodes (keys : List Str) (key : Str) :
    (s.deleteCodes keys).submissionFiles.getObject key = s.submissionFiles.getObject key ∨
      key ∈ keys ∧ (s.deleteCodes keys).submissionFiles.getObject key = none := by
  by_cases hkey : key ∈ keys
  · right
    refine ⟨hkey, ?_⟩
    rw [← Option.not_isSome_iff_eq_none, Option.isSome_iff_exists]
    intro hstored
    exact (Bucket.mem_keys_deleteObjects.mp (Bucket.mem_keys_iff_getObject.mpr hstored)).2 hkey
  · exact .inl (Bucket.getObject_deleteObjects hkey)

/-- The keys of the problem's own submissions. -/
theorem problem_of_mem_codeKeys (hs : Constraints s) {r : Submission} (hr : r ∈ s.submissions)
    {problem_id : Str} (hkey : r.code_object_key ∈ s.codeKeysOf problem_id) :
    r.problem_id = problem_id := by
  obtain ⟨r', hr', hsame⟩ := List.mem_map.mp hkey
  obtain ⟨hmem, hproblem⟩ := List.mem_filter.mp hr'
  have heq : r' = r := hs.code_object_keys.eq hmem hr hsame
  rw [← heq]
  exact of_decide_eq_true hproblem

/-- What a request does to the object of a row: nothing, unless it deletes the problem. -/
theorem object_of_effect (hs : Constraints s) {request : Request}
    (heffect : Effect lib env s request t)
    (hfresh : ∀ r ∈ s.submissions, ¬ env.uuid.hex <+: r.code_object_key)
    {r : Submission} (hr : r ∈ s.submissions) :
    t.submissionFiles.getObject r.code_object_key =
        s.submissionFiles.getObject r.code_object_key ∨
      t.submissionFiles.getObject r.code_object_key = none ∧
        ∃ token, request = .deleteProblem token r.problem_id ∧
          ((∃ c, env.raises c = true) ∨ ∀ r' ∈ t.submissions, r'.problem_id ≠ r.problem_id) := by
  have huploaded (details : SubmissionCreate) :
      (s.uploaded env details).submissionFiles.getObject r.code_object_key =
        s.submissionFiles.getObject r.code_object_key := by
    apply Bucket.getObject_putObject_of_ne
    intro hkey
    apply hfresh r hr
    rw [hkey]
    exact List.prefix_append _ _
  cases heffect with
  | @filesDeleted token problem_id n hraises =>
      apply (getObject_deleteCodes _ _).imp_right
      intro ⟨hkey, hnone⟩
      obtain rfl := problem_of_mem_codeKeys hs hr (List.mem_of_mem_take hkey)
      exact ⟨hnone, token, rfl, .inl ⟨_, hraises⟩⟩
  | @allFilesDeleted token problem_id hraises =>
      apply (getObject_deleteCodes _ _).imp_right
      intro ⟨hkey, hnone⟩
      obtain rfl := problem_of_mem_codeKeys hs hr hkey
      exact ⟨hnone, token, rfl, .inl ⟨_, hraises⟩⟩
  | @folderDeleted token problem_id hraises =>
      apply (getObject_deleteCodes (s.codeKeysOf problem_id) _).imp_right
      intro ⟨hkey, hnone⟩
      obtain rfl := problem_of_mem_codeKeys hs hr hkey
      refine ⟨hnone, token, rfl, .inl ?_⟩
      exact hraises.elim (fun h => ⟨_, h⟩) fun h => ⟨_, h⟩
  | @problemDeleted token problem_id =>
      apply (getObject_deleteCodes (s.codeKeysOf problem_id) _).imp_right
      intro ⟨hkey, hnone⟩
      obtain rfl := problem_of_mem_codeKeys hs hr hkey
      refine ⟨hnone, token, rfl, .inr fun r' hr' => ?_⟩
      simpa using (List.mem_filter.mp hr').2
  | submission hauth houtcome =>
      left
      cases houtcome with
      | refused => rfl
      | codeOnly => exact huploaded _
      | notQueued => exact huploaded _
      | queued => exact huploaded _
  | _ => exact .inl rfl

/-- The same for a step, and for the row as it is after it. -/
theorem object_of_step (hs : Consistent st.store) {a : Action} (hfresh : FreshUuid st a)
    (hstep : step lib cfg st a = some st') (hid : id < st.store.submission_serial)
    {r' : Submission} (hr' : r' ∈ st'.store.submissions) (hr'id : r'.id = id) :
    ∃ r ∈ st.store.submissions, r.id = id ∧ r.Kept r' ∧
      (st'.store.submissionFiles.getObject r'.code_object_key =
          st.store.submissionFiles.getObject r.code_object_key ∨
        st'.store.submissionFiles.getObject r'.code_object_key = none ∧
          FailsDeletion r.problem_id a) := by
  obtain ⟨r, hr, hsame, hkept⟩ :=
    (evolves_of_step hstep).submissions.old r' hr' (hr'id ▸ hid)
  refine ⟨r, hr, hsame.trans hr'id, hkept, ?_⟩
  rw [hkept.code_object_key]
  cases moves_of_step hstep with
  | request hnow htoken hserve heffect =>
      apply (object_of_effect hs.toConstraints heffect hfresh hr).imp_right
      rintro ⟨hnone, token, rfl, hraises⟩
      refine ⟨hnone, rfl, hraises.resolve_right fun hgone => ?_⟩
      exact hgone r' hr' hkept.problem_id
  | promote id => exact .inl rfl
  | pick hjobs => exact .inl rfl
  | requeue hpicked => exact .inl rfl
  | judged result hpicked => exact .inl rfl

/-! ## The commit -/

/-- A `create_submission` that commits a row has stored the code under its key. -/
theorem committed_of_step {token : Option Token} (hs : Consistent st.store)
    (hstep : step lib cfg st (.request env (.createSubmission token details)) = some st')
    (hrow : ∃ r ∈ st'.store.submissions, r.id = st.store.submission_serial) :
    (∀ r ∈ st'.store.submissions, r.id = st.store.submission_serial →
      ∃ user, r = st.store.inserted env details user) ∧
    st'.store.submission_serial = st.store.submission_serial + 1 ∧
    CodeStored st.store.submission_serial (Utf8.encode details.code) st'.store := by
  obtain ⟨r, hr, hid⟩ := hrow
  have hold (r : Submission) (hr : r ∈ st.store.submissions)
      (hid : r.id = st.store.submission_serial) : False := by
    have hlt := hs.serial r hr
    omega
  have hsubmitted (user : User) (store : Store)
      (hrows : store.submissions = (st.store.submitted env details user).submissions)
      (hfiles : store.submissionFiles = (st.store.submitted env details user).submissionFiles) :
      (∀ r ∈ store.submissions, r.id = st.store.submission_serial →
        ∃ user, r = st.store.inserted env details user) ∧
      CodeStored st.store.submission_serial (Utf8.encode details.code) store := by
    have hnew : ∀ r ∈ store.submissions, r.id = st.store.submission_serial →
        r = st.store.inserted env details user := by
      intro r hr hid
      rw [hrows] at hr
      apply (List.mem_append.mp hr).elim
      · intro hmem
        exact (hold r hmem hid).elim
      · exact List.mem_singleton.mp
    refine ⟨fun r hr hid => ⟨user, hnew r hr hid⟩, fun r hr hid => ?_⟩
    rw [hfiles, hnew r hr hid]
    exact Bucket.getObject_putObject _ _ _
  cases moves_of_step hstep with
  | request hnow htoken hserve heffect =>
      cases heffect with
      | unchanged => exact (hold r hr hid).elim
      | @submission _ _ current_user _ _ hauth houtcome =>
          cases houtcome with
          | refused => exact (hold r hr hid).elim
          | codeOnly => exact (hold r hr hid).elim
          | notQueued =>
              have hnew := hsubmitted current_user (st.store.submitted env details current_user)
                rfl rfl
              exact ⟨hnew.1, rfl, hnew.2⟩
          | queued =>
              have hnew := hsubmitted current_user (st.store.enqueued env details current_user)
                rfl rfl
              exact ⟨hnew.1, rfl, hnew.2⟩

/-! ## Whole runs -/

theorem codeIs_of_path (h : (system lib cfg).Reachable st) (hid : id < st.store.submission_serial)
    (hcode : CodeIs id code st.store) (hpath : (system lib cfg).PathUnder FreshUuid st st') :
    CodeIs id code st'.store := by
  have hrun : (system lib cfg).Reachable st' ∧ id < st'.store.submission_serial ∧
      CodeIs id code st'.store := by
    apply System.PreservedUnder.path (I := fun st => (system lib cfg).Reachable st ∧
      id < st.store.submission_serial ∧ CodeIs id code st.store) ?_ ⟨h, hid, hcode⟩ hpath
    intro u v a _ ⟨hu, hlt, hcode⟩ hfresh hstep
    have hle := (evolves_of_step hstep).submissions.serial_le
    refine ⟨reachable_step hu hstep, hlt.trans_le hle, ?_⟩
    intro r' hr' hr'id data hdata
    obtain ⟨r, hr, hrid, -, hobject⟩ :=
      object_of_step (consistent_of_reachable hu) hfresh hstep hlt hr' hr'id
    apply Or.elim hobject
    · intro hsame
      exact hcode r hr hrid data (hsame.symm.trans hdata)
    · intro hgone
      rw [hgone.1] at hdata
      cases hdata
  exact hrun.2.2

theorem codeStored_of_path {problem_id : Str} (h : (system lib cfg).Reachable st)
    (hid : id < st.store.submission_serial)
    (hproblem : ∀ r ∈ st.store.submissions, r.id = id → r.problem_id = problem_id)
    (hcode : CodeStored id code st.store)
    (hpath : (system lib cfg).PathUnder
      (fun st a => ¬ FailsDeletion problem_id a ∧ FreshUuid st a) st st') :
    CodeStored id code st'.store := by
  have hrun : (system lib cfg).Reachable st' ∧ id < st'.store.submission_serial ∧
      (∀ r ∈ st'.store.submissions, r.id = id → r.problem_id = problem_id) ∧
        CodeStored id code st'.store := by
    apply System.PreservedUnder.path (I := fun st => (system lib cfg).Reachable st ∧
      id < st.store.submission_serial ∧
      (∀ r ∈ st.store.submissions, r.id = id → r.problem_id = problem_id) ∧
        CodeStored id code st.store) ?_ ⟨h, hid, hproblem, hcode⟩ hpath
    intro u v a _ ⟨hu, hlt, hproblem, hcode⟩ ⟨hspares, hfresh⟩ hstep
    have hle := (evolves_of_step hstep).submissions.serial_le
    have hrow := fun (r' : Submission) (hr' : r' ∈ v.store.submissions) hr'id =>
      object_of_step (consistent_of_reachable hu) hfresh hstep hlt hr' hr'id
    refine ⟨reachable_step hu hstep, hlt.trans_le hle, ?_, ?_⟩
    · intro r' hr' hr'id
      obtain ⟨r, hr, hrid, hkept, -⟩ := hrow r' hr' hr'id
      exact hkept.problem_id.trans (hproblem r hr hrid)
    · intro r' hr' hr'id
      obtain ⟨r, hr, hrid, -, hobject⟩ := hrow r' hr' hr'id
      rw [hproblem r hr hrid] at hobject
      have hsame := hobject.resolve_right fun hgone => hspares hgone.2
      exact hsame.trans (hcode r hr hrid)
  exact hrun.2.2.2

theorem getFile_eq_ok {bucket : Bucket (List Byte)} {key : Str} {data : List Byte} :
    getFile bucket key = .ok data ↔ bucket.getObject key = some data := by
  unfold getFile
  cases bucket.getObject key <;> simp

theorem responseText_eq_ok {data : List Byte} {text : Str} :
    responseText data = .ok text ↔ Utf8.decode data = some text := by
  unfold responseText
  cases Utf8.decode data <;> simp

/-- What a response shows of the row and of its object. -/
theorem shown_of_submissionResponse {submission : Submission} {response : SubmissionResponse}
    (h : s.submissionResponse submission = .ok response) :
    response.language = submission.language ∧ response.problem_id = submission.problem_id ∧
      ∃ data, s.submissionFiles.getObject submission.code_object_key = some data ∧
        Utf8.decode data = some response.code := by
  rw [Store.submissionResponse] at h
  split at h
  case h_1 => cases h
  case h_2 user _ =>
    simp only [bind, Except.bind] at h
    cases hinput : s.incorrectTestcase submission with
    | error e => simp [hinput] at h
    | ok input =>
        cases hcode : s.code submission with
        | error e => simp [hinput, hcode] at h
        | ok data =>
            cases htext : responseTextOrNone input with
            | error e => simp [hinput, hcode, htext] at h
            | ok text =>
                cases hdecoded : responseText data with
                | error e => simp [hinput, hcode, htext, hdecoded] at h
                | ok decoded =>
                    simp only [hinput, hcode, htext, hdecoded, pure, Except.pure,
                      Except.ok.injEq] at h
                    rw [← h]
                    refine ⟨rfl, rfl, data, ?_, ?_⟩
                    · simpa [Store.code, getFile_eq_ok] using hcode
                    · simpa [responseText_eq_ok] using hdecoded

theorem submissionResponse_of_getSubmissionById {response : SubmissionResponse}
    (hs : Constraints s) {r : Submission} (hr : r ∈ s.submissions)
    (h : getSubmissionById s r.id = .ok response) : s.submissionResponse r = .ok response := by
  have hfound : s.submissionById r.id = some r := hs.submission_ids.find? hr
  rw [getSubmissionById, hfound] at h
  dsimp only at h
  split at h
  case h_1 => cases h
  case h_2 =>
    split at h
    case isTrue => cases h
    case isFalse => exact h

/-- **Submitted code comes back**: in every run in which uuids are not drawn twice, whatever
else happens, the code that the API shows of a submission is the code that was submitted,
and what a worker copies into a container for it is the encoding of that code. -/
theorem code_round_trip {token : Option Token} {r : Submission}
    (h : (system lib cfg).Reachable st)
    (hstep : step lib cfg st (.request env (.createSubmission token details)) = some st')
    (hrow : ∃ r ∈ st'.store.submissions, r.id = st.store.submission_serial)
    (hpath : (system lib cfg).PathUnder FreshUuid st' st'')
    (hr : r ∈ st''.store.submissions) (hid : r.id = st.store.submission_serial) :
    (∀ response, getSubmissionById st''.store r.id = .ok response →
      response.code = details.code ∧ response.language = details.language ∧
        response.problem_id = details.problem_id) ∧
    ∀ config judging, (judging.raises .readSubmissionCode = none →
        st''.store.submissionFiles.getObject r.code_object_key =
          some (judging.submissionFile r.code_object_key)) →
      ∀ container path archive, .putArchive container path archive ∈
          (Judge.JudgeWorker.processSubmission config judging st''.store.judgeDatabase r.id).calls →
        archive = [((Judge.FILENAME details.language).toList,
          Utf8.encode details.code)] := by
  obtain ⟨hnew, hserial, hstored⟩ := committed_of_step (consistent_of_reachable h) hstep hrow
  have hreach' : (system lib cfg).Reachable st' := reachable_step h hstep
  have hlt : st.store.submission_serial < st'.store.submission_serial := by omega
  have hcode : CodeIs st.store.submission_serial (Utf8.encode details.code) st''.store := by
    apply codeIs_of_path hreach' hlt _ hpath
    intro r hr hid data hdata
    exact Option.some.inj (hdata.symm.trans (hstored r hr hid))
  have hs : Consistent st''.store := by
    obtain ⟨s₀, h₀, hprefix⟩ := hreach'
    exact consistent_of_reachable ⟨s₀, h₀, hprefix.trans (hpath.mono fun _ _ _ => trivial)⟩
  obtain ⟨r₀, hr₀, hsame, hkept⟩ :=
    (evolves_of_path hpath).submissions.old r hr (hid ▸ hlt)
  obtain ⟨user, rfl⟩ := hnew r₀ hr₀ (hsame.trans hid)
  have hlanguage : r.language = details.language := hkept.language
  constructor
  · intro response hresponse
    obtain ⟨hshown, hproblem, data, hdata, hdecode⟩ := shown_of_submissionResponse
      (submissionResponse_of_getSubmissionById hs.toConstraints hr hresponse)
    rw [hcode r hr hid data hdata, Utf8.decode_encode] at hdecode
    exact ⟨(Option.some.inj hdecode).symm, hshown.trans hlanguage, hproblem.trans hkept.problem_id⟩
  · intro config judging hreads container path archive hcall
    have hfeeds : (Judge.JudgeWorker.Call.putArchive container path archive).feeds = true := rfl
    obtain ⟨submission, problem, _, hfound, -, -, hsupplied⟩ :=
      Judge.JudgeWorker.processSubmission_supplied st''.store.judgeDatabase r.id _ hcall
        hfeeds
    have hsubmission : submission = r.toSubmission := by
      have hrow : st''.store.submissionById r.id = some r := hs.submission_ids.find? hr
      have hread : st''.store.judgeDatabase.submissions r.id = some r.toSubmission := by
        show (st''.store.submissionById r.id).map _ = _
        rw [hrow]
        rfl
      exact Option.some.inj (hfound.symm.trans hread)
    obtain ⟨-, -, hraises, harchive⟩ := hsupplied
    rw [harchive, hsubmission]
    show [((Judge.FILENAME r.language).toList,
      judging.submissionFile r.code_object_key)] = _
    rw [hlanguage, hcode r hr hid _ (hreads hraises)]

/-- **Submitted code stays**: if besides no deletion of the problem fails on the way, the
object is there for as long as the row is. -/
theorem code_available {token : Option Token} {r : Submission}
    (h : (system lib cfg).Reachable st)
    (hstep : step lib cfg st (.request env (.createSubmission token details)) = some st')
    (hrow : ∃ r ∈ st'.store.submissions, r.id = st.store.submission_serial)
    (hpath : (system lib cfg).PathUnder
      (fun st a => ¬ FailsDeletion details.problem_id a ∧ FreshUuid st a) st' st'')
    (hr : r ∈ st''.store.submissions) (hid : r.id = st.store.submission_serial) :
    st''.store.code r = .ok (Utf8.encode details.code) := by
  obtain ⟨hnew, hserial, hstored⟩ := committed_of_step (consistent_of_reachable h) hstep hrow
  have hlt : st.store.submission_serial < st'.store.submission_serial := by omega
  apply getFile_eq_ok.mpr
  apply codeStored_of_path (reachable_step h hstep) hlt _ hstored hpath r hr hid
  intro r hr hid
  obtain ⟨user, rfl⟩ := hnew r hr hid
  rfl

/-! ## A submission that is judged -/

def submitting : Action :=
  .request (quiet 7 CreateProblem.zeros)
    (.createSubmission (some annToken) ⟨['p'], "print(3)".toList, .PYTHON⟩)

theorem spares_judgement : ∀ a ∈ judgement, ¬ FailsDeletion ['p'] a := by
  intro a ha
  simp only [judgement, List.mem_cons, List.not_mem_nil, or_false] at ha
  apply ha.elim <;> rintro rfl <;> exact id

theorem exists_submitted :
    ∃ st st' st'' : State, ∃ r ∈ st''.store.submissions, (system plain halfHour).Reachable st ∧
      step plain halfHour st submitting = some st' ∧
      (∃ r ∈ st'.store.submissions, r.id = st.store.submission_serial) ∧
      (system plain halfHour).PathUnder (fun st a => ¬ FailsDeletion ['p'] a ∧ FreshUuid st a)
        st' st'' ∧
      r.id = st.store.submission_serial ∧ (getSubmissionById st''.store r.id).isOk = true := by
  obtain ⟨st, hfirst, hrest⟩ :=
    System.exists_path (system plain halfHour) (fun _ _ => True) start (submissionRun.take 4)
      (fun st => (step plain halfHour st submitting).any (fun st' =>
        decide (∃ r ∈ st'.store.submissions, r.id = st.store.submission_serial) &&
          ((system plain halfHour).runUnder FreshUuid st' judgement).any fun st'' =>
            decide (∃ r ∈ st''.store.submissions, r.id = st.store.submission_serial ∧
              (getSubmissionById st''.store r.id).isOk = true)) = true) (by decide +kernel)
  obtain ⟨st', hstep, hafter⟩ := (Option.any_eq_true _ _).mp hrest
  obtain ⟨hrow, hlast⟩ := Bool.and_eq_true_iff.mp hafter
  obtain ⟨st'', hpath, r, hr, hid, hshown⟩ :=
    System.exists_path_of _ FreshUuid st' spares_judgement _ hlast
  exact ⟨st, st', st'', r, hr, ⟨_, rfl, hfirst⟩, hstep, of_decide_eq_true hrow, hpath, hid, hshown⟩

theorem code_round_trip_judged :
    ∃ st'' : State, ∃ r ∈ st''.store.submissions, ∃ response,
      getSubmissionById st''.store r.id = .ok response ∧ response.code = "print(3)".toList := by
  obtain ⟨st, st', st'', r, hr, hreach, hstep, hrow, hpath, hid, hshown⟩ := exists_submitted
  obtain ⟨response, hresponse⟩ := exists_of_isOk hshown
  have hfresh := hpath.mono fun _ _ hok => hok.2
  have hcode := (code_round_trip hreach hstep hrow hfresh hr hid).1 response hresponse
  exact ⟨st'', r, hr, response, hresponse, hcode.1⟩

theorem code_available_judged :
    ∃ st'' : State, ∃ r ∈ st''.store.submissions,
      st''.store.code r = .ok (Utf8.encode "print(3)".toList) := by
  obtain ⟨st, st', st'', r, hr, hreach, hstep, hrow, hpath, hid, -⟩ := exists_submitted
  exact ⟨st'', r, hr, code_available hreach hstep hrow hpath hr hid⟩

end ByteBattles.Api
