import ByteBattles.Api.JudgeInputs
import ByteBattles.Lib.History
import ByteBattles.Platform.Refinement

/-!
# Where a verdict comes from

A verdict that is shown was committed by an iteration of a worker, and everything the
iteration had read for it was read from stores that offered the bundle of the problem and
the code of the submission.  So the verdict is the one that this code has earned on the
files of the bundle, whatever else happens on the platform.
-/

namespace ByteBattles.Platform

open ByteBattles.Lib

open ByteBattles.Judge (Verdict)

open ByteBattles.Judge.JudgeWorker (Advances Call Evidence Fed Row RunResult RunsExplain RunsOk
  SubmissionResult assigned bind_eq_ok compiles decoded_eq_ok_iff evidence_of_commit mem_executed
  numberedFrom ok_of_runOf runOf runResult)

open Api.CreateProblem (Distinct Holds ZipFile)

variable {cfg : Config} {s s' u : State} {it : Iteration} {c : Call} {p : Nat} {id : Int}

/-! ## What an iteration has learnt -/

/-- Every call that has returned was answered by a store of the kind. -/
def Iteration.Informed (cfg : Config) (Q : Api.Store → Prop) (it : Iteration) : Prop :=
  ∀ c ∈ it.calls cfg, it.env.raises c.step = none → ∃ t, Q t ∧ it.Answered t c

section

variable {Q : Api.Store → Prop}

theorem Iteration.Informed.call (h : it.Informed cfg Q) (hc : it.next? cfg = some c)
    (hanswered : it.env.raises c.step = none → ∃ t, Q t ∧ it.Answered t c)
    (loaded : Option Row) :
    Iteration.Informed cfg Q { it with made := it.made + 1, loaded := loaded } := by
  intro c' hc'
  rw [Iteration.calls_next hc] at hc'
  apply (List.mem_append.mp hc').elim
  · exact h c'
  · intro hlast
    rw [List.mem_singleton.mp hlast]
    exact hanswered

def Informs (cfg : Config) (Q : Api.Store → Prop) (id : Int) (s : State) : Prop :=
  ∀ p it, (s.process p).loop = .busy it → id ∈ it.submission_id → it.next? cfg ≠ none →
    it.Informed cfg Q

/-- Only the heartbeat comes before the `brpop`. -/
theorem informs_of_unpicked (h : Founded cfg s) (hpicked : ¬ Picked s.api id)
    (hQ : Q s.api.store) : Informs cfg Q id s := by
  intro p it hloop hid hnext
  have hsound : Sound cfg s.api it := by
    have hp := h.grounded.loop p
    rwa [hloop] at hp
  obtain ⟨phase, hat, hbound⟩ := hsound.bound
  obtain ⟨c, hc⟩ := Option.ne_none_iff_exists'.mp hnext
  obtain ⟨_, -, hadvances⟩ := hat.next hc it.loaded
  rcases hbound with ⟨-, hcalls⟩ | ⟨-, hcalls⟩ | rfl | hbound
  · intro c hc
    rw [hcalls] at hc
    cases hc
  · intro c hc _
    rw [hcalls] at hc
    rw [List.mem_singleton.mp hc]
    exact ⟨s.api.store, hQ, trivial⟩
  · exact absurd hadvances Advances.not_dead
  · exact absurd (hbound id hid) hpicked

theorem Informs.update (h : Informs cfg Q id s) {x : Process}
    (hprocess : s'.process = Function.update s.process p x)
    (hx : ∀ it, x.loop = .busy it → id ∈ it.submission_id → it.Informed cfg Q) :
    Informs cfg Q id s' := by
  intro q it hloop hid hnext
  rw [hprocess] at hloop
  by_cases hq : q = p
  · rw [hq, Function.update_self] at hloop
    exact hx it hloop hid
  · rw [Function.update_of_ne hq] at hloop
    exact h q it hloop hid hnext

theorem Informs.step (h : Informs cfg Q id s) (hQ : Q s.api.store) {a : Action}
    (hstep : step cfg s a = some s') : Informs cfg Q id s' := by
  have hinformed {p : Nat} {it : Iteration} {c : Call} (hloop : (s.process p).loop = .busy it)
      (hc : it.next? cfg = some c) (hid : id ∈ it.submission_id) : it.Informed cfg Q :=
    h p it hloop hid (by simp [hc])
  cases moves_of_step hstep with
  | spawn => exact h.update rfl fun it hit => by cases hit
  | die => exact h.update rfl fun it hit => by cases hit
  | begin =>
      refine h.update rfl fun it hit _ c hc => ?_
      obtain rfl := Loop.busy.inj hit
      cases hc
  | @raise _ it _ _ hloop hc hraises =>
      refine h.update rfl fun it' hit' hid => ?_
      obtain rfl := Loop.busy.inj hit'
      refine (hinformed hloop hc hid).call hc (fun hreturns => ?_) it.loaded
      rw [hraises] at hreturns
      cases hreturns
  | call hloop hc hraises hanswered =>
      refine h.update rfl fun it' hit' hid => ?_
      obtain rfl := Loop.busy.inj hit'
      exact (hinformed hloop hc hid).call hc (fun _ => ⟨s.api.store, hQ, hanswered⟩) _
  | finish =>
      refine h.update rfl fun it' hit' => ?_
      unfold Platform.after at hit'
      split at hit' <;> cases hit'
  | _ => exact h

def HasRow (id : Int) (s : State) : Prop := ∃ r ∈ s.api.store.submissions, r.id = id

/-- A row that is there was there before. -/
theorem HasRow.of_path {ok : Api.State → Api.Action → Prop}
    (hok : ∀ t b, (∀ env request, b ≠ .request env request) → ok t b) (h : Founded cfg s)
    (hlt : id < s.api.store.submission_serial)
    (hpath : (system cfg).PathUnder (Asks ok) s s') (hrow : HasRow id s') : HasRow id s := by
  obtain ⟨r', hr', rfl⟩ := hrow
  obtain ⟨r, hr, hid, -⟩ :=
    (Api.evolves_of_path (service_path hok h hpath).1).submissions.old r' hr' hlt
  exact ⟨r, hr, hid⟩

theorem informs_of_path {ok : Api.State → Api.Action → Prop}
    (hok : ∀ t b, (∀ env request, b ≠ .request env request) → ok t b) (h : Founded cfg s)
    (hlt : id < s.api.store.submission_serial) (hpicked : ¬ Picked s.api id)
    (hQ : ∀ u, (system cfg).PathUnder (Asks ok) s u → HasRow id u → Q u.api.store)
    (hpath : (system cfg).PathUnder (Asks ok) s s') (hrow : HasRow id s') :
    Informs cfg Q id s' := by
  induction hpath with
  | refl => exact informs_of_unpicked h hpicked (hQ s .refl hrow)
  | @tail v w hprev hlast ih =>
      obtain ⟨hpath, hv⟩ := service_path hok h hprev
      have hlt' : id < v.api.store.submission_serial :=
        hlt.trans_le (Api.evolves_of_path hpath).submissions.serial_le
      have hbefore : HasRow id v := hrow.of_path hok hv hlt' (Relation.ReflTransGen.single hlast)
      obtain ⟨a, -, hstep⟩ := hlast
      exact (ih hbefore).step (hQ v hprev hbefore) hstep

end

/-! ## The commit -/

theorem submissions_pop (t : Api.State) : (pop t).store.submissions = t.store.submissions := by
  unfold pop
  split <;> rfl

/-- A call changes the verdict of a row only by committing one. -/
theorem verdict_of_effect {t : Api.State} {r' : Api.Submission}
    (hr' : r' ∈ (it.effect t c).store.submissions) :
    (∃ r ∈ t.store.submissions, r.id = r'.id ∧ r.verdict = r'.verdict) ∨
      ∃ db result, c = .commit db (some (r'.id, result)) ∧ result.verdict = r'.verdict := by
  unfold Iteration.effect at hr'
  split at hr'
  case h_1 => exact .inl ⟨r', submissions_pop t ▸ hr', rfl, rfl⟩
  case h_2 => exact .inl ⟨r', hr', rfl, rfl⟩
  case h_4 => exact .inl ⟨r', hr', rfl, rfl⟩
  case h_3 db id result =>
    split at hr'
    case h_2 => exact .inl ⟨r', hr', rfl, rfl⟩
    case h_1 loaded _ =>
      obtain ⟨r, hr, hr'⟩ := List.mem_map.mp hr'
      by_cases hid : r.id = id
      · rw [if_pos hid] at hr'
        have hverdict : r'.verdict = ColumnUpdate.update loaded (assigned result) r.result
            .verdict := by rw [← hr']; rfl
        rw [ColumnUpdate.update_apply] at hverdict
        split at hverdict
        · exact .inl ⟨r, hr, by rw [← hr'], hverdict.symm⟩
        · exact .inr ⟨db, result, by rw [← hr', ← hid], hverdict.symm⟩
      · rw [if_neg hid] at hr'
        exact .inl ⟨r, hr, by rw [hr'], by rw [hr']⟩

/-- A verdict that a step brings is one that an iteration commits. -/
theorem commit_of_step {a : Action} {r' : Api.Submission} (hstep : step cfg s a = some s')
    (hr' : r' ∈ s'.api.store.submissions) (hlt : r'.id < s.api.store.submission_serial)
    (hnew : ¬ ∃ r ∈ s.api.store.submissions, r.id = r'.id ∧ r.verdict = r'.verdict) :
    ∃ p it db result, a = .call p ∧ (s.process p).loop = .busy it ∧
      it.next? cfg = some (.commit db (some (r'.id, result))) ∧
      result.verdict = r'.verdict := by
  have hold (h : r' ∈ s.api.store.submissions) : False := hnew ⟨r', h, rfl, rfl⟩
  cases moves_of_step hstep with
  | request ht =>
      cases Api.moves_of_step ht with
      | request hnow htoken hserve heffect =>
          apply (Api.submissions_of_effect heffect r' hr').elim
          · exact fun hmem => (hold hmem).elim
          · intro hserial
            omega
  | promote ht =>
      obtain rfl := Option.some.inj ht
      exact (hold hr').elim
  | call hloop hc hraises hanswered =>
      obtain ⟨db, result, rfl, hverdict⟩ := (verdict_of_effect hr').resolve_left hnew
      exact ⟨_, _, db, result, rfl, hloop, hc, hverdict⟩
  | _ => exact (hold hr').elim

/-- An iteration commits results in its second session only, and for its own submission. -/
theorem Sound.commits {t : Api.State} (h : Sound cfg t it) {db : Judge.JudgeWorker.Session}
    {result : SubmissionResult} (hc : it.next? cfg = some (.commit db (some (id, result)))) :
    db = .result ∧ it.submission_id = some id := by
  obtain ⟨phase, hat, -⟩ := h.bound
  obtain ⟨_, -, hadvances⟩ := hat.next hc it.loaded
  obtain ⟨-, hlocal⟩ := hadvances.bound_of_written rfl
  refine ⟨?_, hlocal⟩
  cases hadvances with
  | commit _ hupdate =>
      cases db with
      | submission => cases hupdate
      | result => rfl
  | @inside _ _ stage _ _ _ hnext => cases stage <;> cases hnext

/-! ## What a verdict rests on -/

def Iteration.Did (cfg : Config) (it : Iteration) (c : Call) : Prop :=
  c ∈ it.calls cfg ∧ it.env.raises c.step = none

/-- The input of the pair with the index was sent to a run, and the run, measured and compared
with the output of the pair, has the verdict. -/
def Iteration.Tested (cfg : Config) (it : Iteration) (zip : ZipFile) (form : Api.ProblemForm)
    (i : Nat) (verdict : Verdict) : Prop :=
  ∃ file input output expected run, form.files[i]? = some file ∧
    zip.read file.1 = some input ∧ it.Did cfg (.sendall (i + 1) input) ∧
    zip.read file.2 = some output ∧ Utf8.decode output = some expected ∧
    runResult (it.env.execution (i + 1)) expected form.time_limit_sec
      (form.memory_limit_mb * 1024) = .ok run ∧ run.verdict = verdict

/-- The code has earned the verdict: it was copied, and it does not compile, or the verdict is
that of the first pair on which it is not accepted, or it is accepted on all. -/
structure Iteration.Earned (cfg : Config) (it : Iteration) (zip : ZipFile)
    (form : Api.ProblemForm) (details : Api.SubmissionCreate) (verdict : Verdict) : Prop where
  copied : ∃ container, it.Did cfg (.putArchive container cfg.judge.WORKSPACE_DIR
    [((Judge.FILENAME details.language).toList, Utf8.encode details.code)])
  not_compiled : compiles it.env details.language = false → verdict = .COMPILATION_ERROR
  compiled : compiles it.env details.language = true → ∃ n,
    (∀ i < n, it.Tested cfg zip form i .ACCEPTED) ∧
      (n = form.files.length ∧ verdict = .ACCEPTED ∨
        verdict ≠ .ACCEPTED ∧ it.Tested cfg zip form n verdict)

section

variable {zip : ZipFile} {form : Api.ProblemForm} {details : Api.SubmissionCreate} {key : Str}
  {testcases : List Api.TestCase} {t : Api.Store} {calls : List Call}
  {submission : Judge.JudgeWorker.Submission} {problem : Judge.JudgeWorker.Problem}
  {container : Str} {result : SubmissionResult}

open Api (Offers)

theorem read_of_offers (h : Offers zip form details id key testcases t)
    (hrow : (t.judgeDatabase.submissions id).map read = some (read submission)) :
    submission.problem_id = form.id ∧ submission.language = details.language ∧
      submission.code_object_key = key := by
  obtain ⟨found, hfound, hread⟩ := Option.map_eq_some_iff.mp hrow
  obtain ⟨r, hr, rfl⟩ := Option.map_eq_some_iff.mp hfound
  have hmem := List.mem_of_find?_eq_some hr
  have hid : r.id = id := by simpa using List.find?_some hr
  obtain ⟨hproblem, hlanguage, hkey⟩ := h.row r hmem hid
  simp only [read, Prod.mk.injEq] at hread
  obtain ⟨hproblem', hlanguage', hkey'⟩ := hread
  exact ⟨hproblem' ▸ hproblem, hlanguage' ▸ hlanguage, hkey' ▸ hkey⟩

theorem held_of_offers (h : Offers zip form details id key testcases t) {i : Nat}
    {tc : Api.TestCase} (htc : testcases[i]? = some tc) :
    ∃ file, form.files[i]? = some file ∧ Holds zip t.testcaseFiles file (Api.unnumbered tc) :=
  Api.exists_of_forall₂_getElem? h.held htc

/-- The job of the worker is the one that is offered. -/
theorem job_of_informed
    (hasked : ∀ c ∈ calls, ∃ t, Offers zip form details id key testcases t ∧ it.Answered t c)
    (hid : it.submission_id = some id)
    (h : Evidence cfg.judge it.env it.db id calls submission problem container result) :
    it.db.job submission problem = ⟨submission, testcases,
        ⟨form.time_limit_sec, form.memory_limit_mb * 1024⟩⟩ ∧
      submission.language = details.language ∧ submission.code_object_key = key := by
  obtain ⟨t, ht, hrow⟩ := hasked _ (h.queries .submissions)
  have hread := hrow id hid
  rw [h.submission_row, Option.map_some] at hread
  obtain ⟨hproblem, hlanguage, hkey⟩ := read_of_offers ht hread.symm
  obtain ⟨t', ht', htestcases⟩ := hasked _ (h.queries .testcases)
  have htestcases := htestcases id hid submission h.submission_row
  rw [hproblem, ht'.ordered] at htestcases
  obtain ⟨t'', ht'', hlimits⟩ := hasked _ (h.queries .problems)
  have hlimits := hlimits id hid submission h.submission_row
  rw [h.problem_row, hproblem, ht''.limits] at hlimits
  obtain rfl := Option.some.inj hlimits
  refine ⟨?_, hlanguage, hkey⟩
  unfold Judge.JudgeWorker.Database.job
  rw [hproblem, htestcases]
  rfl

theorem tested_of_run
    (hasked : ∀ c ∈ calls, ∃ t, Offers zip form details id key testcases t ∧ it.Answered t c)
    (hdid : ∀ c ∈ calls, it.Did cfg c) {i : Nat} {tc : Api.TestCase} {run : RunResult}
    (hfed : Fed it.env 1 testcases calls (i + 1)) (htc : testcases[i]? = some tc)
    (hrun : runOf it.env ⟨form.time_limit_sec, form.memory_limit_mb * 1024⟩ (i + 1) tc =
      .ok run) : it.Tested cfg zip form i run.verdict := by
  obtain ⟨tc', hnumber, hinput, houtput, hsent⟩ := hfed
  have hsame : numberedFrom 1 testcases (i + 1) = some tc := by
    rw [numberedFrom, if_pos (by omega), Nat.add_sub_cancel, htc]
  obtain rfl := Option.some.inj (hnumber.symm.trans hsame)
  obtain ⟨t, ht, hread⟩ := hasked _ hinput
  obtain ⟨file, hfile, hheld⟩ := held_of_offers ht htc
  obtain ⟨input, hzip, hstored⟩ := hheld.input
  obtain rfl := Option.some.inj (hstored.symm.trans hread)
  obtain ⟨t', ht', hread'⟩ := hasked _ houtput
  obtain ⟨file', hfile', hheld'⟩ := held_of_offers ht' htc
  obtain ⟨output, hzip', hstored'⟩ := hheld'.output
  obtain rfl := Option.some.inj (hstored'.symm.trans hread')
  obtain rfl := Option.some.inj (hfile.symm.trans hfile')
  obtain ⟨expected, hdecoded, hresult⟩ := bind_eq_ok.mp hrun
  exact ⟨file, _, _, expected, run, hfile, hzip, hdid _ hsent, hzip',
    decoded_eq_ok_iff.mp hdecoded, hresult, rfl⟩

/-- What the runs explain, the code has earned. -/
theorem tested_of_runsExplain {job : Judge.JudgeWorker.Job} {ran : List Nat}
    (htested : ∀ i tc run, i + 1 ∈ ran → job.testcases[i]? = some tc →
      runOf it.env job.limits (i + 1) tc = .ok run → it.Tested cfg zip form i run.verdict)
    (h : RunsExplain it.env job ran result) :
    ∃ n, (∀ i < n, it.Tested cfg zip form i .ACCEPTED) ∧
      (n = job.testcases.length ∧ result.verdict = .ACCEPTED ∨
        result.verdict ≠ .ACCEPTED ∧ it.Tested cfg zip form n result.verdict) := by
  have haccepted {i : Nat} {tc : Api.TestCase} (hran : i + 1 ∈ ran)
      (htc : job.testcases[i]? = some tc) (hok : RunsOk it.env job.limits (tc, i + 1)) :
      it.Tested cfg zip form i .ACCEPTED := by
    obtain ⟨run, hrun, hok⟩ := hok
    have hverdict : run.verdict = .ACCEPTED := by simpa [hok] using ok_of_runOf hrun
    rw [← hverdict]
    exact htested i tc run hran htc hrun
  by_cases hverdict : result.verdict = .ACCEPTED
  · refine ⟨job.testcases.length, fun i hi => ?_, .inl ⟨rfl, hverdict⟩⟩
    have htc := List.getElem?_eq_getElem hi
    refine haccepted ?_ htc (h.accepted_iff.mp hverdict _ ?_)
    · rw [h.accepted hverdict, List.mem_range'_1]
      omega
    · rw [List.mk_mem_zipIdx_iff_le_and_getElem?_sub]
      exact ⟨by omega, htc⟩
  · obtain ⟨before, tc, after, run, htestcases, hfirst⟩ := h.failed hverdict
    refine ⟨before.length, fun i hi => ?_, .inr ⟨hverdict, ?_⟩⟩
    · have htc : job.testcases[i]? = some before[i] := by
        rw [htestcases, List.getElem?_append_left hi, List.getElem?_eq_getElem hi]
      refine haccepted ?_ htc (hfirst.before_ok _ ?_)
      · rw [hfirst.executed, List.mem_range'_1]
        omega
      · rw [List.mk_mem_zipIdx_iff_le_and_getElem?_sub]
        exact ⟨by omega, List.getElem?_eq_getElem hi⟩
    · rw [hfirst.verdict]
      refine htested before.length tc run ?_ ?_ hfirst.runs
      · rw [hfirst.executed, List.mem_range'_1]
        omega
      · rw [htestcases, List.getElem?_append_right le_rfl, Nat.sub_self, List.getElem?_cons_zero]

/-- **A result is earned** if every read was answered by a store that made the offer. -/
theorem earned_of_evidence (hinformed : it.Informed cfg (Offers zip form details id key testcases))
    (hid : it.submission_id = some id) (hcalls : calls ⊆ it.calls cfg)
    (h : Evidence cfg.judge it.env it.db id calls submission problem container result) :
    it.Earned cfg zip form details result.verdict := by
  have hdid : ∀ c ∈ calls, it.Did cfg c := fun c hc => ⟨hcalls hc, h.returned c hc⟩
  have hasked : ∀ c ∈ calls, ∃ t, Offers zip form details id key testcases t ∧
      it.Answered t c := fun c hc => hinformed c (hcalls hc) (h.returned c hc)
  obtain ⟨hjob, hlanguage, hkey⟩ := job_of_informed hasked hid h
  have hfeeds := h.feeds
  have hexplained := h.explained
  rw [hjob] at hfeeds hexplained
  have hlength : form.files.length = testcases.length := by
    obtain ⟨t, ht, -⟩ := hasked _ hfeeds.code
    exact ht.held.length_eq
  constructor
  case copied =>
    obtain ⟨t, ht, hread⟩ := hasked _ hfeeds.code
    have hcode := ht.code _ (hkey ▸ hread)
    have harchive := hdid _ hfeeds.archive
    dsimp only at harchive
    rw [hlanguage, hkey, hcode] at harchive
    exact ⟨container, harchive⟩
  case not_compiled =>
    intro hfails
    exact (hexplained.not_compiled (hlanguage ▸ hfails)).verdict
  case compiled =>
    intro hcompiles
    rw [hlength]
    refine tested_of_runsExplain (fun i tc run hran htc hrun => ?_)
      (hexplained.compiled (hlanguage ▸ hcompiles))
    exact tested_of_run hasked hdid (hfeeds.fed _ (mem_executed.mp hran)) htc hrun

end

/-! ## Every run -/

theorem calls_split (hc : it.next? cfg = some c) :
    ∃ post, (it.run cfg).calls = it.calls cfg ++ c :: post := by
  obtain ⟨hlt, hget⟩ := List.getElem?_eq_some_iff.mp hc
  refine ⟨(it.run cfg).calls.drop (it.made + 1), ?_⟩
  unfold Iteration.calls
  rw [← hget, List.cons_getElem_drop_succ, List.take_append_drop]

/-- A verdict that a row did not have before a run has been committed by an iteration. -/
theorem exists_commit {ok : Api.State → Api.Action → Prop}
    (hok : ∀ t b, (∀ env request, b ≠ .request env request) → ok t b) (h : Founded cfg s)
    {r : Api.Submission} (hlt : r.id < s.api.store.submission_serial)
    (hpath : (system cfg).PathUnder (Asks ok) s s') (hr : r ∈ s'.api.store.submissions)
    (hnew : ¬ ∃ r' ∈ s.api.store.submissions, r'.id = r.id ∧ r'.verdict = r.verdict) :
    ∃ u u' p it result, (system cfg).PathUnder (Asks ok) s u ∧ (u.process p).loop = .busy it ∧
      it.next? cfg = some (.commit .result (some (r.id, result))) ∧
      it.submission_id = some r.id ∧ step cfg u (.call p) = some u' ∧
      (system cfg).PathUnder (Asks ok) u' s' ∧ result.verdict = r.verdict := by
  obtain ⟨u, u', a, hbefore, -, hstep, hrest, hfirst, r', hr', hsame, hverdict⟩ :=
    System.PathUnder.exists_origin (P := fun v =>
      ∃ r' ∈ v.api.store.submissions, r'.id = r.id ∧ r'.verdict = r.verdict) hpath hnew
      ⟨r, hr, rfl, rfl⟩
  rw [← hsame, ← hverdict] at hfirst
  obtain ⟨hservice, hfounded⟩ := service_path hok h hbefore
  have hltU : r.id < u.api.store.submission_serial :=
    hlt.trans_le (Api.evolves_of_path hservice).submissions.serial_le
  obtain ⟨p, it, db, result, rfl, hloop, hc, hresult⟩ :=
    commit_of_step hstep hr' (hsame ▸ hltU) hfirst
  have hsound : Sound cfg u.api it := by
    have hp := hfounded.grounded.loop p
    rwa [hloop] at hp
  rw [hsame] at hc
  obtain ⟨rfl, hlocal⟩ := hsound.commits hc
  exact ⟨u, u', p, it, result, hbefore, hloop, hc, hlocal, hstep, hrest, hresult.trans hverdict⟩

theorem unpicked_of_request {env : Api.Environment} {request : Api.Request}
    (h : Founded cfg s) (hstep : step cfg s (.request env request) = some s') :
    ¬ Picked s'.api s.api.store.submission_serial := by
  obtain ⟨t, ht, rfl⟩ := Option.map_eq_some_iff.mp hstep
  intro hpicked
  have hbefore : Picked s.api s.api.store.submission_serial := by
    cases Api.moves_of_step ht
    exact hpicked
  obtain ⟨id, hlt, heq⟩ := (Api.queued_of_reachable h.service).picked _ hbefore
  rw [PyNumber.ofInt_injective heq] at hlt
  exact lt_irrefl _ hlt

theorem request_of_step {env : Api.Environment} {request : Api.Request}
    (hstep : step cfg s (.request env request) = some s') :
    Api.step cfg.libraries cfg.api s.api (.request env request) = some s'.api := by
  obtain ⟨t, ht, rfl⟩ := Option.map_eq_some_iff.mp hstep
  exact ht

/-- The folder of the problem is left alone, and no uuid is drawn twice. -/
def Undisturbed (problem_id : Str) : State → Action → Prop :=
  Asks fun t a => Api.Spares problem_id a ∧ Api.FreshUuid t a

theorem undisturbed_of_other (problem_id : Str) (t : Api.State) (b : Api.Action)
    (hb : ∀ env request, b ≠ .request env request) :
    Api.Spares problem_id b ∧ Api.FreshUuid t b := by
  cases b with
  | request env request => exact absurd rfl (hb env request)
  | _ => exact ⟨trivial, trivial⟩

section

variable {s s₁ s₂ s₃ s₄ : State} {env env' : Api.Environment} {token token' : Option Api.Token}
  {form : Api.ProblemForm} {details : Api.SubmissionCreate}
  {created : Api.ProblemCreateResponse} {r : Api.Submission}

/-- **A verdict is earned**: once a submission shows a verdict, an iteration of a worker has
committed it, and what that iteration had read, copied, sent and compared was the code of the
submission and the files of the bundle, whatever other requests, workers, retries and crashes
there were. -/
theorem verdict_earned (h : (system cfg).Reachable s)
    (hcreate : step cfg s (.request env (.createProblem token form)) = some s₁)
    (hok : (Api.serve cfg.libraries cfg.api env (.createProblem token form) s.api.store).1 =
      .ok (.problemCreated created))
    (hdistinct : Distinct env.bundle 0 (2 * form.files.length))
    (hbetween : (system cfg).PathUnder (Asks fun _ a => Api.Spares form.id a) s₁ s₂)
    (hsubmit : step cfg s₂ (.request env' (.createSubmission token' details)) = some s₃)
    (hproblem : details.problem_id = form.id)
    (hrow : HasRow s₂.api.store.submission_serial s₃)
    (hafter : (system cfg).PathUnder (Undisturbed form.id) s₃ s₄)
    (hr : r ∈ s₄.api.store.submissions) (hid : r.id = s₂.api.store.submission_serial)
    (hjudged : r.verdict ≠ .PENDING) :
    ∃ zip, form.zip = some zip ∧ ∃ u u' p it result,
      (system cfg).PathUnder (Undisturbed form.id) s₃ u ∧
      (u.process p).loop = .busy it ∧
      it.next? cfg = some (.commit .result (some (r.id, result))) ∧
      step cfg u (.call p) = some u' ∧
      (system cfg).PathUnder (Undisturbed form.id) u' s₄ ∧
      result.verdict = r.verdict ∧ it.Earned cfg zip form details r.verdict := by
  have hfounded := founded_of_reachable h
  obtain ⟨hbetween', hfounded₂⟩ := service_path
    (fun t b hb => (undisturbed_of_other form.id t b hb).1) (hfounded.step hcreate) hbetween
  have hfounded₃ := hfounded₂.step hsubmit
  obtain ⟨hnew, hserial, -⟩ := Api.committed_of_step
    (Api.consistent_of_reachable hfounded₂.service) (request_of_step hsubmit) hrow
  have hlt : r.id < s₃.api.store.submission_serial := by omega
  -- the row is new, pending, and not taken
  have hpending : ¬ ∃ r' ∈ s₃.api.store.submissions, r'.id = r.id ∧ r'.verdict = r.verdict := by
    intro ⟨r', hr', hsame, hverdict⟩
    obtain ⟨user, rfl⟩ := hnew r' hr' (hsame.trans hid)
    exact hjudged hverdict.symm
  have hunpicked : ¬ Picked s₃.api r.id := by
    rw [hid]
    exact unpicked_of_request hfounded₂ hsubmit
  have hexists {v : State} (hpath : (system cfg).PathUnder (Undisturbed form.id) s₃ v)
      (hv : HasRow r.id v) : ∃ zip, form.zip = some zip ∧
        Api.Offers zip form details r.id (Api.submissionKey env' details)
          (s₁.api.store.judgeDatabase.testcasesOf form.id) v.api.store := by
    rw [hid] at hv ⊢
    exact Api.offers_of_path hfounded.service (request_of_step hcreate) hok hdistinct hbetween'
      (request_of_step hsubmit) hproblem hrow
      (service_path (undisturbed_of_other form.id) hfounded₃ hpath).1 hv
  obtain ⟨zip, hzip, -⟩ := hexists hafter ⟨r, hr, rfl⟩
  have hoffers (v : State) (hpath : (system cfg).PathUnder (Undisturbed form.id) s₃ v)
      (hv : HasRow r.id v) : Api.Offers zip form details r.id (Api.submissionKey env' details)
        (s₁.api.store.judgeDatabase.testcasesOf form.id) v.api.store := by
    obtain ⟨zip', hzip', hoffer⟩ := hexists hpath hv
    obtain rfl := Option.some.inj (hzip.symm.trans hzip')
    exact hoffer
  obtain ⟨u, u', p, it, result, hbefore, hloop, hc, hlocal, hstep, hrest, hresult⟩ :=
    exists_commit (undisturbed_of_other form.id) hfounded₃ hlt hafter hr hpending
  refine ⟨zip, hzip, u, u', p, it, result, hbefore, hloop, hc, hstep, hrest, hresult, ?_⟩
  have hrowU : HasRow r.id u := by
    obtain ⟨hservice, hfoundedU⟩ :=
      service_path (undisturbed_of_other form.id) hfounded₃ hbefore
    have hltU : r.id < u.api.store.submission_serial :=
      hlt.trans_le (Api.evolves_of_path hservice).submissions.serial_le
    have hrest' : (system cfg).PathUnder (Undisturbed form.id) u s₄ :=
      .head ⟨.call p, trivial, hstep⟩ hrest
    exact HasRow.of_path (undisturbed_of_other form.id) hfoundedU hltU hrest' ⟨r, hr, rfl⟩
  have hinforms := informs_of_path (undisturbed_of_other form.id) hfounded₃ hlt hunpicked hoffers
    hbefore hrowU
  obtain ⟨post, hsplit⟩ := calls_split hc
  obtain ⟨calls, hcalls, submission, problem, container, hevidence⟩ := evidence_of_commit hsplit
  rw [← hresult]
  exact earned_of_evidence (hinforms p it hloop hlocal (by simp [hc])) hlocal hcalls hevidence

end

/-- The printed digit is what the bundle asks for. -/
theorem verdict_earned_judged :
    ∃ (u : State) (p : Nat) (it : Iteration) (zip : ZipFile), (u.process p).loop = .busy it ∧
      (Api.sumForm ['p'] true).zip = some zip ∧
      it.Earned quietConfig zip (Api.sumForm ['p'] true) ⟨['p'], "print(3)".toList, .PYTHON⟩
        .ACCEPTED := by
  obtain ⟨s, s₁, s₂, s₃, hs, hs₁, hok, hs₂, hrow, hpath, -, r, hr, hid, hverdict⟩ :=
    exists_judged
  obtain ⟨zip, hzip, u, u', p, it, result, -, hloop, -, -, -, -, hearned⟩ :=
    verdict_earned hs hs₁ hok Api.distinct_calm .refl hs₂ rfl hrow hpath hr hid
      (by rw [hverdict]; simp)
  rw [hverdict] at hearned
  exact ⟨u, p, it, zip, hloop, hzip, hearned⟩

end ByteBattles.Platform
