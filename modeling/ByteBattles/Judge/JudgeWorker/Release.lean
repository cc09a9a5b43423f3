import ByteBattles.Judge.JudgeWorker.Measurements
import ByteBattles.Judge.JudgeWorker.Retention

/-!
# The release of the sandbox

The container that `acquire_warm_sandbox` pops is stopped by the `with` block of
`_get_container`, which is entered after two further calls.
-/

namespace ByteBattles.Judge.JudgeWorker

open ByteBattles.Lib

section

variable {cfg : Config} {env : Environment} {db : Database} {submission_id : Int}
  {container_id : Str}

structure Acquires (cfg : Config) (env : Environment) (db : Database) (submission_id : Int)
    (container_id : Str) : Prop where
  called : ∃ language timeout,
    Call.acquireWarmSandbox language timeout ∈ (processSubmission cfg env db submission_id).calls
  returns : env.raises .acquireWarmSandbox = none
  sandbox : env.sandbox = some container_id

def stops (container_id : Str) (calls : List Call) : Nat :=
  calls.count (.stopContainer container_id)

abbrev NoStop (container_id : Str) {α : Type} (m : Run α) : Prop :=
  m.Makes (· ≠ .stopContainer container_id)

theorem noStop_call {c : Call} (h : c ≠ .stopContainer container_id) :
    NoStop container_id (env.call c) := Traced.makes_call h

theorem ne_stop_of_inLoop {c : Call} (h : c.step.inLoop = true) :
    c ≠ .stopContainer container_id := by
  rintro rfl
  cases h

theorem noStop_judge (job : Job) (container : Str) :
    NoStop container_id (judge cfg env submission_id job container) := by
  refine (noStop_call (by simp)).bind fun _ _ => (noStop_call (by simp)).bind fun _ _ =>
    (makes_compile fun _ => by simp).bind fun result _ => ?_
  split
  · exact (makes_judgeTestcases fun _ => ne_stop_of_inLoop).bind fun _ _ =>
      Traced.makes_ofExcept _
  · exact Traced.makes_pure _

theorem noStop_readSession :
    NoStop container_id
      (session env .submission (readJob env db submission_id) fun _ => none) :=
  makes_session (makes_readJob fun _ => by simp) (fun _ _ => by simp) (by simp) (by simp)

theorem noStop_updateSubmissionResult (result : SubmissionResult) :
    NoStop container_id (updateSubmissionResult env db submission_id result) :=
  makes_session ((noStop_call (by simp)).bind fun _ _ => Traced.makes_pure _)
    (fun _ _ => by simp) (by simp) (by simp)

theorem noStop_lookup :
    NoStop container_id
      ((env.call (.getContainer container_id)).catching (lookupFailed container_id)) := by
  refine Traced.Makes.catching (noStop_call (by simp)) fun e => ?_
  unfold lookupFailed
  split <;> exact Traced.makes_raise _

theorem raised_lookup :
    ((env.call (.getContainer container_id)).catching (lookupFailed container_id)).raised =
      lookupRaises env container_id := by
  rw [Traced.raised_catching, Environment.raised_call]
  rfl

theorem lookupRaises_eq_none_iff :
    lookupRaises env container_id = none ↔ env.raises .getContainer = none := by
  unfold lookupRaises
  cases env.raises .getContainer with
  | none => simp
  | some e =>
      simp only [Option.bind_some, reduceCtorEq, iff_false]
      unfold lookupFailed
      split <;> simp

/-- Once the container is found, it is stopped once; otherwise never. -/
theorem stops_getContainer {α : Type} {body : Run α} (hbody : NoStop container_id body) :
    stops container_id (getContainer env container_id body).calls =
      if env.raises .getContainer = none then 1 else 0 := by
  have hraised := @raised_lookup env container_id
  unfold stops getContainer
  split
  case isTrue hget =>
    rw [lookupRaises_eq_none_iff.mpr hget] at hraised
    obtain ⟨_, hfound⟩ := raisedBy_eq_none hraised
    rw [Traced.count_calls_bind_right noStop_lookup hfound, Traced.calls_ensuring,
      List.count_append, List.count_eq_zero.mpr fun h => hbody _ h rfl]
    simp
  case isFalse hget =>
    obtain ⟨e, he⟩ := Option.ne_none_iff_exists'.mp (lookupRaises_eq_none_iff.not.mpr hget)
    exact Traced.count_calls_bind_error noStop_lookup (raisedBy_eq_some (hraised.trans he))

/-- From the acquired container on. -/
theorem stops_acquired (job : Job) {language : Language} :
    stops container_id (do
      env.call (.publishEvent submission_id language)
      getContainer env container_id (judge cfg env submission_id job container_id)
        : Run SubmissionResult).calls =
      if env.raises .publishEvent = none ∧ env.raises .getContainer = none then 1 else 0 := by
  have hpublish : NoStop container_id (env.call (.publishEvent submission_id language)) :=
    noStop_call (by simp)
  cases hraises : env.raises .publishEvent with
  | none =>
      simp only [true_and, stops]
      rw [Traced.count_calls_bind_right hpublish (Environment.result_call hraises)]
      exact stops_getContainer (noStop_judge job container_id)
  | some e =>
      simp only [reduceCtorEq, false_and, if_false, stops]
      exact Traced.count_calls_bind_error hpublish (Environment.result_call_raises hraises)

def Call.notAcquire : Call → Prop
  | .acquireWarmSandbox _ _ => False
  | _ => True

/-- The job has been read. -/
theorem Acquires.exists_job (h : Acquires cfg env db submission_id container_id) :
    ∃ job, (session env .submission (readJob env db submission_id) fun _ => none).result =
      .ok job := by
  obtain ⟨language, timeout, hcall⟩ := h.called
  have hwrite (result : SubmissionResult) :
      (do
        let _ ← updateSubmissionResult env db submission_id result
        return result : Run SubmissionResult).Makes Call.notAcquire :=
    (makes_session ((makes_call trivial).bind fun _ _ => Traced.makes_pure _)
      (fun _ _ => trivial) trivial trivial).bind fun _ _ => Traced.makes_pure _
  have hjudge := Traced.mem_calls_of_mem_bind hwrite id hcall
  have hread : (session env .submission (readJob env db submission_id)
      fun _ => none).Makes Call.notAcquire :=
    makes_session (makes_readJob fun _ => trivial) (fun _ _ => trivial) trivial trivial
  obtain ⟨job, hjob, -⟩ := Traced.exists_of_mem_calls_bind hread id hjudge
  exact ⟨job, hjob⟩

/-- **The sandbox is released** exactly if the two calls before the block return. -/
theorem sandbox_released_iff (h : Acquires cfg env db submission_id container_id) :
    (processSubmission cfg env db submission_id).calls.count (.stopContainer container_id) = 1 ↔
      env.raises .publishEvent = none ∧ env.raises .getContainer = none := by
  obtain ⟨job, hjob⟩ := h.exists_job
  have hcount : stops container_id (processSubmission cfg env db submission_id).calls =
      if env.raises .publishEvent = none ∧ env.raises .getContainer = none then 1 else 0 := by
    unfold stops processSubmission
    rw [Traced.count_calls_bind_left fun result => (noStop_updateSubmissionResult result).bind
        fun _ _ => Traced.makes_pure _, judgeSubmission,
      Traced.count_calls_bind_right noStop_readSession hjob,
      Traced.count_calls_bind_right (noStop_call (by simp)) (Environment.result_call h.returns),
      h.sandbox]
    exact stops_acquired job
  change stops container_id _ = 1 ↔ _
  rw [hcount]
  split_ifs with hreturns <;> simp [hreturns]

/-- Redis is lost after the pop. -/
def publishFails : Environment :=
  { leaving ⟨[], some 0⟩ with
    raises := fun step => if step = .publishEvent then some .other else none }

theorem acquires_publishFails : Acquires anyConfig publishFails oneTestcase 1 ['b'] where
  called := ⟨.PYTHON, 10, by decide +kernel⟩
  returns := rfl
  sandbox := rfl

theorem not_sandbox_released :
    ¬ ∀ cfg env db submission_id container_id,
      Acquires cfg env db submission_id container_id →
      (processSubmission cfg env db submission_id).calls.count (.stopContainer container_id) =
        1 := by
  intro hall
  have hcount := hall _ _ _ _ _ acquires_publishFails
  revert hcount
  decide +kernel

theorem sandbox_released_run_raises :
    (processSubmission anyConfig (leaving ⟨[], some 0⟩) oneTestcase 1).calls.count
      (.stopContainer ['b']) = 1 :=
  (sandbox_released_iff ⟨⟨.PYTHON, 10, by decide +kernel⟩, rfl, rfl⟩).mpr ⟨rfl, rfl⟩

end

end ByteBattles.Judge.JudgeWorker
