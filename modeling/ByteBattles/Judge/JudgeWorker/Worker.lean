import ByteBattles.Judge.JudgeWorker.Pipeline
import ByteBattles.Lib.Pool

/-!
# An iteration of the worker

The body of the loop of `JudgeWorker._consume_from_list`, and the effect of its calls
on Redis, the database and the clock.  A call that raises takes its time and has no
other effect.
-/

namespace ByteBattles.Judge.JudgeWorker

open ByteBattles.Lib

inductive Outcome
  /-- The list was empty. -/
  | idle
  | processed (result : SubmissionResult)
  /-- The `except KeyboardInterrupt` branch. -/
  | shutdown
  /-- The `except ValueError` branch: log and drop. -/
  | dropped (e : Exc)
  /-- The `except Exception` branch. -/
  | retried (submission_id : Int)
  deriving DecidableEq, Repr

structure World where
  now : ℚ
  heartbeat : Option ℚ
  submission : Option Int
  jobs : List Str
  db : Database
  events : List (Int × Language)
  /-- The local variable, which survives the iteration that assigned it. -/
  submission_id : Option Int

/-! ## The code -/

/-- The `try` block once `submission_id` is bound. -/
def work (cfg : Config) (env : Environment) (db : Database) (submission_id : Int) :
    Run Outcome := do
  env.call (.setSubmission submission_id)
  let result ← processSubmission cfg env db submission_id
  env.call (.deleteSubmission submission_id)
  return .processed result

/-- The `try` block, for the payload of the popped item. -/
def tryBlock (cfg : Config) (env : Environment) (db : Database) (payload : Option Str) :
    Run Outcome := do
  env.call .brpop
  match payload with
  | none => return .idle
  | some payload =>
      let submission_id ← Traced.ofExcept (intOf payload)
      work cfg env db submission_id

/-- The local `submission_id` when the handler runs. -/
def boundId (env : Environment) (previous : Option Int) (payload : Option Str) : Option Int :=
  match env.raises .brpop, payload with
  | none, some payload => (PyNumber.int payload).or previous
  | _, _ => previous

/-- The `except` branches. -/
def handle (env : Environment) (submission_id : Option Int) (e : Exc) : Run Outcome :=
  if e = .keyboardInterrupt then return .shutdown
  else if e.isValueError then return .dropped e
  else
    match submission_id with
    | none => Traced.raise .unboundLocalError
    | some submission_id => do
        env.call (.lpush submission_id)
        env.call .sleep
        return .retried submission_id

/-- One iteration; the heartbeat is set outside the `try` block. -/
def consume (cfg : Config) (env : Environment) (db : Database) (previous : Option Int)
    (payload : Option Str) : Run Outcome := do
  env.call .setHeartbeat
  (tryBlock cfg env db payload).catching (handle env (boundId env previous payload))

/-! ## Its effect -/

/-- The row takes the assigned values, if it exists. -/
def Database.store (db : Database) (submission_id : Int) (result : SubmissionResult) : Database :=
  { db with
    submissions := Function.update db.submissions submission_id
      ((db.submissions submission_id).map fun row => { row with result := assigned result }) }

/-- What a call does when it returns; `start` is the time at which it was made. -/
def Call.effect (start : ℚ) (w : World) : Call → World
  | .setHeartbeat => { w with heartbeat := some start }
  | .brpop => { w with jobs := w.jobs.dropLast }
  | .setSubmission submission_id => { w with submission := some submission_id }
  | .deleteSubmission _ => { w with submission := none }
  | .lpush submission_id => { w with jobs := Str.ofInt submission_id :: w.jobs }
  | .commit _ (some (submission_id, result)) => { w with db := w.db.store submission_id result }
  | .publishEvent submission_id language =>
      { w with events := w.events ++ [(submission_id, language)] }
  | _ => w

def World.wait (w : World) (time : ℚ) : World := { w with now := w.now + time }

def Environment.after (env : Environment) (w : World) (c : Call) : World :=
  match env.raises c.step with
  | none => c.effect w.now (w.wait (env.elapsed c.step))
  | some _ => w.wait (env.elapsed c.step)

def Environment.afterAll (env : Environment) (w : World) (calls : List Call) : World :=
  calls.foldl env.after w

def World.run (cfg : Config) (env : Environment) (w : World) : Run Outcome :=
  consume cfg env w.db w.submission_id w.jobs.getLast?

def World.next (cfg : Config) (env : Environment) (w : World) : World :=
  { env.afterAll w (w.run cfg env).calls with
    submission_id := boundId env w.submission_id w.jobs.getLast? }

theorem Environment.afterAll_append (env : Environment) (w : World) (calls calls' : List Call) :
    env.afterAll w (calls ++ calls') = env.afterAll (env.afterAll w calls) calls' :=
  List.foldl_append ..

/-! ## Iterations that take a job -/

structure Takes (env : Environment) (w : World) (submission_id : Int) (submission : Submission)
    (problem : Problem) : Prop where
  setHeartbeat : env.raises .setHeartbeat = none
  brpop : env.raises .brpop = none
  payload : ∃ payload, w.jobs.getLast? = some payload ∧ PyNumber.int payload = some submission_id
  submission_row : w.db.submissions submission_id = some submission
  problem_row : w.db.problems submission.problem_id = some problem

section

variable {cfg : Config} {env : Environment} {w : World} {submission_id : Int}
  {submission : Submission} {problem : Problem}

/-- The `try` statement once the id is bound. -/
def handledWork (cfg : Config) (env : Environment) (db : Database) (submission_id : Int) :
    Run Outcome :=
  (work cfg env db submission_id).catching (handle env (some submission_id))

theorem tryBlock_eq {db : Database} {payload : Str} (hbrpop : env.raises .brpop = none)
    (hint : PyNumber.int payload = some submission_id) :
    tryBlock cfg env db (some payload) =
      ⟨.brpop :: (work cfg env db submission_id).calls, (work cfg env db submission_id).result⟩ := by
  have hid : (Traced.ofExcept (intOf payload) : Run Int).result = .ok submission_id := by
    simp [intOf, hint]
  rw [tryBlock, Environment.call_bind hbrpop, Traced.bind_ok hid]
  rfl

/-- After the pop, the iteration is the work on the id with the handler around it. -/
theorem consume_eq {db : Database} {previous : Option Int} {payload : Str}
    (hset : env.raises .setHeartbeat = none) (hbrpop : env.raises .brpop = none)
    (hint : PyNumber.int payload = some submission_id) :
    consume cfg env db previous (some payload) =
      ⟨.setHeartbeat :: .brpop :: (handledWork cfg env db submission_id).calls,
        (handledWork cfg env db submission_id).result⟩ := by
  have hbound : boundId env previous (some payload) = some submission_id := by
    simp [boundId, hbrpop, hint]
  rw [consume, Environment.call_bind hset, tryBlock_eq hbrpop hint, hbound, handledWork]
  cases hwork : (work cfg env db submission_id).result with
  | ok a =>
      rw [Traced.catching_ok _ rfl, Traced.catching_ok _ hwork, hwork]
  | error e =>
      rw [Traced.catching_error _ rfl, Traced.catching_error _ hwork]
      rfl

theorem run_eq (h : Takes env w submission_id submission problem) :
    w.run cfg env =
      ⟨.setHeartbeat :: .brpop :: (handledWork cfg env w.db submission_id).calls,
        (handledWork cfg env w.db submission_id).result⟩ := by
  obtain ⟨payload, hpayload, hint⟩ := h.payload
  rw [World.run, hpayload, consume_eq h.setHeartbeat h.brpop hint]

end

end ByteBattles.Judge.JudgeWorker
