import ByteBattles.Api.Lifecycle
import ByteBattles.Judge.JudgeWorker.Evidence

/-!
# The platform

The API and the worker processes over one database, two buckets and one Redis.  A worker
makes the calls of its iterations one at a time, while requests are served, other workers
work, processes die, and an orchestrator reads submission keys and pushes what it has read.
What an iteration meets is assumed when it begins; a call that returns is made only where
the stores give that answer, so that every read is one of the stores as they are then.
-/

namespace ByteBattles.Platform

open ByteBattles.Lib

open ByteBattles.Judge.JudgeWorker (Call Database Environment Exc Outcome Run SubmissionResult
  assigned boundId consume)

open Judge (Language)

/-- `worker:<identifier>:submission` and the like are told apart by the identifier. -/
abbrev WorkerId := Nat

structure Config where
  libraries : Api.Libraries
  api : Api.Config
  judge : Judge.JudgeWorker.Config

/-! ## Iterations -/

/-- An iteration of `_consume_from_list` that has begun: what it meets, what the queries and
`brpop` answer, and how many of its calls it has made. -/
structure Iteration where
  env : Environment
  db : Database
  previous : Option Int
  payload : Option Str
  made : Nat
  /-- The result columns of the row that the second session has loaded. -/
  loaded : Option Judge.JudgeWorker.Row

def Iteration.run (cfg : Config) (it : Iteration) : Run Outcome :=
  consume cfg.judge it.env it.db it.previous it.payload

def Iteration.start (env : Environment) (db : Database) (previous : Option Int)
    (payload : Option Str) : Iteration where
  env := env
  db := db
  previous := previous
  payload := payload
  made := 0
  loaded := none

def Iteration.submission_id (it : Iteration) : Option Int :=
  boundId it.env it.previous it.payload

def Iteration.calls (cfg : Config) (it : Iteration) : List Call :=
  (it.run cfg).calls.take it.made

def Iteration.next? (cfg : Config) (it : Iteration) : Option Call :=
  (it.run cfg).calls[it.made]?

/-! ## Answers -/

deriving instance DecidableEq for Judge.JudgeWorker.TestCase
deriving instance DecidableEq for Judge.JudgeWorker.Problem

/-- The columns that the first session reads of a submission. -/
def read (submission : Judge.JudgeWorker.Submission) : Str × Language × Str :=
  (submission.problem_id, submission.language, submission.code_object_key)

/-- What the call, if it returns, brings the iteration is what the stores hold. -/
def Iteration.Answered (it : Iteration) (s : Api.Store) : Call → Prop
  | .brpop => it.payload = s.jobs.getLast?
  | .query .submission .submissions => ∀ id ∈ it.submission_id,
      (it.db.submissions id).map read = (s.judgeDatabase.submissions id).map read
  | .query .submission .testcases => ∀ id ∈ it.submission_id, ∀ row ∈ it.db.submissions id,
      it.db.testcasesOf row.problem_id = s.judgeDatabase.testcasesOf row.problem_id
  | .query .submission .problems => ∀ id ∈ it.submission_id, ∀ row ∈ it.db.submissions id,
      it.db.problems row.problem_id = s.judgeDatabase.problems row.problem_id
  | .readSubmissionCode key => s.submissionFiles.getObject key = some (it.env.submissionFile key)
  | .readTestcaseInput _ key | .readTestcaseOutput _ key =>
      s.testcaseFiles.getObject key = some (it.env.testcaseFile key)
  | _ => True

instance (it : Iteration) (s : Api.Store) (c : Call) : Decidable (it.Answered s c) := by
  unfold Iteration.Answered
  split <;> infer_instance

/-! ## Effects -/

def pop (s : Api.State) : Api.State :=
  match s.store.jobs.getLast? with
  | none => s
  | some payload => { s with
      store := { s.store with jobs := s.store.jobs.dropLast }
      picked := payload :: s.picked }

def push (s : Api.State) (id : Int) : Api.State :=
  { s with store := { s.store with jobs := Str.ofInt id :: s.store.jobs } }

/-- The `UPDATE` of a session that loaded the row as `loaded`: only changed columns. -/
def writeResult (s : Api.Store) (id : Int) (loaded : Judge.JudgeWorker.Row)
    (result : SubmissionResult) : Api.Store :=
  { s with
    submissions := s.submissions.map fun r =>
      if r.id = id then { r with result := ColumnUpdate.update loaded (assigned result) r.result }
      else r }

/-- What a call that returns does to the stores.  If the second session has found no row, its
commit is empty. -/
def Iteration.effect (it : Iteration) (s : Api.State) : Call → Api.State
  | .brpop => pop s
  | .lpush id => push s id
  | .commit _ (some (id, result)) =>
      match it.loaded with
      | some loaded => { s with store := writeResult s.store id loaded result }
      | none => s
  | _ => s

def Iteration.load (it : Iteration) (s : Api.Store) : Call → Option Judge.JudgeWorker.Row
  | .query .result .submissions =>
      it.submission_id.bind fun id => (s.submissionById id).map (·.result)
  | _ => it.loaded

def keyAfter (key : Option Int) : Call → Option Int
  | .setSubmission id => some id
  | .deleteSubmission _ => none
  | _ => key

/-! ## The system -/

inductive Loop
  | gone
  /-- Before an iteration, with the local `submission_id` of the one before. -/
  | between (submission_id : Option Int)
  | busy (it : Iteration)

structure Process where
  identifier : WorkerId
  loop : Loop

/-- Processes are numbered; an orchestrator that is started again gives out identifiers again. -/
structure State where
  api : Api.State
  process : Nat → Process
  key : WorkerId → Option Int
  /-- The ids that an orchestrator has read in submission keys. -/
  read : List Int

def State.setLoop (s : State) (p : Nat) (loop : Loop) : State :=
  { s with process := Function.update s.process p { s.process p with loop := loop } }

inductive Action
  | request (env : Api.Environment) (request : Api.Request)
  | promote (id : Int)
  | spawn (p : Nat) (identifier : WorkerId)
  | begin (p : Nat) (env : Environment) (db : Database) (payload : Option Str)
  | call (p : Nat)
  | finish (p : Nat)
  /-- The process is terminated, crashes or leaves its loop. -/
  | die (p : Nat)
  /-- An orchestrator reads, deletes a submission key, pushes what it has read. -/
  | readKey (i : WorkerId)
  | deleteKey (i : WorkerId)
  | retry (id : Int)

def after (submission_id : Option Int) : Except Exc Outcome → Loop
  | .ok .shutdown => .gone
  | .ok _ => .between submission_id
  | .error _ => .gone

def State.returned (s : State) (p : Nat) (it : Iteration) (c : Call) : State :=
  let identifier := (s.process p).identifier
  { s.setLoop p (.busy { it with made := it.made + 1, loaded := it.load s.api.store c }) with
    api := it.effect s.api c
    key := Function.update s.key identifier (keyAfter (s.key identifier) c) }

def callStep (s : State) (p : Nat) (it : Iteration) (c : Call) : Option State :=
  match it.env.raises c.step with
  | some _ => some (s.setLoop p (.busy { it with made := it.made + 1 }))
  | none =>
      if it.Answered s.api.store c then some (s.returned p it c) else none

def step (cfg : Config) (s : State) : Action → Option State
  | .request env request =>
      (Api.step cfg.libraries cfg.api s.api (.request env request)).map fun api =>
        { s with api := api }
  | .promote id =>
      (Api.step cfg.libraries cfg.api s.api (.promote id)).map fun api => { s with api := api }
  | .spawn p identifier =>
      match (s.process p).loop with
      | .gone => some { s with
          process := Function.update s.process p ⟨identifier, .between none⟩ }
      | _ => none
  | .begin p env db payload =>
      match (s.process p).loop with
      | .between previous => some (s.setLoop p (.busy (.start env db previous payload)))
      | _ => none
  | .call p =>
      match (s.process p).loop with
      | .busy it => (it.next? cfg).bind fun c => callStep s p it c
      | _ => none
  | .finish p =>
      match (s.process p).loop with
      | .busy it =>
          if it.next? cfg = none then
            some (s.setLoop p (after it.submission_id (it.run cfg).result))
          else none
      | _ => none
  | .die p => some (s.setLoop p .gone)
  | .readKey i =>
      match s.key i with
      | some id => some { s with read := id :: s.read }
      | none => none
  | .deleteKey i => some { s with key := Function.update s.key i none }
  | .retry id => if id ∈ s.read then some { s with api := push s.api id } else none

def start : State where
  api := Api.start
  process := fun _ => ⟨0, .gone⟩
  key := fun _ => none
  read := []

def system (cfg : Config) : System State Action where
  init := fun s => s = start
  step := step cfg

/-! ## What a step can do -/

inductive Moves (cfg : Config) (s : State) : Action → State → Prop
  | request {env request t}
      (ht : Api.step cfg.libraries cfg.api s.api (.request env request) = some t) :
      Moves cfg s (.request env request) { s with api := t }
  | promote {id t} (ht : Api.step cfg.libraries cfg.api s.api (.promote id) = some t) :
      Moves cfg s (.promote id) { s with api := t }
  | spawn {p} (identifier : WorkerId) : Moves cfg s (.spawn p identifier)
      { s with process := Function.update s.process p ⟨identifier, .between none⟩ }
  | begin {p env db previous payload} (hloop : (s.process p).loop = .between previous) :
      Moves cfg s (.begin p env db payload) (s.setLoop p (.busy (.start env db previous payload)))
  | raise {p it c e} (hloop : (s.process p).loop = .busy it) (hc : it.next? cfg = some c)
      (hraises : it.env.raises c.step = some e) :
      Moves cfg s (.call p) (s.setLoop p (.busy { it with made := it.made + 1 }))
  | call {p it c} (hloop : (s.process p).loop = .busy it) (hc : it.next? cfg = some c)
      (hraises : it.env.raises c.step = none) (hanswered : it.Answered s.api.store c) :
      Moves cfg s (.call p) (s.returned p it c)
  | finish {p it} (hloop : (s.process p).loop = .busy it) (hnext : it.next? cfg = none) :
      Moves cfg s (.finish p) (s.setLoop p (after it.submission_id (it.run cfg).result))
  | die (p : Nat) : Moves cfg s (.die p) (s.setLoop p .gone)
  | readKey {i id} (hkey : s.key i = some id) :
      Moves cfg s (.readKey i) { s with read := id :: s.read }
  | deleteKey (i : WorkerId) :
      Moves cfg s (.deleteKey i) { s with key := Function.update s.key i none }
  | retry {id} (hread : id ∈ s.read) : Moves cfg s (.retry id) { s with api := push s.api id }

theorem moves_of_step {cfg : Config} {s s' : State} {a : Action} (h : step cfg s a = some s') :
    Moves cfg s a s' := by
  cases a with
  | request env request =>
      obtain ⟨t, ht, rfl⟩ := Option.map_eq_some_iff.mp h
      exact .request ht
  | promote id =>
      simp only [step] at h
      obtain ⟨t, ht, rfl⟩ := Option.map_eq_some_iff.mp h
      exact .promote ht
  | spawn p identifier =>
      simp only [step] at h
      split at h
      case h_1 =>
        obtain rfl := Option.some.inj h
        exact .spawn identifier
      case h_2 => cases h
  | begin p env db payload =>
      simp only [step] at h
      split at h
      case h_1 previous hloop =>
        obtain rfl := Option.some.inj h
        exact .begin hloop
      case h_2 => cases h
  | call p =>
      simp only [step] at h
      split at h
      case h_2 => cases h
      case h_1 it hloop =>
        obtain ⟨c, hc, h⟩ := Option.bind_eq_some_iff.mp h
        unfold callStep at h
        split at h
        case h_1 e hraises =>
          obtain rfl := Option.some.inj h
          exact .raise hloop hc hraises
        case h_2 hraises =>
          obtain ⟨hanswered, h⟩ := Option.ite_none_right_eq_some.mp h
          obtain rfl := Option.some.inj h
          exact .call hloop hc hraises hanswered
  | finish p =>
      simp only [step] at h
      split at h
      case h_1 it hloop =>
        obtain ⟨hnext, h⟩ := Option.ite_none_right_eq_some.mp h
        obtain rfl := Option.some.inj h
        exact .finish hloop hnext
      case h_2 => cases h
  | die p =>
      obtain rfl := Option.some.inj h
      exact .die p
  | readKey i =>
      simp only [step] at h
      split at h
      case h_1 id hkey =>
        obtain rfl := Option.some.inj h
        exact .readKey hkey
      case h_2 => cases h
  | deleteKey i =>
      obtain rfl := Option.some.inj h
      exact .deleteKey i
  | retry id =>
      obtain ⟨hread, h⟩ := Option.ite_none_right_eq_some.mp h
      obtain rfl := Option.some.inj h
      exact .retry hread

end ByteBattles.Platform
