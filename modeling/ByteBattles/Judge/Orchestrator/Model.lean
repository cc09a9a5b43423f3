import ByteBattles.Judge.Models
import ByteBattles.Lib.Pool
import ByteBattles.Lib.Transition

/-!
# The orchestrator and its judge workers

`JudgeOrchestrator` of `judge/run.py` and the loop of `JudgeWorker` in
`judge/judge_worker/worker.py`, with the job list and the per-worker keys in Redis
and the verdicts in the database.  Every Redis command, database write and process
operation is one step.  A worker may die, be interrupted or see a call raise
between any two of its steps; `process_submission` is one call that stores a
verdict or raises.  Time is counted in seconds.
-/

namespace ByteBattles.Judge.Orchestrator

open ByteBattles.Lib

abbrev SubmissionId := Nat

/-- The `identifier` of a worker. -/
abbrev WorkerId := Nat

/-! ## Judge workers -/

inductive Position
  /-- The two tests of the loop of `_consume_from_list`. -/
  | readShutdown
  | readLocalShutdown
  /-- Store the heartbeat. -/
  | beat
  | brpop
  | setSubmission
  /-- Inside `process_submission`. -/
  | process
  | deleteSubmission
  /-- The `lpush` and the pause of the `except Exception` branch. -/
  | retry
  | sleep
  /-- `run`, after the loop. -/
  | deleteShutdown
  | deleteHeartbeat
  | exiting
  | ended
  deriving DecidableEq, Repr

def Position.inLoop : Position → Bool
  | .deleteShutdown | .deleteHeartbeat | .exiting | .ended => false
  | _ => true

def Position.inTry : Position → Bool
  | .brpop | .setSubmission | .process | .deleteSubmission => true
  | _ => false

/-- A worker process, with the Redis keys of its identifier. -/
structure Worker where
  position : Position
  /-- The local variable, which survives the iteration that assigned it. -/
  submission_id : Option SubmissionId
  /-- The popped id that the worker has neither judged nor put back. -/
  held : Option SubmissionId
  /-- The local shutdown key is `"1"`. -/
  shutdown : Bool
  heartbeat : Option Nat
  submission : Option SubmissionId
  deriving DecidableEq, Repr

/-- An identifier that is not in use. -/
def Worker.absent : Worker where
  position := .ended
  submission_id := none
  held := none
  shutdown := false
  heartbeat := none
  submission := none

def Worker.goto (w : Worker) (p : Position) : Worker := { w with position := p }

def Worker.take (w : Worker) (id : SubmissionId) : Worker :=
  { w with position := .setSubmission, submission_id := some id, held := some id }

def Worker.release (w : Worker) (p : Position) : Worker := { w with position := p, held := none }

def Worker.setKey (w : Worker) : Worker := { w with submission := w.submission_id }

def Worker.deleteKey (w : Worker) : Worker := { w with submission := none }

def Worker.spawned (w : Worker) : Worker :=
  { w with position := .readShutdown, submission_id := none, held := none }

def Worker.alive (w : Worker) : Bool := w.position != .ended

/-! ## The orchestrator -/

/-- The locals of `check_heartbeat`. -/
structure Scan where
  current_time : Nat
  todo : List WorkerId
  alive_workers : List WorkerId
  deriving DecidableEq, Repr

/-- The frozen branch of `check_heartbeat`; `pushed` is what it has put back. -/
inductive Frozen
  | readSubmission
  | push (id : SubmissionId)
  | deleteShutdown (pushed : Option SubmissionId)
  | deleteHeartbeat (pushed : Option SubmissionId)
  | deleteSubmission (pushed : Option SubmissionId)
  | terminate (pushed : Option SubmissionId)
  deriving DecidableEq, Repr

inductive Pc
  /-- `check_heartbeat` begins. -/
  | begin
  | check (scan : Scan)
  | gotHeartbeat (scan : Scan) (w : WorkerId) (hb : Option Nat)
  | frozen (scan : Scan) (w : WorkerId) (stage : Frozen)
  | join (scan : Scan) (w : WorkerId)
  | scale
  /-- `n` workers are still to be spawned. -/
  | spawn (n : Nat)
  | started (n : Nat) (w : WorkerId)
  | appended (n : Nat) (w : WorkerId)
  | unlocked (n : Nat) (w : WorkerId)
  /-- `n` workers are still to be stopped. -/
  | stop (n : Nat)
  | stopSet (n : Nat) (w : WorkerId)
  | stopJoin (n : Nat) (w : WorkerId) (since : Nat)
  | stopKill (n : Nat) (w : WorkerId)
  /-- `shutdown`, after an exception. -/
  | shutdown
  | finished
  deriving DecidableEq, Repr

structure State where
  now : Nat
  /-- `SHUTDOWN_KEY` is `"1"`. -/
  shutdown : Bool
  jobs : List SubmissionId
  /-- The verdict of each row. -/
  rows : SubmissionId → Option Verdict
  nextSubmission : SubmissionId
  /-- Submissions that the API has committed and not yet enqueued. -/
  unsent : List SubmissionId
  worker : WorkerId → Worker
  workers : List WorkerId
  global_worker_id : WorkerId
  pc : Pc
  /-- What the frozen branch has put back, with the verdict at that moment. -/
  putBack : List (SubmissionId × Option Verdict)

structure Config where
  minWorkers : Int
  maxWorkers : Int
  /-- `JUDGE_WORKER_TIMEOUT`. -/
  timeout : Int

def start : State where
  now := 0
  shutdown := false
  jobs := []
  rows := fun _ => none
  nextSubmission := 1
  unsent := []
  worker := fun _ => .absent
  workers := []
  global_worker_id := 1
  pc := .begin
  putBack := []

def State.setWorker (s : State) (i : WorkerId) (w : Worker) : State :=
  { s with worker := Function.update s.worker i w }

def State.goto (s : State) (pc : Pc) : State := { s with pc := pc }

/-! ## Worker steps -/

inductive Exc
  | valueError
  | other
  deriving DecidableEq, Repr

inductive WorkerAction
  | next
  /-- `process_submission` stores a verdict and returns. -/
  | record (v : Verdict)
  /-- The current call raises. -/
  | raise (e : Exc)
  /-- A `KeyboardInterrupt`. -/
  | interrupt
  | die
  deriving DecidableEq, Repr

/-- The verdict is stored if the row still exists. -/
def storeVerdict (rows : SubmissionId → Option Verdict) (id : SubmissionId) (v : Verdict) :
    SubmissionId → Option Verdict :=
  if (rows id).isSome then Function.update rows id (some v) else rows

def workerNext (s : State) (i : WorkerId) : Option State :=
  let w := s.worker i
  match w.position with
  | .readShutdown =>
      some (s.setWorker i (w.goto (if s.shutdown then .deleteShutdown else .readLocalShutdown)))
  | .readLocalShutdown =>
      some (s.setWorker i (w.goto (if w.shutdown then .deleteShutdown else .beat)))
  | .beat => some (s.setWorker i { w with position := .brpop, heartbeat := some s.now })
  | .brpop =>
      match rpop s.jobs with
      | none => some (s.setWorker i (w.goto .readShutdown))
      | some (id, jobs) => some ({ s with jobs := jobs }.setWorker i (w.take id))
  | .setSubmission => some (s.setWorker i (w.setKey.goto .process))
  | .deleteSubmission => some (s.setWorker i (w.deleteKey.goto .readShutdown))
  | .retry =>
      match w.submission_id with
      | some id => some ({ s with jobs := id :: s.jobs }.setWorker i (w.release .sleep))
      -- the name is not bound before the first id has been popped
      | none => some (s.setWorker i (w.goto .ended))
  | .sleep => some (s.setWorker i (w.goto .readShutdown))
  | .deleteShutdown =>
      some (s.setWorker i { w with position := .deleteHeartbeat, shutdown := false })
  | .deleteHeartbeat => some (s.setWorker i { w with position := .exiting, heartbeat := none })
  | .exiting => some (s.setWorker i (w.goto .ended))
  | .process | .ended => none

def workerStep (s : State) (i : WorkerId) (a : WorkerAction) : Option State :=
  let w := s.worker i
  match a with
  | .next => workerNext s i
  | .record v =>
      match w.position, w.submission_id with
      | .process, some id =>
          if v = .PENDING then none
          else some ({ s with rows := storeVerdict s.rows id v }.setWorker i
            (w.release .deleteSubmission))
      | _, _ => none
  | .raise e =>
      if w.position.inTry then
        match e with
        | .valueError => some (s.setWorker i (w.release .readShutdown))
        | .other => some (s.setWorker i (w.goto .retry))
      else none
  | .interrupt =>
      if w.position.inTry then some (s.setWorker i (w.goto .deleteShutdown))
      else if w.alive then some (s.setWorker i (w.goto .ended))
      else none
  | .die => if w.alive then some (s.setWorker i (w.goto .ended)) else none

/-! ## Orchestrator steps -/

def isFrozen {T : Type} [IntCast T] [Sub T] [LT T] [DecidableLT T] (timeout : Int)
    (current_time hb : T) : Bool :=
  (timeout : T) < current_time - hb

/-- What `scale` does with a queue of this length and this many workers. -/
def scaleTo (cfg : Config) (qsize current : Nat) : Pc :=
  let desired := min cfg.maxWorkers (max cfg.minWorkers (qsize / 5 + 1))
  if (current : Int) < desired then .spawn (desired - current).toNat
  else if desired < (current : Int) then .stop (current - desired).toNat
  else .begin

def frozenStep (s : State) (scan : Scan) (w : WorkerId) : Frozen → State
  | .readSubmission =>
      match (s.worker w).submission with
      | some id => s.goto (.frozen scan w (.push id))
      | none => s.goto (.frozen scan w (.deleteShutdown none))
  | .push id =>
      { s with
          jobs := id :: s.jobs
          putBack := (id, s.rows id) :: s.putBack
          pc := .frozen scan w (.deleteShutdown (some id)) }
  | .deleteShutdown pushed =>
      (s.setWorker w { s.worker w with shutdown := false }).goto
        (.frozen scan w (.deleteHeartbeat pushed))
  | .deleteHeartbeat pushed =>
      (s.setWorker w { s.worker w with heartbeat := none }).goto
        (.frozen scan w (.deleteSubmission pushed))
  | .deleteSubmission pushed =>
      (s.setWorker w (s.worker w).deleteKey).goto
        (.frozen scan w (.terminate pushed))
  | .terminate _ =>
      (s.setWorker w ((s.worker w).goto .ended)).goto (.join scan w)

/-- The next statement of the orchestrator; `none` while it waits in a `join`. -/
def orchestratorNext (cfg : Config) (s : State) : Option State :=
  match s.pc with
  | .begin => some (s.goto (.check ⟨s.now, s.workers, []⟩))
  | .check ⟨_, [], alive⟩ => some ({ s with workers := alive }.goto .scale)
  | .check ⟨ct, w :: todo, alive⟩ =>
      some (s.goto (.gotHeartbeat ⟨ct, todo, alive⟩ w (s.worker w).heartbeat))
  | .gotHeartbeat scan w hb =>
      match (s.worker w).alive, hb with
      | true, some hb =>
          if isFrozen cfg.timeout (scan.current_time : Int) (hb : Int) then
            some (s.goto (.frozen scan w .readSubmission))
          else some (s.goto (.check { scan with alive_workers := scan.alive_workers ++ [w] }))
      | _, _ => some (s.goto (.join scan w))
  | .frozen scan w stage => some (frozenStep s scan w stage)
  | .join scan w => if (s.worker w).alive then none else some (s.goto (.check scan))
  | .scale => some (s.goto (scaleTo cfg s.jobs.length s.workers.length))
  | .spawn 0 => some (s.goto .begin)
  | .spawn (n + 1) =>
      let id := s.global_worker_id
      some (({ s with global_worker_id := id + 1 }.setWorker id (s.worker id).spawned).goto
        (.started n id))
  | .started n w => some ({ s with workers := s.workers ++ [w] }.goto (.appended n w))
  | .appended n w =>
      some ((s.setWorker w { s.worker w with shutdown := false }).goto (.unlocked n w))
  | .unlocked n w =>
      some ((s.setWorker w { s.worker w with heartbeat := some s.now }).goto (.spawn n))
  | .stop 0 => some (s.goto .begin)
  | .stop (n + 1) =>
      match rpop s.workers with
      | none => some (s.goto (.stop n))
      | some (w, workers) => some ({ s with workers := workers }.goto (.stopSet n w))
  | .stopSet n w =>
      some ((s.setWorker w { s.worker w with shutdown := true }).goto (.stopJoin n w s.now))
  | .stopJoin n w since =>
      if (s.worker w).alive then
        if since + 5 ≤ s.now then some (s.goto (.stopKill n w)) else none
      else some (s.goto (.stop n))
  | .stopKill n w =>
      some ((s.setWorker w ((s.worker w).goto .ended)).goto (.stop n))
  | .shutdown =>
      if s.workers.any fun w => (s.worker w).alive then none
      else some ({ s with shutdown := false }.goto .finished)
  | .finished => none

/-! ## The system -/

inductive Action
  | tick
  /-- `create_submission` commits a row, then enqueues its id. -/
  | commit
  | enqueue (id : SubmissionId)
  /-- The row is deleted with its problem. -/
  | deleteRow (id : SubmissionId)
  | worker (i : WorkerId) (a : WorkerAction)
  | orchestrator
  /-- The orchestrator receives a `KeyboardInterrupt`, or one of its calls raises. -/
  | interrupt
  deriving DecidableEq, Repr

def step (cfg : Config) (s : State) : Action → Option State
  | .tick => some { s with now := s.now + 1 }
  | .commit =>
      some { s with
        rows := Function.update s.rows s.nextSubmission (some .PENDING)
        unsent := s.nextSubmission :: s.unsent
        nextSubmission := s.nextSubmission + 1 }
  | .enqueue id =>
      if id ∈ s.unsent then
        some { s with jobs := id :: s.jobs, unsent := s.unsent.filter (· != id) }
      else none
  | .deleteRow id => some { s with rows := Function.update s.rows id none }
  | .worker i a => workerStep s i a
  | .orchestrator => orchestratorNext cfg s
  | .interrupt =>
      match s.pc with
      | .shutdown | .finished => none
      | _ => some ({ s with shutdown := true }.goto .shutdown)

def system (cfg : Config) : System State Action where
  init := fun s => s = start
  step := step cfg

end ByteBattles.Judge.Orchestrator
