import ByteBattles.Judge.Orchestrator.Model

/-!
# Orchestrators one after the other

When the process of the orchestrator has ended, another one is started.  It counts its
workers from 1 again, and finds the keys in Redis as they are.  A worker process that has
outlived its orchestrator goes on, with the keys of its identifier.
-/

namespace ByteBattles.Judge.Orchestrator

open ByteBattles.Lib

/-- A worker process without the keys of its identifier. -/
structure Process where
  position : Position
  submission_id : Option SubmissionId
  held : Option SubmissionId
  deriving DecidableEq, Repr

def Worker.process (w : Worker) : Process := ⟨w.position, w.submission_id, w.held⟩

def Worker.run (w : Worker) (p : Process) : Worker :=
  { w with position := p.position, submission_id := p.submission_id, held := p.held }

def Process.none : Process := Worker.absent.process

def Process.alive (p : Process) : Bool := p.position != .ended

structure Fleet where
  /-- The orchestrator that runs, and its workers. -/
  judge : State
  /-- The processes that earlier orchestrators have left behind, with their identifiers. -/
  orphans : List (WorkerId × Process)

def State.running (s : State) : List (WorkerId × Process) :=
  ((List.range s.global_worker_id).map fun i => (i, (s.worker i).process)).filter (·.2.alive)

/-- `JudgeOrchestrator.__init__`, with Redis and the database as they are. -/
def State.restarted (s : State) : State :=
  { s with
    shutdown := false
    worker := fun i => (s.worker i).run .none
    workers := []
    global_worker_id := 1
    pc := .begin }

/-- A step of a process that is left behind. -/
def Fleet.orphanStep (f : Fleet) (n : Nat) (i : WorkerId) (p : Process) (a : WorkerAction) :
    Option Fleet :=
  let own := (f.judge.worker i).process
  (workerStep (f.judge.setWorker i ((f.judge.worker i).run p)) i a).map fun t =>
    { judge := t.setWorker i ((t.worker i).run own)
      orphans := f.orphans.set n (i, (t.worker i).process) }

inductive FleetAction
  | judge (a : Action)
  /-- The orchestrator is gone, and is started again. -/
  | restart
  /-- A step of the orphan with index `n`. -/
  | orphan (n : Nat) (a : WorkerAction)

def Fleet.step (cfg : Config) (f : Fleet) : FleetAction → Option Fleet
  | .judge a => (Orchestrator.step cfg f.judge a).map fun s => { f with judge := s }
  | .restart => some ⟨f.judge.restarted, f.orphans ++ f.judge.running⟩
  | .orphan n a =>
      match f.orphans[n]? with
      | none => none
      | some (i, p) => f.orphanStep n i p a

def fleet (cfg : Config) : System Fleet FleetAction where
  init := fun f => f = ⟨start, []⟩
  step := Fleet.step cfg

@[simp] theorem Worker.run_process (w : Worker) (p : Process) : (w.run p).process = p := rfl

@[simp] theorem Worker.run_submission (w : Worker) (p : Process) :
    (w.run p).submission = w.submission := rfl

end ByteBattles.Judge.Orchestrator
