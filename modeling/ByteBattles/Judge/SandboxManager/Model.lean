import ByteBattles.Judge.Models
import ByteBattles.Lib.Pool
import ByteBattles.Lib.Transition

/-!
# The warm pool: manager thread, creator threads and judge workers

`judge/sandbox_manager/main.py` together with the two Redis calls by which a
judge worker touches the pool (`redis_queue.py`).  Each action below is one
atomic step of one party: a Redis command, a Docker call, a queue operation or
an access to `pending`.  The warm lists, the event channel and the task queue
are shared; nothing else is.

`pending_lock` is not a field.  The manager holds it exactly in the positions
`locked`, `counted` and `computed`, and a creator's `self.pending[language] -= 1`
is one action that is enabled only while the manager does not hold it.
-/

namespace ByteBattles.Judge.SandboxManager

open ByteBattles.Lib

/-- Docker's ids; a creation draws one that names no container so far. -/
abbrev ContainerId := Nat

inductive Status
  | created
  | running
  /-- asked to stop or to be removed; `auto_remove` makes the two the same -/
  | removed
  deriving DecidableEq, Repr

structure Container where
  language : Language
  image : String
  status : Status
  deriving DecidableEq, Repr

/-- Position of a thread in `creator_worker`, with `create_sandbox` inlined. -/
inductive Creator
  /-- at `while not self.stop_event.is_set()` -/
  | loop
  /-- in `self.task_queue.get(timeout=1)` -/
  | getting
  /-- in `create_sandbox`, before `containers.create` -/
  | taken (l : Language)
  /-- before `container.start()` -/
  | created (l : Language) (c : ContainerId)
  /-- before the health check -/
  | started (l : Language) (c : ContainerId)
  /-- before the push to the warm queue -/
  | checked (l : Language) (c : ContainerId)
  /-- `create_sandbox` has returned, `pending` is not yet decremented -/
  | pushed (l : Language)
  /-- in `except Exception`, before `self.task_queue.put(language)` -/
  | failed (l : Language)
  /-- in `finally`, before `task_done()` -/
  | settled
  | exited
  deriving DecidableEq, Repr

/-- Position of the manager thread in `run`, with `maintain_pool` and
`clean_pool` inlined. -/
inductive Manager
  /-- between two calls of `maintain_pool` -/
  | ready
  /-- in `maintain_pool(l)`, `pending_lock` acquired -/
  | locked (l : Language)
  /-- `self.count(language)` has returned `n` -/
  | counted (l : Language) (n : Nat)
  /-- `deficit` is computed and positive, `pending` is not yet updated -/
  | computed (l : Language) (deficit : Int)
  /-- lock released, `n` calls of `self.task_queue.put(language)` to go -/
  | putting (l : Language) (n : Nat)
  /-- in `finally`, joining the creator threads -/
  | joining
  /-- in `clean_pool` of the first language, before `self.count(language)` -/
  | cleaning (todo : List Language)
  /-- the count was positive, before `rpop` -/
  | popping (todo : List Language)
  /-- before `containers.get` and `stop` of what `rpop` returned -/
  | removing (todo : List Language) (c : Option ContainerId)
  | ended
  deriving DecidableEq, Repr

def Manager.holdsLock : Manager → Bool
  | .locked _ | .counted _ _ | .computed _ _ => true
  | _ => false

def Manager.stopping : Manager → Bool
  | .joining | .cleaning _ | .popping _ | .removing _ _ | .ended => true
  | _ => false

/-- Position of a judge worker with respect to the pool, in `process_submission`. -/
inductive JudgeWorker
  /-- before `acquire_warm_sandbox` -/
  | idle
  /-- a container was returned, before `publish_event` -/
  | acquired (l : Language) (c : ContainerId)
  /-- before `containers.get` in `_get_container` -/
  | published (l : Language) (c : ContainerId)
  /-- inside `with self._get_container(container_id)` -/
  | using (l : Language) (c : ContainerId)
  | dead
  deriving DecidableEq, Repr

structure State where
  /-- the Redis lists `warm:<language>`, left end first -/
  warm : Language → List ContainerId
  containers : ContainerId → Option Container
  taskQueue : List Language
  /-- the unfinished-task count of `task_queue` -/
  unfinished : Int
  pending : Language → Int
  stopEvent : Bool
  creators : List Creator
  manager : Manager
  /-- languages of the `# INITIAL POOL` loop still to be visited -/
  initial : List Language
  /-- events published on `REDIS_RESULT_CHANNEL` and not yet received -/
  channel : List Language
  judges : List JudgeWorker
  /-- history: what `acquire_warm_sandbox` returned, one entry a call -/
  handed : List (Language × ContainerId)
  /-- history: what `clean_pool` popped -/
  cleaned : List (Language × ContainerId)

inductive CreatorAction
  | check
  | get
  | timeout
  | create (c : ContainerId)
  | createRaises
  | start
  | startRaises
  | healthcheck
  | healthcheckFails
  | push
  | pushRaises
  | decrement
  | requeue
  | taskDone
  deriving DecidableEq, Repr

inductive ManagerAction
  | maintain
  | receive
  | count
  | readPending
  | updatePending
  | put
  | stop
  | join
  | cleanCount
  | cleanPop
  | cleanStop
  | cleanStopRaises
  deriving DecidableEq, Repr

inductive JudgeAction
  | acquire (l : Language)
  | acquireTimeout (l : Language)
  | publish
  | publishRaises
  | getContainer
  | getContainerRaises
  | stop
  | stopRaises
  | die
  deriving DecidableEq, Repr

inductive Action
  | creator (i : Nat) (a : CreatorAction)
  | manager (a : ManagerAction)
  /-- the orchestrator starts one more judge worker -/
  | spawnJudge
  | judge (w : Nat) (a : JudgeAction)
  deriving DecidableEq, Repr

def setStatus (containers : ContainerId → Option Container) (c : ContainerId) (st : Status) :
    ContainerId → Option Container :=
  Function.update containers c ((containers c).map fun k => { k with status := st })

def creatorStep (s : State) : Creator → CreatorAction → Option (Creator × State)
  | .loop, .check => some (if s.stopEvent then .exited else .getting, s)
  | .getting, .get =>
      match s.taskQueue with
      | [] => none
      | l :: rest => some (.taken l, { s with taskQueue := rest })
  | .getting, .timeout => if s.taskQueue = [] then some (.loop, s) else none
  | .taken l, .create c =>
      if s.containers c = none then
        some (.created l c, { s with
          containers := Function.update s.containers c (some ⟨l, IMAGE l, .created⟩) })
      else none
  | .taken l, .createRaises => some (.failed l, s)
  | .created l c, .start =>
      some (.started l c, { s with containers := setStatus s.containers c .running })
  -- a raising `start` leaves the container to nobody
  | .created l _, .startRaises => some (.failed l, s)
  | .started l c, .healthcheck => some (.checked l c, s)
  -- `container.remove(force=True)`, then `raise RuntimeError`
  | .started l c, .healthcheckFails =>
      some (.failed l, { s with containers := setStatus s.containers c .removed })
  | .checked l c, .push =>
      some (.pushed l, { s with warm := Function.update s.warm l (c :: s.warm l) })
  | .checked l _, .pushRaises => some (.failed l, s)
  | .pushed l, .decrement =>
      if s.manager.holdsLock then none
      else some (.settled, { s with pending := Function.update s.pending l (s.pending l - 1) })
  | .failed l, .requeue =>
      some (.settled, { s with
        taskQueue := s.taskQueue ++ [l], unfinished := s.unfinished + 1 })
  | .settled, .taskDone => some (.loop, { s with unfinished := s.unfinished - 1 })
  | _, _ => none

/-- One step of the manager thread, for the threshold `T`. -/
def managerStep (T : Int) (s : State) : Manager → ManagerAction → Option State
  | .ready, .maintain =>
      match s.initial with
      | [] => none
      | l :: rest => some { s with manager := .locked l, initial := rest }
  | .ready, .receive =>
      match s.initial, s.channel with
      | [], l :: rest => some { s with manager := .locked l, channel := rest }
      | _, _ => none
  | .locked l, .count => some { s with manager := .counted l (s.warm l).length }
  | .counted l n, .readPending =>
      let deficit := T - (n + s.pending l)
      some { s with manager := if deficit ≤ 0 then .ready else .computed l deficit }
  | .computed l deficit, .updatePending =>
      some { s with
        pending := Function.update s.pending l (s.pending l + deficit)
        manager := .putting l deficit.toNat }
  | .putting l (n + 1), .put =>
      some { s with
        taskQueue := s.taskQueue ++ [l]
        unfinished := s.unfinished + 1
        manager := .putting l n }
  | .putting _ 0, .put => some { s with manager := .ready }
  -- `SHUTDOWN_KEY` is set, or an exception (`KeyboardInterrupt` too) leaves the loop
  | .ready, .stop | .locked _, .stop | .counted _ _, .stop | .computed _ _, .stop
  | .putting _ _, .stop => some { s with manager := .joining, stopEvent := true }
  | .joining, .join =>
      if ∀ p ∈ s.creators, p = .exited then some { s with manager := .cleaning Language.all }
      else none
  | .cleaning [], .cleanCount => some { s with manager := .ended }
  | .cleaning (l :: todo), .cleanCount =>
      some { s with manager := if 0 < (s.warm l).length then .popping (l :: todo)
                               else .cleaning todo }
  | .popping (l :: todo), .cleanPop =>
      match rpop (s.warm l) with
      | none => some { s with manager := .removing (l :: todo) none }
      | some (c, q) =>
          some { s with
            warm := Function.update s.warm l q
            cleaned := (l, c) :: s.cleaned
            manager := .removing (l :: todo) (some c) }
  | .removing todo (some c), .cleanStop =>
      some { s with
        containers := setStatus s.containers c .removed, manager := .cleaning todo }
  -- `containers.get` or `stop` raises; `containers.get(None)` always does
  | .removing todo _, .cleanStopRaises => some { s with manager := .cleaning todo }
  | _, _ => none

def judgeStep (s : State) : JudgeWorker → JudgeAction → Option (JudgeWorker × State)
  | .idle, .acquire l =>
      match rpop (s.warm l) with
      | none => none
      | some (c, q) =>
          some (.acquired l c, { s with
            warm := Function.update s.warm l q, handed := (l, c) :: s.handed })
  | .idle, .acquireTimeout l => if s.warm l = [] then some (.idle, s) else none
  | .acquired l c, .publish => some (.published l c, { s with channel := s.channel ++ [l] })
  | .acquired _ _, .publishRaises => some (.idle, s)
  | .published l c, .getContainer => some (.using l c, s)
  | .published _ _, .getContainerRaises => some (.idle, s)
  -- the `finally` of `_get_container`, whether the body returned or raised
  | .using _ c, .stop => some (.idle, { s with containers := setStatus s.containers c .removed })
  | .using _ _, .stopRaises => some (.idle, s)
  | .dead, _ => none
  | _, .die => some (.dead, s)
  | _, _ => none

def step (T : Int) (s : State) : Action → Option State
  | .creator i a =>
      (s.creators[i]?).bind fun p => (creatorStep s p a).map fun (p', t) =>
        { t with creators := s.creators.set i p' }
  | .manager a => managerStep T s s.manager a
  | .spawnJudge => some { s with judges := s.judges ++ [.idle] }
  | .judge w a =>
      (s.judges[w]?).bind fun p => (judgeStep s p a).map fun (p', t) =>
        { t with judges := s.judges.set w p' }

structure Config where
  /-- `CONTAINER_POOL_THRESHOLD` -/
  poolThreshold : Int
  /-- `CONTAINER_WORKER_COUNT` -/
  workerCount : Nat
  warm : Language → List ContainerId
  containers : ContainerId → Option Container

/-- `__init__`, and the creator threads started. -/
def Config.start (cfg : Config) : State where
  warm := cfg.warm
  containers := cfg.containers
  taskQueue := []
  unfinished := 0
  pending := fun _ => 0
  stopEvent := false
  creators := List.replicate cfg.workerCount .loop
  manager := .ready
  initial := Language.all
  channel := []
  judges := []
  handed := []
  cleaned := []

def system (cfg : Config) : System State Action where
  init s := s = cfg.start
  step := step cfg.poolThreshold

end ByteBattles.Judge.SandboxManager
