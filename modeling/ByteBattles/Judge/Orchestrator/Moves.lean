import ByteBattles.Judge.Orchestrator.Model

/-!
# What one step of the judge does

Inversion of the step function.  Steps that concern neither the ids that a worker
carries nor the workers that the orchestrator is going to examine are one case each.
-/

namespace ByteBattles.Judge.Orchestrator

open ByteBattles.Lib

/-! ## Worker steps -/

def Position.idle : Position → Bool
  | .readShutdown | .readLocalShutdown | .beat | .brpop | .deleteSubmission | .sleep => true
  | _ => false

def Worker.SameIds (w w' : Worker) : Prop :=
  w'.submission_id = w.submission_id ∧ w'.held = w.held ∧ w'.submission = w.submission

theorem Worker.SameIds.goto (w : Worker) (p : Position) :
    w.SameIds (w.goto p) := ⟨rfl, rfl, rfl⟩

inductive WorkerMove (s : State) (i : WorkerId) : WorkerAction → State → Prop
  | walk (w' : Worker) :
      (s.worker i).position.idle = true → w'.position.idle = true → (s.worker i).SameIds w' →
      WorkerMove s i .next (s.setWorker i w')
  | leave :
      (s.worker i).position.idle = true →
      WorkerMove s i .next (s.setWorker i ((s.worker i).goto .deleteShutdown))
  | pop (id : SubmissionId) (jobs : List SubmissionId) :
      (s.worker i).position = .brpop → rpop s.jobs = some (id, jobs) →
      WorkerMove s i .next ({ s with jobs := jobs }.setWorker i ((s.worker i).take id))
  | setKey :
      (s.worker i).position = .setSubmission →
      WorkerMove s i .next (s.setWorker i ((s.worker i).setKey.goto .process))
  | clearKey :
      (s.worker i).position = .deleteSubmission →
      WorkerMove s i .next (s.setWorker i ((s.worker i).deleteKey.goto .readShutdown))
  | requeue (id : SubmissionId) :
      (s.worker i).position = .retry → (s.worker i).submission_id = some id →
      WorkerMove s i .next ({ s with jobs := id :: s.jobs }.setWorker i
        ((s.worker i).release .sleep))
  | unbound :
      (s.worker i).position = .retry → (s.worker i).submission_id = none →
      WorkerMove s i .next (s.setWorker i ((s.worker i).goto .ended))
  | cleanup (w' : Worker) :
      (s.worker i).position.inLoop = false → (s.worker i).alive = true →
      w'.position.inLoop = false → (s.worker i).SameIds w' →
      WorkerMove s i .next (s.setWorker i w')
  | record (id : SubmissionId) (v : Verdict) :
      (s.worker i).position = .process → (s.worker i).submission_id = some id → v ≠ .PENDING →
      WorkerMove s i (.record v) ({ s with rows := storeVerdict s.rows id v }.setWorker i
        ((s.worker i).release .deleteSubmission))
  | drop :
      (s.worker i).position.inTry = true →
      WorkerMove s i (.raise .valueError) (s.setWorker i ((s.worker i).release .readShutdown))
  | caught :
      (s.worker i).position.inTry = true →
      WorkerMove s i (.raise .other) (s.setWorker i ((s.worker i).goto .retry))
  | interrupt :
      (s.worker i).position.inTry = true →
      WorkerMove s i .interrupt (s.setWorker i ((s.worker i).goto .deleteShutdown))
  | kill (a : WorkerAction) :
      a = .interrupt ∨ a = .die → (s.worker i).alive = true →
      WorkerMove s i a (s.setWorker i ((s.worker i).goto .ended))

theorem Worker.alive_of_position {w : Worker} {p : Position} (h : w.position = p)
    (hp : p ≠ .ended) : w.alive = true := by
  simp [Worker.alive, h, hp]

theorem workerMove_of_next {s t : State} {i : WorkerId} (h : workerNext s i = some t) :
    WorkerMove s i .next t := by
  unfold workerNext at h
  cases hp : (s.worker i).position with
  | readShutdown =>
      simp only [hp, Option.some.injEq] at h
      subst h
      split
      · exact .leave (by rw [hp]; rfl)
      · exact .walk _ (by rw [hp]; rfl) rfl (.goto _ _)
  | readLocalShutdown =>
      simp only [hp, Option.some.injEq] at h
      subst h
      split
      · exact .leave (by rw [hp]; rfl)
      · exact .walk _ (by rw [hp]; rfl) rfl (.goto _ _)
  | beat =>
      simp only [hp, Option.some.injEq] at h
      subst h
      exact .walk _ (by rw [hp]; rfl) rfl ⟨rfl, rfl, rfl⟩
  | brpop =>
      simp only [hp] at h
      cases hq : rpop s.jobs with
      | none =>
          simp only [hq, Option.some.injEq] at h
          subst h
          exact .walk _ (by rw [hp]; rfl) rfl (.goto _ _)
      | some e =>
          simp only [hq, Option.some.injEq] at h
          subst h
          exact .pop e.1 e.2 hp hq
  | setSubmission =>
      simp only [hp, Option.some.injEq] at h
      subst h
      exact .setKey hp
  | process => simp [hp] at h
  | deleteSubmission =>
      simp only [hp, Option.some.injEq] at h
      subst h
      exact .clearKey hp
  | retry =>
      simp only [hp] at h
      split at h
      case h_1 id hid =>
        obtain rfl := Option.some.inj h
        exact .requeue id hp hid
      case h_2 hid =>
        obtain rfl := Option.some.inj h
        exact .unbound hp hid
  | sleep =>
      simp only [hp, Option.some.injEq] at h
      subst h
      exact .walk _ (by rw [hp]; rfl) rfl (.goto _ _)
  | deleteShutdown =>
      simp only [hp, Option.some.injEq] at h
      subst h
      exact .cleanup _ (by rw [hp]; rfl) (Worker.alive_of_position hp nofun) rfl ⟨rfl, rfl, rfl⟩
  | deleteHeartbeat =>
      simp only [hp, Option.some.injEq] at h
      subst h
      exact .cleanup _ (by rw [hp]; rfl) (Worker.alive_of_position hp nofun) rfl ⟨rfl, rfl, rfl⟩
  | exiting =>
      simp only [hp, Option.some.injEq] at h
      subst h
      exact .cleanup _ (by rw [hp]; rfl) (Worker.alive_of_position hp nofun) rfl (.goto _ _)
  | ended => simp [hp] at h

theorem workerMove_of_step {s t : State} {i : WorkerId} {a : WorkerAction}
    (h : workerStep s i a = some t) : WorkerMove s i a t := by
  cases a with
  | next => exact workerMove_of_next h
  | record v =>
      simp only [workerStep] at h
      split at h
      case h_1 id hp hid =>
        split at h
        case isTrue => cases h
        case isFalse hv =>
          obtain rfl := Option.some.inj h
          exact .record id v hp hid hv
      case h_2 => cases h
  | raise e =>
      simp only [workerStep] at h
      split at h
      case isTrue htry =>
        cases e with
        | valueError =>
            obtain rfl := Option.some.inj h
            exact .drop htry
        | other =>
            obtain rfl := Option.some.inj h
            exact .caught htry
      case isFalse => cases h
  | interrupt =>
      simp only [workerStep] at h
      split at h
      case isTrue htry =>
        obtain rfl := Option.some.inj h
        exact .interrupt htry
      case isFalse =>
        split at h
        case isTrue halive =>
          obtain rfl := Option.some.inj h
          exact .kill _ (.inl rfl) halive
        case isFalse => cases h
  | die =>
      simp only [workerStep] at h
      split at h
      case isTrue halive =>
        obtain rfl := Option.some.inj h
        exact .kill _ (.inr rfl) halive
      case isFalse => cases h

/-! ## Orchestrator steps -/

/-- The submission key of the frozen worker is still there. -/
def Frozen.keyed : Frozen → Bool
  | .terminate _ => false
  | _ => true

def Frozen.pushed : Frozen → Option SubmissionId
  | .deleteShutdown p | .deleteHeartbeat p | .deleteSubmission p | .terminate p => p
  | _ => none

/-- The workers whose submission keys the orchestrator can still examine. -/
def keptIn (pc : Pc) (workers : List WorkerId) : List WorkerId :=
  match pc with
  | .check scan => scan.alive_workers ++ scan.todo
  | .gotHeartbeat scan w _ => scan.alive_workers ++ w :: scan.todo
  | .frozen scan w stage =>
      if stage.keyed then scan.alive_workers ++ w :: scan.todo
      else scan.alive_workers ++ scan.todo
  | .join scan _ => scan.alive_workers ++ scan.todo
  | _ => workers

def kept (s : State) : List WorkerId := keptIn s.pc s.workers

def Pc.names (id : SubmissionId) : Pc → Prop
  | .frozen _ _ (.push id') => id' = id
  | .frozen _ _ stage => stage.pushed = some id
  | _ => False

def Pc.pushedFor (w : WorkerId) : Pc → Option SubmissionId
  | .frozen _ w' stage => if w' = w then stage.pushed else none
  | _ => none

theorem Pc.names_of_pushedFor {w : WorkerId} {id : SubmissionId} {pc : Pc}
    (h : pc.pushedFor w = some id) : pc.names id := by
  cases pc with
  | frozen scan w' stage =>
      by_cases hw : w' = w
      · cases stage <;> simp_all [Pc.pushedFor, Pc.names, Frozen.pushed]
      · simp [Pc.pushedFor, hw] at h
  | _ => cases h

inductive OrchestratorStep (cfg : Config) (s : State) : Pc → State → Prop
  | begin : OrchestratorStep cfg s .begin (s.goto (.check ⟨s.now, s.workers, []⟩))
  | publish (ct : Nat) (alive : List WorkerId) :
      OrchestratorStep cfg s (.check ⟨ct, [], alive⟩) ({ s with workers := alive }.goto .scale)
  | getHeartbeat (ct : Nat) (w : WorkerId) (todo alive : List WorkerId) :
      OrchestratorStep cfg s (.check ⟨ct, w :: todo, alive⟩)
        (s.goto (.gotHeartbeat ⟨ct, todo, alive⟩ w (s.worker w).heartbeat))
  | giveUp (scan : Scan) (w : WorkerId) (hb : Option Nat) :
      (s.worker w).alive = false ∨ hb = none →
      OrchestratorStep cfg s (.gotHeartbeat scan w hb) (s.goto (.join scan w))
  | late (scan : Scan) (w : WorkerId) (hb : Nat) : (s.worker w).alive = true →
      OrchestratorStep cfg s (.gotHeartbeat scan w (some hb))
        (s.goto (.frozen scan w .readSubmission))
  | inTime (scan : Scan) (w : WorkerId) (hb : Nat) : (s.worker w).alive = true →
      OrchestratorStep cfg s (.gotHeartbeat scan w (some hb))
        (s.goto (.check { scan with alive_workers := scan.alive_workers ++ [w] }))
  | frozen (scan : Scan) (w : WorkerId) (stage : Frozen) :
      OrchestratorStep cfg s (.frozen scan w stage) (frozenStep s scan w stage)
  | join (scan : Scan) (w : WorkerId) : (s.worker w).alive = false →
      OrchestratorStep cfg s (.join scan w) (s.goto (.check scan))
  | scale : OrchestratorStep cfg s .scale (s.goto (scaleTo cfg s.jobs.length s.workers.length))
  | spawned : OrchestratorStep cfg s (.spawn 0) (s.goto .begin)
  | spawn (n : Nat) :
      OrchestratorStep cfg s (.spawn (n + 1)) (({ s with
        global_worker_id := s.global_worker_id + 1 }.setWorker s.global_worker_id
          (s.worker s.global_worker_id).spawned).goto (.started n s.global_worker_id))
  | append (n : Nat) (w : WorkerId) :
      OrchestratorStep cfg s (.started n w)
        ({ s with workers := s.workers ++ [w] }.goto (.appended n w))
  | unlock (n : Nat) (w : WorkerId) :
      OrchestratorStep cfg s (.appended n w)
        ((s.setWorker w { s.worker w with shutdown := false }).goto (.unlocked n w))
  | beat (n : Nat) (w : WorkerId) :
      OrchestratorStep cfg s (.unlocked n w)
        ((s.setWorker w { s.worker w with heartbeat := some s.now }).goto (.spawn n))
  | stopped : OrchestratorStep cfg s (.stop 0) (s.goto .begin)
  | stopNone (n : Nat) : rpop s.workers = none →
      OrchestratorStep cfg s (.stop (n + 1)) (s.goto (.stop n))
  | stopPop (n : Nat) (w : WorkerId) (workers : List WorkerId) :
      rpop s.workers = some (w, workers) →
      OrchestratorStep cfg s (.stop (n + 1)) ({ s with workers := workers }.goto (.stopSet n w))
  | stopSet (n : Nat) (w : WorkerId) :
      OrchestratorStep cfg s (.stopSet n w)
        ((s.setWorker w { s.worker w with shutdown := true }).goto (.stopJoin n w s.now))
  | timeout (n : Nat) (w : WorkerId) (since : Nat) : (s.worker w).alive = true →
      since + 5 ≤ s.now →
      OrchestratorStep cfg s (.stopJoin n w since) (s.goto (.stopKill n w))
  | stopJoin (n : Nat) (w : WorkerId) (since : Nat) : (s.worker w).alive = false →
      OrchestratorStep cfg s (.stopJoin n w since) (s.goto (.stop n))
  | stopKill (n : Nat) (w : WorkerId) :
      OrchestratorStep cfg s (.stopKill n w)
        ((s.setWorker w ((s.worker w).goto .ended)).goto (.stop n))
  | finish : (∀ w ∈ s.workers, (s.worker w).alive = false) →
      OrchestratorStep cfg s .shutdown ({ s with shutdown := false }.goto .finished)

theorem orchestratorStep_of_next {cfg : Config} {s t : State}
    (h : orchestratorNext cfg s = some t) : OrchestratorStep cfg s s.pc t := by
  unfold orchestratorNext at h
  cases hpc : s.pc with
  | check scan =>
      obtain ⟨ct, todo, alive⟩ := scan
      cases todo with
      | nil =>
          simp only [hpc, Option.some.injEq] at h
          subst h
          exact .publish ct alive
      | cons w todo =>
          simp only [hpc, Option.some.injEq] at h
          subst h
          exact .getHeartbeat ct w todo alive
  | gotHeartbeat scan w hb =>
      cases halive : (s.worker w).alive with
      | false =>
          simp only [hpc, halive, Option.some.injEq] at h
          subst h
          exact .giveUp scan w hb (.inl halive)
      | true =>
          cases hb with
          | none =>
              simp only [hpc, halive, Option.some.injEq] at h
              subst h
              exact .giveUp scan w none (.inr rfl)
          | some hb =>
              simp only [hpc, halive] at h
              split at h
              · obtain rfl := Option.some.inj h
                exact .late scan w hb halive
              · obtain rfl := Option.some.inj h
                exact .inTime scan w hb halive
  | join scan w =>
      simp only [hpc] at h
      split at h
      case isTrue => cases h
      case isFalse hdead =>
        obtain rfl := Option.some.inj h
        exact .join scan w (Bool.eq_false_iff.mpr hdead)
  | spawn n =>
      cases n with
      | zero =>
          simp only [hpc, Option.some.injEq] at h
          subst h
          exact .spawned
      | succ n =>
          simp only [hpc, Option.some.injEq] at h
          subst h
          exact .spawn n
  | stop n =>
      cases n with
      | zero =>
          simp only [hpc, Option.some.injEq] at h
          subst h
          exact .stopped
      | succ n =>
          simp only [hpc] at h
          cases hq : rpop s.workers with
          | none =>
              simp only [hq, Option.some.injEq] at h
              subst h
              exact .stopNone n hq
          | some e =>
              simp only [hq, Option.some.injEq] at h
              subst h
              exact .stopPop n e.1 e.2 hq
  | stopJoin n w since =>
      simp only [hpc] at h
      split at h
      case isTrue halive =>
        split at h
        case isTrue hlate =>
          obtain rfl := Option.some.inj h
          exact .timeout n w since halive hlate
        case isFalse => cases h
      case isFalse hdead =>
        obtain rfl := Option.some.inj h
        exact .stopJoin n w since (Bool.eq_false_iff.mpr hdead)
  | shutdown =>
      simp only [hpc] at h
      split at h
      case isTrue => cases h
      case isFalse hdead =>
        obtain rfl := Option.some.inj h
        exact .finish (by simpa using hdead)
  | finished => simp [hpc] at h
  | _ =>
      simp only [hpc, Option.some.injEq] at h
      subst h
      constructor

inductive OrchestratorMove (s : State) : State → Prop
  | goto (pc : Pc) :
      (∀ i, i ∈ keptIn pc s.workers ↔ i ∈ kept s) → (∀ id, ¬ pc.names id) →
      OrchestratorMove s (s.goto pc)
  /-- `check_heartbeat` returns. -/
  | publish (workers : List WorkerId) :
      (∀ i, i ∈ workers ↔ i ∈ kept s) →
      OrchestratorMove s ({ s with workers := workers }.goto .scale)
  /-- The branch for workers that have ended or have no heartbeat. -/
  | giveUp (scan : Scan) (w : WorkerId) (hb : Option Nat) :
      s.pc = .gotHeartbeat scan w hb → (s.worker w).alive = false ∨ hb = none →
      OrchestratorMove s (s.goto (.join scan w))
  | readKey (scan : Scan) (w : WorkerId) (id : SubmissionId) :
      s.pc = .frozen scan w .readSubmission → (s.worker w).submission = some id →
      OrchestratorMove s (s.goto (.frozen scan w (.push id)))
  | push (scan : Scan) (w : WorkerId) (id : SubmissionId) :
      s.pc = .frozen scan w (.push id) →
      OrchestratorMove s { s with
        jobs := id :: s.jobs
        putBack := (id, s.rows id) :: s.putBack
        pc := .frozen scan w (.deleteShutdown (some id)) }
  | clear (scan : Scan) (w : WorkerId) (stage stage' : Frozen) (w' : Worker) :
      s.pc = .frozen scan w stage → stage.keyed = true → stage'.keyed = true →
      stage'.pushed = stage.pushed → (∀ id, (Pc.frozen scan w stage').names id →
        (Pc.frozen scan w stage).names id) → (s.worker w).SameIds w' →
      w'.position = (s.worker w).position →
      OrchestratorMove s ((s.setWorker w w').goto (.frozen scan w stage'))
  | deleteKey (scan : Scan) (w : WorkerId) (pushed : Option SubmissionId) :
      s.pc = .frozen scan w (.deleteSubmission pushed) →
      OrchestratorMove s ((s.setWorker w (s.worker w).deleteKey).goto
        (.frozen scan w (.terminate pushed)))
  | terminate (scan : Scan) (w : WorkerId) (pushed : Option SubmissionId) :
      s.pc = .frozen scan w (.terminate pushed) →
      OrchestratorMove s ((s.setWorker w ((s.worker w).goto .ended)).goto (.join scan w))
  | spawn (n : Nat) :
      s.pc = .spawn (n + 1) →
      OrchestratorMove s (({ s with global_worker_id := s.global_worker_id + 1 }.setWorker
        s.global_worker_id (s.worker s.global_worker_id).spawned).goto
        (.started n s.global_worker_id))
  | append (n : Nat) (w : WorkerId) :
      s.pc = .started n w →
      OrchestratorMove s ({ s with workers := s.workers ++ [w] }.goto (.appended n w))
  /-- The shutdown key or the heartbeat of a worker is set. -/
  | tune (w : WorkerId) (w' : Worker) (pc : Pc) :
      kept s = s.workers → (∀ workers, keptIn pc workers = workers) → (∀ id, ¬ pc.names id) →
      (s.worker w).SameIds w' → w'.position = (s.worker w).position →
      OrchestratorMove s ((s.setWorker w w').goto pc)
  | stopPop (n : Nat) (w : WorkerId) (workers : List WorkerId) :
      s.pc = .stop (n + 1) → rpop s.workers = some (w, workers) →
      OrchestratorMove s ({ s with workers := workers }.goto (.stopSet n w))
  | stopKill (n : Nat) (w : WorkerId) :
      s.pc = .stopKill n w →
      OrchestratorMove s ((s.setWorker w ((s.worker w).goto .ended)).goto (.stop n))
  | finish : s.pc = .shutdown →
      OrchestratorMove s ({ s with shutdown := false }.goto .finished)

theorem orchestratorMove_of_next {cfg : Config} {s t : State}
    (h : orchestratorNext cfg s = some t) : OrchestratorMove s t := by
  have hstep := orchestratorStep_of_next h
  generalize hpc : s.pc = pc at hstep
  cases hstep with
  | publish ct alive => exact .publish _ (by simp [kept, keptIn, hpc])
  | giveUp scan w hb hgone => exact .giveUp scan w hb hpc hgone
  | late scan w hb =>
      exact .goto _ (by simp [kept, keptIn, hpc, Frozen.keyed]) (by simp [Pc.names, Frozen.pushed])
  | frozen scan w stage =>
      cases stage with
      | readSubmission =>
          simp only [frozenStep]
          split
          case h_1 id hid => exact .readKey scan w id hpc hid
          case h_2 =>
            exact .goto _ (by simp [kept, keptIn, hpc, Frozen.keyed])
              (by simp [Pc.names, Frozen.pushed])
      | push id => exact .push scan w id hpc
      | deleteShutdown p =>
          exact .clear scan w _ _ _ hpc rfl rfl rfl (fun id h => h) ⟨rfl, rfl, rfl⟩ rfl
      | deleteHeartbeat p =>
          exact .clear scan w _ _ _ hpc rfl rfl rfl (fun id h => h) ⟨rfl, rfl, rfl⟩ rfl
      | deleteSubmission p => exact .deleteKey scan w p hpc
      | terminate p => exact .terminate scan w p hpc
  | scale =>
      refine .goto _ ?_ ?_
      · simp only [scaleTo, kept, hpc]
        split
        · simp [keptIn]
        · split <;> simp [keptIn]
      · intro id
        simp only [scaleTo]
        split
        · exact nofun
        · split <;> exact nofun
  | spawn n => exact .spawn n hpc
  | append n w => exact .append n w hpc
  | unlock n w | beat n w | stopSet n w =>
      exact .tune w _ _ (by simp [kept, keptIn, hpc]) (fun _ => rfl) nofun ⟨rfl, rfl, rfl⟩ rfl
  | stopPop n w workers hq => exact .stopPop n w workers hpc hq
  | stopKill n w => exact .stopKill n w hpc
  | finish => exact .finish hpc
  | _ => exact .goto _ (by simp [kept, keptIn, hpc]) nofun

/-! ## Other steps -/

theorem enqueue_of_step {cfg : Config} {s t : State} {id : SubmissionId}
    (h : step cfg s (.enqueue id) = some t) :
    id ∈ s.unsent ∧ t = { s with
      jobs := id :: s.jobs, unsent := s.unsent.filter (· != id) } := by
  simp only [step] at h
  split at h
  case isTrue hid => exact ⟨hid, (Option.some.inj h).symm⟩
  case isFalse => cases h

theorem interrupt_of_step {cfg : Config} {s t : State} (h : step cfg s .interrupt = some t) :
    t = { s with shutdown := true }.goto .shutdown := by
  simp only [step] at h
  split at h
  case h_1 => cases h
  case h_2 => cases h
  case h_3 => exact (Option.some.inj h).symm

end ByteBattles.Judge.Orchestrator
