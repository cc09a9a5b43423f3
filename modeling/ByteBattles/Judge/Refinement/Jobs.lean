import ByteBattles.Judge.JudgeWorker.Protocol
import ByteBattles.Judge.Orchestrator.CrashRecovery
import ByteBattles.Lib.Simulation

/-!
# Whole iterations and the orchestrator

Workers that make all the calls of their iterations, one call a step, beside the
orchestrator and the API.  They refine the workers of the orchestrator's model, whose
`process_submission` is one call that stores a verdict or raises.
-/

namespace ByteBattles.Judge.Refinement.Jobs

open ByteBattles.Lib

open ByteBattles.Judge.JudgeWorker (Advances advances_of_protocol Call Environment Exc Finished
  Keeps LeavesTry Outcome Phase Run World boundId ifReturns protocol)

open ByteBattles.Judge.Orchestrator (Position SubmissionId Worker WorkerAction WorkerId
  orchestratorNext storeVerdict workerNext workerStep)

/-! ## The system -/

structure Iteration where
  env : Environment
  w : World
  rest : Run Outcome

/-- A worker that is in an iteration stays in the position `beat` of `judge`. -/
structure State where
  judge : Orchestrator.State
  running : WorkerId → Option Iteration

inductive Action
  /-- The API, the clock and the orchestrator. -/
  | other (a : Orchestrator.Action)
  /-- Worker `i` between two iterations, or after the last. -/
  | outside (i : WorkerId) (a : WorkerAction)
  /-- Worker `i` begins an iteration that finds `w` and will meet `env`. -/
  | begin (i : WorkerId) (env : Environment) (w : World)
  /-- Worker `i` makes its next call. -/
  | call (i : WorkerId)
  | finish (i : WorkerId)
  | die (i : WorkerId)

structure Config where
  orchestrator : Orchestrator.Config
  judge : JudgeWorker.Config

/-- The processes that are still in their loop go on with their iterations. -/
def State.settle (s : State) (judge : Orchestrator.State) : State where
  judge := judge
  running := fun i => if (judge.worker i).position = .beat then s.running i else none

def effect (s : Orchestrator.State) (i : WorkerId) (payload : Option Str) :
    Call → Option Orchestrator.State
  | .setHeartbeat => some (s.setWorker i { s.worker i with heartbeat := some s.now })
  | .brpop =>
      match rpop s.jobs, payload with
      | none, none => some s
      | some (id, jobs), some payload =>
          if PyNumber.int payload = some (id : Int) then some { s with jobs := jobs } else none
      | _, _ => none
  | .setSubmission id => some (s.setWorker i { s.worker i with submission := some id.toNat })
  | .deleteSubmission _ => some (s.setWorker i { s.worker i with submission := none })
  | .lpush id => some { s with jobs := id.toNat :: s.jobs }
  | .commit _ (some (id, result)) =>
      some { s with rows := storeVerdict s.rows id.toNat result.verdict }
  | _ => some s

def called (env : Environment) (s : Orchestrator.State) (i : WorkerId) (payload : Option Str)
    (c : Call) : Option Orchestrator.State :=
  match env.raises c.step with
  | none => effect s i payload c
  | some _ => some s

def after : Except Exc Outcome → Position
  | .ok .shutdown => .deleteShutdown
  | .ok _ => .readShutdown
  | .error _ => .ended

def Iteration.ended (it : Iteration) (u : Worker) : Worker :=
  { u with
    position := after it.rest.result
    submission_id := (boundId it.env it.w.submission_id it.w.jobs.getLast?).map Int.toNat }

def Outside (w : Worker) : WorkerAction → Prop
  | .next => w.position ≠ .beat
  | .interrupt | .die => True
  | .record _ | .raise _ => False

instance (w : Worker) : (a : WorkerAction) → Decidable (Outside w a)
  | .next => inferInstanceAs (Decidable (_ ≠ _))
  | .interrupt | .die => isTrue trivial
  | .record _ | .raise _ => isFalse id

def step (cfg : Config) (s : State) : Action → Option State
  | .other (.worker _ _) => none
  | .other a => (Orchestrator.step cfg.orchestrator s.judge a).map s.settle
  | .outside i a =>
      if s.running i = none ∧ Outside (s.judge.worker i) a then
        (workerStep s.judge i a).map s.settle
      else none
  | .begin i env w =>
      if s.running i = none ∧ (s.judge.worker i).position = .beat ∧
          w.submission_id = (s.judge.worker i).submission_id.map Int.ofNat then
        some { s with running := Function.update s.running i (some ⟨env, w, w.run cfg.judge env⟩) }
      else none
  | .call i =>
      match s.running i with
      | some ⟨env, w, c :: calls, result⟩ =>
          (called env s.judge i w.jobs.getLast? c).map fun judge =>
            { judge := judge
              running := Function.update s.running i (some ⟨env, w, calls, result⟩) }
      | _ => none
  | .finish i =>
      match s.running i with
      | some ⟨env, w, [], result⟩ =>
          some (s.settle (s.judge.setWorker i
            (Iteration.ended ⟨env, w, [], result⟩ (s.judge.worker i))))
      | _ => none
  | .die i =>
      if (s.judge.worker i).position = .ended then none
      else some (s.settle (s.judge.setWorker i ((s.judge.worker i).goto .ended)))

def system (cfg : Config) : System State Action where
  init := fun s => s = ⟨Orchestrator.start, fun _ => none⟩
  step := step cfg

/-! ## What the orchestrator sees of a worker -/

structure SameView (u t : Worker) : Prop where
  alive : t.alive = u.alive
  heartbeat : t.heartbeat = u.heartbeat
  submission : t.submission = u.submission

/-- What the orchestrator does to a worker. -/
inductive Touch : (Worker → Worker) → Prop
  | none : Touch id
  | shutdown (b : Bool) : Touch fun w => { w with shutdown := b }
  | heartbeat (hb : Option Nat) : Touch fun w => { w with heartbeat := hb }
  | deleteKey : Touch Worker.deleteKey
  | kill : Touch fun w => w.goto .ended
  | spawn : Touch Worker.spawned

/-- One worker is touched, in both systems alike. -/
def Alike (cfg : Orchestrator.Config) (s s' : Orchestrator.State) (worker : WorkerId → Worker) :
    Prop :=
  ∃ i f, Touch f ∧ s'.worker = Function.update s.worker i (f (s.worker i)) ∧
    orchestratorNext cfg { s with worker := worker } =
      some { s' with worker := Function.update worker i (f (worker i)) }

/-- The step leaves the workers alone. -/
theorem Alike.kept {cfg : Orchestrator.Config} {s s' : Orchestrator.State}
    {worker : WorkerId → Worker} (hs' : s'.worker = s.worker)
    (hnext : orchestratorNext cfg { s with worker := worker } =
      some { s' with worker := worker }) : Alike cfg s s' worker := by
  refine ⟨0, id, .none, ?_, ?_⟩
  · rw [hs', id, Function.update_eq_self]
  · rw [id, Function.update_eq_self, hnext]

/-- A step of the orchestrator does the same among workers that look the same. -/
theorem orchestratorNext_alike {cfg : Orchestrator.Config} {s s' : Orchestrator.State}
    {worker : WorkerId → Worker} (hview : ∀ i, SameView (s.worker i) (worker i))
    (h : orchestratorNext cfg s = some s') : Alike cfg s s' worker := by
  have halive (i : WorkerId) : (worker i).alive = (s.worker i).alive := (hview i).alive
  unfold orchestratorNext at h
  cases hpc : s.pc with
  | check scan =>
      obtain ⟨ct, todo, alive⟩ := scan
      cases todo with
      | nil =>
          simp only [hpc, Option.some.injEq] at h
          subst h
          refine .kept rfl ?_
          simp only [orchestratorNext, hpc]
          rfl
      | cons w todo =>
          simp only [hpc, Option.some.injEq] at h
          subst h
          refine .kept rfl ?_
          simp only [orchestratorNext, hpc, (hview w).heartbeat]
          rfl
  | gotHeartbeat scan w hb =>
      have hnext : orchestratorNext cfg { s with worker := worker } =
          (orchestratorNext cfg s).map fun t => { t with worker := worker } := by
        simp only [orchestratorNext, hpc, halive]
        cases (s.worker w).alive <;> cases hb <;> try rfl
        dsimp only
        split <;> rfl
      have hworker : s'.worker = s.worker := by
        simp only [hpc] at h
        split at h
        case h_1 =>
          split at h <;>
          · obtain rfl := Option.some.inj h
            rfl
        case h_2 =>
          obtain rfl := Option.some.inj h
          rfl
      refine .kept hworker (hnext.trans ?_)
      rw [show orchestratorNext cfg s = some s' from h, Option.map_some]
  | frozen scan w stage =>
      simp only [hpc, Option.some.injEq] at h
      subst h
      cases stage with
      | readSubmission =>
          have hsubmission := (hview w).submission
          cases hkey : (s.worker w).submission <;>
          · refine .kept ?_ ?_
            · simp only [Orchestrator.frozenStep, hkey]
              rfl
            · simp only [orchestratorNext, hpc, Orchestrator.frozenStep, hsubmission, hkey]
              rfl
      | push id =>
          refine .kept rfl ?_
          simp only [orchestratorNext, hpc]
          rfl
      | deleteShutdown pushed =>
          refine ⟨w, _, .shutdown false, rfl, ?_⟩
          simp only [orchestratorNext, hpc]
          rfl
      | deleteHeartbeat pushed =>
          refine ⟨w, _, .heartbeat none, rfl, ?_⟩
          simp only [orchestratorNext, hpc]
          rfl
      | deleteSubmission pushed =>
          refine ⟨w, _, .deleteKey, rfl, ?_⟩
          simp only [orchestratorNext, hpc]
          rfl
      | terminate pushed =>
          refine ⟨w, _, .kill, rfl, ?_⟩
          simp only [orchestratorNext, hpc]
          rfl
  | join scan w =>
      simp only [hpc] at h
      split at h
      case isTrue => cases h
      case isFalse hdead =>
        obtain rfl := Option.some.inj h
        refine .kept rfl ?_
        simp only [orchestratorNext, hpc, halive, if_neg hdead]
        rfl
  | spawn n =>
      cases n with
      | zero =>
          simp only [hpc, Option.some.injEq] at h
          subst h
          refine .kept rfl ?_
          simp only [orchestratorNext, hpc]
          rfl
      | succ n =>
          simp only [hpc, Option.some.injEq] at h
          subst h
          refine ⟨s.global_worker_id, _, .spawn, rfl, ?_⟩
          simp only [orchestratorNext, hpc]
          rfl
  | appended n w =>
      simp only [hpc, Option.some.injEq] at h
      subst h
      refine ⟨w, _, .shutdown false, rfl, ?_⟩
      simp only [orchestratorNext, hpc]
      rfl
  | unlocked n w =>
      simp only [hpc, Option.some.injEq] at h
      subst h
      refine ⟨w, _, .heartbeat (some s.now), rfl, ?_⟩
      simp only [orchestratorNext, hpc]
      rfl
  | stop n =>
      cases n with
      | zero =>
          simp only [hpc, Option.some.injEq] at h
          subst h
          refine .kept rfl ?_
          simp only [orchestratorNext, hpc]
          rfl
      | succ n =>
          simp only [hpc] at h
          cases hpop : rpop s.workers <;>
          · simp only [hpop, Option.some.injEq] at h
            subst h
            refine .kept rfl ?_
            simp only [orchestratorNext, hpc, hpop]
            rfl
  | stopSet n w =>
      simp only [hpc, Option.some.injEq] at h
      subst h
      refine ⟨w, _, .shutdown true, rfl, ?_⟩
      simp only [orchestratorNext, hpc]
      rfl
  | stopJoin n w since =>
      simp only [hpc] at h
      split at h
      case isTrue hw =>
        split at h
        case isTrue hlate =>
          obtain rfl := Option.some.inj h
          refine .kept rfl ?_
          simp only [orchestratorNext, hpc, halive, if_pos hw, if_pos hlate]
          rfl
        case isFalse => cases h
      case isFalse hdead =>
        obtain rfl := Option.some.inj h
        refine .kept rfl ?_
        simp only [orchestratorNext, hpc, halive, if_neg hdead]
        rfl
  | stopKill n w =>
      simp only [hpc, Option.some.injEq] at h
      subst h
      refine ⟨w, _, .kill, rfl, ?_⟩
      simp only [orchestratorNext, hpc]
      rfl
  | shutdown =>
      simp only [hpc] at h
      split at h
      case isTrue => cases h
      case isFalse hdead =>
        obtain rfl := Option.some.inj h
        refine .kept rfl ?_
        simp only [orchestratorNext, hpc, halive, if_neg hdead]
        rfl
  | finished =>
      simp only [hpc] at h
      cases h
  | begin | scale | started =>
      simp only [hpc, Option.some.injEq] at h
      subst h
      refine .kept rfl ?_
      simp only [orchestratorNext, hpc]
      rfl

/-! ## The worker of the model -/

/-- Where the model's worker is. -/
def At : Phase → Position → Prop
  | .beat, pos => pos = .beat
  | .pop, pos => pos = .brpop
  | .popped, pos => pos = .setSubmission
  | .session .result .committed, pos | .stored, pos => pos = .deleteSubmission
  | .idle, pos | .processed, pos | .retried, pos => pos = .readShutdown
  | .failed, pos => pos.inTry = true
  | .pushed, pos => pos = .sleep
  | .dead, pos => pos ≠ .ended
  | _, pos => pos = .process

def Knows (env : Environment) (w : World) (p : Phase) (id? : Option SubmissionId) : Prop :=
  match p with
  | .beat | .pop => id?.map Int.ofNat = w.submission_id
  | .dead => True
  | _ => id?.map Int.ofNat = boundId env w.submission_id w.jobs.getLast?

structure SameKeys (u t : Worker) : Prop where
  shutdown : t.shutdown = u.shutdown
  heartbeat : t.heartbeat = u.heartbeat
  submission : t.submission = u.submission

def outer : Position → Bool
  | .readShutdown | .readLocalShutdown | .beat | .deleteShutdown | .deleteHeartbeat | .exiting
  | .ended => true
  | _ => false

/-- A worker, and the worker of the model that stands for it. -/
inductive Stands : Option Iteration → Worker → Worker → Prop
  | outside {u t : Worker} (hkeys : SameKeys u t) (hposition : t.position = u.position)
      (hid : u.position ≠ .ended → t.submission_id = u.submission_id)
      (houter : outer u.position = true) : Stands none u t
  | inside {u t : Worker} {env : Environment} {w : World} {rest : Run Outcome} {p : Phase}
      (hkeys : SameKeys u t) (hbeat : u.position = .beat)
      (hkeeps : Keeps env w.submission_id w.jobs.getLast? p rest Finished
        fun _ q => q = .failed ∨ q = .dead)
      (hat : At p t.position) (hknows : Knows env w p t.submission_id) :
      Stands (some ⟨env, w, rest⟩) u t

/-- The same judge, with a worker of the model for each worker. -/
structure Matches (s : State) (t : Orchestrator.State) : Prop where
  judge : t = { s.judge with worker := t.worker }
  stands : ∀ i, Stands (s.running i) (s.judge.worker i) (t.worker i)

section

variable {u t : Worker} {it? : Option Iteration} {p : Phase} {pos : Position}

theorem At.alive (h : At p pos) : pos ≠ .ended := by
  unfold At at h
  split at h
  case h_9 =>
    rintro rfl
    cases h
  all_goals first | exact h | (rw [h]; exact fun h => by cases h)

theorem Stands.keys (h : Stands it? u t) : SameKeys u t := by
  cases h <;> assumption

theorem Stands.view (h : Stands it? u t) : SameView u t := by
  refine ⟨?_, h.keys.heartbeat, h.keys.submission⟩
  cases h with
  | outside _ hposition => simp only [Worker.alive, hposition]
  | inside _ hbeat _ hat =>
      simp only [Worker.alive, hbeat, bne_iff_ne.mpr hat.alive]
      rfl

theorem Stands.touch (h : Stands it? u t) {f : Worker → Worker} (hf : Touch f) :
    Stands (if (f u).position = .beat then it? else none) (f u) (f t) := by
  -- what leaves the position and the local variable alone
  have hkept (hposition : ∀ w, (f w).position = w.position)
      (hid : ∀ w, (f w).submission_id = w.submission_id) (hkeys : SameKeys (f u) (f t)) :
      Stands (if (f u).position = .beat then it? else none) (f u) (f t) := by
    cases h with
    | outside _ hsame hlocal houter =>
        rw [ite_self]
        refine .outside hkeys ?_ ?_ ?_
        · rw [hposition, hposition, hsame]
        · rwa [hposition, hid, hid]
        · rwa [hposition]
    | inside _ hbeat hkeeps hat hknows =>
        rw [if_pos ((hposition u).trans hbeat)]
        refine .inside hkeys ((hposition u).trans hbeat) hkeeps ?_ ?_
        · rwa [hposition]
        · rwa [hid]
  obtain ⟨hshutdown, hheartbeat, hsubmission⟩ := h.keys
  cases hf with
  | none => exact hkept (fun _ => rfl) (fun _ => rfl) ⟨hshutdown, hheartbeat, hsubmission⟩
  | shutdown b => exact hkept (fun _ => rfl) (fun _ => rfl) ⟨rfl, hheartbeat, hsubmission⟩
  | heartbeat hb => exact hkept (fun _ => rfl) (fun _ => rfl) ⟨hshutdown, rfl, hsubmission⟩
  | deleteKey => exact hkept (fun _ => rfl) (fun _ => rfl) ⟨hshutdown, hheartbeat, rfl⟩
  | kill =>
      exact .outside ⟨hshutdown, hheartbeat, hsubmission⟩ rfl (fun hne => absurd rfl hne) rfl
  | spawn => exact .outside ⟨hshutdown, hheartbeat, hsubmission⟩ rfl (fun _ => rfl) rfl

theorem Stands.settled (h : Stands it? u t) :
    (if u.position = .beat then it? else none) = it? := by
  cases h with
  | outside => exact ite_self _
  | inside _ hbeat => exact if_pos hbeat

end

section

variable {cfg : Config} {s s' : State} {t t' judge : Orchestrator.State} {i : WorkerId}

theorem Matches.move (h : Matches s t) (hjudge : t' = { s'.judge with worker := t'.worker })
    (hframe : ∀ j ≠ i, s'.running j = s.running j ∧ s'.judge.worker j = s.judge.worker j ∧
      t'.worker j = t.worker j)
    (hi : Stands (s'.running i) (s'.judge.worker i) (t'.worker i)) : Matches s' t' := by
  refine ⟨hjudge, fun j => ?_⟩
  by_cases hj : j = i
  · exact hj ▸ hi
  · obtain ⟨hrunning, hworker, hworker'⟩ := hframe j hj
    rw [hrunning, hworker, hworker']
    exact h.stands j

theorem Matches.settle_running (h : Matches s t) {j : WorkerId}
    (hj : judge.worker j = s.judge.worker j) : (s.settle judge).running j = s.running j := by
  show (if (judge.worker j).position = .beat then s.running j else none) = _
  rw [hj]
  exact (h.stands j).settled

theorem Matches.touch (h : Matches s t) {f : Worker → Worker} (hf : Touch f)
    (hworker : judge.worker = Function.update s.judge.worker i (f (s.judge.worker i))) :
    Matches (s.settle judge)
      { judge with worker := Function.update t.worker i (f (t.worker i)) } := by
  have hi : judge.worker i = f (s.judge.worker i) := by rw [hworker, Function.update_self]
  refine h.move (i := i) rfl (fun j hj => ?_) ?_
  · have hj' : judge.worker j = s.judge.worker j := by rw [hworker, Function.update_of_ne hj]
    exact ⟨h.settle_running hj', hj', Function.update_of_ne hj _ _⟩
  · show Stands (if (judge.worker i).position = .beat then s.running i else none)
      (judge.worker i) (Function.update t.worker i (f (t.worker i)) i)
    rw [hi, Function.update_self]
    exact (h.stands i).touch hf

theorem Matches.kept (h : Matches s t) (hworker : judge.worker = s.judge.worker) :
    Matches (s.settle judge) { judge with worker := t.worker } := by
  have hsame : judge.worker = Function.update s.judge.worker 0 (id (s.judge.worker 0)) := by
    rw [hworker, id, Function.update_eq_self]
  have htouch := h.touch .none hsame
  rwa [id, Function.update_eq_self] at htouch

/-- A step of the API, the clock or the orchestrator. -/
theorem Matches.other (h : Matches s t) {a : Orchestrator.Action}
    (ha : ∀ j b, a ≠ .worker j b)
    (hstep : Orchestrator.step cfg.orchestrator s.judge a = some judge) :
    ∃ t', Orchestrator.step cfg.orchestrator t a = some t' ∧ Matches (s.settle judge) t' := by
  have hkept (hworker : judge.worker = s.judge.worker)
      (hstep : Orchestrator.step cfg.orchestrator { s.judge with worker := t.worker } a =
        some { judge with worker := t.worker }) :
      ∃ t', Orchestrator.step cfg.orchestrator t a = some t' ∧ Matches (s.settle judge) t' :=
    ⟨_, h.judge ▸ hstep, h.kept hworker⟩
  cases a with
  | worker j b => exact absurd rfl (ha j b)
  | tick | commit | deleteRow =>
      obtain rfl := Option.some.inj hstep
      exact hkept rfl rfl
  | enqueue id =>
      simp only [Orchestrator.step] at hstep
      obtain ⟨hunsent, hstep⟩ := Option.ite_none_right_eq_some.mp hstep
      obtain rfl := Option.some.inj hstep
      exact hkept rfl (if_pos hunsent)
  | orchestrator =>
      obtain ⟨i, f, hf, hworker, hnext⟩ :=
        orchestratorNext_alike (fun i => (h.stands i).view) hstep
      refine ⟨_, ?_, h.touch hf hworker⟩
      rw [h.judge]
      exact hnext
  | interrupt =>
      simp only [Orchestrator.step] at hstep
      cases hpc : s.judge.pc with
      | shutdown | finished =>
          rw [hpc] at hstep
          cases hstep
      | _ =>
          rw [hpc] at hstep
          obtain rfl := Option.some.inj hstep
          refine hkept rfl ?_
          simp only [Orchestrator.step, hpc]
          rfl

end

/-! ## The calls of an iteration -/

section

variable {env : Environment} {w : World} {p q : Phase} {c : Call} {pos : Position}
  {id? : Option SubmissionId}

theorem At.inTry (h : At p pos)
    (hp : p ≠ .beat ∧ (p ≠ .idle ∧ p ≠ .processed ∧ p ≠ .retried) ∧ p ≠ .pushed ∧ p ≠ .dead) :
    pos.inTry = true := by
  unfold At at h
  split at h
  case h_1 => exact absurd rfl hp.1
  case h_6 => exact absurd rfl hp.2.1.1
  case h_7 => exact absurd rfl hp.2.1.2.1
  case h_8 => exact absurd rfl hp.2.1.2.2
  case h_9 => exact h
  case h_10 => exact absurd rfl hp.2.2.1
  case h_11 => exact absurd rfl hp.2.2.2
  all_goals rw [h]; rfl

theorem at_session {db : JudgeWorker.Session} {t : JudgeWorker.Transaction} (ht : t ≠ .committed) :
    At (.session db t) pos ↔ pos = .process := by
  cases db <;> cases t <;> first | rfl | exact absurd rfl ht

theorem raised_ne_committed (e : Exc) : JudgeWorker.Transaction.raised e ≠ .committed := by
  unfold JudgeWorker.Transaction.raised
  split <;> simp

/-- The model's worker sees nothing of a call that raises. -/
theorem stays_of_raises {e : Exc}
    (hcall : Advances env w.submission_id w.jobs.getLast? p c (some e) q)
    (hraises : env.raises c.step = some e) (hat : At p pos) (hknows : Knows env w p id?) :
    At q pos ∧ Knows env w q id? := by
  cases hcall with
  | beat | push | pause => exact ⟨hat.alive, trivial⟩
  | pop =>
      refine ⟨hat.inTry (by simp), hknows.trans ?_⟩
      simp [boundId, show env.raises .brpop = some e from hraises]
  | setKey | deleteKey | acquire | publish | lookUp | close | abandon =>
      exact ⟨hat.inTry (by simp), hknows⟩
  | enter _ hp =>
      refine ⟨(at_session (raised_ne_committed e)).mpr ?_, ?_⟩ <;>
        rcases hp with ⟨rfl, rfl⟩ | ⟨rfl, rfl⟩ <;> assumption
  | query | commit =>
      exact ⟨(at_session (raised_ne_committed e)).mpr ((at_session (by simp)).mp hat), hknows⟩
  | rollback _ ht =>
      refine ⟨(at_session (by simp)).mpr ((at_session ?_).mp hat), hknows⟩
      rcases ht with rfl | rfl <;> simp
  | inside => exact ⟨hat, hknows⟩
  | stop =>
      have hfailed (b : Bool) : (if b = true then ifReturns .judged .failed (some e) else .failed) =
          Phase.failed := by cases b <;> rfl
      rw [hfailed]
      exact ⟨hat.inTry (by simp), hknows⟩

/-- The model's worker `i` follows worker `i` from `s` to `s'`, and stands for it in phase `q`. -/
def Mirrored (cfg : Orchestrator.Config) (env : Environment) (w : World) (q : Phase)
    (i : WorkerId) (worker : WorkerId → Worker) (s s' : Orchestrator.State) : Prop :=
  ∃ t, (Orchestrator.system cfg).PathUnder (fun _ _ => True) { s with worker := worker }
      { s' with worker := Function.update worker i t } ∧
    SameKeys (s'.worker i) t ∧ At q t.position ∧ Knows env w q t.submission_id

section

variable {cfg : Orchestrator.Config} {s s' : Orchestrator.State} {worker : WorkerId → Worker}
  {i : WorkerId}

theorem mirrored_of_stays (hkeys : SameKeys (s.worker i) (worker i))
    (hat : At q (worker i).position) (hknows : Knows env w q (worker i).submission_id) :
    Mirrored cfg env w q i worker s s := by
  refine ⟨worker i, ?_, hkeys, hat, hknows⟩
  rw [Function.update_eq_self]
  exact .refl

theorem mirrored_of_step {a : WorkerAction} {t : Worker}
    (hstep : workerStep { s with worker := worker } i a =
      some { s' with worker := Function.update worker i t })
    (hkeys : SameKeys (s'.worker i) t) (hat : At q t.position)
    (hknows : Knows env w q t.submission_id) : Mirrored cfg env w q i worker s s' :=
  ⟨t, .single (b := .worker i a) trivial hstep, hkeys, hat, hknows⟩

theorem mirrored_beat (hkeys : SameKeys (s.worker i) (worker i))
    (hat : (worker i).position = .beat) (hknows : Knows env w .beat (worker i).submission_id) :
    Mirrored cfg env w .pop i worker s
      (s.setWorker i { s.worker i with heartbeat := some s.now }) := by
  refine mirrored_of_step (a := .next)
    (t := { worker i with position := .brpop, heartbeat := some s.now }) ?_ ?_ rfl hknows
  · simp only [workerStep, workerNext, hat]
    rfl
  · rw [Orchestrator.State.setWorker]
    dsimp only
    rw [Function.update_self]
    exact ⟨hkeys.shutdown, rfl, hkeys.submission⟩

/-- The answer of the `brpop` is the one that the iteration meets. -/
theorem mirrored_pop (hkeys : SameKeys (s.worker i) (worker i))
    (hat : (worker i).position = .brpop) (hknows : Knows env w .pop (worker i).submission_id)
    (hraises : env.raises .brpop = none) (heffect : effect s i w.jobs.getLast? .brpop = some s') :
    Mirrored cfg env w (if w.jobs.getLast?.isSome then .popped else .idle) i worker s s' := by
  simp only [effect] at heffect
  split at heffect
  case h_1 hpop hpayload =>
    obtain rfl := Option.some.inj heffect
    rw [hpayload]
    refine mirrored_of_step (a := .next) (t := (worker i).goto .readShutdown) ?_ ?_ rfl ?_
    · simp only [workerStep, workerNext, hat, hpop]
      rfl
    · exact ⟨hkeys.shutdown, hkeys.heartbeat, hkeys.submission⟩
    · refine Eq.trans hknows ?_
      simp [hpayload, boundId]
  case h_2 id jobs payload hpop hpayload =>
    obtain ⟨hint, heffect⟩ := Option.ite_none_right_eq_some.mp heffect
    obtain rfl := Option.some.inj heffect
    rw [hpayload]
    refine mirrored_of_step (a := .next) (t := (worker i).take id) ?_ ?_ rfl ?_
    · simp only [workerStep, workerNext, hat, hpop]
      rfl
    · exact ⟨hkeys.shutdown, hkeys.heartbeat, hkeys.submission⟩
    · show some (id : Int) = _
      simp [hpayload, boundId, hraises, hint]
  case h_3 => cases heffect

theorem mirrored_setKey {submission_id : Int} (hkeys : SameKeys (s.worker i) (worker i))
    (hat : (worker i).position = .setSubmission)
    (hknows : Knows env w .popped (worker i).submission_id)
    (hlocal : boundId env w.submission_id w.jobs.getLast? = some submission_id) :
    Mirrored cfg env w .keyed i worker s
      (s.setWorker i { s.worker i with submission := some submission_id.toNat }) := by
  obtain ⟨id, hid, rfl⟩ := Option.map_eq_some_iff.mp (Eq.trans hknows hlocal)
  refine mirrored_of_step (a := .next) (t := (worker i).setKey.goto .process) ?_ ?_ rfl hknows
  · simp only [workerStep, workerNext, hat]
    rfl
  · rw [Orchestrator.State.setWorker]
    dsimp only
    rw [Function.update_self]
    exact ⟨hkeys.shutdown, hkeys.heartbeat, hid⟩

theorem mirrored_deleteKey (hkeys : SameKeys (s.worker i) (worker i))
    (hat : (worker i).position = .deleteSubmission)
    (hknows : Knows env w .stored (worker i).submission_id) :
    Mirrored cfg env w .processed i worker s
      (s.setWorker i { s.worker i with submission := none }) := by
  refine mirrored_of_step (a := .next) (t := (worker i).deleteKey.goto .readShutdown) ?_ ?_ rfl
    hknows
  · simp only [workerStep, workerNext, hat]
    rfl
  · rw [Orchestrator.State.setWorker]
    dsimp only
    rw [Function.update_self]
    exact ⟨hkeys.shutdown, hkeys.heartbeat, rfl⟩

/-- The commit of the second session is the `record` of the model. -/
theorem mirrored_commit {db : JudgeWorker.Session}
    {update : Option (Int × JudgeWorker.SubmissionResult)}
    (hkeys : SameKeys (s.worker i) (worker i))
    (hat : (worker i).position = .process)
    (hknows : Knows env w (.session db .working) (worker i).submission_id)
    (hupdate : db.mayWrite (boundId env w.submission_id w.jobs.getLast?) update = true)
    (heffect : effect s i w.jobs.getLast? (.commit db update) = some s') :
    Mirrored cfg env w (.session db .committed) i worker s s' := by
  cases db with
  | submission =>
      cases update with
      | none =>
          obtain rfl := Option.some.inj heffect
          exact mirrored_of_stays hkeys hat hknows
      | some update => cases hupdate
  | result =>
      cases update with
      | none => cases hupdate
      | some update =>
          obtain ⟨submission_id, result⟩ := update
          simp only [JudgeWorker.Session.mayWrite, Bool.and_eq_true, decide_eq_true_eq,
            bne_iff_ne] at hupdate
          obtain ⟨hlocal, hverdict⟩ := hupdate
          obtain ⟨id, hid, rfl⟩ := Option.map_eq_some_iff.mp (Eq.trans hknows hlocal)
          obtain rfl := Option.some.inj heffect
          refine mirrored_of_step (a := .record result.verdict)
            (t := (worker i).release .deleteSubmission) ?_ ?_ rfl hknows
          · simp only [workerStep, hat, hid, if_neg hverdict]
            rfl
          · exact ⟨hkeys.shutdown, hkeys.heartbeat, hkeys.submission⟩

/-- The model's worker leaves its `try` block, and then puts the id back. -/
theorem mirrored_push {submission_id : Int} (hkeys : SameKeys (s.worker i) (worker i))
    (hat : (worker i).position.inTry = true)
    (hid : (worker i).submission_id.map Int.ofNat = some submission_id)
    (hlocal : boundId env w.submission_id w.jobs.getLast? = some submission_id) :
    Mirrored cfg env w .pushed i worker s { s with jobs := submission_id.toNat :: s.jobs } := by
  obtain ⟨id, hid', rfl⟩ := Option.map_eq_some_iff.mp hid
  have hraise : workerStep { s with worker := worker } i (.raise .other) =
      some { s with worker := Function.update worker i ((worker i).goto .retry) } := by
    simp only [workerStep, hat, if_true]
    rfl
  refine ⟨(worker i).release .sleep, ?_,
    ⟨hkeys.shutdown, hkeys.heartbeat, hkeys.submission⟩, rfl, hid.trans hlocal.symm⟩
  refine .trans (System.PathUnder.single (b := .worker i (.raise .other)) trivial hraise)
    (System.PathUnder.single (b := .worker i .next) trivial ?_)
  show workerNext _ i = _
  simp only [workerNext, Function.update_self, Worker.goto, hid']
  simp [Orchestrator.State.setWorker, Worker.release, hid']

theorem mirrored_pause (hkeys : SameKeys (s.worker i) (worker i))
    (hat : (worker i).position = .sleep)
    (hknows : Knows env w .pushed (worker i).submission_id) :
    Mirrored cfg env w .retried i worker s s := by
  refine mirrored_of_step (a := .next) (t := (worker i).goto .readShutdown) ?_ ?_ rfl hknows
  · simp only [workerStep, workerNext, hat]
    rfl
  · exact ⟨hkeys.shutdown, hkeys.heartbeat, hkeys.submission⟩

/-- A call of a worker is a path of the model's worker. -/
theorem mirrored_of_call
    (hcall : Advances env w.submission_id w.jobs.getLast? p c (env.raises c.step) q)
    (hcalled : called env s i w.jobs.getLast? c = some s')
    (hkeys : SameKeys (s.worker i) (worker i)) (hat : At p (worker i).position)
    (hknows : Knows env w p (worker i).submission_id) : Mirrored cfg env w q i worker s s' := by
  unfold called at hcalled
  cases hraises : env.raises c.step with
  | some e =>
      rw [hraises] at hcall hcalled
      obtain rfl := Option.some.inj hcalled
      obtain ⟨hat, hknows⟩ := stays_of_raises hcall hraises hat hknows
      exact mirrored_of_stays hkeys hat hknows
  | none =>
      rw [hraises] at hcall hcalled
      cases hcall with
      | beat =>
          obtain rfl := Option.some.inj hcalled
          exact mirrored_beat hkeys hat hknows
      | pop => exact mirrored_pop hkeys hat hknows hraises hcalled
      | setKey _ hlocal =>
          obtain rfl := Option.some.inj hcalled
          exact mirrored_setKey hkeys hat hknows hlocal
      | commit _ hupdate =>
          exact mirrored_commit hkeys ((at_session (by simp)).mp hat) hknows hupdate hcalled
      | deleteKey =>
          obtain rfl := Option.some.inj hcalled
          exact mirrored_deleteKey hkeys hat hknows
      | push _ hlocal =>
          obtain rfl := Option.some.inj hcalled
          exact mirrored_push hkeys hat (Eq.trans hknows hlocal) hlocal
      | pause =>
          obtain rfl := Option.some.inj hcalled
          exact mirrored_pause hkeys hat hknows
      | enter _ hp =>
          obtain rfl := Option.some.inj hcalled
          have hworking : JudgeWorker.Transaction.working.ifReturns none ≠ .committed := by
            rw [JudgeWorker.Transaction.ifReturns]
            simp
          refine mirrored_of_stays hkeys ((at_session hworking).mpr ?_) ?_ <;>
            rcases hp with ⟨rfl, rfl⟩ | ⟨rfl, rfl⟩ <;> assumption
      | query | publish | lookUp =>
          obtain rfl := Option.some.inj hcalled
          exact mirrored_of_stays hkeys hat hknows
      | rollback _ ht =>
          obtain rfl := Option.some.inj hcalled
          refine mirrored_of_stays hkeys ((at_session (by simp)).mpr ((at_session ?_).mp hat))
            hknows
          rcases ht with rfl | rfl <;> simp
      | @close db =>
          obtain rfl := Option.some.inj hcalled
          cases db <;> exact mirrored_of_stays hkeys hat hknows
      | abandon =>
          obtain rfl := Option.some.inj hcalled
          exact mirrored_of_stays hkeys (hat.inTry (by simp)) hknows
      | acquire =>
          obtain rfl := Option.some.inj hcalled
          cases hsandbox : env.sandbox with
          | none => exact mirrored_of_stays hkeys (hat.inTry (by simp)) hknows
          | some container_id => exact mirrored_of_stays hkeys hat hknows
      | @inside l container_id stage c next _ hnext =>
          have heffect : effect s i w.jobs.getLast? c = some s := by
            cases c
            case setHeartbeat | brpop | setSubmission | deleteSubmission | lpush | commit =>
              cases stage <;> cases hnext
            all_goals rfl
          obtain rfl := Option.some.inj (heffect.symm.trans hcalled)
          exact mirrored_of_stays hkeys hat hknows
      | stop =>
          obtain rfl := Option.some.inj hcalled
          split
          case isTrue => exact mirrored_of_stays hkeys hat hknows
          case isFalse => exact mirrored_of_stays hkeys (hat.inTry (by simp)) hknows

end

end

/-! ## Between two iterations -/

/-- What a worker does to itself outside its iterations. -/
inductive Leap : (Worker → Worker) → Prop
  | goto {pos : Position} (houter : outer pos = true) : Leap fun w => w.goto pos
  | deleteShutdown : Leap fun w => { w with position := .deleteHeartbeat, shutdown := false }
  | deleteHeartbeat : Leap fun w => { w with position := .exiting, heartbeat := none }

def Leaps (s s' : Orchestrator.State) (worker : WorkerId → Worker) (i : WorkerId)
    (a : WorkerAction) : Prop :=
  ∃ f, Leap f ∧ s' = s.setWorker i (f (s.worker i)) ∧
    workerStep { s with worker := worker } i a =
      some { s' with worker := Function.update worker i (f (worker i)) }

section

variable {s s' : Orchestrator.State} {worker : WorkerId → Worker} {i : WorkerId}
  {a : WorkerAction}

theorem not_ended_of_step (hstep : workerStep s i a = some s') :
    (s.worker i).position ≠ .ended := by
  intro hended
  cases a <;> simp [workerStep, workerNext, hended, Position.inTry, Worker.alive] at hstep

theorem leaps_of_goto {pos : Position} (hpos : outer pos = true)
    (hs : some (s.setWorker i ((s.worker i).goto pos)) = some s')
    (hstep : workerStep { s with worker := worker } i a =
      some ({ s with worker := worker }.setWorker i ((worker i).goto pos))) :
    Leaps s s' worker i a := by
  obtain rfl := Option.some.inj hs
  exact ⟨_, .goto hpos, rfl, hstep⟩

theorem leaps_of_next (hkeys : SameKeys (s.worker i) (worker i))
    (hposition : (worker i).position = (s.worker i).position)
    (houter : outer (s.worker i).position = true) (hbeat : (s.worker i).position ≠ .beat)
    (hstep : workerNext s i = some s') : Leaps s s' worker i .next := by
  unfold workerNext at hstep
  cases hpos : (s.worker i).position <;> rw [hpos] at houter hposition <;>
    simp only [hpos] at hstep
  case beat => exact absurd hpos hbeat
  case ended => cases hstep
  case readShutdown =>
    refine leaps_of_goto ?_ hstep ?_
    · split <;> rfl
    · simp only [workerStep, workerNext, hposition]
  case readLocalShutdown =>
    refine leaps_of_goto ?_ hstep ?_
    · split <;> rfl
    · simp only [workerStep, workerNext, hposition, hkeys.shutdown]
  case exiting =>
    refine leaps_of_goto rfl hstep ?_
    simp only [workerStep, workerNext, hposition]
  case deleteShutdown =>
    obtain rfl := Option.some.inj hstep
    refine ⟨_, .deleteShutdown, rfl, ?_⟩
    simp only [workerStep, workerNext, hposition]
    rfl
  case deleteHeartbeat =>
    obtain rfl := Option.some.inj hstep
    refine ⟨_, .deleteHeartbeat, rfl, ?_⟩
    simp only [workerStep, workerNext, hposition]
    rfl
  all_goals cases houter

theorem leaps_of_outside (hkeys : SameKeys (s.worker i) (worker i))
    (hposition : (worker i).position = (s.worker i).position)
    (houter : outer (s.worker i).position = true) (ha : Outside (s.worker i) a)
    (hstep : workerStep s i a = some s') : Leaps s s' worker i a := by
  have halive : (worker i).alive = (s.worker i).alive := by
    rw [Worker.alive, Worker.alive, hposition]
  cases a with
  | record v => exact ha.elim
  | raise e => exact ha.elim
  | next => exact leaps_of_next hkeys hposition houter ha hstep
  | die =>
      obtain ⟨hended, hs⟩ := Option.ite_none_right_eq_some.mp hstep
      exact leaps_of_goto rfl hs (if_pos (halive.trans hended))
  | interrupt =>
      have htry : (s.worker i).position.inTry = false := by
        cases hpos : (s.worker i).position <;> rw [hpos] at houter <;> first | rfl | cases houter
      simp only [workerStep, htry, Bool.false_eq_true, if_false] at hstep
      obtain ⟨hended, hs⟩ := Option.ite_none_right_eq_some.mp hstep
      refine leaps_of_goto rfl hs ?_
      simp only [workerStep, hposition, htry, Bool.false_eq_true, if_false]
      exact if_pos (halive.trans hended)

end

theorem Stands.leap {u t : Worker} (h : Stands none u t) (hne : u.position ≠ .ended)
    {f : Worker → Worker} (hf : Leap f) : Stands none (f u) (f t) := by
  cases h with
  | outside hkeys _ hid =>
      cases hf with
      | goto houter =>
          exact .outside ⟨hkeys.shutdown, hkeys.heartbeat, hkeys.submission⟩ rfl
            (fun _ => hid hne) houter
      | deleteShutdown =>
          exact .outside ⟨rfl, hkeys.heartbeat, hkeys.submission⟩ rfl (fun _ => hid hne) rfl
      | deleteHeartbeat =>
          exact .outside ⟨hkeys.shutdown, rfl, hkeys.submission⟩ rfl (fun _ => hid hne) rfl

/-! ## The refinement -/

section

variable {cfg : Config} {s : State} {t judge : Orchestrator.State} {i : WorkerId}

theorem Matches.arrive (h : Matches s t) {it? : Option Iteration} {x : Worker}
    (hworker : ∀ j ≠ i, judge.worker j = s.judge.worker j)
    (hi : Stands it? (judge.worker i) x) :
    Matches ⟨judge, Function.update s.running i it?⟩
      { judge with worker := Function.update t.worker i x } := by
  refine h.move (i := i) rfl (fun j hj => ⟨?_, hworker j hj, ?_⟩) ?_
  · exact Function.update_of_ne hj _ _
  · exact Function.update_of_ne hj _ _
  · dsimp only
    rwa [Function.update_self, Function.update_self]

theorem Matches.leave (h : Matches s t) {u x : Worker} (hi : Stands none u x)
    (hnone : u.position = .beat → s.running i = none) :
    Matches (s.settle (s.judge.setWorker i u))
      { s.judge with worker := Function.update t.worker i x } := by
  have hworker : ∀ j ≠ i, (s.judge.setWorker i u).worker j = s.judge.worker j :=
    fun j hj => Function.update_of_ne hj _ _
  have hself : (s.judge.setWorker i u).worker i = u := Function.update_self ..
  have harrive := h.arrive hworker (by rw [hself]; exact hi)
  have hrunning : (s.settle (s.judge.setWorker i u)).running =
      Function.update s.running i none := by
    funext j
    by_cases hj : j = i
    · subst hj
      rw [Function.update_self]
      show (if ((s.judge.setWorker j u).worker j).position = .beat then s.running j else none) = _
      rw [hself]
      split
      case isTrue hbeat => exact hnone hbeat
      case isFalse => rfl
    · rw [h.settle_running (hworker j hj), Function.update_of_ne hj]
  rw [← hrunning] at harrive
  exact harrive

/-- Outside its iterations a worker steps as the model's worker. -/
theorem Matches.outside (h : Matches s t) {a : WorkerAction} (hidle : s.running i = none)
    (ha : Outside (s.judge.worker i) a) (hstep : workerStep s.judge i a = some judge) :
    ∃ t', (Orchestrator.system cfg.orchestrator).PathUnder (fun _ _ => True) t t' ∧
      Matches (s.settle judge) t' := by
  have hi := h.stands i
  rw [hidle] at hi
  cases hi with
  | outside hkeys hposition hid houter =>
      obtain ⟨f, hf, rfl, hstep'⟩ := leaps_of_outside hkeys hposition houter ha hstep
      have hleap := (Stands.outside hkeys hposition hid houter).leap (not_ended_of_step hstep) hf
      rw [← h.judge] at hstep'
      exact ⟨_, .single (b := .worker i a) trivial hstep', h.leave hleap fun _ => hidle⟩

theorem Matches.ends (h : Matches s t) {a : WorkerAction} {x : Worker} {s' : State}
    (hstep : workerStep { s.judge with worker := t.worker } i a =
      some { s.judge with worker := Function.update t.worker i x })
    (hs' : Matches s' { s.judge with worker := Function.update t.worker i x }) :
    ∃ t', (Orchestrator.system cfg.orchestrator).PathUnder (fun _ _ => True) t t' ∧
      Matches s' t' := by
  rw [← h.judge] at hstep
  exact ⟨_, .single (b := .worker i a) trivial hstep, hs'⟩

theorem Knows.bound {env : Environment} {w : World} {p : Phase} {id? : Option SubmissionId}
    (h : Knows env w p id?) (hp : p ≠ .beat ∧ p ≠ .pop ∧ p ≠ .dead) :
    id?.map Int.ofNat = boundId env w.submission_id w.jobs.getLast? := by
  cases p
  case beat => exact absurd rfl hp.1
  case pop => exact absurd rfl hp.2.1
  case dead => exact absurd rfl hp.2.2
  all_goals exact h

theorem Knows.toNat {env : Environment} {w : World} {p : Phase} {id? : Option SubmissionId}
    (h : Knows env w p id?) (hp : p ≠ .beat ∧ p ≠ .pop ∧ p ≠ .dead) :
    id? = (boundId env w.submission_id w.jobs.getLast?).map Int.toNat := by
  rw [← h.bound hp, Option.map_map]
  cases id? <;> rfl

theorem ne_of_leavesTry {e : Exc} {p : Phase} (h : LeavesTry e p) :
    (p ≠ .beat ∧ (p ≠ .idle ∧ p ≠ .processed ∧ p ≠ .retried) ∧ p ≠ .pushed ∧ p ≠ .dead) ∧
      p ≠ .beat ∧ p ≠ .pop ∧ p ≠ .dead := by
  rcases h with rfl | ⟨rfl, -⟩ <;> simp

theorem outer_after (result : Except Exc Outcome) : outer (after result) = true := by
  cases result with
  | error e => rfl
  | ok outcome => cases outcome <;> rfl

theorem after_ne_beat (result : Except Exc Outcome) : after result ≠ .beat := by
  cases result with
  | error e => simp [after]
  | ok outcome => cases outcome <;> simp [after]

/-- After its last call an iteration ends as the model's. -/
theorem Matches.finish (h : Matches s t) {env : Environment} {w : World}
    {result : Except Exc Outcome} (hrunning : s.running i = some ⟨env, w, ⟨[], result⟩⟩) :
    ∃ t', (Orchestrator.system cfg.orchestrator).PathUnder (fun _ _ => True) t t' ∧
      Matches (s.settle (s.judge.setWorker i
        (Iteration.ended ⟨env, w, [], result⟩ (s.judge.worker i)))) t' := by
  have hi := h.stands i
  rw [hrunning] at hi
  cases hi with
  | @inside _ _ _ _ _ p hkeys hbeat hkeeps hat hknows =>
      have hends := hkeeps.ends
      have hleave {x : Worker} (hx : SameKeys (s.judge.worker i) x)
          (hposition : x.position = after result)
          (hid : after result ≠ .ended → x.submission_id =
            (boundId env w.submission_id w.jobs.getLast?).map Int.toNat) :
          Matches (s.settle (s.judge.setWorker i
            (Iteration.ended ⟨env, w, [], result⟩ (s.judge.worker i))))
            { s.judge with worker := Function.update t.worker i x } := by
        refine h.leave (.outside ⟨hx.shutdown, hx.heartbeat, hx.submission⟩ hposition hid ?_) ?_
        · exact outer_after result
        · exact fun hbeat => absurd hbeat (after_ne_beat result)
      have hraised {e : Exc} (hp : LeavesTry e p) : (t.worker i).position.inTry = true :=
        hat.inTry (ne_of_leavesTry hp).1
      cases result with
      | error e =>
          refine h.ends (a := .die) (x := (t.worker i).goto .ended) ?_
            (hleave ⟨hkeys.shutdown, hkeys.heartbeat, hkeys.submission⟩ rfl fun hne =>
              absurd rfl hne)
          have halive : (t.worker i).alive = true := bne_iff_ne.mpr hat.alive
          simp only [workerStep, halive, if_true]
          rfl
      | ok outcome =>
          cases outcome with
          | idle | processed | retried =>
              obtain rfl := hends
              have hover := hleave (x := t.worker i) hkeys hat fun _ =>
                hknows.toNat (by simp)
              rw [Function.update_eq_self, ← h.judge] at hover
              exact ⟨t, .refl, hover⟩
          | shutdown =>
              have hp : LeavesTry .keyboardInterrupt p := .inl hends
              refine h.ends (a := .interrupt) (x := (t.worker i).goto .deleteShutdown) ?_
                (hleave ⟨hkeys.shutdown, hkeys.heartbeat, hkeys.submission⟩ rfl fun _ =>
                  hknows.toNat (ne_of_leavesTry hp).2)
              simp only [workerStep, hraised hp, if_true]
              rfl
          | dropped e =>
              refine h.ends (a := .raise .valueError)
                (x := (t.worker i).release .readShutdown) ?_
                (hleave ⟨hkeys.shutdown, hkeys.heartbeat, hkeys.submission⟩ rfl fun _ =>
                  hknows.toNat (ne_of_leavesTry hends).2)
              simp only [workerStep, hraised hends, if_true]
              rfl

/-- The caller's worker is the only one that a call changes, and it stays where it is. -/
theorem called_frame {env : Environment} {payload : Option Str} {c : Call}
    {s s' : Orchestrator.State} (hcalled : called env s i payload c = some s') :
    (∀ j ≠ i, s'.worker j = s.worker j) ∧ (s'.worker i).position = (s.worker i).position := by
  have hkept : s'.worker = s.worker →
      (∀ j ≠ i, s'.worker j = s.worker j) ∧ (s'.worker i).position = (s.worker i).position := by
    intro hworker
    rw [hworker]
    exact ⟨fun _ _ => rfl, rfl⟩
  have hset {u : Worker} (hu : u.position = (s.worker i).position) (hs' : s.setWorker i u = s') :
      (∀ j ≠ i, s'.worker j = s.worker j) ∧ (s'.worker i).position = (s.worker i).position := by
    subst hs'
    refine ⟨fun j hj => Function.update_of_ne hj _ _, ?_⟩
    rw [Orchestrator.State.setWorker]
    dsimp only
    rwa [Function.update_self]
  unfold called at hcalled
  split at hcalled
  case h_2 =>
    obtain rfl := Option.some.inj hcalled
    exact hkept rfl
  case h_1 =>
    cases c with
    | setHeartbeat | setSubmission | deleteSubmission =>
        refine hset ?_ (Option.some.inj hcalled)
        rfl
    | brpop =>
        simp only [effect] at hcalled
        split at hcalled
        case h_1 =>
          obtain rfl := Option.some.inj hcalled
          exact hkept rfl
        case h_2 =>
          obtain ⟨-, hcalled⟩ := Option.ite_none_right_eq_some.mp hcalled
          obtain rfl := Option.some.inj hcalled
          exact hkept rfl
        case h_3 => cases hcalled
    | commit db update =>
        cases update <;>
        · obtain rfl := Option.some.inj hcalled
          exact hkept rfl
    | _ =>
        obtain rfl := Option.some.inj hcalled
        exact hkept rfl

theorem Matches.die (h : Matches s t) (hne : (s.judge.worker i).position ≠ .ended) :
    ∃ t', (Orchestrator.system cfg.orchestrator).PathUnder (fun _ _ => True) t t' ∧
      Matches (s.settle (s.judge.setWorker i ((s.judge.worker i).goto .ended))) t' := by
  have hkeys := (h.stands i).keys
  refine h.ends (a := .die) (x := (t.worker i).goto .ended) ?_ (h.leave ?_ ?_)
  · have halive : (t.worker i).alive = true :=
      (h.stands i).view.alive.trans (bne_iff_ne.mpr hne)
    simp only [workerStep, halive, if_true]
    rfl
  · exact .outside ⟨hkeys.shutdown, hkeys.heartbeat, hkeys.submission⟩ rfl
      (fun hended => absurd rfl hended) rfl
  · intro hbeat
    cases hbeat

theorem step_other {a : Orchestrator.Action} {s' : State}
    (hstep : step cfg s (.other a) = some s') : (∀ j b, a ≠ .worker j b) ∧
      ∃ judge, Orchestrator.step cfg.orchestrator s.judge a = some judge ∧ s' = s.settle judge := by
  have hmap : (Orchestrator.step cfg.orchestrator s.judge a).map s.settle = some s' := by
    cases a with
    | worker j b => cases hstep
    | _ => exact hstep
  obtain ⟨judge, hjudge, hs⟩ := Option.map_eq_some_iff.mp hmap
  refine ⟨?_, judge, hjudge, hs.symm⟩
  rintro j b rfl
  cases hstep

/-- **Whole iterations refine the workers of the orchestrator's model.** -/
theorem simulates (cfg : Config) :
    (system cfg).Simulates (Orchestrator.system cfg.orchestrator) (fun _ _ => True) Matches where
  init := by
    rintro _ rfl
    exact ⟨Orchestrator.start, rfl, rfl, fun _ =>
      .outside ⟨rfl, rfl, rfl⟩ rfl (fun _ => rfl) rfl⟩
  step := by
    intro s t s' a h hstep
    cases a with
    | other a =>
        obtain ⟨ha, judge, hjudge, rfl⟩ := step_other hstep
        obtain ⟨t', ht', hmatches⟩ := h.other ha hjudge
        exact ⟨t', .single (b := a) trivial ht', hmatches⟩
    | outside i a =>
        obtain ⟨⟨hidle, ha⟩, hstep⟩ := Option.ite_none_right_eq_some.mp hstep
        obtain ⟨judge, hjudge, rfl⟩ := Option.map_eq_some_iff.mp hstep
        exact h.outside hidle ha hjudge
    | begin i env w =>
        obtain ⟨⟨hidle, hbeat, hw⟩, hstep⟩ := Option.ite_none_right_eq_some.mp hstep
        obtain rfl := Option.some.inj hstep
        have hi := h.stands i
        rw [hidle] at hi
        cases hi with
        | outside hkeys hposition hid houter =>
            have hinside : Stands (some ⟨env, w, w.run cfg.judge env⟩) (s.judge.worker i)
                (t.worker i) := by
              refine .inside hkeys hbeat
                (JudgeWorker.keeps_run cfg.judge env w) (hposition.trans hbeat) ?_
              show (t.worker i).submission_id.map Int.ofNat = w.submission_id
              rw [hid (by simp [hbeat]), hw]
            have harrive := h.arrive (fun _ _ => rfl) hinside
            rw [Function.update_eq_self, ← h.judge] at harrive
            exact ⟨t, .refl, harrive⟩
    | call i =>
        simp only [system, step] at hstep
        split at hstep
        case h_1 env w c calls result hrunning =>
          obtain ⟨judge, hcalled, rfl⟩ := Option.map_eq_some_iff.mp hstep
          have hi := h.stands i
          rw [hrunning] at hi
          cases hi with
          | inside hkeys hbeat hkeeps hat hknows =>
              obtain ⟨q, hcall, hrest⟩ := hkeeps.next
              obtain ⟨x, hpath, hkeys', hat', hknows'⟩ :=
                mirrored_of_call (advances_of_protocol hcall) hcalled hkeys hat hknows
              obtain ⟨hframe, hposition⟩ := called_frame hcalled
              rw [← h.judge] at hpath
              exact ⟨_, hpath, h.arrive hframe
                (.inside hkeys' (hposition.trans hbeat) hrest hat' hknows')⟩
        case h_2 => cases hstep
    | finish i =>
        simp only [system, step] at hstep
        split at hstep
        case h_1 env w result hrunning =>
          obtain rfl := Option.some.inj hstep
          exact h.finish hrunning
        case h_2 => cases hstep
    | die i =>
        simp only [system, step] at hstep
        split at hstep
        case isTrue => cases hstep
        case isFalse hne =>
          obtain rfl := Option.some.inj hstep
          exact h.die hne

end

/-! ## Every run -/

/-- **What whole iterations reach, the model reaches**, with the same job list, rows and keys. -/
theorem judge_refined (cfg : Config) {s : State} (h : (system cfg).Reachable s) :
    ∃ t, (Orchestrator.system cfg.orchestrator).Reachable t ∧ Matches s t :=
  (simulates cfg).reachable h

def Issued (s : Orchestrator.State) (id : SubmissionId) : Prop :=
  id ∉ s.unsent ∧ 0 < id ∧ id < s.nextSubmission

structure OnlyIssued (s : State) : Prop where
  queued : ∀ id ∈ s.judge.jobs, Issued s.judge id
  keys : ∀ i id, (s.judge.worker i).submission = some id → Issued s.judge id
  written : ∀ i env w c calls result submission_id,
    s.running i = some ⟨env, w, ⟨c :: calls, result⟩⟩ → c.written = some submission_id →
      ∃ id : SubmissionId, submission_id = id ∧ Issued s.judge id

/-- **No worker writes an id that the API has not issued**, whatever the workers meet. -/
theorem only_issued (cfg : Config) {s : State} (h : (system cfg).Reachable s) : OnlyIssued s := by
  obtain ⟨t, ht, hmatches⟩ := (simulates cfg).reachable h
  have hissued (id : SubmissionId) (hid : Orchestrator.Circulates t id) : Issued s.judge id := by
    have hcirculates := (Orchestrator.wellformed ht).circulates id hid
    rw [hmatches.judge] at hcirculates
    exact hcirculates
  refine ⟨fun id hid => hissued id (.job ?_), fun i id hid => hissued id (.key (i := i) ?_), ?_⟩
  · rw [hmatches.judge]
    exact hid
  · rw [(hmatches.stands i).keys.submission]
    exact hid
  · intro i env w c calls result submission_id hrunning hc
    have hi := hmatches.stands i
    rw [hrunning] at hi
    cases hi with
    | inside _ _ hkeeps _ hknows =>
        obtain ⟨q, hcall, -⟩ := hkeeps.next
        obtain ⟨hp, hlocal⟩ := (advances_of_protocol hcall).bound_of_written hc
        obtain ⟨id, hid, rfl⟩ := Option.map_eq_some_iff.mp ((hknows.bound hp).trans hlocal)
        exact ⟨id, rfl, hissued id (.current (i := i) hid)⟩

/-! ## A run -/

def oneJudge : Config where
  orchestrator := Orchestrator.oneWorker
  judge := JudgeWorker.anyConfig

def startRun : List Action :=
  List.replicate 8 (.other .orchestrator) ++
    [.other .commit, .other (.enqueue 1), .outside 1 .next, .outside 1 .next]

/-- Worker 1 judges submission 1, whose code does not compile. -/
def judgingRun : List Action :=
  startRun ++
    [.begin 1 (JudgeWorker.Requeue.failingAt none)
      { JudgeWorker.oneJob with db := JudgeWorker.Requeue.oneC }] ++
    List.replicate 18 (.call 1)

theorem judging_reaches : ∃ s, (system oneJudge).Reachable s ∧
    s.judge.rows 1 = some .COMPILATION_ERROR ∧ (s.judge.worker 1).submission = some 1 := by
  obtain ⟨s, hs, hrow, hkey⟩ := System.exists_path (system oneJudge) (fun _ _ => True)
    ⟨Orchestrator.start, fun _ => none⟩ judgingRun
    (fun s => s.judge.rows 1 = some .COMPILATION_ERROR ∧
      (s.judge.worker 1).submission = some 1) (by decide +kernel)
  exact ⟨s, ⟨_, rfl, hs⟩, hrow, hkey⟩

theorem judge_refined_judging :
    ∃ s, (system oneJudge).Reachable s ∧ s.judge.rows 1 = some .COMPILATION_ERROR ∧
      ∃ t, (Orchestrator.system oneJudge.orchestrator).Reachable t ∧ Matches s t := by
  obtain ⟨s, hs, hrow, -⟩ := judging_reaches
  exact ⟨s, hs, hrow, judge_refined oneJudge hs⟩

theorem only_issued_judging :
    ∃ s, (system oneJudge).Reachable s ∧ (s.judge.worker 1).submission = some 1 ∧
      OnlyIssued s := by
  obtain ⟨s, hs, -, hkey⟩ := judging_reaches
  exact ⟨s, hs, hkey, only_issued oneJudge hs⟩

end ByteBattles.Judge.Refinement.Jobs
