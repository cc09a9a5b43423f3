import ByteBattles.Judge.JudgeWorker.Protocol
import ByteBattles.Judge.SandboxManager.Lifetime
import ByteBattles.Lib.Simulation

/-!
# Whole iterations and the warm pool

Workers that make all the calls of their iterations, one call a step, beside the creator
threads and the manager thread of the pool.  They refine the judge workers of the pool's
model, which only acquire, publish, look up and stop.
-/

namespace ByteBattles.Judge.Refinement.Sandboxes

open ByteBattles.Lib

open ByteBattles.Judge.JudgeWorker (Advances advances_of_protocol Call Environment Exc Finished
  Keeps Outcome Phase Run Stage World boundId ifReturns protocol)

open ByteBattles.Judge.SandboxManager (ContainerId judgeStep setStatus)

/-! ## The system -/

inductive Worker
  | idle
  /-- In the iteration with this number, begun in `w`; `rest` is what is left of it. -/
  | busy (number : Nat) (env : Environment) (w : World) (rest : Run Outcome)
  | dead

structure State where
  /-- Its judge workers are not used. -/
  pool : SandboxManager.State
  workers : List Worker
  /-- The number of iterations that have been begun. -/
  begun : Nat
  /-- The container that each iteration was given, for its language. -/
  given : List (Nat × Language × Str)
  /-- The containers that each iteration has looked up, written to, run programs in or stopped. -/
  touched : List (Nat × Str)

inductive Action
  | creator (i : Nat) (a : SandboxManager.CreatorAction)
  | manager (a : SandboxManager.ManagerAction)
  | spawn
  /-- Worker `i` begins an iteration that finds `w` and will meet `env`. -/
  | begin (i : Nat) (env : Environment) (w : World)
  /-- Worker `i` makes its next call. -/
  | call (i : Nat)
  | finish (i : Nat)
  | die (i : Nat)

structure Config where
  pool : SandboxManager.Config
  judge : JudgeWorker.Config
  /-- The container that an id names. -/
  container : Str → ContainerId

def container? : Call → Option Str
  | .getContainer container_id | .putArchive container_id _ _ | .execRun container_id _ _
  | .execCreate _ container_id _ | .stopContainer container_id => some container_id
  | _ => none

def effect (cfg : Config) (env : Environment) (s : SandboxManager.State) :
    Call → Option SandboxManager.State
  | .acquireWarmSandbox l _ =>
      match env.sandbox, rpop (s.warm l) with
      | some container_id, some (c, q) =>
          if cfg.container container_id = c then
            some { s with warm := Function.update s.warm l q, handed := (l, c) :: s.handed }
          else none
      | none, none => some s
      | _, _ => none
  | .publishEvent _ l => some { s with channel := s.channel ++ [l] }
  | .stopContainer container_id =>
      some { s with containers := setStatus s.containers (cfg.container container_id) .removed }
  | _ => some s

def called (cfg : Config) (env : Environment) (s : SandboxManager.State) (c : Call) :
    Option SandboxManager.State :=
  match env.raises c.step with
  | none => effect cfg env s c
  | some _ => some s

def given (env : Environment) (number : Nat) : Call → List (Nat × Language × Str)
  | .acquireWarmSandbox l _ =>
      match env.raises .acquireWarmSandbox, env.sandbox with
      | none, some container_id => [(number, l, container_id)]
      | _, _ => []
  | _ => []

def State.setWorker (s : State) (i : Nat) (worker : Worker) : State :=
  { s with workers := s.workers.set i worker }

def step (cfg : Config) (s : State) : Action → Option State
  | .creator i a =>
      (SandboxManager.step cfg.pool.poolThreshold s.pool (.creator i a)).map fun pool =>
        { s with pool := pool }
  | .manager a =>
      (SandboxManager.step cfg.pool.poolThreshold s.pool (.manager a)).map fun pool =>
        { s with pool := pool }
  | .spawn => some { s with workers := s.workers ++ [.idle] }
  | .begin i env w =>
      match s.workers[i]? with
      | some .idle =>
          some ({ s with begun := s.begun + 1 }.setWorker i
            (.busy s.begun env w (w.run cfg.judge env)))
      | _ => none
  | .call i =>
      match s.workers[i]? with
      | some (.busy number env w ⟨c :: calls, result⟩) =>
          (called cfg env s.pool c).map fun pool =>
            { s with
              pool := pool
              given := given env number c ++ s.given
              touched := (container? c).toList.map (number, ·) ++ s.touched
            }.setWorker i (.busy number env w ⟨calls, result⟩)
      | _ => none
  | .finish i =>
      match s.workers[i]? with
      | some (.busy _ _ _ ⟨[], .ok .shutdown⟩) => some (s.setWorker i .dead)
      | some (.busy _ _ _ ⟨[], .ok _⟩) => some (s.setWorker i .idle)
      | some (.busy _ _ _ ⟨[], .error _⟩) => some (s.setWorker i .dead)
      | _ => none
  | .die i => (s.workers[i]?).map fun _ => s.setWorker i .dead

def system (cfg : Config) : System State Action where
  init := fun s => s = ⟨cfg.pool.start, [], 0, [], []⟩
  step := step cfg

/-! ## The judge worker of the pool -/

/-- Where the pool sees an iteration. -/
def position (cfg : Config) : Phase → SandboxManager.JudgeWorker
  | .acquired l container_id => .acquired l (cfg.container container_id)
  | .published l container_id => .published l (cfg.container container_id)
  | .container l container_id _ => .using l (cfg.container container_id)
  | _ => .idle

section

variable {cfg : Config} {env : Environment} {previous : Option Int} {payload : Option Str}
  {s s' : SandboxManager.State} {p q : Phase} {c : Call}

def seen : Call → Bool
  | .acquireWarmSandbox _ _ | .publishEvent _ _ | .stopContainer _ => true
  | _ => false

theorem called_of_not_seen (h : seen c = false) (hcalled : called cfg env s c = some s') :
    s' = s := by
  have heffect : effect cfg env s c = some s := by
    cases c
    case acquireWarmSandbox | publishEvent | stopContainer => cases h
    all_goals rfl
  rw [called, heffect] at hcalled
  split at hcalled <;> exact (Option.some.inj hcalled).symm

@[simp] theorem position_ifReturns_idle (hp : position cfg p = .idle)
    (hq : position cfg q = .idle) (e? : Option Exc) :
    position cfg (ifReturns p q e?) = .idle := by
  cases e? <;> assumption

/-- A call is a step of the pool's judge worker, or the pool does not see it. -/
theorem judgeStep_of_call (hcall : Advances env previous payload p c (env.raises c.step) q)
    (hcalled : called cfg env s c = some s') :
    s' = s ∧ position cfg q = position cfg p ∨
      ∃ a, judgeStep s (position cfg p) a = some (position cfg q, s') := by
  cases hcall with
  | @acquire l timeout =>
      cases hraises : env.raises (Call.acquireWarmSandbox l timeout).step with
      | some e =>
          rw [called, hraises] at hcalled
          exact .inl ⟨(Option.some.inj hcalled).symm, rfl⟩
      | none =>
          rw [called, hraises] at hcalled
          dsimp only [effect] at hcalled
          split at hcalled
          case h_1 container_id c rest hsandbox hpop =>
            obtain ⟨hc, hcalled⟩ := Option.ite_none_right_eq_some.mp hcalled
            obtain rfl := Option.some.inj hcalled
            refine .inr ⟨.acquire l, ?_⟩
            simp [position, ifReturns, hsandbox, judgeStep, hpop, hc]
          case h_2 hsandbox hpop =>
            refine .inl ⟨(Option.some.inj hcalled).symm, ?_⟩
            simp [position, ifReturns, hsandbox]
          case h_3 => cases hcalled
  | @publish l container_id submission_id =>
      unfold called at hcalled
      refine .inr ?_
      cases hraises : env.raises (Call.publishEvent submission_id l).step with
      | some e =>
          rw [hraises] at hcalled
          obtain rfl := Option.some.inj hcalled
          exact ⟨.publishRaises, rfl⟩
      | none =>
          rw [hraises] at hcalled
          obtain rfl := Option.some.inj hcalled
          exact ⟨.publish, rfl⟩
  | @lookUp l container_id =>
      obtain rfl := called_of_not_seen rfl hcalled
      refine .inr ?_
      cases env.raises (Call.getContainer container_id).step with
      | some e => exact ⟨.getContainerRaises, rfl⟩
      | none => exact ⟨.getContainer, rfl⟩
  | @inside l container_id stage c next _ hnext =>
      refine .inl ⟨called_of_not_seen ?_ hcalled, rfl⟩
      cases c
      case acquireWarmSandbox | publishEvent | stopContainer => cases stage <;> cases hnext
      all_goals rfl
  | @stop l container_id stage =>
      have hidle : position cfg (if stage.returns env = true then
          ifReturns .judged .failed (env.raises (Call.stopContainer container_id).step)
        else .failed) = .idle := by
        split
        case isTrue => exact position_ifReturns_idle rfl rfl _
        case isFalse => rfl
      unfold called at hcalled
      refine .inr ?_
      rw [hidle]
      cases hraises : env.raises (Call.stopContainer container_id).step with
      | some e =>
          rw [hraises] at hcalled
          obtain rfl := Option.some.inj hcalled
          exact ⟨.stopRaises, rfl⟩
      | none =>
          rw [hraises] at hcalled
          obtain rfl := Option.some.inj hcalled
          exact ⟨.stop, rfl⟩
  | enter _ hp =>
      refine .inl ⟨called_of_not_seen rfl hcalled, ?_⟩
      rcases hp with ⟨rfl, rfl⟩ | ⟨rfl, rfl⟩ <;> rfl
  | pop =>
      refine .inl ⟨called_of_not_seen rfl hcalled, position_ifReturns_idle ?_ rfl _⟩
      split <;> rfl
  | @close db =>
      refine .inl ⟨called_of_not_seen rfl hcalled, position_ifReturns_idle ?_ rfl _⟩
      cases db <;> rfl
  | query | commit | rollback | abandon => exact .inl ⟨called_of_not_seen rfl hcalled, rfl⟩
  | beat | setKey | deleteKey | push | pause =>
      exact .inl ⟨called_of_not_seen rfl hcalled, position_ifReturns_idle rfl rfl _⟩

end

/-! ## The refinement -/

theorem creatorStep_judges (s : SandboxManager.State) (judges : List SandboxManager.JudgeWorker)
    (p : SandboxManager.Creator) (a : SandboxManager.CreatorAction) :
    SandboxManager.creatorStep { s with judges := judges } p a =
      (SandboxManager.creatorStep s p a).map fun (p', t) =>
        (p', { t with judges := judges }) := by
  cases p <;> cases a <;> try rfl
  case getting.get =>
    unfold SandboxManager.creatorStep
    cases s.taskQueue <;> rfl
  all_goals
    unfold SandboxManager.creatorStep
    dsimp only
    split <;> rfl

theorem managerStep_judges (T : Int) (s : SandboxManager.State)
    (judges : List SandboxManager.JudgeWorker) (p : SandboxManager.Manager)
    (a : SandboxManager.ManagerAction) :
    SandboxManager.managerStep T { s with judges := judges } p a =
      (SandboxManager.managerStep T s p a).map fun t => { t with judges := judges } := by
  unfold SandboxManager.managerStep
  cases p
  case putting l n => cases n <;> cases a <;> rfl
  case removing todo c => cases c <;> cases a <;> rfl
  case ready =>
    cases a <;> try rfl
    · cases s.initial <;> rfl
    · cases s.initial <;> cases s.channel <;> rfl
  case joining =>
    cases a <;> try rfl
    dsimp only
    split <;> rfl
  case cleaning todo =>
    cases todo <;> cases a <;> rfl
  case popping todo =>
    cases todo with
    | nil => cases a <;> rfl
    | cons l todo =>
        cases a <;> try rfl
        dsimp only
        cases rpop (s.warm l) <;> rfl
  all_goals cases a <;> rfl

inductive Stands (cfg : Config) : Worker → SandboxManager.JudgeWorker → Prop
  | idle : Stands cfg .idle .idle
  | busy {number : Nat} {env : Environment} {w : World} {rest : Run Outcome} {p : Phase}
      (hkeeps : Keeps env w.submission_id w.jobs.getLast? p rest Finished
        fun _ q => q = .failed ∨ q = .dead) :
      Stands cfg (.busy number env w rest) (position cfg p)
  | dead : Stands cfg .dead .dead

def Matches (cfg : Config) (s : State) (t : SandboxManager.State) : Prop :=
  List.Forall₂ (Stands cfg) s.workers t.judges ∧ t = { s.pool with judges := t.judges }

theorem judgeStep_judges {s s' : SandboxManager.State} {p p' : SandboxManager.JudgeWorker}
    {a : SandboxManager.JudgeAction} (h : judgeStep s p a = some (p', s'))
    (judges : List SandboxManager.JudgeWorker) :
    judgeStep { s with judges := judges } p a = some (p', { s' with judges := judges }) := by
  unfold judgeStep at h ⊢
  split at h
  case h_1 l =>
    cases hpop : rpop (s.warm l) with
    | none => simp [hpop] at h
    | some popped =>
        simp only [hpop, Option.some.injEq, Prod.mk.injEq] at h ⊢
        obtain ⟨rfl, rfl⟩ := h
        exact ⟨rfl, rfl⟩
  case h_2 =>
    obtain ⟨hempty, h⟩ := Option.ite_none_right_eq_some.mp h
    obtain ⟨rfl, rfl⟩ := Prod.mk.inj (Option.some.inj h)
    exact if_pos hempty
  all_goals
    cases h
    try rfl

theorem poolStep_judges {T : Int} {s s' : SandboxManager.State} {a : SandboxManager.Action}
    (ha : (∃ i b, a = .creator i b) ∨ ∃ b, a = .manager b)
    (h : SandboxManager.step T s a = some s') (judges : List SandboxManager.JudgeWorker) :
    SandboxManager.step T { s with judges := judges } a = some { s' with judges := judges } := by
  rcases ha with ⟨i, b, rfl⟩ | ⟨b, rfl⟩
  · obtain ⟨p, hp, h⟩ := Option.bind_eq_some_iff.mp h
    obtain ⟨⟨p', t⟩, hstep, rfl⟩ := Option.map_eq_some_iff.mp h
    simp only [SandboxManager.step, hp, Option.bind_some, creatorStep_judges, hstep,
      Option.map_some]
  · have hstep : SandboxManager.managerStep T s s.manager b = some s' := h
    show SandboxManager.managerStep T { s with judges := judges } s.manager b = _
    rw [managerStep_judges, hstep, Option.map_some]

section

variable {cfg : Config} {s s' : State} {t : SandboxManager.State}

theorem Matches.judge (h : Matches cfg s t) {i : Nat} {worker' : Worker}
    {p p' : SandboxManager.JudgeWorker} {a : SandboxManager.JudgeAction}
    {pool : SandboxManager.State} (hp : t.judges[i]? = some p)
    (hstep : judgeStep s.pool p a = some (p', pool)) (hstands : Stands cfg worker' p') :
    ∃ t', (SandboxManager.system cfg.pool).PathUnder (fun _ _ => True) t t' ∧
      Matches cfg ({ s with pool := pool }.setWorker i worker') t' := by
  obtain ⟨hworkers, hpool⟩ := h
  have hstep' := judgeStep_judges hstep t.judges
  rw [← hpool] at hstep'
  refine ⟨{ pool with judges := t.judges.set i p' }, .single (b := .judge i a) trivial ?_,
    forall₂_set hworkers i hstands, rfl⟩
  show SandboxManager.step cfg.pool.poolThreshold t (.judge i a) = _
  simp only [SandboxManager.step, hp, Option.bind_some, hstep', Option.map_some]

theorem Matches.pool (h : Matches cfg s t) {a : SandboxManager.Action}
    {pool : SandboxManager.State} (ha : (∃ i b, a = .creator i b) ∨ ∃ b, a = .manager b)
    (hstep : SandboxManager.step cfg.pool.poolThreshold s.pool a = some pool) :
    ∃ t', (SandboxManager.system cfg.pool).PathUnder (fun _ _ => True) t t' ∧
      Matches cfg { s with pool := pool } t' := by
  obtain ⟨hworkers, hpool⟩ := h
  refine ⟨{ pool with judges := t.judges }, .single (b := a) trivial ?_, hworkers, rfl⟩
  rw [hpool]
  exact poolStep_judges ha hstep _

/-- The worker moves, and the pool does not see it. -/
theorem Matches.unseen (h : Matches cfg s t) {i : Nat} {worker : Worker}
    {p : SandboxManager.JudgeWorker} (hp : t.judges[i]? = some p) (hstands : Stands cfg worker p) :
    Matches cfg (s.setWorker i worker) t :=
  ⟨forall₂_set_left h.1 hp hstands, h.2⟩

theorem Matches.ends (h : Matches cfg s t) {i : Nat} {worker : Worker}
    (hworker : s.workers[i]? = some worker) :
    ∃ t', (SandboxManager.system cfg.pool).PathUnder (fun _ _ => True) t t' ∧
      Matches cfg (s.setWorker i .dead) t' := by
  obtain ⟨p, hp, -⟩ := forall₂_getElem? h.1 hworker
  by_cases hdead : p = .dead
  · subst hdead
    exact ⟨t, .refl, h.unseen hp .dead⟩
  · have hdie : judgeStep s.pool p .die = some (.dead, s.pool) := by
      cases p <;> first | rfl | exact absurd rfl hdead
    exact h.judge hp hdie .dead

/-- After its last call an iteration has no container. -/
theorem position_of_ends {result : Except Exc Outcome} {p : Phase}
    (h : Monitor.Ends Finished (fun _ q => q = .failed ∨ q = .dead) p result) :
    position cfg p = .idle := by
  have hleaves {e : Exc} (h : JudgeWorker.LeavesTry e p) : position cfg p = .idle := by
    rcases h with rfl | ⟨rfl, -⟩ <;> rfl
  cases result with
  | error e => rcases h with rfl | rfl <;> rfl
  | ok outcome =>
      cases outcome with
      | dropped e => exact hleaves h
      | idle | processed | retried | shutdown =>
          obtain rfl := h
          rfl

/-- **Whole iterations refine the judge workers of the pool.** -/
theorem simulates (cfg : Config) :
    (system cfg).Simulates (SandboxManager.system cfg.pool) (fun _ _ => True) (Matches cfg) where
  init := by
    rintro _ rfl
    exact ⟨cfg.pool.start, rfl, .nil, rfl⟩
  step := by
    intro s t s' a h hstep
    cases a with
    | creator i a =>
        obtain ⟨pool, hpool, rfl⟩ := Option.map_eq_some_iff.mp hstep
        exact h.pool (.inl ⟨i, a, rfl⟩) hpool
    | manager a =>
        obtain ⟨pool, hpool, rfl⟩ := Option.map_eq_some_iff.mp hstep
        exact h.pool (.inr ⟨a, rfl⟩) hpool
    | spawn =>
        obtain rfl := Option.some.inj hstep
        have hjudges : List.Forall₂ (Stands cfg) (s.workers ++ [.idle]) (t.judges ++ [.idle]) :=
          List.rel_append h.1 (.cons .idle .nil)
        refine ⟨{ t with judges := t.judges ++ [.idle] },
          .single (b := .spawnJudge) trivial rfl, hjudges, ?_⟩
        rw [h.2]
    | begin i env w =>
        simp only [system, step] at hstep
        split at hstep
        case h_1 hidle =>
          obtain rfl := Option.some.inj hstep
          obtain ⟨p, hp, hstands⟩ := forall₂_getElem? h.1 hidle
          cases hstands
          have hbusy : Stands cfg (.busy s.begun env w (w.run cfg.judge env)) .idle :=
            .busy (JudgeWorker.keeps_run cfg.judge env w)
          exact ⟨t, .refl, forall₂_set_left h.1 hp hbusy, h.2⟩
        case h_2 => cases hstep
    | call i =>
        simp only [system, step] at hstep
        split at hstep
        case h_1 number env w c calls result hbusy =>
          obtain ⟨pool, hcalled, rfl⟩ := Option.map_eq_some_iff.mp hstep
          obtain ⟨_, hp, hstands⟩ := forall₂_getElem? h.1 hbusy
          cases hstands with
          | busy hkeeps =>
              obtain ⟨q, hcall, hrest⟩ := hkeeps.next
              rcases judgeStep_of_call (advances_of_protocol hcall) hcalled with
                ⟨rfl, hposition⟩ | ⟨a, hjudge⟩
              · have hstands : Stands cfg (.busy number env w ⟨calls, result⟩) (position cfg q) :=
                  .busy hrest
                rw [hposition] at hstands
                exact ⟨t, .refl, forall₂_set_left h.1 hp hstands, h.2⟩
              · have hstands : Stands cfg (.busy number env w ⟨calls, result⟩) (position cfg q) :=
                  .busy hrest
                obtain ⟨t', ht', hmatches⟩ := h.judge hp hjudge hstands
                exact ⟨t', ht', hmatches.1, hmatches.2⟩
        case h_2 => cases hstep
    | finish i =>
        simp only [system, step] at hstep
        split at hstep
        case h_1 hbusy =>
          obtain rfl := Option.some.inj hstep
          exact h.ends hbusy
        case h_2 result _ hbusy =>
          obtain rfl := Option.some.inj hstep
          obtain ⟨_, hp, hstands⟩ := forall₂_getElem? h.1 hbusy
          cases hstands with
          | busy hkeeps =>
              rw [position_of_ends hkeeps.ends] at hp
              exact ⟨t, .refl, h.unseen hp .idle⟩
        case h_3 hbusy =>
          obtain rfl := Option.some.inj hstep
          exact h.ends hbusy
        case h_4 => cases hstep
    | die i =>
        obtain ⟨worker, hworker, rfl⟩ := Option.map_eq_some_iff.mp hstep
        exact h.ends hworker

end

/-- **What whole iterations do to the pool, its judge workers do.** -/
theorem pool_refined (cfg : Config) {s : State} (h : (system cfg).Reachable s) :
    ∃ t, (SandboxManager.system cfg.pool).Reachable t ∧ Matches cfg s t :=
  (simulates cfg).reachable h

/-! ## One container, one iteration -/

inductive Holds (l : Language) (container_id : Str) : Phase → Prop
  | acquired : Holds l container_id (.acquired l container_id)
  | published : Holds l container_id (.published l container_id)
  | container (stage : Stage) : Holds l container_id (.container l container_id stage)

section

variable {env : Environment} {previous : Option Int} {payload : Option Str} {p q : Phase}
  {c : Call} {l : Language} {container_id : Str}

/-- Only the container that is held is looked up, written to, used or stopped. -/
theorem holds_of_container?
    (hcall : Advances env previous payload p c (env.raises c.step) q)
    (hc : container? c = some container_id) : ∃ l, Holds l container_id p := by
  cases hcall with
  | lookUp =>
      obtain rfl := Option.some.inj hc
      exact ⟨_, .published⟩
  | stop =>
      obtain rfl := Option.some.inj hc
      exact ⟨_, .container _⟩
  | @inside l container_id' stage c next _ hnext =>
      refine ⟨l, ?_⟩
      have hsame : container_id' = container_id := by
        cases c <;> simp only [container?, reduceCtorEq, Option.some.injEq] at hc <;> subst hc <;>
          cases stage <;> simp_all [Stage.next]
      rw [hsame]
      exact .container stage
  | _ => cases hc

theorem holds_of_ifReturns {next otherwise : Phase} {e? : Option Exc}
    (h : Holds l container_id (ifReturns next otherwise e?))
    (hotherwise : otherwise = .failed ∨ otherwise = .dead) :
    e? = none ∧ Holds l container_id next := by
  cases e? with
  | none => exact ⟨rfl, h⟩
  | some e => rcases hotherwise with rfl | rfl <;> cases h

/-- What is held after a call was held before, or the call has given it. -/
theorem Holds.before (hcall : Advances env previous payload p c (env.raises c.step) q)
    (hq : Holds l container_id q) (number : Nat) :
    Holds l container_id p ∨ (number, l, container_id) ∈ given env number c := by
  cases hcall with
  | acquire =>
      obtain ⟨hraises, hq⟩ := holds_of_ifReturns hq (.inl rfl)
      cases hsandbox : env.sandbox with
      | none =>
          rw [hsandbox] at hq
          cases hq
      | some container_id =>
          rw [hsandbox] at hq
          cases hq
          refine .inr ?_
          rw [given, show env.raises .acquireWarmSandbox = none from hraises, hsandbox]
          exact List.mem_singleton_self _
  | publish =>
      cases (holds_of_ifReturns hq (.inl rfl)).2
      exact .inl .acquired
  | lookUp =>
      cases (holds_of_ifReturns hq (.inl rfl)).2
      exact .inl .published
  | inside =>
      cases hq
      exact .inl (.container _)
  | stop e? =>
      split at hq
      case isTrue => cases (holds_of_ifReturns hq (.inl rfl)).2
      case isFalse => cases hq
  | pop =>
      have hq := (holds_of_ifReturns hq (.inl rfl)).2
      split at hq <;> cases hq
  | @close db => cases db <;> cases (holds_of_ifReturns hq (.inl rfl)).2
  | setKey | deleteKey => cases (holds_of_ifReturns hq (.inl rfl)).2
  | beat | push | pause => cases (holds_of_ifReturns hq (.inr rfl)).2
  | enter | query | commit | rollback | abandon => cases hq

end

section

variable {cfg : Config} {s : State} {t t' : SandboxManager.State}

def handed (cfg : Config) (e : Nat × Language × Str) : Language × ContainerId :=
  (e.2.1, cfg.container e.2.2)

theorem called_handed {env : Environment} {c : Call}
    (hcalled : called cfg env t c = some t') (number : Nat) :
    t'.handed = (given env number c).map (handed cfg) ++ t.handed := by
  by_cases hseen : seen c = false
  · rw [called_of_not_seen hseen hcalled]
    cases c <;> first | rfl | cases hseen
  · unfold called at hcalled
    cases c <;> first | exact absurd rfl hseen | skip
    case acquireWarmSandbox l timeout =>
      cases hraises : env.raises .acquireWarmSandbox with
      | some e =>
          rw [show env.raises (Call.acquireWarmSandbox l timeout).step = some e from hraises]
            at hcalled
          obtain rfl := Option.some.inj hcalled
          simp [given, hraises]
      | none =>
          rw [show env.raises (Call.acquireWarmSandbox l timeout).step = none from hraises]
            at hcalled
          dsimp only [effect] at hcalled
          split at hcalled
          case h_1 container_id c rest hsandbox hpop =>
            obtain ⟨rfl, hcalled⟩ := Option.ite_none_right_eq_some.mp hcalled
            obtain rfl := Option.some.inj hcalled
            simp [given, hraises, hsandbox, handed]
          case h_2 hsandbox hpop =>
            obtain rfl := Option.some.inj hcalled
            simp [given, hraises, hsandbox]
          case h_3 => cases hcalled
    all_goals
      split at hcalled <;>
      · obtain rfl := Option.some.inj hcalled
        rfl

/-- What the histories say about the workers. -/
structure Accounted (cfg : Config) (s : State) : Prop where
  handed : s.given.map (handed cfg) = s.pool.handed
  held : ∀ number env w rest, .busy number env w rest ∈ s.workers →
    ∃ p, Keeps env w.submission_id w.jobs.getLast? p rest Finished
        (fun _ q => q = .failed ∨ q = .dead) ∧
      ∀ l container_id, Holds l container_id p → (number, l, container_id) ∈ s.given
  touched : ∀ number container_id, (number, container_id) ∈ s.touched →
    ∃ l, (number, l, container_id) ∈ s.given

theorem Accounted.setWorker (h : Accounted cfg s) {i : Nat} {worker : Worker}
    (hworker : ∀ number env w rest, worker = .busy number env w rest →
      rest = w.run cfg.judge env) : Accounted cfg (s.setWorker i worker) where
  handed := h.handed
  touched := h.touched
  held := by
    intro number env w rest hmem
    rcases List.mem_or_eq_of_mem_set hmem with hmem | heq
    · exact h.held number env w rest hmem
    · obtain rfl := hworker number env w rest heq.symm
      refine ⟨.beat, JudgeWorker.keeps_run cfg.judge env w, ?_⟩
      intro l container_id hholds
      cases hholds

/-- A step of the pool gives nothing out. -/
theorem Accounted.pool (h : Accounted cfg s) {a : SandboxManager.Action}
    (ha : (∃ i b, a = .creator i b) ∨ ∃ b, a = .manager b)
    (hstep : SandboxManager.step cfg.pool.poolThreshold s.pool a = some t) :
    Accounted cfg { s with pool := t } where
  held := h.held
  touched := h.touched
  handed := by
    refine h.handed.trans ?_
    cases SandboxManager.move_of_step hstep with
    | creator _ hmove => exact hmove.frame.2.2.2.2.2.1.symm
    | manager hmove => exact hmove.frame.2.2.symm
    | spawnJudge => rfl
    | judge => rcases ha with ⟨_, _, ha⟩ | ⟨_, ha⟩ <;> cases ha

theorem Accounted.call (h : Accounted cfg s) {i number : Nat} {env : Environment} {w : World}
    {c : Call} {calls : List Call} {result : Except Exc Outcome}
    (hbusy : s.workers[i]? = some (.busy number env w ⟨c :: calls, result⟩))
    (hcalled : called cfg env s.pool c = some t) :
    Accounted cfg ({ s with
      pool := t
      given := given env number c ++ s.given
      touched := (container? c).toList.map (number, ·) ++ s.touched
      }.setWorker i (.busy number env w ⟨calls, result⟩)) := by
  obtain ⟨p, hkeeps, hgiven⟩ := h.held _ _ _ _ (List.mem_of_getElem? hbusy)
  obtain ⟨q, hcall, hrest⟩ := hkeeps.next
  have hadvances := advances_of_protocol hcall
  refine ⟨?_, ?_, ?_⟩
  · show (given env number c ++ s.given).map (Sandboxes.handed cfg) = t.handed
    rw [List.map_append, h.handed, called_handed hcalled number]
  · intro number' env' w' rest' hmem
    rcases List.mem_or_eq_of_mem_set hmem with hmem | heq
    · obtain ⟨p', hkeeps', hgiven'⟩ := h.held number' env' w' rest' hmem
      exact ⟨p', hkeeps', fun l container_id hholds =>
        List.mem_append_right _ (hgiven' l container_id hholds)⟩
    · cases heq
      refine ⟨q, hrest, fun l container_id hholds => ?_⟩
      rcases hholds.before hadvances number with hbefore | hnew
      · exact List.mem_append_right _ (hgiven l container_id hbefore)
      · exact List.mem_append_left _ hnew
  · intro number' container_id hmem
    rcases List.mem_append.mp hmem with hnew | hold
    · obtain ⟨container_id', hc, heq⟩ := List.mem_map.mp hnew
      cases heq
      obtain ⟨l, hholds⟩ := holds_of_container? hadvances (Option.mem_toList.mp hc)
      exact ⟨l, List.mem_append_right _ (hgiven l container_id hholds)⟩
    · obtain ⟨l, hl⟩ := h.touched number' container_id hold
      exact ⟨l, List.mem_append_right _ hl⟩

theorem accounted_of_reachable (h : (system cfg).Reachable s) : Accounted cfg s := by
  refine System.PreservedUnder.invariant (I := Accounted cfg) ?_ ?_ h
  · intro s s' a _ hs _ hstep
    cases a with
    | creator i a =>
        obtain ⟨t, ht, rfl⟩ := Option.map_eq_some_iff.mp hstep
        exact hs.pool (.inl ⟨i, a, rfl⟩) ht
    | manager a =>
        obtain ⟨t, ht, rfl⟩ := Option.map_eq_some_iff.mp hstep
        exact hs.pool (.inr ⟨a, rfl⟩) ht
    | spawn =>
        obtain rfl := Option.some.inj hstep
        refine ⟨hs.handed, fun number env w rest hmem => ?_, hs.touched⟩
        rcases List.mem_append.mp hmem with hmem | hmem
        · exact hs.held number env w rest hmem
        · cases List.mem_singleton.mp hmem
    | begin i env w =>
        simp only [system, step] at hstep
        split at hstep
        case h_1 =>
          obtain rfl := Option.some.inj hstep
          have hbegun : Accounted cfg { s with begun := s.begun + 1 } :=
            ⟨hs.handed, hs.held, hs.touched⟩
          exact hbegun.setWorker fun _ _ _ _ heq => by cases heq; rfl
        case h_2 => cases hstep
    | call i =>
        simp only [system, step] at hstep
        split at hstep
        case h_1 number env w c calls result hbusy =>
          obtain ⟨t, hcalled, rfl⟩ := Option.map_eq_some_iff.mp hstep
          exact hs.call hbusy hcalled
        case h_2 => cases hstep
    | finish i =>
        simp only [system, step] at hstep
        split at hstep
        case h_4 => cases hstep
        all_goals
          obtain rfl := Option.some.inj hstep
          exact hs.setWorker fun _ _ _ _ heq => by cases heq
    | die i =>
        obtain ⟨worker, hworker, rfl⟩ := Option.map_eq_some_iff.mp hstep
        exact hs.setWorker fun _ _ _ _ heq => by cases heq
  · rintro _ rfl
    exact ⟨rfl, fun _ _ _ _ hmem => absurd hmem List.not_mem_nil,
      fun _ _ hmem => absurd hmem List.not_mem_nil⟩

/-- Whoever touches a container has been given it, for the language it was made for, and nobody
else touches it. -/
structure Alone (cfg : Config) (s : State) : Prop where
  given : ∀ number container_id, (number, container_id) ∈ s.touched →
    ∃ l, (number, l, container_id) ∈ s.given ∧
      SandboxManager.MadeFor l (cfg.container container_id) s.pool
  once : ∀ number number' container_id container_id', (number, container_id) ∈ s.touched →
    (number', container_id') ∈ s.touched →
    cfg.container container_id = cfg.container container_id' → number = number'

theorem eq_of_handed_nodup (h : Accounted cfg s) (hnodup : (s.pool.handed.map Prod.snd).Nodup)
    {e e' : Nat × Language × Str} (he : e ∈ s.given) (he' : e' ∈ s.given)
    (heq : cfg.container e.2.2 = cfg.container e'.2.2) : e = e' := by
  rw [← h.handed, List.map_map] at hnodup
  exact List.inj_on_of_nodup_map hnodup he he' heq

/-- The pool of every reachable state is one of the pool's model. -/
theorem placed_of_reachable (hempty : ∀ l, cfg.pool.warm l = []) (h : (system cfg).Reachable s) :
    SandboxManager.Isolated { s.pool with judges := [] } := by
  obtain ⟨t, ht, -, hpool⟩ := (simulates cfg).reachable h
  have hisolated : SandboxManager.Isolated t :=
    SandboxManager.Placed.isolated (System.PreservedUnder.invariant
      (fun _ _ _ _ hs _ hstep => hs.step (SandboxManager.move_of_step hstep))
      (fun _ hinit => hinit ▸ SandboxManager.placed_start cfg.pool hempty) ht)
  rw [hpool] at hisolated
  exact ⟨hisolated.warm_nodup, hisolated.handed_nodup, fun _ => Nat.zero_le _,
    hisolated.not_warm, hisolated.language⟩

/-- **A container is touched by one iteration**, whatever all workers meet in theirs. -/
theorem touched_by_one_iteration (cfg : Config) (hempty : ∀ l, cfg.pool.warm l = [])
    (h : (system cfg).Reachable s) : Alone cfg s := by
  have haccounted := accounted_of_reachable h
  have hisolated := placed_of_reachable hempty h
  refine ⟨fun number container_id htouched => ?_, ?_⟩
  · obtain ⟨l, hl⟩ := haccounted.touched number container_id htouched
    refine ⟨l, hl, hisolated.language l _ (List.mem_append_left _ ?_)⟩
    show (l, cfg.container container_id) ∈ s.pool.handed
    rw [← haccounted.handed]
    exact List.mem_map_of_mem (f := handed cfg) hl
  · intro number number' container_id container_id' htouched htouched' heq
    obtain ⟨l, hl⟩ := haccounted.touched number container_id htouched
    obtain ⟨l', hl'⟩ := haccounted.touched number' container_id' htouched'
    exact congrArg Prod.fst (eq_of_handed_nodup haccounted hisolated.handed_nodup hl hl' heq)

/-- Nothing is done in a container that has been asked to stop, and none is in a warm list. -/
structure UsedWhileRunning (cfg : Config) (s : State) : Prop where
  warm : ∀ l c, c ∈ s.pool.warm l → SandboxManager.Runs c s.pool
  call : ∀ number env w c calls result container_id,
    .busy number env w ⟨c :: calls, result⟩ ∈ s.workers → container? c = some container_id →
      SandboxManager.Runs (cfg.container container_id) s.pool

theorem uses_of_container? {env : Environment} {previous : Option Int} {payload : Option Str}
    {p q : Phase} {c : Call} {container_id : Str}
    (hcall : Advances env previous payload p c (env.raises c.step) q)
    (hc : container? c = some container_id) :
    (position cfg p).uses (cfg.container container_id) = 1 := by
  obtain ⟨l, hholds⟩ := holds_of_container? hcall hc
  cases hholds <;> exact if_pos rfl

/-- **Every call in a container finds it running**: no health check, no `clean_pool` and no other
worker stops it before its own iteration does. -/
theorem used_while_running (cfg : Config) (hempty : ∀ l, cfg.pool.warm l = [])
    (h : (system cfg).Reachable s) : UsedWhileRunning cfg s := by
  obtain ⟨t, ht, hworkers, hpool⟩ := (simulates cfg).reachable h
  have hrelied := (SandboxManager.relied cfg.pool hempty ht).2
  have hruns (c : ContainerId) (hc : SandboxManager.Relies c t) :
      SandboxManager.Runs c s.pool := by
    have hruns := hrelied.runs c hc
    rw [hpool] at hruns
    exact hruns
  refine ⟨fun l c hc => hruns c ?_, fun number env w c calls result container_id hmem hc => ?_⟩
  · have hwarm : c ∈ t.warm l := by
      rw [hpool]
      exact hc
    have hcount := SandboxManager.count_le_pooled c t.warm l
    have hone := List.count_pos_iff.mpr hwarm
    unfold SandboxManager.Relies SandboxManager.reliance
    omega
  · obtain ⟨i, hi⟩ := List.mem_iff_getElem?.mp hmem
    obtain ⟨_, hp, hstands⟩ := forall₂_getElem? hworkers hi
    cases hstands with
    | busy hkeeps =>
        obtain ⟨q, hcall, -⟩ := hkeeps.next
        have huses := @uses_of_container? cfg _ _ _ _ _ _ _ (advances_of_protocol hcall) hc
        have hweight := le_weight (SandboxManager.JudgeWorker.uses (cfg.container container_id))
          (List.mem_of_getElem? hp)
        apply hruns
        unfold SandboxManager.Relies SandboxManager.reliance
        omega

end

/-! ## A run -/

def lengths : Config where
  pool := SandboxManager.freshConfig
  judge := JudgeWorker.anyConfig
  container := List.length

/-- A creator makes a container for `C`, and a worker judges a submission in it. -/
def judgingRun : List Action :=
  [.manager .maintain, .manager .count, .manager .readPending, .manager .updatePending,
    .manager .put, .creator 0 .check, .creator 0 .get, .creator 0 (.create 1),
    .creator 0 .start, .creator 0 .healthcheck, .creator 0 .push, .spawn,
    .begin 0 (JudgeWorker.storing []) { JudgeWorker.oneJob with db := JudgeWorker.Requeue.oneC }] ++
    List.replicate 13 (.call 0)

theorem judging_reaches : ∃ s, (system lengths).Reachable s ∧ s.given = [(0, .C, ['b'])] ∧
    s.touched = [(0, ['b']), (0, ['b'])] := by
  obtain ⟨s, hs, hgiven, htouched⟩ := System.exists_path (system lengths) (fun _ _ => True)
    ⟨lengths.pool.start, [], 0, [], []⟩ judgingRun
    (fun s => s.given = [(0, .C, ['b'])] ∧ s.touched = [(0, ['b']), (0, ['b'])])
    (by decide +kernel)
  exact ⟨s, ⟨_, rfl, hs⟩, hgiven, htouched⟩

theorem pool_refined_judging :
    ∃ s, (system lengths).Reachable s ∧ s.given = [(0, .C, ['b'])] ∧
      ∃ t, (SandboxManager.system lengths.pool).Reachable t ∧ Matches lengths s t := by
  obtain ⟨s, hs, hgiven, -⟩ := judging_reaches
  exact ⟨s, hs, hgiven, pool_refined lengths hs⟩

theorem touched_by_one_iteration_judging :
    ∃ s, (system lengths).Reachable s ∧ s.touched = [(0, ['b']), (0, ['b'])] ∧
      Alone lengths s := by
  obtain ⟨s, hs, -, htouched⟩ := judging_reaches
  exact ⟨s, hs, htouched, touched_by_one_iteration lengths (fun _ => rfl) hs⟩

theorem used_while_running_judging :
    ∃ s, (system lengths).Reachable s ∧ s.touched = [(0, ['b']), (0, ['b'])] ∧
      UsedWhileRunning lengths s := by
  obtain ⟨s, hs, -, htouched⟩ := judging_reaches
  exact ⟨s, hs, htouched, used_while_running lengths (fun _ => rfl) hs⟩

end ByteBattles.Judge.Refinement.Sandboxes
