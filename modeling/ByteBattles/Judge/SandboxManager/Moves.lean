import ByteBattles.Judge.SandboxManager.Model

/-!
# What one step of the pool can do

The step functions are inverted once, into one relation for each party, and
every invariant of the pool is a case analysis of these relations.
-/

namespace ByteBattles.Judge.SandboxManager

open ByteBattles.Lib

/-- The steps of a creator thread: old position, new position, new shared state. -/
inductive CreatorMove (s : State) : Creator → Creator → State → Prop
  | check : CreatorMove s .loop (if s.stopEvent then .exited else .getting) s
  | get {l rest} (h : s.taskQueue = l :: rest) :
      CreatorMove s .getting (.taken l) { s with taskQueue := rest }
  | timeout : CreatorMove s .getting .loop s
  | create {l c} (h : s.containers c = none) :
      CreatorMove s (.taken l) (.created l c) { s with
        containers := Function.update s.containers c (some ⟨l, IMAGE l, .created⟩) }
  | start {l c} : CreatorMove s (.created l c) (.started l c)
      { s with containers := setStatus s.containers c .running }
  | healthcheck {l c} : CreatorMove s (.started l c) (.checked l c) s
  | push {l c} : CreatorMove s (.checked l c) (.pushed l)
      { s with warm := Function.update s.warm l (c :: s.warm l) }
  /-- `containers.create`, `start` or the push raises -/
  | raise {p l} (h : p = .taken l ∨ ∃ c, p = .created l c ∨ p = .checked l c) :
      CreatorMove s p (.failed l) s
  | unhealthy {l c} : CreatorMove s (.started l c) (.failed l)
      { s with containers := setStatus s.containers c .removed }
  | decrement {l} (h : s.manager.holdsLock = false) :
      CreatorMove s (.pushed l) .settled
        { s with pending := Function.update s.pending l (s.pending l - 1) }
  | requeue {l} : CreatorMove s (.failed l) .settled
      { s with taskQueue := s.taskQueue ++ [l], unfinished := s.unfinished + 1 }
  | taskDone : CreatorMove s .settled .loop { s with unfinished := s.unfinished - 1 }

theorem creatorMove_of_step {s t : State} {p p' : Creator} {a : CreatorAction}
    (h : creatorStep s p a = some (p', t)) : CreatorMove s p p' t := by
  cases p <;> cases a <;> simp only [creatorStep, reduceCtorEq, Option.some.injEq,
    Prod.mk.injEq] at h
  case loop.check =>
    obtain ⟨rfl, rfl⟩ := h
    exact .check
  case getting.get =>
    cases hq : s.taskQueue with
    | nil => simp [hq] at h
    | cons l rest =>
        simp only [hq, Option.some.injEq, Prod.mk.injEq] at h
        obtain ⟨rfl, rfl⟩ := h
        exact .get hq
  case getting.timeout =>
    split at h
    · obtain ⟨rfl, rfl⟩ := Prod.mk.inj (Option.some.inj h)
      exact .timeout
    · cases h
  case taken.create =>
    split at h
    · obtain ⟨rfl, rfl⟩ := Prod.mk.inj (Option.some.inj h)
      exact .create ‹_›
    · cases h
  case taken.createRaises =>
    obtain ⟨rfl, rfl⟩ := h
    exact .raise (.inl rfl)
  case created.start =>
    obtain ⟨rfl, rfl⟩ := h
    exact .start
  case created.startRaises =>
    obtain ⟨rfl, rfl⟩ := h
    exact .raise (.inr ⟨_, .inl rfl⟩)
  case started.healthcheck =>
    obtain ⟨rfl, rfl⟩ := h
    exact .healthcheck
  case started.healthcheckFails =>
    obtain ⟨rfl, rfl⟩ := h
    exact .unhealthy
  case checked.push =>
    obtain ⟨rfl, rfl⟩ := h
    exact .push
  case checked.pushRaises =>
    obtain ⟨rfl, rfl⟩ := h
    exact .raise (.inr ⟨_, .inr rfl⟩)
  case pushed.decrement =>
    split at h
    · cases h
    · obtain ⟨rfl, rfl⟩ := Prod.mk.inj (Option.some.inj h)
      exact .decrement (by simpa using ‹¬ s.manager.holdsLock = true›)
  case failed.requeue =>
    obtain ⟨rfl, rfl⟩ := h
    exact .requeue
  case settled.taskDone =>
    obtain ⟨rfl, rfl⟩ := h
    exact .taskDone

inductive ShutdownMove (s : State) : Manager → ManagerAction → State → Prop
  | join (h : ∀ p ∈ s.creators, p = .exited) :
      ShutdownMove s .joining .join { s with manager := .cleaning Language.all }
  | finish : ShutdownMove s (.cleaning []) .cleanCount { s with manager := .ended }
  | busy {l todo} (h : s.warm l ≠ []) :
      ShutdownMove s (.cleaning (l :: todo)) .cleanCount { s with manager := .popping (l :: todo) }
  | empty {l todo} (h : s.warm l = []) :
      ShutdownMove s (.cleaning (l :: todo)) .cleanCount { s with manager := .cleaning todo }
  /-- a judge worker has been faster -/
  | missed {l todo} (h : s.warm l = []) :
      ShutdownMove s (.popping (l :: todo)) .cleanPop
        { s with manager := .removing (l :: todo) none }
  | popped {l todo c q} (h : rpop (s.warm l) = some (c, q)) :
      ShutdownMove s (.popping (l :: todo)) .cleanPop { s with
        warm := Function.update s.warm l q
        cleaned := (l, c) :: s.cleaned
        manager := .removing (l :: todo) (some c) }
  | asked {todo c} : ShutdownMove s (.removing todo (some c)) .cleanStop { s with
      containers := setStatus s.containers c .removed, manager := .cleaning todo }
  | raised {todo c} :
      ShutdownMove s (.removing todo c) .cleanStopRaises { s with manager := .cleaning todo }

theorem shutdownMove_of_step {T : Int} {s t : State} {p : Manager} {a : ManagerAction}
    (hp : p.stopping = true) (h : managerStep T s p a = some t) : ShutdownMove s p a t := by
  cases p with
  | joining =>
      cases a <;> simp only [managerStep, reduceCtorEq] at h
      split at h
      · obtain rfl := Option.some.inj h
        exact .join ‹_›
      · cases h
  | cleaning todo =>
      cases a <;> try simp only [managerStep, reduceCtorEq] at h
      cases todo with
      | nil =>
          obtain rfl := Option.some.inj h
          exact .finish
      | cons l todo =>
          obtain rfl := Option.some.inj h
          by_cases hwarm : s.warm l = []
          · simpa [hwarm] using ShutdownMove.empty hwarm
          · simpa [List.length_pos_iff.mpr hwarm] using ShutdownMove.busy hwarm
  | popping todo =>
      cases a <;> try simp only [managerStep, reduceCtorEq] at h
      cases todo with
      | nil => cases h
      | cons l todo =>
          dsimp only at h
          split at h
          · obtain rfl := Option.some.inj h
            exact .missed (rpop_eq_none.mp ‹_›)
          · obtain rfl := Option.some.inj h
            exact .popped ‹_›
  | removing todo c =>
      cases a <;> try simp only [managerStep, reduceCtorEq] at h
      case cleanStop =>
        cases c with
        | none => cases h
        | some c =>
            obtain rfl := Option.some.inj h
            exact .asked
      case cleanStopRaises =>
        obtain rfl := Option.some.inj h
        exact .raised
  | ended => cases a <;> cases h
  | _ => cases hp

inductive ManagerMove (T : Int) (s : State) : Manager → ManagerAction → State → Prop
  | maintain {l rest} (h : s.initial = l :: rest) :
      ManagerMove T s .ready .maintain { s with manager := .locked l, initial := rest }
  | receive {l rest} (h : s.channel = l :: rest) :
      ManagerMove T s .ready .receive { s with manager := .locked l, channel := rest }
  | count {l} :
      ManagerMove T s (.locked l) .count { s with manager := .counted l (s.warm l).length }
  | enough {l} {n : Nat} (h : T ≤ n + s.pending l) :
      ManagerMove T s (.counted l n) .readPending { s with manager := .ready }
  | deficit {l} {n : Nat} (h : n + s.pending l < T) :
      ManagerMove T s (.counted l n) .readPending
        { s with manager := .computed l (T - (n + s.pending l)) }
  | update {l d} : ManagerMove T s (.computed l d) .updatePending { s with
      pending := Function.update s.pending l (s.pending l + d), manager := .putting l d.toNat }
  | put {l n} : ManagerMove T s (.putting l (n + 1)) .put { s with
      taskQueue := s.taskQueue ++ [l], unfinished := s.unfinished + 1, manager := .putting l n }
  | putLast {l} : ManagerMove T s (.putting l 0) .put { s with manager := .ready }
  | stop {p} : ManagerMove T s p .stop { s with manager := .joining, stopEvent := true }
  /-- the steps of the shutdown that touch no shared state -/
  | shutdown {p a m} (hp : p.stopping) (hm : m.stopping) :
      ManagerMove T s p a { s with manager := m }
  | cleanPop {l todo c q} (h : rpop (s.warm l) = some (c, q)) :
      ManagerMove T s (.popping (l :: todo)) .cleanPop { s with
        warm := Function.update s.warm l q
        cleaned := (l, c) :: s.cleaned
        manager := .removing (l :: todo) (some c) }
  | cleanStop {todo c} : ManagerMove T s (.removing todo (some c)) .cleanStop { s with
      containers := setStatus s.containers c .removed, manager := .cleaning todo }

theorem managerMove_of_step {T : Int} {s t : State} {p : Manager} {a : ManagerAction}
    (h : managerStep T s p a = some t) : ManagerMove T s p a t := by
  by_cases hp : p.stopping = true
  · cases shutdownMove_of_step hp h with
    | popped hpop => exact .cleanPop hpop
    | asked => exact .cleanStop
    | _ => exact .shutdown rfl rfl
  cases a
  case maintain =>
    cases p <;> simp only [managerStep, reduceCtorEq] at h
    cases hi : s.initial with
    | nil => simp [hi] at h
    | cons l rest =>
        simp only [hi, Option.some.injEq] at h
        subst h
        exact .maintain hi
  case receive =>
    cases p <;> simp only [managerStep, reduceCtorEq] at h
    split at h
    · obtain rfl := Option.some.inj h
      exact .receive ‹_›
    · cases h
  case count =>
    cases p <;> simp only [managerStep, reduceCtorEq, Option.some.injEq] at h
    subst h
    exact .count
  case readPending =>
    cases p <;> simp only [managerStep, reduceCtorEq, Option.some.injEq] at h
    subst h
    split
    · exact .enough (by omega)
    · exact .deficit (by omega)
  case updatePending =>
    cases p <;> simp only [managerStep, reduceCtorEq, Option.some.injEq] at h
    subst h
    exact .update
  case put =>
    cases p <;> try simp only [managerStep, reduceCtorEq] at h
    case putting l n =>
      cases n <;> simp only [Option.some.injEq] at h <;> subst h
      · exact .putLast
      · exact .put
  case stop =>
    cases p <;> simp only [managerStep, reduceCtorEq, Option.some.injEq] at h <;> subst h <;>
      exact .stop
  case join | cleanCount | cleanPop | cleanStop | cleanStopRaises =>
    cases p <;> first | exact absurd rfl hp | simp [managerStep] at h

inductive JudgeMove (s : State) : JudgeWorker → JudgeAction → JudgeWorker → State → Prop
  | acquire {l c q} (h : rpop (s.warm l) = some (c, q)) :
      JudgeMove s .idle (.acquire l) (.acquired l c) { s with
        warm := Function.update s.warm l q, handed := (l, c) :: s.handed }
  | acquireTimeout {l} : JudgeMove s .idle (.acquireTimeout l) .idle s
  | publish {l c} : JudgeMove s (.acquired l c) .publish (.published l c)
      { s with channel := s.channel ++ [l] }
  | publishRaises {l c} : JudgeMove s (.acquired l c) .publishRaises .idle s
  | getContainer {l c} : JudgeMove s (.published l c) .getContainer (.using l c) s
  | getContainerRaises {l c} : JudgeMove s (.published l c) .getContainerRaises .idle s
  | stop {l c} : JudgeMove s (.using l c) .stop .idle
      { s with containers := setStatus s.containers c .removed }
  | stopRaises {l c} : JudgeMove s (.using l c) .stopRaises .idle s
  | die {p} : JudgeMove s p .die .dead s

theorem judgeMove_of_step {s t : State} {p p' : JudgeWorker} {a : JudgeAction}
    (h : judgeStep s p a = some (p', t)) : JudgeMove s p a p' t := by
  cases p <;> cases a <;> simp only [judgeStep, reduceCtorEq, Option.some.injEq,
    Prod.mk.injEq] at h
  case idle.acquire l =>
    split at h
    · cases h
    · obtain ⟨rfl, rfl⟩ := Prod.mk.inj (Option.some.inj h)
      exact .acquire ‹_›
  case idle.acquireTimeout l =>
    split at h
    · obtain ⟨rfl, rfl⟩ := Prod.mk.inj (Option.some.inj h)
      exact .acquireTimeout
    · cases h
  all_goals
    obtain ⟨rfl, rfl⟩ := h
    constructor

/-! ## What a step leaves alone -/

/-- A creator touches neither the manager, nor the events, nor the judge workers. -/
theorem CreatorMove.frame {s t : State} {p p' : Creator} (h : CreatorMove s p p' t) :
    t.manager = s.manager ∧ t.channel = s.channel ∧ t.judges = s.judges ∧
      t.initial = s.initial ∧ t.stopEvent = s.stopEvent ∧ t.handed = s.handed ∧
      t.cleaned = s.cleaned := by
  cases h <;> exact ⟨rfl, rfl, rfl, rfl, rfl, rfl, rfl⟩

/-- A judge worker touches neither the manager's side nor the creators. -/
theorem JudgeMove.frame {s t : State} {p p' : JudgeWorker} {a : JudgeAction}
    (h : JudgeMove s p a p' t) :
    t.manager = s.manager ∧ t.taskQueue = s.taskQueue ∧ t.creators = s.creators ∧
      t.pending = s.pending ∧ t.initial = s.initial ∧ t.stopEvent = s.stopEvent := by
  cases h <;> exact ⟨rfl, rfl, rfl, rfl, rfl, rfl⟩

/-- The manager does not move creators or judge workers. -/
theorem ManagerMove.frame {T : Int} {s t : State} {p : Manager} {a : ManagerAction}
    (h : ManagerMove T s p a t) :
    t.creators = s.creators ∧ t.judges = s.judges ∧ t.handed = s.handed := by
  cases h <;> exact ⟨rfl, rfl, rfl⟩

/-! ## The system -/

inductive Move (T : Int) (s : State) : Action → State → Prop
  | creator {i a p p' t} (hp : s.creators[i]? = some p) (h : CreatorMove s p p' t) :
      Move T s (.creator i a) { t with creators := s.creators.set i p' }
  | manager {a t} (h : ManagerMove T s s.manager a t) : Move T s (.manager a) t
  | spawnJudge : Move T s .spawnJudge { s with judges := s.judges ++ [.idle] }
  | judge {w a p p' t} (hp : s.judges[w]? = some p) (h : JudgeMove s p a p' t) :
      Move T s (.judge w a) { t with judges := s.judges.set w p' }

theorem move_of_step {T : Int} {s t : State} {a : Action} (h : step T s a = some t) :
    Move T s a t := by
  cases a with
  | creator i a =>
      obtain ⟨p, hp, h⟩ := Option.bind_eq_some_iff.mp h
      obtain ⟨⟨p', u⟩, hu, rfl⟩ := Option.map_eq_some_iff.mp h
      exact .creator hp (creatorMove_of_step hu)
  | manager a => exact .manager (managerMove_of_step h)
  | spawnJudge =>
      obtain rfl := Option.some.inj h
      exact .spawnJudge
  | judge w a =>
      obtain ⟨p, hp, h⟩ := Option.bind_eq_some_iff.mp h
      obtain ⟨⟨p', u⟩, hu, rfl⟩ := Option.map_eq_some_iff.mp h
      exact .judge hp (judgeMove_of_step hu)

end ByteBattles.Judge.SandboxManager
