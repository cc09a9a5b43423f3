import ByteBattles.Judge.SandboxManager.Accounting

/-!
# Refilling the warm pool to its threshold

Every container that leaves the pool is followed by an event, and every event
by a `maintain_pool` that restores the threshold, unless a container is counted
twice: `create_sandbox` pushes it before `creator_worker` decrements `pending`,
and a `maintain_pool` that reads the warm count in between sees it as warm and
as pending.  Without such a read the refill is never short.
-/

namespace ByteBattles.Judge.SandboxManager

open ByteBattles.Lib

/-- No process dies, no event is lost and the manager is not shut down.  Creations
may fail; they are queued again. -/
def Action.faultless : Action → Bool
  | .judge _ .publishRaises | .judge _ .die | .manager .stop => false
  | _ => true

/-- The worker has popped a container of `l` and not yet published the event. -/
def JudgeWorker.owesEvent (l : Language) : JudgeWorker → Nat
  | .acquired l' _ => if l' = l then 1 else 0
  | _ => 0

def Manager.beforeCount (l : Language) : Manager → Nat
  | .locked l' => if l' = l then 1 else 0
  | _ => 0

/-- The times the warm count of `l` is still going to be read. -/
def demand (l : Language) (s : State) : Nat :=
  s.initial.count l + s.channel.count l + weight (JudgeWorker.owesEvent l) s.judges +
    s.manager.beforeCount l

def Manager.maintains (l : Language) : Manager → Bool
  | .locked l' | .counted l' _ | .computed l' _ | .putting l' _ => l' = l
  | _ => false

/-- The initial `maintain_pool(l)` has run, every event for `l` has been handled,
no creation for `l` is queued or executed and `pending[l]` is settled. -/
structure Quiescent (l : Language) (s : State) : Prop where
  initial : l ∉ s.initial
  handled : l ∉ s.channel
  published : ∀ w ∈ s.judges, w.owesEvent l = 0
  idle : s.manager.maintains l = false
  queue : l ∉ s.taskQueue
  creators : ∀ p ∈ s.creators, p.owes l = 0 ∧ p.settles l = 0

/-- In every state of quiescence that a run without faults reaches, the warm list
holds the threshold. -/
def Refills (cfg : Config) : Prop :=
  ∀ s, (system cfg).ReachableUnder (fun _ a => a.faultless) s →
    ∀ l, Quiescent l s → cfg.poolThreshold ≤ (s.warm l).length

/-- When `maintain_pool(l)` reads the warm count, every pushed container of `l`
is settled, or the stock reaches the threshold anyway. -/
def countsOnce (T : Int) (s : State) : Action → Bool
  | .manager .count =>
      match s.manager with
      | .locked l => unsettled l s = 0 ∨ T ≤ stock l s
      | _ => true
  | _ => true

/-! ## Runs without shutdown -/

structure Running (s : State) : Prop where
  stopEvent : s.stopEvent = false
  stopping : s.manager.stopping = false

theorem Running.step {T : Int} {s t : State} {a : Action} (hs : Running s)
    (ha : a.faultless) (h : Move T s a t) : Running t := by
  obtain ⟨hstop, hphase⟩ := hs
  cases h with
  | spawnJudge => exact ⟨hstop, hphase⟩
  | judge hp hmove =>
      obtain ⟨hm, -, -, -, -, hstop'⟩ := hmove.frame
      exact ⟨hstop' ▸ hstop, hm ▸ hphase⟩
  | creator hp hmove =>
      obtain ⟨hm, -, -, -, hstop', -⟩ := hmove.frame
      exact ⟨hstop' ▸ hstop, hm ▸ hphase⟩
  | manager hmove =>
      generalize hm : s.manager = p at hmove hphase
      cases hmove
      case stop => simp [Action.faultless] at ha
      case shutdown m hp hm' => simp_all
      case cleanPop => simp [Manager.stopping] at hphase
      case cleanStop => simp [Manager.stopping] at hphase
      all_goals exact ⟨hstop, rfl⟩

/-! ## The refill invariant -/

/-- Unless the count of `l` is going to be read again, the threshold is in stock or
the deficit of the call in progress makes up for what is missing. -/
def Refilled (T : Int) (l : Language) (s : State) : Prop :=
  0 < demand l s ∨ T ≤ stock l s ∨
    (∃ n, s.manager = .counted l n ∧ (n : Int) + s.pending l ≤ stock l s) ∨
    ∃ d, s.manager = .computed l d ∧ T ≤ stock l s + d

/-- Creators deliver: neither the stock nor the demand changes. -/
theorem Refilled.creator {T : Int} {l : Language} {s t : State} {i : Nat} {p p' : Creator}
    (hs : Refilled T l s) (hp : s.creators[i]? = some p) (h : CreatorMove s p p' t) :
    Refilled T l { t with creators := s.creators.set i p' } := by
  obtain ⟨hm, hch, hj, hi, -⟩ := h.frame
  have hstock := stock_creator hp h l
  have hdemand : demand l { t with creators := s.creators.set i p' } = demand l s := by
    simp only [demand, hm, hch, hj, hi]
  rcases hs with hd | hT | ⟨n, hn, hle⟩ | ⟨d, hd, hle⟩
  · exact .inl (hdemand ▸ hd)
  · exact .inr (.inl (hstock ▸ hT))
  · refine .inr (.inr (.inl ⟨n, hm ▸ hn, ?_⟩))
    have hpend := h.pending_of_locked (by simp [hn, Manager.holdsLock])
    rw [hstock]
    show (n : Int) + t.pending l ≤ _
    rwa [hpend]
  · exact .inr (.inr (.inr ⟨d, hm ▸ hd, hstock ▸ hle⟩))

/-- A judge worker that takes a container of `l` owes an event for `l`. -/
theorem JudgeMove.demand_or_stock {s t : State} {w : Nat} {p p' : JudgeWorker}
    {a : JudgeAction} (hp : s.judges[w]? = some p) (h : JudgeMove s p a p' t)
    (ha : (Action.judge w a).faultless) (l : Language) :
    0 < demand l { t with judges := s.judges.set w p' } ∨
      demand l { t with judges := s.judges.set w p' } = demand l s ∧
        stock l { t with judges := s.judges.set w p' } = stock l s := by
  have hw := weight_set (JudgeWorker.owesEvent l) hp p'
  cases h
  case acquire l' c q hq =>
    by_cases hl : l' = l
    · left
      simp only [demand, JudgeWorker.owesEvent, hl, if_true] at hw ⊢
      omega
    · right
      simp only [demand, JudgeWorker.owesEvent, if_neg hl] at hw ⊢
      refine ⟨by omega, ?_⟩
      simp only [stock, outstanding, Function.update_of_ne (Ne.symm hl)]
  case publish l' c =>
    right
    simp only [demand, JudgeWorker.owesEvent, List.count_append, List.count_singleton,
      beq_iff_eq] at hw ⊢
    exact ⟨by omega, rfl⟩
  case publishRaises => simp [Action.faultless] at ha
  case die => simp [Action.faultless] at ha
  all_goals
    right
    simp only [demand, JudgeWorker.owesEvent] at hw ⊢
    exact ⟨by omega, rfl⟩

theorem Refilled.judge {T : Int} {l : Language} {s t : State} {w : Nat} {p p' : JudgeWorker}
    {a : JudgeAction} (hs : Refilled T l s) (hp : s.judges[w]? = some p)
    (h : JudgeMove s p a p' t) (ha : (Action.judge w a).faultless) :
    Refilled T l { t with judges := s.judges.set w p' } := by
  obtain ⟨hm, -, -, hpend, -⟩ := h.frame
  rcases h.demand_or_stock hp ha l with hd | ⟨hdemand, hstock⟩
  · exact .inl hd
  · unfold Refilled
    rw [hdemand, hstock]
    show 0 < demand l s ∨ T ≤ stock l s ∨
      (∃ n, t.manager = .counted l n ∧ (n : Int) + t.pending l ≤ stock l s) ∨
      ∃ d, t.manager = .computed l d ∧ T ≤ stock l s + d
    rw [hm, hpend]
    exact hs

theorem Refilled.manager {T : Int} {l : Language} {s t : State} {a : ManagerAction}
    (hs : Refilled T l s) (hcount : Counted l s) (hrun : Running s)
    (ha : (Action.manager a).faultless) (honce : countsOnce T s (.manager a))
    (h : ManagerMove T s s.manager a t) : Refilled T l t := by
  have hpend := hcount.eq hrun.stopEvent
  have hphase := hrun.stopping
  generalize hm : s.manager = p at h
  rw [hm] at hphase
  unfold Refilled at hs ⊢
  rw [hm] at hs
  cases h
  case maintain l' rest hi =>
    simp only [demand, stock, outstanding, hm, hi, Manager.beforeCount, Manager.owes,
      List.count_cons, beq_iff_eq, reduceCtorEq, false_and, exists_false, or_false] at hs ⊢
    omega
  case receive l' rest hch =>
    simp only [demand, stock, outstanding, hm, hch, Manager.beforeCount, Manager.owes,
      List.count_cons, beq_iff_eq, reduceCtorEq, false_and, exists_false, or_false] at hs ⊢
    omega
  case count l' =>
    by_cases hl : l' = l
    · -- what the manager is about to compute with is exactly the stock
      subst hl
      simp only [countsOnce, hm, decide_eq_true_eq] at honce
      rcases honce with hsettled | hT
      · refine .inr (.inr (.inl ⟨_, rfl, ?_⟩))
        simp only [stock, outstanding, hm, hsettled, Manager.owes] at hpend ⊢
        omega
      · refine .inr (.inl ?_)
        simpa only [stock, outstanding, hm, Manager.owes] using hT
    · simp only [demand, stock, outstanding, hm, Manager.beforeCount, Manager.owes, if_neg hl,
        reduceCtorEq, false_and, exists_false, or_false] at hs ⊢
      omega
  case enough l' n hn =>
    simp only [demand, stock, outstanding, hm, Manager.beforeCount, Manager.owes,
      Manager.counted.injEq, reduceCtorEq, false_and, exists_false, or_false] at hs ⊢
    rcases hs with hd | hT | ⟨_, ⟨rfl, rfl⟩, hle⟩
    · exact .inl hd
    · exact .inr hT
    · exact .inr (by omega)
  case deficit l' n hd =>
    simp only [demand, stock, outstanding, hm, Manager.beforeCount, Manager.owes,
      Manager.counted.injEq, Manager.computed.injEq, reduceCtorEq, false_and, exists_false,
      or_false, false_or] at hs ⊢
    rcases hs with hd | hT | ⟨_, ⟨rfl, rfl⟩, hle⟩
    · exact .inl hd
    · exact .inr (.inl hT)
    · exact .inr (.inr ⟨_, ⟨rfl, rfl⟩, by omega⟩)
  case update l' d =>
    simp only [demand, stock, outstanding, hm, Manager.beforeCount, Manager.owes,
      Manager.computed.injEq, reduceCtorEq, false_and, exists_false, or_false, false_or] at hs ⊢
    rcases hs with hd | hT | ⟨_, ⟨rfl, rfl⟩, hle⟩
    · exact .inl hd
    · exact .inr (by omega)
    · exact .inr (by rw [if_pos rfl]; omega)
  case put l' n =>
    simp only [demand, stock, outstanding, hm, Manager.beforeCount, Manager.owes,
      List.count_append, List.count_singleton, beq_iff_eq, reduceCtorEq, false_and,
      exists_false, or_false] at hs ⊢
    split at hs <;> rename_i hl <;> simp only [hl, if_true, if_false] <;> omega
  case putLast l' =>
    simp only [demand, stock, outstanding, hm, Manager.beforeCount, Manager.owes,
      ite_self, reduceCtorEq, false_and, exists_false, or_false] at hs ⊢
    exact hs
  case stop => simp [Action.faultless] at ha
  case shutdown m hp hm' => simp_all
  case cleanPop => simp [Manager.stopping] at hphase
  case cleanStop => simp [Manager.stopping] at hphase

theorem running_and_refilled {cfg : Config} {s : State}
    (h : (system cfg).ReachableUnder
      (fun s a => a.faultless ∧ countsOnce cfg.poolThreshold s a) s) (l : Language) :
    Running s ∧ Refilled cfg.poolThreshold l s := by
  refine System.PreservedUnder.reachable
    (I := fun s => Running s ∧ Refilled cfg.poolThreshold l s) ?_ (fun _ hs => counted hs l) ?_ h
  · rintro s t a hcount ⟨hrun, hs⟩ ⟨ha, honce⟩ hstep
    have hmove := move_of_step hstep
    refine ⟨hrun.step ha hmove, ?_⟩
    cases hmove with
    | spawnJudge => simpa [Refilled, demand, stock, outstanding, JudgeWorker.owesEvent] using hs
    | judge hp hmove => exact hs.judge hp hmove ha
    | creator hp hmove => exact hs.creator hp hmove
    | manager hmove => exact hs.manager hcount hrun ha honce hmove
  · rintro _ rfl
    refine ⟨⟨rfl, rfl⟩, .inl ?_⟩
    cases l <;> simp [demand, Config.start, Language.all, Manager.beforeCount]

theorem Quiescent.demand_eq {l : Language} {s : State} (h : Quiescent l s) :
    demand l s = 0 := by
  have hm : s.manager.beforeCount l = 0 := by
    have := h.idle
    cases hm : s.manager <;> simp_all [Manager.beforeCount, Manager.maintains]
  have hw := (weight_eq_zero_iff (JudgeWorker.owesEvent l) s.judges).mpr h.published
  simp [demand, hm, hw, List.count_eq_zero_of_not_mem h.initial,
    List.count_eq_zero_of_not_mem h.handled]

theorem Quiescent.stock_eq {l : Language} {s : State} (h : Quiescent l s) :
    stock l s = (s.warm l).length := by
  have hm : s.manager.owes l = 0 := by
    have := h.idle
    cases hm : s.manager <;> simp_all [Manager.owes, Manager.maintains]
  have hw := (weight_eq_zero_iff (Creator.owes l) s.creators).mpr fun p hp => (h.creators p hp).1
  simp [stock, outstanding, hm, hw, List.count_eq_zero_of_not_mem h.queue]

/-- **The warm pool refills to its threshold** in every run in which no
`maintain_pool` reads the warm count between the push of a container and the
decrement of `pending` for it. -/
theorem refills_of_countsOnce (cfg : Config) {s : State}
    (h : (system cfg).ReachableUnder
      (fun s a => a.faultless ∧ countsOnce cfg.poolThreshold s a) s)
    (l : Language) (hq : Quiescent l s) : cfg.poolThreshold ≤ (s.warm l).length := by
  obtain ⟨-, hd | hT | ⟨n, hn, -⟩ | ⟨d, hd, -⟩⟩ := running_and_refilled h l
  · rw [hq.demand_eq] at hd
    omega
  · rwa [hq.stock_eq] at hT
  · have := hq.idle
    simp [hn, Manager.maintains] at this
  · have := hq.idle
    simp [hd, Manager.maintains] at this

instance (l : Language) (s : State) : Decidable (Quiescent l s) :=
  decidable_of_iff (l ∉ s.initial ∧ l ∉ s.channel ∧ (∀ w ∈ s.judges, w.owesEvent l = 0) ∧
      s.manager.maintains l = false ∧ l ∉ s.taskQueue ∧
      ∀ p ∈ s.creators, p.owes l = 0 ∧ p.settles l = 0)
    ⟨fun ⟨h₁, h₂, h₃, h₄, h₅, h₆⟩ => ⟨h₁, h₂, h₃, h₄, h₅, h₆⟩,
      fun ⟨h₁, h₂, h₃, h₄, h₅, h₆⟩ => ⟨h₁, h₂, h₃, h₄, h₅, h₆⟩⟩

/-! ## The short refill -/

def raceConfig : Config where
  poolThreshold := 1
  workerCount := 1
  warm := fun _ => []
  containers := fun _ => none

def untilPush : List Action :=
  List.flatten (List.replicate 3 ([.manager .maintain, .manager .count, .manager .readPending,
    .manager .updatePending, .manager .put, .manager .put] : List Action)) ++
  ([.creator 0 .check, .creator 0 .get, .creator 0 (.create 1), .creator 0 .start,
    .creator 0 .healthcheck, .creator 0 .push] : List Action)

/-- A judge worker takes the container, and the manager handles its event before the
creator decrements `pending`. -/
def raceRun : List Action :=
  untilPush ++ ([.spawnJudge, .judge 0 (.acquire .C), .judge 0 .publish,
    .manager .receive, .manager .count, .manager .readPending,
    .creator 0 .decrement, .creator 0 .taskDone] : List Action)

theorem not_refills_race : 1 ≤ raceConfig.poolThreshold ∧ ¬ Refills raceConfig := by
  refine ⟨by decide, fun h => ?_⟩
  obtain ⟨s, hs, hq, hwarm⟩ := System.exists_path (system raceConfig)
    (fun _ a => a.faultless = true) raceConfig.start raceRun
    (fun s => Quiescent .C s ∧ s.warm .C = []) (by decide)
  have hT := h s ⟨_, rfl, hs⟩ .C hq
  rw [hwarm] at hT
  exact absurd hT (by decide)

def orderedRun : List Action :=
  untilPush ++ ([.creator 0 .decrement, .creator 0 .taskDone, .spawnJudge,
    .judge 0 (.acquire .C), .judge 0 .publish, .manager .receive, .manager .count,
    .manager .readPending, .manager .updatePending, .manager .put, .manager .put] : List Action) ++
  List.flatten ([2, 3, 4].map fun c => ([.creator 0 .check, .creator 0 .get,
    .creator 0 (.create c), .creator 0 .start, .creator 0 .healthcheck, .creator 0 .push,
    .creator 0 .decrement, .creator 0 .taskDone] : List Action))

theorem refills_ordered :
    ∃ s, (system raceConfig).ReachableUnder
        (fun s a => a.faultless ∧ countsOnce raceConfig.poolThreshold s a) s ∧
      Quiescent .C s ∧ raceConfig.poolThreshold ≤ (s.warm .C).length := by
  obtain ⟨s, hs, hq⟩ := System.exists_path (system raceConfig)
    (fun s a => a.faultless ∧ countsOnce raceConfig.poolThreshold s a) raceConfig.start
    orderedRun (Quiescent .C) (by decide)
  exact ⟨s, ⟨_, rfl, hs⟩, hq, refills_of_countsOnce raceConfig ⟨_, rfl, hs⟩ .C hq⟩

end ByteBattles.Judge.SandboxManager
