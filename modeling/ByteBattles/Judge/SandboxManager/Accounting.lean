import ByteBattles.Judge.SandboxManager.Moves

/-!
# What `pending` counts, and the bound on the pool

For each language the creations still to come (`outstanding`) are the tasks that
`maintain_pool` has counted but not put, those in the queue and those a creator
has taken without having pushed.  `pending` lags behind: it also counts the
containers that are pushed but not yet settled.  Stock, the warm containers
together with the outstanding ones, is therefore at most what the manager
computes with, whatever happens between its reads.
-/

namespace ByteBattles.Judge.SandboxManager

open ByteBattles.Lib

def Creator.owes (l : Language) : Creator → Nat
  | .taken l' | .created l' _ | .started l' _ | .checked l' _ | .failed l' =>
      if l' = l then 1 else 0
  | _ => 0

def Creator.settles (l : Language) : Creator → Nat
  | .pushed l' => if l' = l then 1 else 0
  | _ => 0

/-- Tasks for `l` that are counted in `pending` and not yet put. -/
def Manager.owes (l : Language) : Manager → Nat
  | .putting l' n => if l' = l then n else 0
  | _ => 0

def outstanding (l : Language) (s : State) : Nat :=
  s.manager.owes l + s.taskQueue.count l + weight (Creator.owes l) s.creators

/-- Containers of `l` that are in the warm list and still counted in `pending`. -/
def unsettled (l : Language) (s : State) : Nat := weight (Creator.settles l) s.creators

def stock (l : Language) (s : State) : Nat := (s.warm l).length + outstanding l s

/-! ## One step -/

/-- A creation moves from one place to the next: a failed one goes back to the queue. -/
theorem CreatorMove.stock_eq {s t : State} {p p' : Creator} (h : CreatorMove s p p' t)
    (l : Language) :
    (t.warm l).length + t.taskQueue.count l + p'.owes l =
      (s.warm l).length + s.taskQueue.count l + p.owes l := by
  cases h
  case check => split <;> simp [Creator.owes]
  case get l' rest hq =>
    simp only [hq, Creator.owes, List.count_cons, beq_iff_eq]
    omega
  case push l' c =>
    by_cases hl : l' = l
    · subst hl
      simp only [Creator.owes, Function.update_self, List.length_cons, if_true]
      omega
    · simp [Creator.owes, Function.update_of_ne (Ne.symm hl), hl]
  case raise l' hp =>
    rcases hp with rfl | ⟨c, rfl | rfl⟩ <;> rfl
  case requeue l' =>
    simp only [Creator.owes, List.count_append, List.count_singleton, beq_iff_eq]
    omega
  all_goals simp [Creator.owes]

/-- `pending` changes exactly when a pushed container is settled. -/
theorem CreatorMove.pending_eq {s t : State} {p p' : Creator} (h : CreatorMove s p p' t)
    (l : Language) :
    t.pending l + (p.owes l + p.settles l + s.taskQueue.count l : Nat) =
      s.pending l + (p'.owes l + p'.settles l + t.taskQueue.count l : Nat) := by
  cases h
  case check => split <;> simp [Creator.owes, Creator.settles]
  case get l' rest hq =>
    simp only [hq, Creator.owes, Creator.settles, List.count_cons, beq_iff_eq]
    omega
  case decrement l' hlock =>
    by_cases hl : l' = l
    · subst hl
      simp only [Creator.owes, Creator.settles, Function.update_self, if_true]
      omega
    · simp [Creator.owes, Creator.settles, Function.update_of_ne (Ne.symm hl), hl]
  case raise l' hp =>
    rcases hp with rfl | ⟨c, rfl | rfl⟩ <;> rfl
  case requeue l' =>
    simp only [Creator.owes, Creator.settles, List.count_append, List.count_singleton,
      beq_iff_eq]
    omega
  all_goals simp [Creator.owes, Creator.settles]

theorem length_update_rpop_le {warm : Language → List ContainerId} {l : Language}
    {c : ContainerId} {q : List ContainerId} (h : rpop (warm l) = some (c, q)) (l' : Language) :
    (Function.update warm l q l').length ≤ (warm l').length := by
  by_cases hl : l' = l
  · subst hl
    rw [Function.update_self, length_of_rpop h]
    omega
  · rw [Function.update_of_ne hl]

/-- A judge worker only takes from the warm lists. -/
theorem JudgeMove.warm_le {s t : State} {p p' : JudgeWorker} {a : JudgeAction}
    (h : JudgeMove s p a p' t) (l : Language) : (t.warm l).length ≤ (s.warm l).length := by
  cases h
  case acquire hq => exact length_update_rpop_le hq l
  all_goals exact Nat.le_refl _

theorem Manager.owes_of_stopping {m : Manager} (h : m.stopping) (l : Language) :
    m.owes l = 0 := by
  cases m <;> simp_all [Manager.stopping, Manager.owes]

/-- `pending` changes exactly when tasks are counted; only leaving the main loop
forgets tasks that are counted and not put. -/
theorem ManagerMove.pending_eq {T : Int} {s t : State} {p : Manager} {a : ManagerAction}
    (h : ManagerMove T s p a t) (hpos : ∀ l d, p = .computed l d → 0 < d) (l : Language) :
    t = { s with manager := .joining, stopEvent := true } ∨ t.stopEvent = s.stopEvent ∧
      t.pending l + (p.owes l + s.taskQueue.count l : Nat) =
        s.pending l + (t.manager.owes l + t.taskQueue.count l : Nat) := by
  cases h
  case stop => exact .inl rfl
  case update l' d =>
    refine .inr ⟨rfl, ?_⟩
    have hd := hpos l' d rfl
    by_cases hl : l' = l
    · subst hl
      simp only [Manager.owes, Function.update_self, if_true]
      omega
    · simp [Manager.owes, Function.update_of_ne (Ne.symm hl), hl]
  case put l' n =>
    refine .inr ⟨rfl, ?_⟩
    simp only [Manager.owes, List.count_append, List.count_singleton, beq_iff_eq]
    split <;> omega
  case shutdown m hp hm =>
    refine .inr ⟨rfl, ?_⟩
    simp only [Manager.owes_of_stopping hp, Manager.owes_of_stopping hm]
  all_goals exact .inr ⟨rfl, by simp [Manager.owes]⟩

/-- The manager only takes from the warm lists. -/
theorem ManagerMove.warm_le {T : Int} {s t : State} {p : Manager} {a : ManagerAction}
    (h : ManagerMove T s p a t) (l : Language) : (t.warm l).length ≤ (s.warm l).length := by
  cases h
  case cleanPop hq => exact length_update_rpop_le hq l
  all_goals exact Nat.le_refl _

theorem ManagerMove.counted_inv {T : Int} {s t : State} {p : Manager} {a : ManagerAction}
    (h : ManagerMove T s p a t) {l : Language} {n : Nat} (ht : t.manager = .counted l n) :
    p = .locked l ∧ n = (s.warm l).length ∧ t = { s with manager := .counted l n } := by
  cases h
  case count =>
    obtain ⟨rfl, rfl⟩ := Manager.counted.inj ht
    exact ⟨rfl, rfl, rfl⟩
  case shutdown m hp hm =>
    obtain rfl : m = .counted l n := ht
    simp_all [Manager.stopping]
  all_goals cases ht

theorem ManagerMove.computed_inv {T : Int} {s t : State} {p : Manager} {a : ManagerAction}
    (h : ManagerMove T s p a t) {l : Language} {d : Int} (ht : t.manager = .computed l d) :
    ∃ n : Nat, p = .counted l n ∧ d = T - (n + s.pending l) ∧ 0 < d ∧
      t = { s with manager := .computed l d } := by
  cases h
  case deficit l' n hd =>
    obtain ⟨rfl, rfl⟩ := Manager.computed.inj ht
    exact ⟨n, rfl, rfl, by omega, rfl⟩
  case shutdown m hp hm =>
    obtain rfl : m = .computed l d := ht
    simp_all [Manager.stopping]
  all_goals cases ht

/-! ## `pending` -/

/-- Every outstanding or unsettled container is counted; until shutdown nothing else is. -/
structure Counted (l : Language) (s : State) : Prop where
  le : (outstanding l s + unsettled l s : Nat) ≤ s.pending l
  eq : s.stopEvent = false → s.pending l = (outstanding l s + unsettled l s : Nat)
  deficit_pos : ∀ l' d, s.manager = .computed l' d → 0 < d

theorem Counted.step {T : Int} {l : Language} {s t : State} {a : Action}
    (hs : Counted l s) (h : Move T s a t) : Counted l t := by
  obtain ⟨hle, heq, hpos⟩ := hs
  unfold outstanding unsettled at hle heq
  cases h with
  | spawnJudge => exact ⟨hle, heq, hpos⟩
  | @judge w a p p' t hp hmove =>
      obtain ⟨hm, hq, hc, hpend, -, hstop⟩ := hmove.frame
      constructor <;> simp only [outstanding, unsettled, hm, hq, hc, hpend, hstop]
      · exact hle
      · exact heq
      · exact hpos
  | @creator i a p p' t hp hmove =>
      obtain ⟨hm, -, -, -, hstop, -⟩ := hmove.frame
      have hpend := hmove.pending_eq l
      have howes := weight_set (Creator.owes l) hp p'
      have hsettles := weight_set (Creator.settles l) hp p'
      constructor <;> simp only [outstanding, unsettled, hm, hstop]
      · omega
      · intro hns
        have := heq hns
        omega
      · exact hpos
  | @manager a t hmove =>
      obtain ⟨hc, -, -⟩ := hmove.frame
      refine ⟨?_, ?_, fun l' d ht => (hmove.computed_inv ht).choose_spec.2.2.1⟩ <;>
        rcases hmove.pending_eq hpos l with rfl | ⟨hstop, hpend⟩
      · simp only [outstanding, unsettled, Manager.owes]
        omega
      · simp only [outstanding, unsettled, hc]
        omega
      · simp
      · intro hns
        have := heq (hstop ▸ hns)
        simp only [outstanding, unsettled, hc]
        omega

@[simp] theorem outstanding_start (cfg : Config) (l : Language) :
    outstanding l cfg.start = 0 := by
  simp [outstanding, Config.start, Manager.owes, Creator.owes]

@[simp] theorem unsettled_start (cfg : Config) (l : Language) : unsettled l cfg.start = 0 := by
  simp [unsettled, Config.start, Creator.settles]

theorem counted_start (cfg : Config) (l : Language) : Counted l cfg.start := by
  refine ⟨?_, fun _ => ?_, fun _ _ h => by cases h⟩ <;>
    rw [outstanding_start, unsettled_start] <;> simp [Config.start]

theorem counted {cfg : Config} {ok : State → Action → Prop} {s : State}
    (h : (system cfg).ReachableUnder ok s) (l : Language) : Counted l s := by
  refine System.PreservedUnder.invariant ?_ ?_ h
  · intro s t a _ hs _ hstep
    exact hs.step (move_of_step hstep)
  · rintro _ rfl
    exact counted_start cfg l

/-! ## The pool is never over-provisioned -/

/-- The stock of `l` stays below `bound`, also when the manager completes the
refill for which it has read the warm count or computed the deficit. -/
structure Provisioned (T bound : Int) (l : Language) (s : State) : Prop where
  stock_le : (stock l s : Int) ≤ bound
  counted_le : ∀ n, s.manager = .counted l n → (stock l s : Int) ≤ n + s.pending l
  computed_le : ∀ d, s.manager = .computed l d → stock l s + d ≤ T

theorem stock_creator {s t : State} {i : Nat} {p p' : Creator} (hp : s.creators[i]? = some p)
    (h : CreatorMove s p p' t) (l : Language) :
    stock l { t with creators := s.creators.set i p' } = stock l s := by
  obtain ⟨hm, -⟩ := h.frame
  have hstock := h.stock_eq l
  have howes := weight_set (Creator.owes l) hp p'
  simp only [stock, outstanding, hm]
  omega

theorem stock_judge_le {s t : State} {w : Nat} {p p' : JudgeWorker} {a : JudgeAction}
    (h : JudgeMove s p a p' t) (l : Language) :
    stock l { t with judges := s.judges.set w p' } ≤ stock l s := by
  obtain ⟨hm, hq, hc, -⟩ := h.frame
  have := h.warm_le l
  simp only [stock, outstanding, hm, hq, hc]
  omega

/-- While the manager holds the lock no creator settles a container. -/
theorem CreatorMove.pending_of_locked {s t : State} {p p' : Creator}
    (h : CreatorMove s p p' t) (hlock : s.manager.holdsLock) : t.pending = s.pending := by
  cases h
  case decrement hfree => simp [hlock] at hfree
  all_goals rfl

/-- Only the update of `pending` adds to the stock, and exactly the computed deficit. -/
theorem ManagerMove.stock_le {T : Int} {s t : State} {a : ManagerAction}
    (h : ManagerMove T s s.manager a t) (l : Language) :
    stock l t ≤ stock l s ∨ ∃ d, s.manager = .computed l d ∧
      t.manager = .putting l d.toNat ∧ stock l t = stock l s + d.toNat := by
  have hwarm := h.warm_le l
  have hc := h.frame.1
  generalize hm : s.manager = p at h
  unfold stock outstanding
  rw [hc, hm]
  cases h
  case update l' d =>
    by_cases hl : l' = l
    · subst hl
      refine .inr ⟨d, rfl, rfl, ?_⟩
      simp only [Manager.owes, if_true]
      omega
    · simp [Manager.owes, hl]
  case put l' n =>
    left
    simp only [Manager.owes, List.count_append, List.count_singleton, beq_iff_eq]
    split <;> omega
  case shutdown m hp hm' =>
    simp [Manager.owes_of_stopping hp, Manager.owes_of_stopping hm']
  case cleanPop =>
    left
    simpa only [Manager.owes, Nat.zero_add, Nat.add_le_add_iff_right] using hwarm
  all_goals simp [Manager.owes]

theorem Provisioned.step {T bound : Int} {l : Language} {s t : State} {a : Action}
    (hT : T ≤ bound) (hcount : Counted l s) (hs : Provisioned T bound l s)
    (h : Move T s a t) : Provisioned T bound l t := by
  obtain ⟨hstock, hcounted, hcomputed⟩ := hs
  cases h with
  | spawnJudge => exact ⟨hstock, hcounted, hcomputed⟩
  | @judge w a p p' t hp hmove =>
      obtain ⟨hm, -, -, hpend, -⟩ := hmove.frame
      have hle := stock_judge_le (w := w) hmove l
      refine ⟨by omega, fun n hn => ?_, fun d hd => ?_⟩
      · have hpend' : t.pending l = s.pending l := by rw [hpend]
        have := hcounted n (hm ▸ hn)
        show _ ≤ (n : Int) + t.pending l
        omega
      · have := hcomputed d (hm ▸ hd)
        omega
  | @creator i a p p' t hp hmove =>
      obtain ⟨hm, -⟩ := hmove.frame
      have heq := stock_creator hp hmove l
      refine ⟨by omega, fun n hn => ?_, fun d hd => ?_⟩
      · have hn' : s.manager = .counted l n := hm ▸ hn
        have hpend : t.pending l = s.pending l := by
          rw [hmove.pending_of_locked (by simp [hn', Manager.holdsLock])]
        have := hcounted n hn'
        show _ ≤ (n : Int) + t.pending l
        omega
      · have := hcomputed d (hm ▸ hd)
        omega
  | @manager a t hmove =>
      have hle : (stock l t : Int) ≤ bound := by
        rcases hmove.stock_le l with h | ⟨d, hd, -, h⟩
        · omega
        · have := hcomputed d hd
          have := hcount.deficit_pos l d hd
          omega
      refine ⟨hle, fun n hn => ?_, fun d hd => ?_⟩
      · -- the count is read: `pending` counts at least what is outstanding
        obtain ⟨hm, rfl, rfl⟩ := hmove.counted_inv hn
        have := hcount.le
        simp only [stock, outstanding, hm, Manager.owes] at this ⊢
        omega
      · obtain ⟨n, hm, rfl, -, rfl⟩ := hmove.computed_inv hd
        have := hcounted n hm
        simp only [stock, outstanding, hm, Manager.owes] at this ⊢
        omega

/-- **The pool is never over-provisioned.**  The warm containers of `l` and the
creations of `l` still to come are at most the threshold, or what was warm when
the manager started. -/
theorem warm_add_outstanding_le (cfg : Config) {s : State} (h : (system cfg).Reachable s)
    (l : Language) :
    ((s.warm l).length + outstanding l s : Int) ≤
      max cfg.poolThreshold (cfg.warm l).length := by
  have hbound : cfg.poolThreshold ≤ max cfg.poolThreshold (cfg.warm l).length := le_max_left _ _
  have hinv : Provisioned cfg.poolThreshold (max cfg.poolThreshold (cfg.warm l).length) l s := by
    refine System.PreservedUnder.reachable ?_ (fun _ hs => counted hs l) ?_ h
    · intro s t a hcount hs _ hstep
      exact hs.step hbound hcount (move_of_step hstep)
    · rintro _ rfl
      refine ⟨?_, fun n hn => (by cases hn), fun d hd => (by cases hd)⟩
      rw [stock, outstanding_start]
      exact le_max_right _ _
  exact hinv.stock_le

def restartConfig : Config where
  poolThreshold := 2
  workerCount := 2
  warm := fun l => if l = .C then [0] else []
  containers := fun _ => none

def restartRun : List Action :=
  [.spawnJudge, .manager .maintain, .manager .count, .judge 0 (.acquire .C),
    .manager .readPending, .manager .updatePending, .manager .put, .manager .put]

theorem warm_add_outstanding_le_restart :
    ∃ s, (system restartConfig).Reachable s ∧ s.taskQueue = [.C] ∧
      ((s.warm .C).length + outstanding .C s : Int) ≤ max 2 1 := by
  obtain ⟨s, hs, hq⟩ := System.exists_path (system restartConfig) (fun _ _ => True)
    restartConfig.start restartRun (fun s => s.taskQueue = [.C]) (by decide)
  exact ⟨s, ⟨_, rfl, hs⟩, hq, warm_add_outstanding_le restartConfig ⟨_, rfl, hs⟩ .C⟩

end ByteBattles.Judge.SandboxManager
