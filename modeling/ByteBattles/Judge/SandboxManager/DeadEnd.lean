import ByteBattles.Judge.SandboxManager.Refill

/-!
# An empty warm list that nobody refills

A judge worker publishes the event for a container after it has popped it.  When the
last container of a language is popped and its event is lost, or handled while
`pending` still counts that container, nothing ever asks for another one:
every `acquire_warm_sandbox` from then on times out.
-/

namespace ByteBattles.Judge.SandboxManager

open ByteBattles.Lib

/-- Some step is going to add a container to the pool of `l`, or to look at the pool. -/
inductive Replenishing (l : Language) (s : State) : Prop
  | queued : l ∈ s.taskQueue → Replenishing l s
  | executed (p : Creator) : p ∈ s.creators → 0 < p.owes l → Replenishing l s
  | published : l ∈ s.channel → Replenishing l s
  | handled : s.manager.maintains l = true → Replenishing l s
  /-- A worker has not yet published the event for the container it has popped. -/
  | owed (w : JudgeWorker) : w ∈ s.judges → 0 < w.owesEvent l → Replenishing l s
  /-- The initial pool is not yet requested. -/
  | initial : l ∈ s.initial → Replenishing l s

/-- While the manager runs, no warm list is empty for good. -/
def NeverStuck (cfg : Config) : Prop :=
  ∀ s, (system cfg).Reachable s → s.manager.stopping = false →
    ∀ l, s.warm l = [] → Replenishing l s

/-- The manager has read a count of `l` that makes it request at least one container. -/
def refilling (T : Int) (l : Language) (s : State) : Bool :=
  match s.manager with
  | .counted l' n => l' = l ∧ n + s.pending l < T
  | .computed l' _ => l' = l
  | _ => false

/-- The pool of `l` is not empty, is being refilled, or is going to be looked at. -/
def Alive (T : Int) (l : Language) (s : State) : Prop :=
  0 < demand l s ∨ 0 < stock l s ∨ refilling T l s = true

/-- A worker that will not publish its event has not popped the last container, and
`pending` does not fill an empty pool, unless the pool is going to be looked at again. -/
def keepsAlive (T : Int) (s : State) : Action → Bool
  | .judge w .publishRaises | .judge w .die =>
      match s.judges[w]? with
      | some (.acquired l _) => 1 < demand l s ∨ 0 < stock l s ∨ refilling T l s = true
      | _ => true
  | .manager .count =>
      match s.manager with
      | .locked l => 1 < demand l s ∨ 0 < stock l s ∨ (unsettled l s : Int) < T
      | _ => true
  | _ => true

/-! ## What is replenishing -/

theorem exists_of_weight_pos {α : Type} {f : α → Nat} {xs : List α} (h : 0 < weight f xs) :
    ∃ x ∈ xs, 0 < f x := by
  by_contra hnone
  have hzero : ∀ x ∈ xs, f x = 0 := by
    intro x hx
    by_contra hne
    exact hnone ⟨x, hx, Nat.pos_of_ne_zero hne⟩
  rw [(weight_eq_zero_iff f xs).mpr hzero] at h
  exact absurd h (lt_irrefl 0)

theorem Replenishing.of_demand {l : Language} {s : State} (h : 0 < demand l s) :
    Replenishing l s := by
  unfold demand at h
  by_cases hi : 0 < s.initial.count l
  · exact .initial (List.count_pos_iff.mp hi)
  by_cases hc : 0 < s.channel.count l
  · exact .published (List.count_pos_iff.mp hc)
  by_cases hw : 0 < weight (JudgeWorker.owesEvent l) s.judges
  · obtain ⟨w, hmem, howes⟩ := exists_of_weight_pos hw
    exact .owed w hmem howes
  · have hm : 0 < s.manager.beforeCount l := by omega
    apply Replenishing.handled
    cases hp : s.manager <;> simp_all [Manager.beforeCount, Manager.maintains]
    grind

theorem Replenishing.of_outstanding {l : Language} {s : State} (h : 0 < outstanding l s) :
    Replenishing l s := by
  unfold outstanding at h
  by_cases hq : 0 < s.taskQueue.count l
  · exact .queued (List.count_pos_iff.mp hq)
  by_cases hc : 0 < weight (Creator.owes l) s.creators
  · obtain ⟨p, hmem, howes⟩ := exists_of_weight_pos hc
    exact .executed p hmem howes
  · have hm : 0 < s.manager.owes l := by omega
    apply Replenishing.handled
    cases hp : s.manager <;> simp_all [Manager.owes, Manager.maintains]
    grind

theorem maintains_of_refilling {T : Int} {l : Language} {s : State}
    (h : refilling T l s = true) : s.manager.maintains l = true := by
  cases hp : s.manager <;> simp_all [refilling, Manager.maintains]

theorem Alive.replenishing {T : Int} {l : Language} {s : State} (h : Alive T l s)
    (hwarm : s.warm l = []) : Replenishing l s := by
  rcases h with hd | hs | hr
  · exact .of_demand hd
  · apply Replenishing.of_outstanding
    simpa [stock, hwarm] using hs
  · exact .handled (maintains_of_refilling hr)

/-! ## One step -/

def StopsLast (s : State) : Prop := s.manager.stopping = false → s.stopEvent = false

theorem ManagerMove.stopping_of_stopping {T : Int} {s t : State} {p : Manager}
    {a : ManagerAction} (h : ManagerMove T s p a t) (hp : p.stopping = true) :
    t.manager.stopping = true := by
  cases h with
  | stop => rfl
  | shutdown _ hm => exact hm
  | cleanPop | cleanStop => rfl
  | _ => cases hp

theorem StopsLast.step {T : Int} {s t : State} {a : Action} (hs : StopsLast s)
    (h : Move T s a t) : StopsLast t := by
  cases h with
  | spawnJudge => exact hs
  | judge hp hmove =>
      obtain ⟨hm, -, -, -, -, hstop⟩ := hmove.frame
      intro ht
      exact hstop ▸ hs (hm ▸ ht)
  | creator hp hmove =>
      obtain ⟨hm, -, -, -, hstop, -⟩ := hmove.frame
      intro ht
      exact hstop ▸ hs (hm ▸ ht)
  | manager hmove =>
      intro ht
      generalize hm : s.manager = p at hmove
      have hs' : p.stopping = false → s.stopEvent = false := hm ▸ hs
      cases hmove with
      | stop => cases ht
      | shutdown _ hm' => simp [hm'] at ht
      | cleanPop | cleanStop => cases ht
      | _ => exact hs' rfl

theorem refilling_congr {T : Int} {l : Language} {s t : State} (hm : t.manager = s.manager)
    (hpend : t.pending = s.pending) : refilling T l t = refilling T l s := by
  unfold refilling
  rw [hm, hpend]

/-- Creators deliver. -/
theorem Alive.creator {T : Int} {l : Language} {s t : State} {i : Nat} {p p' : Creator}
    (hs : Alive T l s) (hp : s.creators[i]? = some p) (h : CreatorMove s p p' t) :
    Alive T l { t with creators := s.creators.set i p' } := by
  obtain ⟨hm, hch, hj, hi, -⟩ := h.frame
  rcases hs with hd | hs | hr
  · left
    simpa only [demand, hm, hch, hj, hi] using hd
  · right
    left
    rwa [stock_creator hp h l]
  · -- while the manager is between its reads nobody settles a container
    have hlock : s.manager.holdsLock = true := by
      cases hp : s.manager <;> simp_all [refilling, Manager.holdsLock]
    have heq : refilling T l { t with creators := s.creators.set i p' } = refilling T l s :=
      refilling_congr hm (h.pending_of_locked hlock)
    right
    right
    rwa [heq]

/-- A worker that loses an event leaves everything else as it was. -/
theorem Alive.lose {T : Int} {l : Language} {s : State} {w : Nat} {p p' : JudgeWorker}
    (hs : Alive T l s) (hp : s.judges[w]? = some p) (hp' : p'.owesEvent l = 0)
    (hkeep : ∀ c, p = .acquired l c →
      1 < demand l s ∨ 0 < stock l s ∨ refilling T l s = true) :
    Alive T l { s with judges := s.judges.set w p' } := by
  have hw := weight_set (JudgeWorker.owesEvent l) hp p'
  rw [hp', Nat.add_zero] at hw
  by_cases howes : p.owesEvent l = 0
  · rcases hs with hd | hrest
    · left
      simp only [demand] at hd ⊢
      omega
    · exact .inr hrest
  · have hacquired : (∃ c, p = .acquired l c) ∧ p.owesEvent l = 1 := by
      cases p <;> simp_all [JudgeWorker.owesEvent]
    obtain ⟨⟨c, hc⟩, hone⟩ := hacquired
    rcases hkeep c hc with hd | hrest
    · left
      simp only [demand] at hd ⊢
      omega
    · exact .inr hrest

theorem Alive.judge {T : Int} {l : Language} {s t : State} {w : Nat} {p p' : JudgeWorker}
    {a : JudgeAction} (hs : Alive T l s) (hp : s.judges[w]? = some p)
    (hkeep : keepsAlive T s (.judge w a) = true) (h : JudgeMove s p a p' t) :
    Alive T l { t with judges := s.judges.set w p' } := by
  have hfaultless : (Action.judge w a).faultless = true →
      Alive T l { t with judges := s.judges.set w p' } := by
    intro ha
    obtain ⟨hm, -, -, hpend, -⟩ := h.frame
    rcases h.demand_or_stock hp ha l with hd | ⟨hdemand, hstock⟩
    · exact .inl hd
    · have heq : refilling T l { t with judges := s.judges.set w p' } = refilling T l s :=
        refilling_congr hm hpend
      unfold Alive
      rwa [hdemand, hstock, heq]
  cases h with
  | @publishRaises l' c =>
      refine hs.lose hp rfl fun c' hc => ?_
      cases hc
      simpa [keepsAlive, hp] using hkeep
  | @die p =>
      refine hs.lose hp rfl fun c' hc => ?_
      subst hc
      simpa [keepsAlive, hp] using hkeep
  | _ => exact hfaultless rfl

/-- The manager looks at the pool, or goes on as the count tells it. -/
theorem Alive.manager {T : Int} {l : Language} {s t : State} {a : ManagerAction}
    (hs : Alive T l s) (hcount : Counted l s) (hstop : s.stopEvent = false)
    (ht : t.manager.stopping = false) (hkeep : keepsAlive T s (.manager a) = true)
    (h : ManagerMove T s s.manager a t) : Alive T l t := by
  have hpend := hcount.eq hstop
  have hpos := hcount.deficit_pos l
  generalize hm : s.manager = p at h
  unfold Alive at hs ⊢
  rw [hm] at hpos
  cases h with
  | maintain hi =>
      simp only [demand, stock, outstanding, refilling, hm, hi, Manager.beforeCount, Manager.owes,
        List.count_cons, beq_iff_eq, Bool.false_eq_true, or_false] at hs ⊢
      omega
  | receive hch =>
      simp only [demand, stock, outstanding, refilling, hm, hch, Manager.beforeCount,
        Manager.owes, List.count_cons, beq_iff_eq, Bool.false_eq_true, or_false] at hs ⊢
      omega
  | @count l' =>
      by_cases hl : l' = l
      · subst hl
        simp only [keepsAlive, hm, decide_eq_true_eq] at hkeep
        simp only [demand, stock, outstanding, refilling, hm, Manager.beforeCount, Manager.owes,
          decide_eq_true_eq, if_true, true_and] at hkeep hpend ⊢
        omega
      · simp only [demand, stock, outstanding, refilling, hm, Manager.beforeCount, Manager.owes,
          hl, false_and, decide_false, Bool.false_eq_true, or_false] at hs ⊢
        exact hs
  | @enough l' n hn =>
      simp only [demand, stock, outstanding, refilling, hm, Manager.beforeCount, Manager.owes,
        decide_eq_true_eq, Bool.false_eq_true, or_false] at hs ⊢
      grind
  | @deficit l' n hd =>
      simp only [demand, stock, outstanding, refilling, hm, Manager.beforeCount, Manager.owes,
        decide_eq_true_eq] at hs ⊢
      grind
  | @update l' d =>
      simp only [demand, stock, outstanding, refilling, hm, Manager.beforeCount, Manager.owes,
        decide_eq_true_eq, Bool.false_eq_true, or_false] at hs ⊢
      rcases hs with hd | hT | rfl
      · exact .inl hd
      · right
        omega
      · have hd := hpos d rfl
        right
        rw [if_pos rfl]
        omega
  | @put l' n =>
      simp only [demand, stock, outstanding, refilling, hm, Manager.beforeCount, Manager.owes,
        List.count_append, List.count_singleton, beq_iff_eq, Bool.false_eq_true,
        or_false] at hs ⊢
      split at hs <;> rename_i hl <;> simp only [hl, if_true, if_false] <;> omega
  | putLast =>
      simp only [demand, stock, outstanding, refilling, hm, Manager.beforeCount, Manager.owes,
        ite_self, Bool.false_eq_true, or_false] at hs ⊢
      exact hs
  | stop => cases ht
  | shutdown _ hm' => simp [hm'] at ht
  | cleanPop | cleanStop => cases ht

theorem alive_start (cfg : Config) (l : Language) : Alive cfg.poolThreshold l cfg.start := by
  left
  cases l <;> simp [demand, Config.start, Language.all, Manager.beforeCount]

theorem alive {cfg : Config} {s : State}
    (h : (system cfg).ReachableUnder (fun s a => keepsAlive cfg.poolThreshold s a) s)
    (hrun : s.manager.stopping = false) (l : Language) : Alive cfg.poolThreshold l s := by
  suffices hinv : StopsLast s ∧ (s.manager.stopping = false → Alive cfg.poolThreshold l s) from
    hinv.2 hrun
  refine System.PreservedUnder.reachable
    (I := fun s => StopsLast s ∧ (s.manager.stopping = false → Alive cfg.poolThreshold l s))
    ?_ (fun _ hs => counted hs l) ?_ h
  · rintro s t a hcount ⟨hlast, hs⟩ hkeep hstep
    have hmove := move_of_step hstep
    refine ⟨hlast.step hmove, fun ht => ?_⟩
    cases hmove with
    | spawnJudge =>
        simpa [Alive, demand, stock, outstanding, refilling, JudgeWorker.owesEvent] using hs ht
    | judge hp hmove =>
        have hm := hmove.frame.1
        exact (hs (hm ▸ ht)).judge hp hkeep hmove
    | creator hp hmove =>
        have hm := hmove.frame.1
        exact (hs (hm ▸ ht)).creator hp hmove
    | manager hmove =>
        have hphase : s.manager.stopping = false := by
          by_contra hstopping
          exact absurd ht (by simp [hmove.stopping_of_stopping (by simpa using hstopping)])
        exact (hs hphase).manager hcount (hlast hphase) ht hkeep hmove
  · rintro _ rfl
    exact ⟨fun _ => rfl, fun _ => alive_start cfg l⟩

/-- **No warm list is empty for good** in a run in which the event for the last
container is not lost and `pending` does not hide an empty list. -/
theorem replenishing_of_keepsAlive (cfg : Config) {s : State}
    (h : (system cfg).ReachableUnder (fun s a => keepsAlive cfg.poolThreshold s a) s)
    (hrun : s.manager.stopping = false) (l : Language) (hwarm : s.warm l = []) :
    Replenishing l s :=
  (alive h hrun l).replenishing hwarm

/-! ## The dead end -/

/-- Nothing is in the pool of `l` and nothing is on its way. -/
structure DeadEnd (l : Language) (s : State) : Prop where
  demand : demand l s = 0
  stock : stock l s = 0
  idle : s.manager.maintains l = false

theorem DeadEnd.warm_eq {l : Language} {s : State} (h : DeadEnd l s) : s.warm l = [] := by
  have hstock := h.stock
  rw [← List.length_eq_zero_iff]
  simp only [SandboxManager.stock] at hstock
  omega

theorem ManagerMove.demand_le {T : Int} {s t : State} {a : ManagerAction}
    (h : ManagerMove T s s.manager a t) (l : Language) : demand l t ≤ demand l s := by
  generalize hm : s.manager = p at h
  cases h with
  | maintain hi | receive hi =>
      simp only [demand, hm, hi, Manager.beforeCount, List.count_cons, beq_iff_eq]
      omega
  | shutdown hp hm' =>
      have hzero : ∀ {m : Manager}, m.stopping = true → m.beforeCount l = 0 := by
        intro m hstop
        cases m <;> simp_all [Manager.stopping, Manager.beforeCount]
      simp only [demand, hzero hm', hm, hzero hp, Nat.le_refl]
  | _ => simp [demand, hm, Manager.beforeCount]

theorem ManagerMove.maintains_inv {T : Int} {s t : State} {a : ManagerAction} {l : Language}
    (h : ManagerMove T s s.manager a t) (ht : t.manager.maintains l = true) :
    s.manager.maintains l = true ∨ 0 < demand l s := by
  generalize hm : s.manager = p at h
  cases h with
  | maintain hi | receive hi =>
      obtain rfl : _ = l := by simpa [Manager.maintains] using ht
      right
      simp only [demand, hi, List.count_cons_self]
      omega
  | shutdown _ hm' =>
      rename_i m _
      cases m <;> simp_all [Manager.stopping, Manager.maintains]
  | enough | putLast | stop | cleanPop | cleanStop => cases ht
  | _ => exact .inl ht

/-- There is no way out of a dead end. -/
theorem DeadEnd.step {T : Int} {l : Language} {s t : State} {a : Action} (hs : DeadEnd l s)
    (h : Move T s a t) : DeadEnd l t := by
  have hempty := hs.warm_eq
  obtain ⟨hdemand, hstock, hidle⟩ := hs
  cases h with
  | spawnJudge =>
      refine ⟨?_, hstock, hidle⟩
      simpa [SandboxManager.demand, JudgeWorker.owesEvent] using hdemand
  | @creator i a p p' t hp hmove =>
      obtain ⟨hm, hch, hj, hi, -⟩ := hmove.frame
      refine ⟨?_, ?_, ?_⟩
      · simpa only [SandboxManager.demand, hm, hch, hj, hi] using hdemand
      · rwa [stock_creator hp hmove l]
      · rwa [hm]
  | @judge w a p p' t hp hmove =>
      obtain ⟨hm, -⟩ := hmove.frame
      have hw := weight_set (JudgeWorker.owesEvent l) hp p'
      have hle := stock_judge_le (w := w) hmove l
      refine ⟨?_, by omega, by rwa [hm]⟩
      cases hmove with
      | @acquire l' c q hq =>
          have hl : l' ≠ l := by
            rintro rfl
            rw [hempty] at hq
            cases hq
          simp only [SandboxManager.demand, JudgeWorker.owesEvent, if_neg hl] at hdemand hw ⊢
          omega
      | publish =>
          simp only [SandboxManager.demand, JudgeWorker.owesEvent, List.count_append,
            List.count_singleton, beq_iff_eq] at hdemand hw ⊢
          omega
      | _ =>
          simp only [SandboxManager.demand, JudgeWorker.owesEvent] at hdemand hw ⊢
          omega
  | manager hmove =>
      have hle := hmove.demand_le l
      refine ⟨by omega, ?_, ?_⟩
      · rcases hmove.stock_le l with h | ⟨d, hd, -⟩
        · omega
        · simp [hd, Manager.maintains] at hidle
      · by_contra hmaintains
        rcases hmove.maintains_inv (by simpa using hmaintains) with h | h
        · rw [h] at hidle
          cases hidle
        · omega

theorem DeadEnd.not_replenishing {l : Language} {s : State} (h : DeadEnd l s) :
    ¬ Replenishing l s := by
  have hdemand := h.demand
  have hstock := h.stock
  have hcreators : weight (Creator.owes l) s.creators = 0 := by
    simp only [SandboxManager.stock, outstanding] at hstock
    omega
  have hjudges : weight (JudgeWorker.owesEvent l) s.judges = 0 := by
    simp only [SandboxManager.demand] at hdemand
    omega
  simp only [SandboxManager.demand, SandboxManager.stock, outstanding, Nat.add_eq_zero_iff,
    List.count_eq_zero] at hdemand hstock
  rintro (hq | ⟨p, hp, howes⟩ | hch | hm | ⟨w, hw, howes⟩ | hi)
  · exact hstock.2.1.2 hq
  · exact absurd ((weight_eq_zero_iff _ _).mp hcreators p hp) (Nat.pos_iff_ne_zero.mp howes)
  · exact hdemand.1.1.2 hch
  · rw [h.idle] at hm
    cases hm
  · exact absurd ((weight_eq_zero_iff _ _).mp hjudges w hw) (Nat.pos_iff_ne_zero.mp howes)
  · exact hdemand.1.1.1 hi

/-- Once in a dead end, every further submission only times out. -/
theorem DeadEnd.forever {cfg : Config} {l : Language} {s t : State} (hs : DeadEnd l s)
    (h : (system cfg).PathUnder (fun _ _ => True) s t) : DeadEnd l t := by
  refine System.PreservedUnder.path ?_ hs h
  intro u v a _ hu _ hstep
  exact hu.step (move_of_step hstep)

instance (l : Language) (s : State) : Decidable (DeadEnd l s) :=
  decidable_of_iff (demand l s = 0 ∧ stock l s = 0 ∧ s.manager.maintains l = false)
    ⟨fun ⟨h₁, h₂, h₃⟩ => ⟨h₁, h₂, h₃⟩, fun ⟨h₁, h₂, h₃⟩ => ⟨h₁, h₂, h₃⟩⟩

/-- The pool of the three languages is built; a worker pops the only container of `C` and
dies before it publishes the event. -/
def lostEventRun : List Action :=
  untilPush ++ [.creator 0 .decrement, .creator 0 .taskDone, .spawnJudge,
    .judge 0 (.acquire .C), .judge 0 .die]

theorem not_neverStuck_lostEvent :
    1 ≤ raceConfig.poolThreshold ∧ ¬ NeverStuck raceConfig ∧
      ∃ s, (system raceConfig).Reachable s ∧ s.manager.stopping = false ∧
        ∀ t, (system raceConfig).PathUnder (fun _ _ => True) s t → t.warm .C = [] := by
  obtain ⟨s, hs, hrun, hdead⟩ := System.exists_path (system raceConfig) (fun _ _ => True)
    raceConfig.start lostEventRun (fun s => s.manager.stopping = false ∧ DeadEnd .C s) (by decide)
  have hreach : (system raceConfig).Reachable s := ⟨_, rfl, hs⟩
  refine ⟨by decide, fun h => ?_, s, hreach, hrun, fun t ht => (hdead.forever ht).warm_eq⟩
  exact hdead.not_replenishing (h s hreach hrun .C hdead.warm_eq)

/-- A second worker takes over: the event of the dead one is lost, its own is not. -/
def spareRun : List Action :=
  untilPush ++ [.creator 0 .decrement, .creator 0 .taskDone, .creator 0 .check, .creator 0 .get,
    .spawnJudge, .judge 0 (.acquire .C), .judge 0 .publish, .manager .receive, .manager .count,
    .manager .readPending, .judge 0 .die]

theorem replenishing_spare :
    ∃ s, (system raceConfig).ReachableUnder
        (fun s a => keepsAlive raceConfig.poolThreshold s a) s ∧
      s.warm .C = [] ∧ Replenishing .C s := by
  obtain ⟨s, hs, hrun, hwarm⟩ := System.exists_path (system raceConfig)
    (fun s a => keepsAlive raceConfig.poolThreshold s a) raceConfig.start spareRun
    (fun s => s.manager.stopping = false ∧ s.warm .C = []) (by decide)
  have hreach := (⟨_, rfl, hs⟩ : (system raceConfig).ReachableUnder _ s)
  exact ⟨s, hreach, hwarm, replenishing_of_keepsAlive raceConfig hreach hrun .C hwarm⟩

end ByteBattles.Judge.SandboxManager
