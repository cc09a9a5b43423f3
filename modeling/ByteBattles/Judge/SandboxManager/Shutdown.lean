import ByteBattles.Judge.SandboxManager.Accounting
import ByteBattles.Lib.Fairness

/-!
# The shutdown of the pool

After the main loop the manager thread sets `stop_event`, joins the creator threads and
cleans the warm lists, from which judge workers still pop.  Every step of the manager and of
the creators uses up a rank that nobody else increases, so that the shutdown ends.
-/

namespace ByteBattles.Judge.SandboxManager

open ByteBattles.Lib

/-! ## The invariant -/

def Manager.joined : Manager → Bool
  | .cleaning _ | .popping _ | .removing _ _ | .ended => true
  | _ => false

def Manager.todo : Manager → List Language
  | .cleaning todo | .popping todo | .removing todo _ => todo
  | .ended => []
  | _ => Language.all

structure Closing (s : State) : Prop where
  stopEvent : s.manager.stopping = true → s.stopEvent = true
  exited : s.manager.joined = true → ∀ p ∈ s.creators, p = .exited
  shape : s.manager ≠ .popping []
  empty : s.manager.joined = true → ∀ l ∉ s.manager.todo, s.warm l = []

theorem not_creatorMove_exited {s t : State} {p' : Creator} : ¬ CreatorMove s .exited p' t := by
  intro h
  cases h with
  | raise h => simp at h

/-- Once they are joined, no creator moves. -/
theorem Closing.not_joined {s t : State} {i : Nat} {p p' : Creator} (hs : Closing s)
    (hp : s.creators[i]? = some p) (h : CreatorMove s p p' t) : s.manager.joined = false := by
  rw [← Bool.not_eq_true]
  intro hjoined
  obtain rfl := hs.exited hjoined p (List.mem_of_getElem? hp)
  exact not_creatorMove_exited h

theorem stopping_of_joined {m : Manager} (h : m.joined = true) : m.stopping = true := by
  cases m <;> first | rfl | cases h

theorem Closing.of_warm_le {s t : State} (hs : Closing s) (hmanager : t.manager = s.manager)
    (hstop : t.stopEvent = s.stopEvent) (hcreators : t.creators = s.creators)
    (hwarm : ∀ l, (t.warm l).length ≤ (s.warm l).length) : Closing t where
  stopEvent := by
    rw [hmanager, hstop]
    exact hs.stopEvent
  exited := by
    rw [hmanager, hcreators]
    exact hs.exited
  shape := by
    rw [hmanager]
    exact hs.shape
  empty := by
    rw [hmanager]
    intro hjoined l hl
    have hle := hwarm l
    rw [hs.empty hjoined l hl] at hle
    exact List.length_eq_zero_iff.mp (Nat.le_zero.mp hle)

theorem Closing.shutdown {s t : State} {a : ManagerAction} (hs : Closing s)
    (hstopping : s.manager.stopping = true) (h : ShutdownMove s s.manager a t) : Closing t := by
  have hstop := hs.stopEvent hstopping
  generalize hm : s.manager = m at h
  have hexited (hjoined : m.joined = true) := hs.exited (hm ▸ hjoined)
  have hempty (hjoined : m.joined = true) (l : Language) (hl : l ∉ m.todo) : s.warm l = [] :=
    hs.empty (hm ▸ hjoined) l (hm ▸ hl)
  cases h with
  | join h => exact ⟨fun _ => hstop, fun _ => h, by simp, fun _ l hl => absurd l.mem_all hl⟩
  | finish => exact ⟨fun _ => hstop, fun _ => hexited rfl, by simp, fun _ => hempty rfl⟩
  | busy => exact ⟨fun _ => hstop, fun _ => hexited rfl, by simp, fun _ => hempty rfl⟩
  | @empty l todo h =>
      refine ⟨fun _ => hstop, fun _ => hexited rfl, by simp, fun _ l' hl' => ?_⟩
      by_cases hl : l' = l
      · exact hl ▸ h
      · exact hempty rfl l' fun hmem => (List.mem_cons.mp hmem).elim hl hl'
  | missed => exact ⟨fun _ => hstop, fun _ => hexited rfl, by simp, fun _ => hempty rfl⟩
  | @popped l todo c q h =>
      refine ⟨fun _ => hstop, fun _ => hexited rfl, by simp, fun _ l' hl' => ?_⟩
      have hne : l' ≠ l := by
        rintro rfl
        exact hl' List.mem_cons_self
      exact (Function.update_of_ne hne _ _).trans (hempty rfl l' hl')
  | asked => exact ⟨fun _ => hstop, fun _ => hexited rfl, by simp, fun _ => hempty rfl⟩
  | raised => exact ⟨fun _ => hstop, fun _ => hexited rfl, by simp, fun _ => hempty rfl⟩

theorem Closing.step {T : Int} {s t : State} {a : Action} (hs : Closing s)
    (h : step T s a = some t) : Closing t := by
  cases move_of_step h with
  | spawnJudge => exact hs.of_warm_le rfl rfl rfl fun _ => Nat.le_refl _
  | creator hp hmove =>
      obtain ⟨hmanager, -, -, -, hstop, -⟩ := hmove.frame
      have hjoined := hs.not_joined hp hmove
      refine ⟨?_, ?_, ?_, ?_⟩ <;> dsimp only <;> rw [hmanager]
      · rw [hstop]
        exact hs.stopEvent
      · rw [hjoined]
        exact nofun
      · exact hs.shape
      · rw [hjoined]
        exact nofun
  | judge hp hmove =>
      obtain ⟨hmanager, -, hcreators, -, -, hstop⟩ := hmove.frame
      exact hs.of_warm_le hmanager hstop hcreators hmove.warm_le
  | manager hmove =>
      cases hstopping : s.manager.stopping with
      | true => exact hs.shutdown hstopping (shutdownMove_of_step hstopping h)
      | false =>
          generalize s.manager = m at hmove hstopping
          cases hmove with
          | shutdown hp hm => rw [hp] at hstopping; cases hstopping
          | cleanPop | cleanStop => cases hstopping
          | stop => exact ⟨fun _ => rfl, nofun, by simp, nofun⟩
          | _ => exact ⟨nofun, nofun, by simp, nofun⟩

theorem closing {cfg : Config} {s : State} (h : (system cfg).Reachable s) : Closing s := by
  refine System.PreservedUnder.invariant ?_ ?_ h
  · intro s t a _ hs _ hstep
    exact hs.step hstep
  · rintro _ rfl
    exact ⟨nofun, nofun, by simp [Config.start], nofun⟩

/-! ## The rank -/

/-- The steps that a creator can still take once `stop_event` is set. -/
def Creator.stepsLeft : Creator → Nat
  | .getting => 8
  | .taken _ => 7
  | .created _ _ => 6
  | .started _ _ => 5
  | .checked _ _ => 4
  | .pushed _ | .failed _ => 3
  | .settled => 2
  | .loop => 1
  | .exited => 0

def stocked (warm : Language → List ContainerId) : Nat :=
  weight (fun l => (warm l).length) Language.all

/-- The steps that the manager can still take.  A container that a judge worker takes between
the count and the pop costs three steps that lead back to the count, and saves three. -/
def Manager.stepsLeft (warm : Language → List ContainerId) : Manager → Nat
  | .joining => 3 * stocked warm + Language.all.length + 2
  | .cleaning todo => 3 * stocked warm + todo.length + 1
  | .popping [] => 0
  | .popping (l :: todo) =>
      3 * stocked warm + (todo.length + 1) + if warm l = [] then 3 else 0
  | .removing todo _ => 3 * stocked warm + todo.length + 2
  | _ => 0

/-- A push costs the manager three steps. -/
def State.stepsLeft (s : State) : Nat :=
  4 * weight Creator.stepsLeft s.creators + s.manager.stepsLeft s.warm

theorem stocked_update (warm : Language → List ContainerId) (l : Language)
    (q : List ContainerId) :
    stocked (Function.update warm l q) + (warm l).length = stocked warm + q.length := by
  cases l <;> simp [stocked, Language.all, Function.update] <;> omega

theorem stocked_rpop {warm : Language → List ContainerId} {l : Language} {c : ContainerId}
    {q : List ContainerId} (h : rpop (warm l) = some (c, q)) :
    stocked (Function.update warm l q) + 1 = stocked warm := by
  have := stocked_update warm l q
  have := length_of_rpop h
  omega

theorem CreatorMove.stepsLeft_lt {s t : State} {p p' : Creator} (h : CreatorMove s p p' t)
    (hstop : s.stopEvent = true) :
    4 * p'.stepsLeft + 3 * stocked t.warm < 4 * p.stepsLeft + 3 * stocked s.warm := by
  cases h with
  | check => simp [hstop, Creator.stepsLeft]
  | @push l c =>
      have hstocked := stocked_update s.warm l (c :: s.warm l)
      simp only [Creator.stepsLeft, List.length_cons] at hstocked ⊢
      omega
  | raise h =>
      rcases h with rfl | ⟨c, rfl | rfl⟩ <;> simp [Creator.stepsLeft]
  | _ => simp [Creator.stepsLeft]

theorem ShutdownMove.stepsLeft_lt {s t : State} {m : Manager} {a : ManagerAction}
    (h : ShutdownMove s m a t) :
    t.manager.stepsLeft t.warm < m.stepsLeft s.warm := by
  cases h with
  | @popped l todo c q h =>
      have hstocked := stocked_rpop h
      simp only [Manager.stepsLeft, List.length_cons]
      omega
  | busy h => simp [Manager.stepsLeft, h]
  | missed h => simp [Manager.stepsLeft, h]
  | _ =>
      simp only [Manager.stepsLeft, List.length_cons]
      omega

/-- A pop does not cost the manager a step. -/
theorem Manager.stepsLeft_pop {warm : Language → List ContainerId} {l : Language}
    {c : ContainerId} {q : List ContainerId} (m : Manager) (h : rpop (warm l) = some (c, q)) :
    m.stepsLeft (Function.update warm l q) ≤ m.stepsLeft warm := by
  have hstocked := stocked_rpop h
  cases m with
  | popping todo =>
      cases todo with
      | nil => exact Nat.le_refl _
      | cons l' todo =>
          simp only [Manager.stepsLeft]
          by_cases hwarm : warm l' = []
          · have hl : l' ≠ l := by
              rintro rfl
              rw [rpop_eq_some.mp h] at hwarm
              simp at hwarm
            rw [Function.update_of_ne hl, if_pos hwarm]
            omega
          · rw [if_neg hwarm]
            split_ifs <;> omega
  | joining | cleaning | removing =>
      simp only [Manager.stepsLeft]
      omega
  | _ => exact Nat.le_refl _

theorem JudgeMove.stepsLeft_le {s t : State} {p p' : JudgeWorker} {a : JudgeAction}
    (h : JudgeMove s p a p' t) (m : Manager) : m.stepsLeft t.warm ≤ m.stepsLeft s.warm := by
  cases h with
  | acquire h => exact m.stepsLeft_pop h
  | _ => exact Nat.le_refl _

/-! ## Termination -/

structure Stopping (s : State) : Prop where
  closing : Closing s
  stopping : s.manager.stopping = true

/-- The creator that the manager is waiting for; otherwise it is the manager that helps. -/
def State.helper (s : State) : Option Nat :=
  if s.manager = .joining then s.creators.findIdx? (· ≠ .exited) else none

def party : Option Nat → Action → Prop
  | none, .manager _ => True
  | some i, .creator j _ => i = j
  | _, _ => False

/-- A thread that has not exited can go on. -/
theorem exists_creatorStep {s : State} {p : Creator} (hlock : s.manager.holdsLock = false)
    (hp : p ≠ .exited) : ∃ a, (creatorStep s p a).isSome := by
  cases p with
  | loop => exact ⟨.check, rfl⟩
  | getting =>
      cases hqueue : s.taskQueue with
      | nil => exact ⟨.timeout, by simp [creatorStep, hqueue]⟩
      | cons l rest => exact ⟨.get, by simp [creatorStep, hqueue]⟩
  | taken l => exact ⟨.createRaises, rfl⟩
  | created l c => exact ⟨.start, rfl⟩
  | started l c => exact ⟨.healthcheck, rfl⟩
  | checked l c => exact ⟨.push, rfl⟩
  | pushed l => exact ⟨.decrement, by simp [creatorStep, hlock]⟩
  | failed l => exact ⟨.requeue, rfl⟩
  | settled => exact ⟨.taskDone, rfl⟩
  | exited => exact absurd rfl hp

/-- The manager can go on unless it waits for a creator. -/
theorem Stopping.exists_managerStep {T : Int} {s : State} (hs : Stopping s)
    (hended : s.manager ≠ .ended) (hjoin : s.manager = .joining → ∀ p ∈ s.creators, p = .exited) :
    ∃ a, (managerStep T s s.manager a).isSome := by
  have hshape := hs.closing.shape
  have hstopping := hs.stopping
  generalize hm : s.manager = m at *
  cases m with
  | joining =>
      refine ⟨.join, ?_⟩
      rw [managerStep, if_pos (hjoin rfl)]
      rfl
  | cleaning todo =>
      cases todo with
      | nil => exact ⟨.cleanCount, rfl⟩
      | cons l todo => exact ⟨.cleanCount, rfl⟩
  | popping todo =>
      cases todo with
      | nil => exact absurd rfl hshape
      | cons l todo =>
          refine ⟨.cleanPop, ?_⟩
          simp only [managerStep]
          split <;> rfl
  | removing todo c => exact ⟨.cleanStopRaises, by cases c <;> rfl⟩
  | ended => exact absurd rfl hended
  | _ => cases hstopping

theorem Stopping.exists_step {T : Int} {s : State} (hs : Stopping s) (hended : s.manager ≠ .ended) :
    ∃ a, party s.helper a ∧ (step T s a).isSome := by
  cases hhelper : s.helper with
  | none =>
      have hjoin (hjoining : s.manager = .joining) : ∀ p ∈ s.creators, p = .exited := by
        rw [State.helper, if_pos hjoining, List.findIdx?_eq_none_iff] at hhelper
        simpa using hhelper
      obtain ⟨a, ha⟩ := hs.exists_managerStep (T := T) hended hjoin
      exact ⟨.manager a, trivial, ha⟩
  | some i =>
      unfold State.helper at hhelper
      split at hhelper
      case isTrue hjoining =>
        obtain ⟨hlt, hne, -⟩ := List.findIdx?_eq_some_iff_getElem.mp hhelper
        obtain ⟨a, ha⟩ := @exists_creatorStep s s.creators[i] (by rw [hjoining]; rfl)
          (by simpa using hne)
        refine ⟨.creator i a, rfl, ?_⟩
        simpa [step, hlt] using ha
      case isFalse => cases hhelper

theorem Stopping.step {T : Int} {s t : State} {a : Action} (hs : Stopping s)
    (h : step T s a = some t) : Stopping t := by
  refine ⟨hs.closing.step h, ?_⟩
  cases move_of_step h with
  | spawnJudge => exact hs.stopping
  | creator hp hmove =>
      have hmanager := hmove.frame.1
      simpa only [hmanager] using hs.stopping
  | judge hp hmove =>
      have hmanager := hmove.frame.1
      simpa only [hmanager] using hs.stopping
  | manager hmove =>
      have hmove' := shutdownMove_of_step hs.stopping h
      generalize s.manager = m at hmove'
      cases hmove' <;> rfl

/-- A step of the manager or of a creator uses up rank, and nothing else adds any. -/
theorem Stopping.stepsLeft {T : Int} {s t : State} {a : Action} (hs : Stopping s)
    (h : SandboxManager.step T s a = some t) :
    t.stepsLeft < s.stepsLeft ∨
      (t.stepsLeft = s.stepsLeft ∧ t.helper = s.helper ∧ ¬ party s.helper a) := by
  cases move_of_step h with
  | spawnJudge =>
      refine .inr ⟨rfl, rfl, ?_⟩
      cases s.helper <;> exact id
  | @creator i a p p' t hp hmove =>
      left
      obtain ⟨hmanager, -⟩ := hmove.frame
      have hjoining : s.manager = .joining := by
        have hjoined := hs.closing.not_joined hp hmove
        have hstopping := hs.stopping
        cases hm : s.manager <;> simp_all [Manager.joined, Manager.stopping]
      have hweight := weight_set Creator.stepsLeft hp p'
      have hlt := hmove.stepsLeft_lt (hs.closing.stopEvent hs.stopping)
      simp only [State.stepsLeft, hmanager, hjoining, Manager.stepsLeft]
      omega
  | @judge w a p p' t hp hmove =>
      obtain ⟨hmanager, -, hcreators, -⟩ := hmove.frame
      have hle := hmove.stepsLeft_le s.manager
      have hrank : State.stepsLeft { t with judges := s.judges.set w p' } ≤ s.stepsLeft := by
        simp only [State.stepsLeft, hmanager, hcreators]
        omega
      refine hrank.lt_or_eq.imp id fun heq => ⟨heq, ?_, ?_⟩
      · simp only [State.helper, hmanager, hcreators]
      · cases s.helper <;> exact id
  | manager hmove =>
      left
      have hmove' := shutdownMove_of_step hs.stopping h
      have hlt := hmove'.stepsLeft_lt
      obtain ⟨hcreators, -⟩ := hmove.frame
      simp only [State.stepsLeft, hcreators]
      omega

/-- **The shutdown ends** in every run that schedules the manager and the creators fairly. -/
theorem shutdown_ends {cfg : Config} (r : (system cfg).Run) (hfair : ∀ i, r.Fair (party i))
    {n : Nat} (hn : (r.state n).manager.stopping = true) :
    ∃ m, n ≤ m ∧ (r.state m).manager = .ended ∧ ∀ p ∈ (r.state m).creators, p = .exited := by
  have hI : ∀ m, n ≤ m → Stopping (r.state m) :=
    r.always ⟨closing (r.reachable n), hn⟩ fun m a _ haction hs => hs.step (r.next m a haction)
  have hgoal : ∃ m, n ≤ m ∧ (fun s : State => s.manager = .ended) (r.state m) :=
    System.Run.eventually hfair (fun _ hs hended => hs.exists_step hended)
      (fun _ _ _ hs _ hstep => .inr (hs.stepsLeft hstep)) hI
  obtain ⟨m, hm, hended⟩ := hgoal
  exact ⟨m, hm, hended, (hI m hm).closing.exited (by rw [hended]; rfl)⟩

end ByteBattles.Judge.SandboxManager
