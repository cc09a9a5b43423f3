import ByteBattles.Judge.SandboxManager.Accounting
import ByteBattles.Lib.History

/-!
# What the counters of the pool count

`pending` and the unfinished-task count of the queue, in every run: also one that leaves
`maintain_pool` between the update of `pending` and the last `put`.
-/

namespace ByteBattles.Judge.SandboxManager

open ByteBattles.Lib

/-- The tasks that `maintain_pool` has counted in `pending`, and those it has put. -/
structure Tally where
  counted : Language → Int
  put : Language → Nat

/-- What a step of the manager thread adds to the tally. -/
def Manager.tally (r : Tally) : Manager → ManagerAction → Tally
  | .computed l deficit, .updatePending =>
      { r with counted := Function.update r.counted l (r.counted l + deficit) }
  | .putting l (_ + 1), .put => { r with put := Function.update r.put l (r.put l + 1) }
  | _, _ => r

def State.tally (s : State) : Action → Tally → Tally
  | .manager a, r => s.manager.tally r a
  | _, r => r

def tallied (cfg : Config) : System (Noted State Tally) Action :=
  (system cfg).noting ⟨fun _ => 0, fun _ => 0⟩ State.tally

def Tally.unput (r : Tally) (l : Language) : Int := r.counted l - r.put l

/-- The creator has taken a task for `l`, and has neither decremented `pending` nor put
the task back. -/
def Creator.hasTask (l : Language) (p : Creator) : Nat := p.owes l + p.settles l

/-- The creator has taken a task and has not called `task_done()` for it. -/
def Creator.unfinished : Creator → Nat
  | .taken _ | .created .. | .started .. | .checked .. | .pushed _ | .failed _ | .settled => 1
  | .loop | .getting | .exited => 0

/-! ## One step -/

theorem Manager.tally_of_stopping {p : Manager} (h : p.stopping) (r : Tally)
    (a : ManagerAction) : p.tally r a = r := by
  cases p <;> simp_all [Manager.stopping, Manager.tally]

/-- The manager raises `pending` by what it counts, and the queue by what it puts. -/
theorem ManagerMove.tally_eq {T : Int} {s t : State} {p : Manager} {a : ManagerAction}
    (h : ManagerMove T s p a t) (r : Tally) (l : Language) :
    t.pending l + (r.unput l + s.taskQueue.count l) =
      s.pending l + ((p.tally r a).unput l + t.taskQueue.count l) := by
  cases h
  case update l' d =>
    by_cases hl : l' = l
    · subst hl
      simp only [Manager.tally, Tally.unput, Function.update_self]
      omega
    · simp [Manager.tally, Tally.unput, Function.update_of_ne (Ne.symm hl)]
  case put l' n =>
    by_cases hl : l' = l
    · subst hl
      simp only [Manager.tally, Tally.unput, Function.update_self, List.count_append,
        List.count_singleton_self]
      omega
    · simp [Manager.tally, Tally.unput, Function.update_of_ne (Ne.symm hl), hl]
  case shutdown m hm hp => rw [Manager.tally_of_stopping hp]
  all_goals simp [Manager.tally]

/-- What the manager is still going to put is counted. -/
theorem ManagerMove.owes_le {T : Int} {s t : State} {p : Manager} {a : ManagerAction}
    (h : ManagerMove T s p a t) (hpos : ∀ l d, p = .computed l d → 0 < d) (r : Tally)
    (l : Language) :
    r.unput l + t.manager.owes l ≤ (p.tally r a).unput l + p.owes l := by
  cases h
  case update l' d =>
    have hd := hpos l' d rfl
    by_cases hl : l' = l
    · subst hl
      simp only [Manager.tally, Tally.unput, Function.update_self, Manager.owes, if_true]
      omega
    · simp [Manager.tally, Tally.unput, Function.update_of_ne (Ne.symm hl), Manager.owes, hl]
  case put l' n =>
    by_cases hl : l' = l
    · subst hl
      simp only [Manager.tally, Tally.unput, Function.update_self, Manager.owes, if_true]
      omega
    · simp [Manager.tally, Tally.unput, Function.update_of_ne (Ne.symm hl), Manager.owes, hl]
  case shutdown m hm hp =>
    simp only [Manager.tally_of_stopping hp, Manager.owes_of_stopping hp,
      Manager.owes_of_stopping hm]
    omega
  case stop =>
    have hsame : p.tally r .stop = r := by cases p <;> simp [Manager.tally]
    simp only [hsame, Manager.owes]
    omega
  all_goals simp [Manager.tally, Manager.owes]

/-- A task is unfinished from `put` to `task_done`. -/
theorem CreatorMove.unfinished_eq {s t : State} {p p' : Creator} (h : CreatorMove s p p' t) :
    t.unfinished + (s.taskQueue.length + p.unfinished : Nat) =
      s.unfinished + (t.taskQueue.length + p'.unfinished : Nat) := by
  cases h
  case check => split <;> simp [Creator.unfinished]
  case get l rest hq =>
    simp only [hq, Creator.unfinished, List.length_cons]
  case raise l hp => rcases hp with rfl | ⟨c, rfl | rfl⟩ <;> rfl
  case requeue l =>
    simp only [Creator.unfinished, List.length_append, List.length_singleton]
    omega
  case taskDone =>
    simp only [Creator.unfinished]
    omega
  all_goals simp [Creator.unfinished]

theorem ManagerMove.unfinished_eq {T : Int} {s t : State} {p : Manager} {a : ManagerAction}
    (h : ManagerMove T s p a t) :
    t.unfinished + s.taskQueue.length = s.unfinished + t.taskQueue.length := by
  cases h
  case put l n =>
    simp only [List.length_append, List.length_singleton]
    omega
  all_goals rfl

theorem JudgeMove.unfinished_eq {s t : State} {p p' : JudgeWorker} {a : JudgeAction}
    (h : JudgeMove s p a p' t) : t.unfinished = s.unfinished := by
  cases h <;> rfl

/-! ## Every run -/

/-- The counters are what they are meant to count. -/
structure CountersExact (x : Noted State Tally) : Prop where
  pending_eq : ∀ l, x.state.pending l =
    x.record.unput l + x.state.taskQueue.count l + weight (Creator.hasTask l) x.state.creators
  owes_le : ∀ l, (x.state.manager.owes l : Int) ≤ x.record.unput l
  unfinished_eq : x.state.unfinished =
    (x.state.taskQueue.length + weight Creator.unfinished x.state.creators : Nat)

theorem CountersExact.step {T : Int} {s t : State} {r : Tally} {a : Action}
    (hpos : ∀ l d, s.manager = .computed l d → 0 < d) (hs : CountersExact ⟨s, r⟩)
    (h : Move T s a t) : CountersExact ⟨t, s.tally a r⟩ := by
  obtain ⟨hpend, howes, hunf⟩ := hs
  cases h with
  | spawnJudge => exact ⟨hpend, howes, hunf⟩
  | judge hp hmove =>
      obtain ⟨hm, hq, hc, hpend', -⟩ := hmove.frame
      have hunf' := hmove.unfinished_eq
      constructor <;> simp only [hm, hq, hc, hpend', hunf']
      · exact hpend
      · exact howes
      · exact hunf
  | @creator i a p p' t hp hmove =>
      have hm := hmove.frame.1
      constructor <;> simp only
      · intro l
        have hold := hpend l
        have hchange := hmove.pending_eq l
        have hweight := weight_set (Creator.hasTask l) hp p'
        simp only [State.tally, Creator.hasTask] at hold hweight ⊢
        omega
      · intro l
        rw [hm]
        exact howes l
      · have hchange := hmove.unfinished_eq
        have hweight := weight_set Creator.unfinished hp p'
        simp only at hunf
        omega
  | @manager a t hmove =>
      have hc := hmove.frame.1
      constructor <;> simp only [hc]
      · intro l
        have hold := hpend l
        have hchange := hmove.tally_eq r l
        simp only [State.tally] at hold ⊢
        omega
      · intro l
        have hold := howes l
        have hchange := hmove.owes_le hpos r l
        simp only [State.tally] at hold ⊢
        omega
      · have hchange := hmove.unfinished_eq
        simp only at hunf
        omega

theorem countersExact_start (cfg : Config) :
    CountersExact ⟨cfg.start, ⟨fun _ => 0, fun _ => 0⟩⟩ := by
  constructor
  · intro l
    simp [Config.start, Tally.unput, Creator.hasTask, Creator.owes, Creator.settles]
  · intro l
    simp [Config.start, Tally.unput, Manager.owes]
  · simp [Config.start, Creator.unfinished]

theorem countersExact {cfg : Config} {x : Noted State Tally}
    (h : (tallied cfg).Reachable x) : CountersExact x := by
  refine System.noting_invariant (system cfg) (fun _ _ => True)
    (J := fun s => ∀ l, Counted l s) ?_ ?_ ?_ h
  · intro s hs l
    exact counted hs l
  · rintro _ rfl
    exact countersExact_start cfg
  · intro s t a r hs _ hstep hI
    exact hI.step (hs .C).deficit_pos (move_of_step hstep)

/-- **The pending counter is exact.**  It counts the tasks that `maintain_pool` has not put
yet, those in the queue and those with a creator; neither it nor the unfinished-task count
of the queue is ever negative. -/
theorem pending_exact (cfg : Config) {x : Noted State Tally} (h : (tallied cfg).Reachable x)
    (l : Language) :
    x.state.pending l = x.record.unput l + x.state.taskQueue.count l +
        weight (Creator.hasTask l) x.state.creators ∧
      0 ≤ x.record.unput l ∧ 0 ≤ x.state.pending l ∧
      (x.record.unput l = 0 → l ∉ x.state.taskQueue →
        (∀ p ∈ x.state.creators, p.hasTask l = 0) → x.state.pending l = 0) ∧
      0 ≤ x.state.unfinished := by
  have hexact := countersExact h
  have hpend := hexact.pending_eq l
  have hput : 0 ≤ x.record.unput l := by
    have := hexact.owes_le l
    omega
  have hunf := hexact.unfinished_eq
  refine ⟨hpend, hput, by omega, fun hnone hqueue hfree => ?_, by omega⟩
  have hcount := List.count_eq_zero.mpr hqueue
  have hweight := (weight_eq_zero_iff (Creator.hasTask l) _).mpr hfree
  omega

def pairConfig : Config where
  poolThreshold := 2
  workerCount := 2
  warm := fun _ => []
  containers := fun _ => none

/-- Of two tasks counted for `C` one is put; its creation fails, another creator retries it,
and the manager thread is interrupted. -/
def interruptedRun : List Action :=
  [.manager .maintain, .manager .count, .manager .readPending, .manager .updatePending,
    .manager .put, .creator 0 .check, .creator 0 .get, .creator 0 .createRaises,
    .creator 0 .requeue, .creator 1 .check, .creator 1 .get, .manager .stop,
    .creator 0 .taskDone]

theorem pending_exact_interrupted :
    ∃ x, (tallied pairConfig).Reachable x ∧ x.record.unput .C = 1 ∧
      x.state.pending .C = x.record.unput .C + x.state.taskQueue.count .C +
        weight (Creator.hasTask .C) x.state.creators := by
  obtain ⟨x, hx, hput⟩ := System.exists_path (tallied pairConfig) (fun _ _ => True)
    ⟨pairConfig.start, ⟨fun _ => 0, fun _ => 0⟩⟩ interruptedRun
    (fun x => x.record.unput .C = 1) (by decide)
  have hreach : (tallied pairConfig).Reachable x := ⟨⟨pairConfig.start, _⟩, ⟨rfl, rfl⟩, hx⟩
  exact ⟨x, hreach, hput, (pending_exact pairConfig hreach .C).1⟩

end ByteBattles.Judge.SandboxManager
