import ByteBattles.Judge.SandboxManager.Isolation
import ByteBattles.Lib.History
import ByteBattles.Lib.RetryQueue

/-!
# What becomes of the tasks and of the containers of the creators

`task_queue` holds languages, so that two tasks of one language are equal.  The system is
run beside a ledger that tells them apart and records which container each of them has
pushed.
-/

namespace ByteBattles.Judge.SandboxManager

open ByteBattles.Lib

/-! ## The tasks of the pool -/

/-- A creator has its task until it has pushed a container, or has put the task back. -/
def Creator.holding : Creator → Holding Language
  | .taken l | .created l _ | .started l _ | .checked l _ => .working l
  | .failed l => .failed l
  | .loop | .getting | .pushed _ | .settled | .exited => .nothing

def State.tasks (s : State) : RetryQueue Language :=
  ⟨s.taskQueue, s.creators.map Creator.holding⟩

/-- What an action of creator `i` does with its task. -/
def creatorOp (i : Nat) : Creator → CreatorAction → Option (RetryOp Language ContainerId)
  | _, .get => some (.take i)
  | _, .createRaises | _, .startRaises | _, .healthcheckFails | _, .pushRaises => some (.fail i)
  | .checked _ c, .push => some (.finish i c)
  | _, .requeue => some (.requeue i)
  | _, _ => none

def State.taskOp (s : State) : Action → Option (RetryOp Language ContainerId)
  | .creator i a => s.creators[i]?.bind fun p => creatorOp i p a
  | .manager .put =>
      match s.manager with
      | .putting l (_ + 1) => some (.issue l)
      | _ => none
  | _ => none

/-- The tasks that `maintain_pool` has put, and what has become of them. -/
abbrev TaskLedger := Ledger Language ContainerId

def State.ledger (s : State) (a : Action) (x : TaskLedger) : TaskLedger :=
  (s.taskOp a).elim x x.step

def ledgered (cfg : Config) : System (Noted State TaskLedger) Action :=
  (system cfg).noting (.empty cfg.workerCount) State.ledger

theorem tasks_of_creatorStep {s t : State} {i : Nat} {p p' : Creator} {a : CreatorAction}
    (hp : s.creators[i]? = some p) (h : creatorStep s p a = some (p', t)) :
    State.tasks { t with creators := s.creators.set i p' } =
      (creatorOp i p a).elim s.tasks s.tasks.step := by
  have hheld : s.tasks.held[i]? = some p.holding := by simp [State.tasks, hp]
  have hsame : p'.holding = p.holding →
      (s.creators.set i p').map Creator.holding = s.creators.map Creator.holding := by
    intro heq
    obtain ⟨hi, hget⟩ := List.getElem?_eq_some_iff.mp hheld
    rw [List.map_set, heq, ← hget]
    exact List.set_getElem_self hi
  cases p <;> cases a <;> simp only [creatorStep, reduceCtorEq, Option.some.injEq,
    Prod.mk.injEq] at h
  case getting.get =>
    cases hq : s.taskQueue with
    | nil => simp [hq] at h
    | cons l rest =>
        simp only [hq, Option.some.injEq, Prod.mk.injEq] at h
        obtain ⟨rfl, rfl⟩ := h
        simp [State.tasks, creatorOp, RetryQueue.step, hq, List.map_set, Creator.holding]
  case taken.createRaises | created.startRaises | started.healthcheckFails |
      checked.pushRaises =>
    obtain ⟨rfl, rfl⟩ := h
    have hcurrent := RetryQueue.current_eq_some.mpr hheld
    simp only [creatorOp, Option.elim_some, RetryQueue.step, hcurrent]
    simp [State.tasks, List.map_set, Creator.holding]
  case checked.push =>
    obtain ⟨rfl, rfl⟩ := h
    have hcurrent := RetryQueue.current_eq_some.mpr hheld
    simp only [creatorOp, Option.elim_some, RetryQueue.step, hcurrent]
    simp [State.tasks, List.map_set, Creator.holding]
  case failed.requeue =>
    obtain ⟨rfl, rfl⟩ := h
    have hreturned := RetryQueue.returned_eq_some.mpr hheld
    simp only [creatorOp, Option.elim_some, RetryQueue.step, hreturned]
    simp [State.tasks, List.map_set, Creator.holding]
  case getting.timeout | taken.create =>
    split at h
    · obtain ⟨rfl, rfl⟩ := Prod.mk.inj (Option.some.inj h)
      exact congrArg (RetryQueue.mk s.taskQueue) (hsame rfl)
    · cases h
  case pushed.decrement =>
    split at h
    · cases h
    · obtain ⟨rfl, rfl⟩ := Prod.mk.inj (Option.some.inj h)
      exact congrArg (RetryQueue.mk s.taskQueue) (hsame rfl)
  case loop.check =>
    obtain ⟨rfl, rfl⟩ := h
    exact congrArg (RetryQueue.mk s.taskQueue) (hsame (by split <;> rfl))
  all_goals
    obtain ⟨rfl, rfl⟩ := h
    exact congrArg (RetryQueue.mk s.taskQueue) (hsame rfl)

theorem tasks_of_managerStep {T : Int} {s t : State} {a : ManagerAction}
    (h : managerStep T s s.manager a = some t) :
    t.tasks = (s.taskOp (.manager a)).elim s.tasks s.tasks.step := by
  have hmove := managerMove_of_step h
  have hc := hmove.frame.1
  generalize hm : s.manager = m at hmove
  cases hmove
  case put l n => simp [State.tasks, State.taskOp, hm, RetryQueue.step]
  case putLast l => simp [State.tasks, State.taskOp, hm]
  case shutdown m' hm' hstop =>
    have hnone : s.taskOp (.manager a) = none := by
      cases m <;> cases hstop <;> cases a <;> simp [State.taskOp, hm]
    simp [State.tasks, hnone]
  all_goals simp [State.tasks, State.taskOp]

theorem tasks_of_step {T : Int} {s t : State} {a : Action} (h : step T s a = some t) :
    t.tasks = (s.taskOp a).elim s.tasks s.tasks.step := by
  cases a with
  | spawnJudge =>
      obtain rfl := Option.some.inj h
      rfl
  | judge w a =>
      cases move_of_step h with
      | judge hp hmove =>
          obtain ⟨-, hq, hc, -⟩ := hmove.frame
          simp only [State.tasks, State.taskOp, hq, hc, Option.elim_none]
  | manager a => exact tasks_of_managerStep h
  | creator i a =>
      obtain ⟨p, hp, h⟩ := Option.bind_eq_some_iff.mp h
      obtain ⟨⟨p', u⟩, hu, rfl⟩ := Option.map_eq_some_iff.mp h
      rw [tasks_of_creatorStep hp hu]
      simp [State.taskOp, hp]

/-- The manager issues tasks, and only creators do anything else with them. -/
theorem creatorStep_of_taskOp {T : Int} {s t : State} {a : Action}
    {op : RetryOp Language ContainerId} (h : step T s a = some t) (hop : s.taskOp a = some op)
    (hissue : ∀ l, op ≠ .issue l) :
    ∃ i b p p' u, s.creators[i]? = some p ∧ creatorStep s p b = some (p', u) ∧
      creatorOp i p b = some op ∧ t = { u with creators := s.creators.set i p' } := by
  cases a with
  | spawnJudge | judge w a => cases hop
  | manager a =>
      unfold State.taskOp at hop
      split at hop
      case h_1 heq => cases heq
      case h_2 =>
        split at hop
        · exact absurd (Option.some.inj hop).symm (hissue _)
        · cases hop
      case h_3 => cases hop
  | creator i b =>
      obtain ⟨p, hp, hstep⟩ := Option.bind_eq_some_iff.mp h
      obtain ⟨⟨p', u⟩, hu, rfl⟩ := Option.map_eq_some_iff.mp hstep
      have hop' : creatorOp i p b = some op := by simpa [State.taskOp, hp] using hop
      exact ⟨i, b, p, p', u, hp, hu, hop', rfl⟩

/-- A creator that takes a task has none. -/
theorem free_of_step {T : Int} {s t : State} {a : Action} (h : step T s a = some t) {i : Nat}
    (hop : s.taskOp a = some (.take i)) : s.tasks.held[i]? = some .nothing := by
  obtain ⟨j, b, p, p', u, hp, hu, hop, rfl⟩ := creatorStep_of_taskOp h hop nofun
  cases p <;> cases b <;> simp only [creatorStep, reduceCtorEq] at hu <;>
    simp only [creatorOp, reduceCtorEq, Option.some.injEq, RetryOp.take.injEq] at hop
  case getting.get =>
    subst hop
    simp [State.tasks, hp, Creator.holding]

/-- The ledger follows the pool, and loses no task. -/
structure InStep (x : Noted State TaskLedger) : Prop where
  labels : x.record.labels = x.state.tasks
  balanced : x.record.Balanced

theorem InStep.step {T : Int} {s t : State} {r : TaskLedger} {a : Action}
    (hs : InStep ⟨s, r⟩) (h : SandboxManager.step T s a = some t) :
    InStep ⟨t, s.ledger a r⟩ := by
  obtain ⟨hlabels, hbalanced⟩ := hs
  have htasks := tasks_of_step h
  cases hop : s.taskOp a with
  | none =>
      rw [hop] at htasks
      simp only [State.ledger, hop, Option.elim_none]
      exact ⟨by rw [hlabels, htasks]; rfl, hbalanced⟩
  | some op =>
      rw [hop] at htasks
      simp only [State.ledger, hop, Option.elim_some]
      refine ⟨?_, hbalanced.step ?_⟩
      · rw [Ledger.labels_step, hlabels, htasks]
        rfl
      · cases op with
        | take i =>
            have hfree := free_of_step h hop
            rw [← hlabels] at hfree
            exact Ledger.free_of_labels hfree
        | _ => trivial

/-! ## The containers -/

def Shelved (l : Language) (c : ContainerId) (s : State) : Prop :=
  c ∈ s.warm l ∨ (l, c) ∈ s.handed ∨ (l, c) ∈ s.cleaned

theorem mem_update_rpop_or {warm : Language → List ContainerId} {l l' : Language}
    {c c' : ContainerId} {q : List ContainerId} (h : rpop (warm l') = some (c', q))
    (hc : c ∈ warm l) : c ∈ Function.update warm l' q l ∨ (l, c) = (l', c') := by
  by_cases hl : l = l'
  · subst hl
    rw [rpop_eq_some.mp h, List.mem_append, List.mem_singleton] at hc
    rw [Function.update_self]
    exact hc.imp_right fun hcc => by rw [hcc]
  · exact .inl (by rwa [Function.update_of_ne hl])

/-- A container that has been in a warm queue stays in it or is popped. -/
theorem Shelved.step {T : Int} {l : Language} {c : ContainerId} {s t : State} {a : Action}
    (h : Shelved l c s) (hmove : Move T s a t) : Shelved l c t := by
  cases hmove with
  | spawnJudge => exact h
  | creator hp hmove =>
      cases hmove
      case push l' c' =>
        refine h.imp_left fun hwarm => ?_
        by_cases hl : l = l'
        · subst hl
          simpa using Or.inr hwarm
        · simpa [Function.update_of_ne hl] using hwarm
      all_goals exact h
  | manager hmove =>
      generalize s.manager = m at hmove
      cases hmove
      case cleanPop l' todo c' q hq =>
        rcases h with hwarm | hhanded | hcleaned
        · rcases mem_update_rpop_or hq hwarm with hwarm | heq
          · exact .inl hwarm
          · exact .inr (.inr (List.mem_cons.mpr (.inl heq)))
        · exact .inr (.inl hhanded)
        · exact .inr (.inr (List.mem_cons_of_mem _ hcleaned))
      all_goals exact h
  | judge hp hmove =>
      cases hmove
      case acquire l' c' q hq =>
        rcases h with hwarm | hhanded | hcleaned
        · rcases mem_update_rpop_or hq hwarm with hwarm | heq
          · exact .inl hwarm
          · exact .inr (.inl (List.mem_cons.mpr (.inl heq)))
        · exact .inr (.inl (List.mem_cons_of_mem _ hhanded))
        · exact .inr (.inr hcleaned)
      all_goals exact h

def CreatorAction.startsAndPushes : CreatorAction → Bool
  | .startRaises | .pushRaises => false
  | _ => true

def Action.startsAndPushes : Action → Bool
  | .creator _ a => a.startsAndPushes
  | _ => true

/-- The container is with a creator, has been in the warm queue of its language, or has been
asked to go. -/
def Accounted (s : State) (c : ContainerId) (k : Container) : Prop :=
  (∃ p ∈ s.creators, p.carries k.language c) ∨ Shelved k.language c s ∨ k.status = .removed

theorem setStatus_eq_some {containers : ContainerId → Option Container} {c c' : ContainerId}
    {st : Status} {k : Container} (h : setStatus containers c' st c = some k) :
    (c = c' ∧ k.status = st ∧ ∃ k₀, containers c = some k₀ ∧ k.language = k₀.language) ∨
      c ≠ c' ∧ containers c = some k := by
  by_cases hcc : c = c'
  · subst hcc
    obtain ⟨k₀, hk₀, rfl⟩ : ∃ k₀, containers c = some k₀ ∧ { k₀ with status := st } = k := by
      simpa [setStatus] using h
    exact .inl ⟨rfl, rfl, k₀, hk₀, rfl⟩
  · exact .inr ⟨hcc, by simpa [setStatus, Function.update_of_ne hcc] using h⟩

/-- A creator that does not raise after it has made a container hands it on. -/
theorem creatorStep_accounts {s t : State} {p p' : Creator} {a : CreatorAction}
    (h : creatorStep s p a = some (p', t)) (ha : a.startsAndPushes = true)
    (hmade : ∀ l c, p.carries l c → MadeFor l c s) {c : ContainerId} {k : Container}
    (hk : t.containers c = some k) :
    p'.carries k.language c ∨ Shelved k.language c t ∨ k.status = .removed ∨
      s.containers c = some k ∧ ¬ p.carries k.language c := by
  cases p <;> cases a <;> simp only [creatorStep, reduceCtorEq, Option.some.injEq,
    Prod.mk.injEq] at h
  case taken.create l c' =>
    split at h
    case isFalse => cases h
    case isTrue =>
      obtain ⟨rfl, rfl⟩ := Prod.mk.inj (Option.some.inj h)
      by_cases hcc : c = c'
      · subst hcc
        obtain rfl : _ = k := by simpa using hk
        exact .inl (.inl rfl)
      · refine .inr (.inr (.inr ⟨by simpa [Function.update_of_ne hcc] using hk, ?_⟩))
        simp [Creator.carries]
  case created.start l c' =>
    obtain ⟨rfl, rfl⟩ := h
    rcases setStatus_eq_some hk with ⟨rfl, -, k₀, hk₀, hlang⟩ | ⟨hcc, hk⟩
    · obtain ⟨st, hmade⟩ := hmade l c (.inl rfl)
      obtain rfl : _ = k₀ := Option.some.inj (hmade.symm.trans hk₀)
      exact .inl (.inr (.inl (by rw [hlang])))
    · refine .inr (.inr (.inr ⟨hk, ?_⟩))
      simpa [Creator.carries] using fun _ => Ne.symm hcc
  case started.healthcheck l c' =>
    obtain ⟨rfl, rfl⟩ := h
    by_cases hc : l = k.language ∧ c' = c
    · obtain ⟨rfl, rfl⟩ := hc
      exact .inl (.inr (.inr rfl))
    · exact .inr (.inr (.inr ⟨hk, by simpa [Creator.carries] using hc⟩))
  case started.healthcheckFails l c' =>
    obtain ⟨rfl, rfl⟩ := h
    rcases setStatus_eq_some hk with ⟨-, hremoved, -⟩ | ⟨hcc, hk⟩
    · exact .inr (.inr (.inl hremoved))
    · refine .inr (.inr (.inr ⟨hk, ?_⟩))
      simpa [Creator.carries] using fun _ => Ne.symm hcc
  case checked.push l c' =>
    obtain ⟨rfl, rfl⟩ := h
    by_cases hc : l = k.language ∧ c' = c
    · obtain ⟨rfl, rfl⟩ := hc
      exact .inr (.inl (.inl (by simp)))
    · exact .inr (.inr (.inr ⟨hk, by simpa [Creator.carries] using hc⟩))
  case created.startRaises | checked.pushRaises => cases ha
  case getting.get | pushed.decrement =>
    split at h
    · cases h
    · obtain ⟨rfl, rfl⟩ := Prod.mk.inj (Option.some.inj h)
      exact .inr (.inr (.inr ⟨hk, by simp [Creator.carries]⟩))
  case getting.timeout =>
    split at h
    · obtain ⟨rfl, rfl⟩ := Prod.mk.inj (Option.some.inj h)
      exact .inr (.inr (.inr ⟨hk, by simp [Creator.carries]⟩))
    · cases h
  all_goals
    obtain ⟨rfl, rfl⟩ := h
    exact .inr (.inr (.inr ⟨hk, by simp [Creator.carries]⟩))

/-- A task is finished with the container that its creator has just pushed. -/
theorem shelved_of_finish {T : Int} {s t : State} {a : Action} {i : Nat} {l : Language}
    {c : ContainerId} (h : SandboxManager.step T s a = some t)
    (hop : s.taskOp a = some (.finish i c)) (hl : s.tasks.current i = some l) :
    Shelved l c t := by
  obtain ⟨j, b, p, p', u, hp, hu, hop, rfl⟩ := creatorStep_of_taskOp h hop nofun
  cases p <;> cases b <;> simp only [creatorStep, reduceCtorEq] at hu <;>
    simp only [creatorOp, reduceCtorEq, Option.some.injEq, RetryOp.finish.injEq] at hop
  case checked.push l' c' =>
    obtain ⟨rfl, rfl⟩ := hop
    obtain ⟨rfl, rfl⟩ := Prod.mk.inj (Option.some.inj hu)
    have hheld := RetryQueue.current_eq_some.mp hl
    simp only [State.tasks, List.getElem?_map, hp, Option.map_some, Creator.holding,
      Option.some.injEq, Holding.working.injEq] at hheld
    subst hheld
    exact .inl (by simp)

theorem Move.containers_other {T : Int} {s t : State} {a : Action} (h : Move T s a t)
    (ha : ∀ i b, a ≠ .creator i b) {c : ContainerId} {k : Container}
    (hk : t.containers c = some k) : k.status = .removed ∨ s.containers c = some k := by
  have hset : ∀ c', setStatus s.containers c' .removed c = some k →
      k.status = .removed ∨ s.containers c = some k := by
    intro c' hc'
    rcases setStatus_eq_some hc' with ⟨-, hremoved, -⟩ | ⟨-, hk⟩
    · exact .inl hremoved
    · exact .inr hk
  cases h with
  | spawnJudge => exact .inr hk
  | creator hp hmove => exact absurd rfl (ha _ _)
  | manager hmove =>
      generalize s.manager = m at hmove
      cases hmove
      case cleanStop todo c' => exact hset c' hk
      all_goals exact .inr hk
  | judge hp hmove =>
      cases hmove
      case stop l c' => exact hset c' hk
      all_goals exact .inr hk

/-- No container that a creator has made is out of sight. -/
structure Kept (cfg : Config) (s : State) : Prop where
  made : ∀ p ∈ s.creators, ∀ l c, p.carries l c → MadeFor l c s
  accounted : ∀ c k, s.containers c = some k → cfg.containers c = none → Accounted s c k

theorem Kept.step {T : Int} {cfg : Config} {s t : State} {a : Action} (hs : Kept cfg s)
    (ha : a.startsAndPushes = true) (h : SandboxManager.step T s a = some t) : Kept cfg t := by
  have hmove := move_of_step h
  refine ⟨hmove.carries_made hs.made, fun c k hk hcfg => ?_⟩
  have hother : (k.status = .removed ∨ s.containers c = some k) → t.creators = s.creators →
      Accounted t c k := by
    rintro (hremoved | hold) hc
    · exact .inr (.inr hremoved)
    · rcases hs.accounted c k hold hcfg with hcarried | hshelved | hremoved
      · exact .inl (hc ▸ hcarried)
      · exact .inr (.inl (hshelved.step hmove))
      · exact .inr (.inr hremoved)
  cases a with
  | spawnJudge =>
      obtain rfl := Option.some.inj h
      exact hother (.inr hk) rfl
  | manager a =>
      have hframe := (managerMove_of_step h).frame.1
      exact hother (hmove.containers_other (by simp) hk) hframe
  | judge w a =>
      have hcontainers := hmove.containers_other (by simp) hk
      cases hmove with
      | judge hp hjudge => exact hother hcontainers hjudge.frame.2.2.1
  | creator i a =>
      obtain ⟨p, hp, h⟩ := Option.bind_eq_some_iff.mp h
      obtain ⟨⟨p', u⟩, hu, rfl⟩ := Option.map_eq_some_iff.mp h
      have hmem := List.mem_of_getElem? hp
      rcases creatorStep_accounts hu ha (hs.made p hmem) hk with hc | hc | hc | ⟨hold, hc⟩
      · have hi : i < s.creators.length := (List.getElem?_eq_some_iff.mp hp).1
        exact .inl ⟨p', List.mem_set hi p', hc⟩
      · exact .inr (.inl hc)
      · exact .inr (.inr hc)
      · rcases hs.accounted c k hold hcfg with ⟨p₀, hp₀, hcarried⟩ | hshelved | hremoved
        · have hne : p₀ ≠ p := by
            rintro rfl
            exact hc hcarried
          exact .inl ⟨p₀, mem_set_of_ne hp hp₀ hne p', hcarried⟩
        · exact .inr (.inl (hshelved.step hmove))
        · exact .inr (.inr hremoved)

theorem kept_start (cfg : Config) : Kept cfg cfg.start := by
  constructor
  · intro p hp l c hc
    obtain rfl := List.eq_of_mem_replicate hp
    simp [Creator.carries] at hc
  · intro c k hk hcfg
    exact absurd (hk.symm.trans hcfg) (by simp)

/-! ## Every run -/

structure Delivered (x : Noted State TaskLedger) : Prop extends InStep x where
  shelved : ∀ e ∈ x.record.finished, Shelved e.1.label e.2 x.state

theorem finished_of_step {T : Int} {s t : State} {r : TaskLedger} {a : Action}
    (hlabels : r.labels = s.tasks) (h : SandboxManager.step T s a = some t)
    {e : Ticket Language × ContainerId} (he : e ∈ (s.ledger a r).finished) :
    e ∈ r.finished ∨ Shelved e.1.label e.2 t := by
  cases hop : s.taskOp a with
  | none => exact .inl (by simpa only [State.ledger, hop, Option.elim_none] using he)
  | some op =>
      simp only [State.ledger, hop, Option.elim_some] at he
      cases op with
      | finish i c =>
          rcases List.mem_append.mp he with hnew | hold
          · right
            obtain ⟨task, htask, rfl⟩ := List.mem_map.mp hnew
            have hcurrent := Option.mem_toList.mp htask
            have hlabel : s.tasks.current i = some task.label := by
              rw [← hlabels, Ledger.labels, RetryQueue.current_map, hcurrent]
              rfl
            exact shelved_of_finish h hop hlabel
          · exact .inl hold
      | _ => exact .inl he

theorem Delivered.step {T : Int} {s t : State} {r : TaskLedger} {a : Action}
    (hs : Delivered ⟨s, r⟩) (h : SandboxManager.step T s a = some t) :
    Delivered ⟨t, s.ledger a r⟩ := by
  refine ⟨hs.toInStep.step h, fun e he => ?_⟩
  rcases finished_of_step hs.labels h he with hold | hnew
  · exact (hs.shelved e hold).step (move_of_step h)
  · exact hnew

theorem delivered_start (cfg : Config) : Delivered ⟨cfg.start, .empty cfg.workerCount⟩ := by
  refine ⟨⟨?_, Ledger.balanced_empty _⟩, fun e he => by cases he⟩
  simp [Ledger.labels, Ledger.empty, RetryQueue.map, State.tasks, Config.start,
    Creator.holding]

/-- Creating sandboxes leaks no container, and completes each task with exactly one. -/
structure SandboxesAccounted (cfg : Config) (x : Noted State TaskLedger) : Prop where
  /-- what was created is with a creator, has been in its warm queue, or was asked to go -/
  accounted : ∀ c k, x.state.containers c = some k → cfg.containers c = none →
    Accounted x.state c k
  /-- for each failure the task is put back once, except where a creator is about to -/
  requeued : ∀ t, x.record.failures.count t =
    x.record.requeues.count t + x.record.tasks.held.count (.failed t)
  /-- a task that is neither queued nor with a creator has pushed exactly one container -/
  pushed : ∀ t ∈ x.record.issued, ¬ x.record.Outstanding t →
    ∃ c, x.record.results t = [c] ∧ Shelved t.label c x.state
  /-- until then it has pushed none -/
  waiting : ∀ t, x.record.Outstanding t → x.record.results t = []

theorem Delivered.exists_result {x : Noted State TaskLedger} (h : Delivered x)
    {t : Ticket Language} (ht : t ∈ x.record.issued) (hdone : ¬ x.record.Outstanding t) :
    ∃ c, x.record.results t = [c] ∧ Shelved t.label c x.state := by
  obtain ⟨c, hc⟩ := h.balanced.exists_result ht hdone
  refine ⟨c, hc, ?_⟩
  have hmem : c ∈ x.record.results t := by simp [hc]
  obtain ⟨e, he, rfl⟩ := List.mem_map.mp hmem
  obtain ⟨hfinished, hlabel⟩ := List.mem_filter.mp he
  have hshelved := h.shelved e hfinished
  rwa [of_decide_eq_true hlabel] at hshelved

/-- **No container is leaked** in a run in which neither `start` nor the push raises: a
health check or `containers.create` may fail any number of times. -/
theorem sandboxes_accounted (cfg : Config) {x : Noted State TaskLedger}
    (h : (ledgered cfg).ReachableUnder (fun _ a => a.startsAndPushes = true) x) :
    SandboxesAccounted cfg x := by
  have hkept : Kept cfg x.state ∧ Delivered x := by
    refine System.noting_invariant (system cfg) (fun _ a => a.startsAndPushes = true)
      (J := fun _ => True) (I := fun x => Kept cfg x.state ∧ Delivered x) ?_ ?_ ?_ h
    · intro _ _
      trivial
    · rintro _ rfl
      exact ⟨kept_start cfg, delivered_start cfg⟩
    · rintro s t a r - ha hstep ⟨hkept, hdelivered⟩
      exact ⟨hkept.step ha hstep, hdelivered.step hstep⟩
  obtain ⟨hkept, hdelivered⟩ := hkept
  constructor
  · exact hkept.accounted
  · exact hdelivered.balanced.requeue_eq
  · intro t ht hdone
    exact hdelivered.exists_result ht hdone
  · intro t hopen
    exact hdelivered.balanced.no_result hopen

theorem sandboxes_accounted_retry :
    ∃ x, (ledgered freshConfig).Reachable x ∧ x.record.results ⟨.C, 0⟩ = [8] ∧
      SandboxesAccounted freshConfig x := by
  obtain ⟨x, hx, hresults⟩ := System.exists_path (ledgered freshConfig)
    (fun _ a => a.startsAndPushes = true) ⟨freshConfig.start, .empty 2⟩ retryRun
    (fun x => x.record.results ⟨.C, 0⟩ = [8]) (by decide)
  have hreach : (ledgered freshConfig).ReachableUnder (fun _ a => a.startsAndPushes = true) x :=
    ⟨⟨freshConfig.start, _⟩, ⟨rfl, rfl⟩, hx⟩
  exact ⟨x, hreach.mono fun _ _ _ => trivial, hresults, sandboxes_accounted freshConfig hreach⟩

/-- `container.start()` raises; the task is put back and the creator is free again. -/
def startFailsRun : List Action :=
  [.manager .maintain, .manager .count, .manager .readPending, .manager .updatePending,
    .manager .put, .creator 0 .check, .creator 0 .get, .creator 0 (.create 5),
    .creator 0 .startRaises, .creator 0 .requeue, .creator 0 .taskDone]

/-- The container stays behind: no creator has it, it was in no warm queue, and nobody has
asked it to go. -/
theorem not_sandboxes_accounted_startFails :
    ¬ ∀ cfg x, (ledgered cfg).Reachable x → SandboxesAccounted cfg x := by
  intro hall
  obtain ⟨x, hx, ⟨hcontainer, hcreators⟩, hwarm, hhanded, hcleaned⟩ :=
    System.exists_path (ledgered freshConfig) (fun _ _ => True)
      ⟨freshConfig.start, .empty 2⟩ startFailsRun
      (fun x => (x.state.containers 5 = some ⟨.C, IMAGE .C, .created⟩ ∧
        x.state.creators = [.loop, .loop]) ∧ x.state.warm .C = [] ∧
        x.state.handed = [] ∧ x.state.cleaned = []) (by decide)
  have hreach : (ledgered freshConfig).Reachable x := ⟨⟨freshConfig.start, _⟩, ⟨rfl, rfl⟩, hx⟩
  rcases (hall freshConfig x hreach).accounted 5 _ hcontainer rfl with
    ⟨p, hp, hcarried⟩ | hshelved | hremoved
  · simp only [hcreators, List.mem_cons, List.not_mem_nil, or_false, or_self] at hp
    subst hp
    simp [Creator.carries] at hcarried
  · simp [Shelved, hwarm, hhanded, hcleaned] at hshelved
  · cases hremoved

end ByteBattles.Judge.SandboxManager
