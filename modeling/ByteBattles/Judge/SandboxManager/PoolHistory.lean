import ByteBattles.Judge.SandboxManager.Isolation
import ByteBattles.Judge.SandboxManager.Shutdown

/-!
# What becomes of the containers of the pool

The system with a record of what the creators have pushed and of what `clean_pool` has done
with each container that it popped.
-/

namespace ByteBattles.Judge.SandboxManager

open ByteBattles.Lib

/-! ## Records -/

structure Record where
  /-- what creators have pushed -/
  pushed : List (Language × ContainerId)
  /-- the containers on which `clean_pool` has called `stop` -/
  asked : List ContainerId
  /-- the containers for which `containers.get` has raised in `clean_pool` -/
  lost : List ContainerId

/-- The two calls of `clean_pool` raise separately. -/
inductive Event
  | act (a : Action)
  | lookupRaises
  | stopRaises
  deriving DecidableEq, Repr

def Event.action : Event → Action
  | .act a => a
  | .lookupRaises | .stopRaises => .manager .cleanStopRaises

/-- `containers.get(None)` raises, so that `stop` cannot. -/
def Event.possible (m : Manager) : Event → Bool
  | .act a => a != .manager .cleanStopRaises
  | .lookupRaises => true
  | .stopRaises =>
      match m with
      | .removing _ (some _) => true
      | _ => false

def Manager.removes : Manager → Option ContainerId
  | .removing _ c => c
  | _ => none

def Creator.toPush : Creator → Option (Language × ContainerId)
  | .checked l c => some (l, c)
  | _ => none

def State.record (s : State) (record : Record) : Event → Record
  | .act (.creator i .push) =>
      { record with pushed := (s.creators[i]?.bind Creator.toPush).toList ++ record.pushed }
  | .act (.manager .cleanStop) | .stopRaises =>
      { record with asked := s.manager.removes.toList ++ record.asked }
  | .lookupRaises => { record with lost := s.manager.removes.toList ++ record.lost }
  | _ => record

structure Recorded where
  state : State
  record : Record

def recordedStep (T : Int) (x : Recorded) (e : Event) : Option Recorded :=
  if e.possible x.state.manager then
    (step T x.state e.action).map fun t => ⟨t, x.state.record x.record e⟩
  else none

def recorded (cfg : Config) : System Recorded Event where
  init x := x = ⟨cfg.start, ⟨[], [], []⟩⟩
  step := recordedStep cfg.poolThreshold

theorem recordedStep_eq_some {T : Int} {x y : Recorded} {e : Event}
    (h : recordedStep T x e = some y) :
    e.possible x.state.manager = true ∧ step T x.state e.action = some y.state ∧
      y.record = x.state.record x.record e := by
  unfold recordedStep at h
  split at h
  case isTrue hpossible =>
    obtain ⟨t, ht, rfl⟩ := Option.map_eq_some_iff.mp h
    exact ⟨hpossible, ht, rfl⟩
  case isFalse => cases h

theorem exists_event {T : Int} {x : Recorded} {t : State} {a : Action}
    (h : step T x.state a = some t) :
    ∃ e y, e.action = a ∧ y.state = t ∧ recordedStep T x e = some y := by
  have hexists : ∃ e : Event, e.possible x.state.manager = true ∧ e.action = a := by
    by_cases ha : a = .manager .cleanStopRaises
    · exact ⟨.lookupRaises, rfl, ha.symm⟩
    · exact ⟨.act a, by simpa [Event.possible] using ha, rfl⟩
  obtain ⟨e, he, rfl⟩ := hexists
  refine ⟨e, ⟨t, x.state.record x.record e⟩, rfl, rfl, ?_⟩
  rw [recordedStep, if_pos he, h]
  rfl

/-- Every run of the pool has a record. -/
theorem reachable_iff_recorded {cfg : Config} {s : State} :
    (system cfg).Reachable s ↔ ∃ x, (recorded cfg).Reachable x ∧ x.state = s := by
  constructor
  · rintro ⟨s₀, rfl, hpath⟩
    induction hpath with
    | refl => exact ⟨_, ⟨_, rfl, .refl⟩, rfl⟩
    | tail _ hstep ih =>
        obtain ⟨a, -, hstep⟩ := hstep
        obtain ⟨x, hx, rfl⟩ := ih
        obtain ⟨e, y, -, rfl, hrecorded⟩ := exists_event hstep
        exact ⟨y, hx.step trivial hrecorded, rfl⟩
  · rintro ⟨x, ⟨x₀, rfl, hpath⟩, rfl⟩
    induction hpath with
    | refl => exact ⟨_, rfl, .refl⟩
    | tail _ hstep ih =>
        obtain ⟨e, -, hstep⟩ := hstep
        exact ih.step trivial (recordedStep_eq_some hstep).2.1

/-! ## Where the containers go -/

def entered (c : ContainerId) (s : State) : Nat :=
  pooled c s.warm + popped c s.handed + popped c s.cleaned

def pushes (p : Creator) : CreatorAction → Option (Language × ContainerId)
  | .push => p.toPush
  | _ => none

theorem creatorStep_warm {s t : State} {p p' : Creator} {a : CreatorAction}
    (h : creatorStep s p a = some (p', t)) :
    (pushes p a = none ∧ t.warm = s.warm) ∨
      ∃ l c, p = .checked l c ∧ pushes p a = some (l, c) ∧
        t.warm = Function.update s.warm l (c :: s.warm l) := by
  cases p <;> cases a <;> simp only [creatorStep, reduceCtorEq, Option.some.injEq,
    Prod.mk.injEq] at h
  case checked.push l c =>
    obtain ⟨-, rfl⟩ := h
    exact .inr ⟨l, c, rfl, rfl, rfl⟩
  case getting.get | pushed.decrement =>
    split at h
    · cases h
    · obtain ⟨-, rfl⟩ := Prod.mk.inj (Option.some.inj h)
      exact .inl ⟨rfl, rfl⟩
  case getting.timeout | taken.create =>
    split at h
    · obtain ⟨-, rfl⟩ := Prod.mk.inj (Option.some.inj h)
      exact .inl ⟨rfl, rfl⟩
    · cases h
  all_goals
    obtain ⟨-, rfl⟩ := h
    exact .inl ⟨rfl, rfl⟩

def State.pushed (s : State) : Action → Option (Language × ContainerId)
  | .creator i a => s.creators[i]?.bind fun p => pushes p a
  | _ => none

/-- A container enters a list when it is pushed. -/
theorem entered_of_step {T : Int} {s t : State} {a : Action} (h : step T s a = some t)
    (c : ContainerId) : entered c t = entered c s + popped c (s.pushed a).toList := by
  cases a with
  | spawnJudge =>
      obtain rfl := Option.some.inj h
      rfl
  | judge w a =>
      cases move_of_step h with
      | judge hp hmove =>
          obtain ⟨hpop, hcleaned, -⟩ := hmove.places_eq c
          simp only [entered, hcleaned, State.pushed, Option.toList_none, popped, List.map_nil,
            List.count_nil] at hpop ⊢
          omega
  | manager a =>
      have hmove := managerMove_of_step h
      have hpop := hmove.places_eq c
      simp only [entered, hmove.frame.2.2, State.pushed, Option.toList_none, popped,
        List.map_nil, List.count_nil] at hpop ⊢
      omega
  | creator i a =>
      obtain ⟨p, hp, h⟩ := Option.bind_eq_some_iff.mp h
      obtain ⟨⟨p', u⟩, hu, rfl⟩ := Option.map_eq_some_iff.mp h
      obtain ⟨-, -, -, -, -, hhanded, hcleaned⟩ := (creatorMove_of_step hu).frame
      have hpushed : s.pushed (.creator i a) = pushes p a := by rw [State.pushed, hp]; rfl
      simp only [entered, hhanded, hcleaned, hpushed]
      rcases creatorStep_warm hu with ⟨hnone, hwarm⟩ | ⟨l, c', -, hsome, hwarm⟩
      · simp [hnone, hwarm, popped]
      · have hpooled := pooled_update c s.warm l (c' :: s.warm l)
        simp only [hsome, hwarm, Option.toList_some, popped, List.map_cons, List.map_nil,
          List.count_nil, List.count_cons, beq_iff_eq] at hpooled ⊢
        omega

theorem record_pushed (s : State) (record : Record) (e : Event) :
    (s.record record e).pushed = (s.pushed e.action).toList ++ record.pushed := by
  cases e with
  | act a =>
      cases a with
      | creator i a =>
          cases a with
          | push => rfl
          | _ =>
              cases hp : s.creators[i]? <;>
                simp [State.record, State.pushed, Event.action, hp, pushes]
      | manager a => cases a <;> rfl
      | _ => rfl
  | _ => rfl

theorem popped_append (c : ContainerId) (history more : List (Language × ContainerId)) :
    popped c (history ++ more) = popped c history + popped c more := by
  rw [popped, List.map_append, List.count_append]
  rfl

def State.answered (s : State) : Action → List ContainerId
  | .manager .cleanStop | .manager .cleanStopRaises => s.manager.removes.toList
  | _ => []

/-- What `clean_pool` pops it holds until it is done with it. -/
theorem cleaned_of_step {T : Int} {s t : State} {a : Action} (h : step T s a = some t)
    (c : ContainerId) :
    popped c t.cleaned + s.manager.removes.toList.count c =
      popped c s.cleaned + t.manager.removes.toList.count c + (s.answered a).count c := by
  cases move_of_step h with
  | spawnJudge => rfl
  | creator hp hmove =>
      obtain ⟨hmanager, -, -, -, -, -, hcleaned⟩ := hmove.frame
      simp only [hmanager, hcleaned, State.answered, List.count_nil]
      omega
  | judge hp hmove =>
      have hmanager := hmove.frame.1
      have hcleaned := (hmove.places_eq c).2.1
      simp only [hmanager, hcleaned, State.answered, List.count_nil]
      omega
  | @manager a _ hmove =>
      cases hstopping : s.manager.stopping with
      | true =>
          have hmove' := shutdownMove_of_step hstopping h
          unfold State.answered
          generalize s.manager = m at hmove'
          cases hmove' with
          | popped => simp [Manager.removes, List.count_cons]
          | asked => simp [Manager.removes]
          | raised => simp [Manager.removes]
          | _ => simp [Manager.removes]
      | false =>
          unfold State.answered
          generalize s.manager = m at hmove hstopping
          cases hmove with
          | shutdown hp hm => rw [hp] at hstopping; cases hstopping
          | cleanPop | cleanStop => cases hstopping
          | @stop m => cases m <;> first | rfl | cases hstopping
          | _ => rfl

def Record.answered (c : ContainerId) (record : Record) : Nat :=
  record.asked.count c + record.lost.count c

theorem record_answered {s : State} {e : Event} (record : Record)
    (h : e.possible s.manager = true) (c : ContainerId) :
    (s.record record e).answered c = record.answered c + (s.answered e.action).count c := by
  cases e with
  | act a =>
      cases a with
      | creator i a => cases a <;> rfl
      | manager a =>
          cases a with
          | cleanStop =>
              simp only [State.record, Record.answered, State.answered, Event.action,
                List.count_append]
              omega
          | cleanStopRaises => simp [Event.possible] at h
          | _ => rfl
      | _ => rfl
  | _ =>
      simp only [State.record, Record.answered, State.answered, Event.action, List.count_append]
      omega

structure Followed (cfg : Config) (x : Recorded) : Prop where
  /-- what has entered the lists was there at the start, or has been pushed -/
  entered : ∀ c, entered c x.state = pooled c cfg.warm + popped c x.record.pushed
  cleaned : ∀ c, popped c x.state.cleaned =
    x.record.answered c + x.state.manager.removes.toList.count c

theorem Followed.step {cfg : Config} {x y : Recorded} {e : Event} (hx : Followed cfg x)
    (h : recordedStep cfg.poolThreshold x e = some y) : Followed cfg y := by
  obtain ⟨hpossible, hstep, hrecord⟩ := recordedStep_eq_some h
  constructor
  · intro c
    rw [entered_of_step hstep, hx.entered, hrecord, record_pushed, popped_append]
    omega
  · intro c
    have hcleaned := cleaned_of_step hstep c
    have hanswered := record_answered x.record hpossible c
    rw [hx.cleaned] at hcleaned
    rw [hrecord]
    omega

theorem followed {cfg : Config} {x : Recorded} (h : (recorded cfg).Reachable x) :
    Followed cfg x := by
  refine System.PreservedUnder.invariant ?_ ?_ h
  · intro x y e _ hx _ hstep
    exact hx.step hstep
  · rintro _ rfl
    exact ⟨fun _ => rfl, fun _ => rfl⟩

/-! ## Ids are given out once -/

def Fresh (cfg : Config) : Prop := ∀ l, ∀ c ∈ cfg.warm l, cfg.containers c ≠ none

theorem CreatorMove.carries_new {s t : State} {p p' : Creator} (h : CreatorMove s p p' t)
    {l : Language} {c : ContainerId} (hc : p'.carries l c) :
    p.carries l c ∨ s.containers c = none := by
  cases h with
  | check => split at hc <;> simp [Creator.carries] at hc
  | @create l' c' hnone =>
      right
      obtain ⟨-, rfl⟩ : l' = l ∧ c' = c := by simpa [Creator.carries] using hc
      exact hnone
  | _ => simp_all [Creator.carries]

structure New (cfg : Config) (x : Recorded) : Prop where
  kept : ∀ c, cfg.containers c ≠ none → x.state.containers c ≠ none
  once : ∀ c, cfg.containers c = none → places c x.state ≤ 1
  known : ∀ c, cfg.containers c = none → 0 < places c x.state → x.state.containers c ≠ none
  creator : ∀ p ∈ x.state.creators, ∀ l c, p.carries l c → cfg.containers c = none
  pushed : ∀ e ∈ x.record.pushed, cfg.containers e.2 = none

theorem carries_of_pushed {s : State} {a : Action} {l : Language} {c : ContainerId}
    (h : s.pushed a = some (l, c)) : ∃ p ∈ s.creators, p.carries l c := by
  cases a with
  | creator i a =>
      obtain ⟨p, hp, hpushes⟩ := Option.bind_eq_some_iff.mp h
      refine ⟨p, List.mem_of_getElem? hp, ?_⟩
      cases a <;> try cases hpushes
      cases p <;> cases hpushes
      exact .inr (.inr rfl)
  | _ => cases h

theorem New.step {cfg : Config} {x y : Recorded} {e : Event} (hx : New cfg x)
    (h : recordedStep cfg.poolThreshold x e = some y) : New cfg y := by
  obtain ⟨-, hstep, hrecord⟩ := recordedStep_eq_some h
  have hmove := move_of_step hstep
  have hunknown (c : ContainerId) (hnone : x.state.containers c = none) :
      cfg.containers c = none := by
    by_contra hsome
    exact hx.kept c hsome hnone
  refine ⟨?_, ?_, ?_, ?_, ?_⟩
  · intro c hc
    exact hmove.known (hx.kept c hc)
  · intro c hc
    have hone := hx.once c hc
    rcases hmove.places_le c with hle | ⟨hnone, -, hle⟩
    · omega
    · have hzero : ¬ 0 < places c x.state := fun hpos => hx.known c hc hpos hnone
      omega
  · intro c hc hpos
    rcases hmove.places_le c with hle | ⟨-, hsome, -⟩
    · exact hmove.known (hx.known c hc (by omega))
    · exact hsome
  · intro p hp l c hc
    revert hp
    generalize y.state = t at hmove
    generalize e.action = a at hmove
    intro hp
    cases hmove with
    | spawnJudge => exact hx.creator p hp l c hc
    | manager hmove => exact hx.creator p (hmove.frame.1 ▸ hp) l c hc
    | judge hget hmove => exact hx.creator p (hmove.frame.2.2.1 ▸ hp) l c hc
    | creator hget hmove =>
        rcases List.mem_or_eq_of_mem_set hp with hp | rfl
        · exact hx.creator p hp l c hc
        · rcases hmove.carries_new hc with hold | hnew
          · exact hx.creator _ (List.mem_of_getElem? hget) l c hold
          · exact hunknown c hnew
  · intro entry hentry
    rw [hrecord, record_pushed] at hentry
    rcases List.mem_append.mp hentry with hnew | hold
    · obtain ⟨p, hp, hcarries⟩ := carries_of_pushed (Option.mem_toList.mp hnew)
      exact hx.creator p hp _ _ hcarries
    · exact hx.pushed entry hold

theorem new_of_fresh {cfg : Config} (hfresh : Fresh cfg) {x : Recorded}
    (h : (recorded cfg).Reachable x) : New cfg x := by
  refine System.PreservedUnder.invariant ?_ ?_ h
  · intro x y e _ hx _ hstep
    exact hx.step hstep
  · rintro _ rfl
    have hplaces (c : ContainerId) (hc : cfg.containers c = none) : places c cfg.start = 0 := by
      have hcount (l : Language) : (cfg.warm l).count c = 0 :=
        List.count_eq_zero.mpr fun hmem => hfresh l c hmem hc
      simp [places, pooled, popped, Config.start, Creator.holds, Language.all, hcount]
    refine ⟨fun c hc => hc, fun c hc => ?_, fun c hc hpos => ?_, fun p hp l c hc => ?_,
      List.forall_mem_nil _⟩
    · have := hplaces c hc
      dsimp only
      omega
    · have := hplaces c hc
      dsimp only at hpos
      omega
    · obtain rfl := List.eq_of_mem_replicate hp
      simp [Creator.carries] at hc

/-! ## The end of the shutdown -/

structure Emptied (x : Recorded) : Prop where
  exited : ∀ p ∈ x.state.creators, p = .exited
  warm : ∀ l, x.state.warm l = []
  /-- handed to one judge worker; or popped by `clean_pool`, which has asked it to stop
  unless `containers.get` has raised -/
  popped : ∀ l c, (l, c) ∈ x.record.pushed →
    popped c x.state.handed = 1 ∧ popped c x.state.cleaned = 0 ∨
      popped c x.state.handed = 0 ∧ popped c x.state.cleaned = 1 ∧
        x.record.asked.count c + x.record.lost.count c = 1

theorem emptied {cfg : Config} (hfresh : Fresh cfg) {x : Recorded}
    (h : (recorded cfg).Reachable x) (hended : x.state.manager = .ended) : Emptied x := by
  have hclosing := closing (reachable_iff_recorded.mpr ⟨x, h, rfl⟩)
  have hjoined : x.state.manager.joined = true := by rw [hended]; rfl
  have hwarm (l : Language) : x.state.warm l = [] :=
    hclosing.empty hjoined l (by rw [hended]; exact List.not_mem_nil)
  refine ⟨hclosing.exited hjoined, hwarm, fun l c hpushed => ?_⟩
  have hnew := new_of_fresh hfresh h
  have honce := hnew.once c (hnew.pushed (l, c) hpushed)
  have hentered := (followed h).entered c
  have hcleaned := (followed h).cleaned c
  have hpos : 0 < SandboxManager.popped c x.record.pushed :=
    List.count_pos_iff.mpr (List.mem_map_of_mem hpushed)
  have hpooled : pooled c x.state.warm = 0 := by simp [pooled, hwarm, Language.all]
  simp only [hended, Manager.removes, Option.toList_none, List.count_nil,
    Record.answered] at hcleaned
  unfold places at honce
  unfold entered at hentered
  omega

/-- Once the creators are joined, nothing is pushed. -/
theorem pushed_of_joined {cfg : Config} {x y : Recorded} {e : Event}
    (hx : (recorded cfg).Reachable x) (hjoined : x.state.manager.joined = true)
    (h : recordedStep cfg.poolThreshold x e = some y) :
    y.record.pushed = x.record.pushed ∧ y.state.manager.joined = true := by
  have hclosing := closing (reachable_iff_recorded.mpr ⟨x, hx, rfl⟩)
  obtain ⟨-, hstep, hrecord⟩ := recordedStep_eq_some h
  constructor
  · have hnone : x.state.pushed e.action = none := by
      by_contra hsome
      obtain ⟨⟨l, c⟩, hpushed⟩ := Option.ne_none_iff_exists'.mp hsome
      obtain ⟨p, hp, hcarries⟩ := carries_of_pushed hpushed
      rw [hclosing.exited hjoined p hp] at hcarries
      simp [Creator.carries] at hcarries
    rw [hrecord, record_pushed, hnone]
    rfl
  · generalize y.state = t, e.action = a at hstep
    cases move_of_step hstep with
    | spawnJudge => exact hjoined
    | creator hp hmove => exact hmove.frame.1 ▸ hjoined
    | judge hp hmove => exact hmove.frame.1 ▸ hjoined
    | manager hmove =>
        have hmove' := shutdownMove_of_step (stopping_of_joined hjoined) hstep
        generalize x.state.manager = m at hmove'
        cases hmove' <;> rfl

/-- **Shutdown empties the pool**: in a run that schedules the manager and the creators
fairly they all end, the lists are then empty, nothing is pushed after the first list
began to be cleaned, and each container was popped once. -/
theorem shutdown_empties {cfg : Config} (hfresh : Fresh cfg) (r : (recorded cfg).Run)
    (hfair : ∀ i, r.Fair fun e => party i e.action) :
    (∀ n, (r.state n).state.manager.stopping = true →
      ∃ m, n ≤ m ∧ (r.state m).state.manager = .ended) ∧
    (∀ n, (r.state n).state.manager.joined = true →
      ∀ m, n ≤ m → (r.state m).record.pushed = (r.state n).record.pushed) ∧
    ∀ n, (r.state n).state.manager = .ended → Emptied (r.state n) := by
  refine ⟨?_, ?_, ?_⟩
  · intro n hn
    let r' : (system cfg).Run := r.map Recorded.state Event.action
      (by rintro _ rfl; rfl) (fun _ _ _ hstep => (recordedStep_eq_some hstep).2.1)
    have hfair' (i : Option Nat) : r'.Fair (party i) := by
      refine System.Run.Fair.map (hfair i) fun x a ha => ?_
      obtain ⟨t, ht⟩ := Option.isSome_iff_exists.mp ha
      obtain ⟨e, y, he, -, hy⟩ := exists_event ht
      exact ⟨e, he, Option.isSome_of_eq_some hy⟩
    obtain ⟨m, hm, hended, -⟩ := shutdown_ends r' hfair' hn
    exact ⟨m, hm, hended⟩
  · intro n hn m hm
    have hkeeps : (r.state m).record.pushed = (r.state n).record.pushed ∧
        (r.state m).state.manager.joined = true := by
      induction m, hm using Nat.le_induction with
      | base => exact ⟨rfl, hn⟩
      | succ m hm ih =>
          cases haction : r.action m with
          | none => rwa [r.pause m haction]
          | some e =>
              obtain ⟨hpushed, hjoined⟩ :=
                pushed_of_joined (r.reachable m) ih.2 (r.next m e haction)
              exact ⟨hpushed.trans ih.1, hjoined⟩
    exact hkeeps.1
  · intro n hended
    exact emptied hfresh (r.reachable n) hended

/-- A creator is stopped in the middle of a creation; `clean_pool` pops the container
and goes on as `e` says. -/
def stopRun (e : Event) : List Event :=
  [.manager .maintain, .manager .count, .manager .readPending, .manager .updatePending,
    .manager .put, .creator 0 .check, .creator 0 .get, .creator 0 (.create 8),
    .manager .stop, .creator 0 .start, .creator 0 .healthcheck, .creator 0 .push,
    .creator 0 .decrement, .creator 0 .taskDone, .creator 0 .check, .creator 1 .check,
    .manager .join, .manager .cleanCount, .manager .cleanPop].map .act ++
  e :: List.replicate 4 (.act (.manager .cleanCount))

theorem step_eq_none_of_ended {T : Int} {s : State} (hended : s.manager = .ended)
    (hexited : ∀ p ∈ s.creators, p = .exited) {i : Option Nat} {a : Action} (ha : party i a) :
    step T s a = none := by
  cases a with
  | manager a =>
      rw [step, hended]
      cases a <;> rfl
  | creator j a =>
      rw [step]
      cases hp : s.creators[j]? with
      | none => rfl
      | some p =>
          obtain rfl := hexited p (List.mem_of_getElem? hp)
          cases a <;> rfl
  | _ => cases i <;> cases ha

theorem shutdown_empties_asked : ∃ r : (recorded freshConfig).Run, ∃ n,
    (r.state n).state.manager = .ended ∧ (r.state n).record.pushed = [(.C, 8)] ∧
      Emptied (r.state n) := by
  obtain ⟨r, n, ⟨hended, hcreators, hpushed⟩, hfair⟩ := System.Run.exists_run
    (show (recorded freshConfig).init _ from rfl) (stopRun (.act (.manager .cleanStop)))
    (fun x => x.state.manager = .ended ∧ x.state.creators = [.exited, .exited] ∧
      x.record.pushed = [(.C, 8)]) (by decide)
  have hexited : ∀ p ∈ (r.state n).state.creators, p = .exited := by simp [hcreators]
  have hends (i : Option Nat) (e : Event) (he : party i e.action) :
      recordedStep freshConfig.poolThreshold (r.state n) e = none := by
    rw [recordedStep, step_eq_none_of_ended hended hexited he]
    exact ite_self none
  have hempties := shutdown_empties (fun _ _ h => absurd h List.not_mem_nil) r
    fun i => hfair _ (hends i)
  exact ⟨r, n, hended, hpushed, hempties.2.2 n hended⟩

/-- `containers.get` raises for the container that `clean_pool` has popped: nobody asks
it to stop. -/
theorem not_shutdown_empties : ¬ ∀ x, (recorded freshConfig).Reachable x →
    x.state.manager = .ended → ∀ l c, (l, c) ∈ x.record.pushed →
      popped c x.state.handed = 1 ∧ popped c x.state.cleaned = 0 ∨
        popped c x.state.handed = 0 ∧ popped c x.state.cleaned = 1 ∧ c ∈ x.record.asked := by
  intro h
  obtain ⟨x, hpath, hended, hpushed, hhanded, hasked⟩ := System.exists_path
    (recorded freshConfig) (fun _ _ => True) ⟨freshConfig.start, ⟨[], [], []⟩⟩
    (stopRun .lookupRaises)
    (fun x => x.state.manager = .ended ∧ (Language.C, 8) ∈ x.record.pushed ∧
      popped 8 x.state.handed = 0 ∧ 8 ∉ x.record.asked) (by decide)
  rcases h x ⟨_, rfl, hpath⟩ hended _ _ hpushed with hjudge | hmanager
  · omega
  · exact hasked hmanager.2.2

end ByteBattles.Judge.SandboxManager
