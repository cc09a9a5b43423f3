import ByteBattles.Judge.SandboxManager.Moves

/-!
# A sandbox is used by at most one submission

A container id exists in one place: with the creator that made it, in one warm
list, or in the history of what was popped.  Every step moves it at most once
and forward, so that the places add up to at most one for every id.
-/

namespace ByteBattles.Judge.SandboxManager

open ByteBattles.Lib

def Creator.holds (c : ContainerId) : Creator → Nat
  | .created _ c' | .started _ c' | .checked _ c' => if c' = c then 1 else 0
  | _ => 0

def Creator.carries (l : Language) (c : ContainerId) (p : Creator) : Prop :=
  p = .created l c ∨ p = .started l c ∨ p = .checked l c

def JudgeWorker.uses (c : ContainerId) : JudgeWorker → Nat
  | .acquired _ c' | .published _ c' | .using _ c' => if c' = c then 1 else 0
  | _ => 0

def pooled (c : ContainerId) (warm : Language → List ContainerId) : Nat :=
  weight (fun l => (warm l).count c) Language.all

def popped (c : ContainerId) (history : List (Language × ContainerId)) : Nat :=
  (history.map Prod.snd).count c

def places (c : ContainerId) (s : State) : Nat :=
  weight (Creator.holds c) s.creators + pooled c s.warm + popped c s.handed + popped c s.cleaned

def MadeFor (l : Language) (c : ContainerId) (s : State) : Prop :=
  ∃ st, s.containers c = some ⟨l, IMAGE l, st⟩

/-! ## The warm lists -/

theorem pooled_update (c : ContainerId) (warm : Language → List ContainerId) (l : Language)
    (q : List ContainerId) :
    pooled c (Function.update warm l q) + (warm l).count c = pooled c warm + q.count c := by
  cases l <;> simp [pooled, Language.all, Function.update] <;> omega

theorem count_le_pooled (c : ContainerId) (warm : Language → List ContainerId) (l : Language) :
    (warm l).count c ≤ pooled c warm :=
  le_weight (fun l => (warm l).count c) l.mem_all

@[simp] theorem popped_cons (c : ContainerId) (e : Language × ContainerId)
    (history : List (Language × ContainerId)) :
    popped c (e :: history) = popped c history + if e.2 = c then 1 else 0 := by
  simp [popped, List.count_cons]

/-! ## One step -/

theorem MadeFor.setStatus {l : Language} {c c' : ContainerId} {s : State} {st : Status}
    (h : MadeFor l c s) :
    MadeFor l c { s with containers := setStatus s.containers c' st } := by
  obtain ⟨st₀, hc⟩ := h
  by_cases hcc : c = c'
  · subst hcc
    exact ⟨st, by simp [SandboxManager.setStatus, hc]⟩
  · exact ⟨st₀, by simp [SandboxManager.setStatus, Function.update_of_ne hcc, hc]⟩

/-- No step changes the language or the image of a container. -/
theorem MadeFor.step {T : Int} {l : Language} {c : ContainerId} {s t : State} {a : Action}
    (h : MadeFor l c s) (hmove : Move T s a t) : MadeFor l c t := by
  cases hmove with
  | spawnJudge => exact h
  | creator hp hmove =>
      cases hmove
      case create l' c' hnone =>
        obtain ⟨st, hc⟩ := h
        have hcc : c ≠ c' := by
          rintro rfl
          simp [hnone] at hc
        exact ⟨st, by simp [Function.update_of_ne hcc, hc]⟩
      case start => exact h.setStatus
      case unhealthy => exact h.setStatus
      all_goals exact h
  | manager hmove =>
      generalize s.manager = m at hmove
      cases hmove
      case cleanStop => exact h.setStatus
      all_goals exact h
  | judge hp hmove =>
      cases hmove
      case stop => exact h.setStatus
      all_goals exact h

theorem setStatus_ne_none {containers : ContainerId → Option Container} {c : ContainerId}
    (h : containers c ≠ none) (c' : ContainerId) (st : Status) :
    setStatus containers c' st c ≠ none := by
  by_cases hcc : c = c'
  · subst hcc
    simpa [setStatus] using h
  · simpa [setStatus, Function.update_of_ne hcc] using h

/-- The daemon forgets no id. -/
theorem Move.known {T : Int} {s t : State} {a : Action} (hmove : Move T s a t)
    {c : ContainerId} (h : s.containers c ≠ none) : t.containers c ≠ none := by
  cases hmove with
  | spawnJudge => exact h
  | creator hp hmove =>
      cases hmove
      case create l' c' hnone =>
        have hcc : c ≠ c' := by
          rintro rfl
          exact h hnone
        simpa [Function.update_of_ne hcc] using h
      case start => exact setStatus_ne_none h _ _
      case unhealthy => exact setStatus_ne_none h _ _
      all_goals exact h
  | manager hmove =>
      generalize s.manager = m at hmove
      cases hmove
      case cleanStop => exact setStatus_ne_none h _ _
      all_goals exact h
  | judge hp hmove =>
      cases hmove
      case stop => exact setStatus_ne_none h _ _
      all_goals exact h

/-- A creator only moves a container on, or makes one with an unused id. -/
theorem CreatorMove.places_le {s t : State} {p p' : Creator} (h : CreatorMove s p p' t)
    (c : ContainerId) :
    p'.holds c + pooled c t.warm ≤ p.holds c + pooled c s.warm ∨
      s.containers c = none ∧ t.containers c ≠ none ∧ p'.holds c = 1 ∧ t.warm = s.warm := by
  cases h
  case check => left; split <;> simp [Creator.holds]
  case create l c' hnone =>
    by_cases hcc : c' = c
    · subst hcc
      exact .inr ⟨hnone, by simp, by simp [Creator.holds], rfl⟩
    · left
      simp [Creator.holds, hcc]
  case push l c' =>
    left
    have := pooled_update c s.warm l (c' :: s.warm l)
    simp only [Creator.holds, List.count_cons, beq_iff_eq] at this ⊢
    omega
  case raise l hp =>
    left
    rcases hp with rfl | ⟨c', rfl | rfl⟩ <;> simp [Creator.holds]
  all_goals simp [Creator.holds]

/-- A pop moves a container from a warm list to the history. -/
theorem pooled_rpop {warm : Language → List ContainerId} {l : Language} {c' : ContainerId}
    {q : List ContainerId} (h : rpop (warm l) = some (c', q)) (c : ContainerId) :
    pooled c (Function.update warm l q) + (if c' = c then 1 else 0) = pooled c warm := by
  have := pooled_update c warm l q
  have := count_of_rpop h c
  omega

theorem JudgeMove.places_eq {s t : State} {p p' : JudgeWorker} {a : JudgeAction}
    (h : JudgeMove s p a p' t) (c : ContainerId) :
    pooled c t.warm + popped c t.handed = pooled c s.warm + popped c s.handed ∧
      t.cleaned = s.cleaned ∧ p'.uses c + popped c s.handed ≤ p.uses c + popped c t.handed := by
  cases h
  case acquire l c' q hq =>
    have := pooled_rpop hq c
    simp only [popped_cons, JudgeWorker.uses]
    exact ⟨by omega, trivial, by omega⟩
  all_goals exact ⟨rfl, rfl, by simp [JudgeWorker.uses]⟩

theorem ManagerMove.places_eq {T : Int} {s t : State} {p : Manager} {a : ManagerAction}
    (h : ManagerMove T s p a t) (c : ContainerId) :
    pooled c t.warm + popped c t.cleaned = pooled c s.warm + popped c s.cleaned := by
  cases h
  case cleanPop l todo c' q hq =>
    have := pooled_rpop hq c
    simp only [popped_cons]
    omega
  all_goals rfl

/-- An id gains a place only in the step that creates the container. -/
theorem Move.places_le {T : Int} {s t : State} {a : Action} (h : Move T s a t)
    (c : ContainerId) :
    places c t ≤ places c s ∨
      s.containers c = none ∧ t.containers c ≠ none ∧ places c t ≤ places c s + 1 := by
  cases h with
  | spawnJudge => exact .inl (Nat.le_refl _)
  | @creator i a p p' t hp hmove =>
      obtain ⟨-, -, -, -, -, hh, hcl⟩ := hmove.frame
      have hw := weight_set (Creator.holds c) hp p'
      simp only [places, hh, hcl]
      rcases hmove.places_le c with hle | ⟨hnone, hsome, hone, hwarm⟩
      · left
        omega
      · refine .inr ⟨hnone, hsome, ?_⟩
        rw [hwarm]
        omega
  | manager hmove =>
      have := hmove.places_eq c
      obtain ⟨hc, -, hh⟩ := hmove.frame
      left
      simp only [places, hc, hh]
      omega
  | judge hp hmove =>
      obtain ⟨hpop, hcl, -⟩ := hmove.places_eq c
      obtain ⟨-, -, hc, -⟩ := hmove.frame
      left
      simp only [places, hc, hcl]
      omega

/-- Every place of a container is accounted for, and labelled with its language. -/
structure Placed (s : State) : Prop where
  once : ∀ c, places c s ≤ 1
  known : ∀ c, 0 < places c s → s.containers c ≠ none
  warm : ∀ l c, c ∈ s.warm l → MadeFor l c s
  creator : ∀ p ∈ s.creators, ∀ l c, p.carries l c → MadeFor l c s
  made : ∀ l c, (l, c) ∈ s.handed ++ s.cleaned → MadeFor l c s
  used : ∀ c, weight (JudgeWorker.uses c) s.judges ≤ popped c s.handed

theorem mem_of_mem_update_rpop {warm : Language → List ContainerId} {l l' : Language}
    {c c' : ContainerId} {q : List ContainerId} (h : rpop (warm l') = some (c', q))
    (hc : c ∈ Function.update warm l' q l) : c ∈ warm l := by
  by_cases hl : l = l'
  · subst hl
    rw [Function.update_self] at hc
    rw [rpop_eq_some.mp h]
    exact List.mem_append_left _ hc
  · rwa [Function.update_of_ne hl] at hc

theorem Move.mem_warm {T : Int} {s t : State} {a : Action} (h : Move T s a t)
    {l : Language} {c : ContainerId} (hc : c ∈ t.warm l) :
    c ∈ s.warm l ∨ Creator.checked l c ∈ s.creators := by
  cases h with
  | spawnJudge => exact .inl hc
  | creator hp hmove =>
      cases hmove
      case push l' c' =>
        by_cases hl : l = l'
        · subst hl
          simp only [Function.update_self, List.mem_cons] at hc
          rcases hc with rfl | hc
          · exact .inr (List.mem_of_getElem? hp)
          · exact .inl hc
        · exact .inl (by simpa only [Function.update_of_ne hl] using hc)
      all_goals exact .inl hc
  | manager hmove =>
      generalize s.manager = m at hmove
      cases hmove
      case cleanPop hq => exact .inl (mem_of_mem_update_rpop hq hc)
      all_goals exact .inl hc
  | judge hp hmove =>
      cases hmove
      case acquire hq => exact .inl (mem_of_mem_update_rpop hq hc)
      all_goals exact .inl hc

theorem CreatorMove.carries {s t : State} {p p' : Creator} (h : CreatorMove s p p' t)
    {l : Language} {c : ContainerId} (hc : p'.carries l c) :
    p.carries l c ∨ MadeFor l c t := by
  cases h
  case check => split at hc <;> simp [Creator.carries] at hc
  case create l' c' hnone =>
    right
    obtain ⟨rfl, rfl⟩ : l' = l ∧ c' = c := by simpa [Creator.carries] using hc
    exact ⟨.created, by simp⟩
  all_goals simp_all [Creator.carries]

theorem Move.carries_made {T : Int} {s t : State} {a : Action} (h : Move T s a t)
    (hs : ∀ p ∈ s.creators, ∀ l c, p.carries l c → MadeFor l c s) :
    ∀ p ∈ t.creators, ∀ l c, p.carries l c → MadeFor l c t := by
  intro p hp l c hc
  have hkeep : MadeFor l c s → MadeFor l c t := fun hmade => hmade.step h
  cases h with
  | spawnJudge => exact hs p hp l c hc
  | manager hmove => exact hkeep (hs p (hmove.frame.1 ▸ hp) l c hc)
  | judge hget hmove => exact hkeep (hs p (hmove.frame.2.2.1 ▸ hp) l c hc)
  | creator hget hmove =>
      rcases List.mem_or_eq_of_mem_set hp with hp | rfl
      · exact hkeep (hs p hp l c hc)
      · rcases hmove.carries hc with hold | hnew
        · exact hkeep (hs _ (List.mem_of_getElem? hget) l c hold)
        · exact hnew

theorem Move.mem_popped {T : Int} {s t : State} {a : Action} (h : Move T s a t)
    {l : Language} {c : ContainerId} (hc : (l, c) ∈ t.handed ++ t.cleaned) :
    (l, c) ∈ s.handed ++ s.cleaned ∨ c ∈ s.warm l := by
  have hpopped {l' : Language} {c' : ContainerId} {q : List ContainerId}
      (hq : rpop (s.warm l') = some (c', q)) (heq : (l, c) = (l', c')) : c ∈ s.warm l := by
    obtain ⟨rfl, rfl⟩ := Prod.mk.inj heq
    simp [rpop_eq_some.mp hq]
  cases h with
  | spawnJudge => exact .inl hc
  | creator hp hmove =>
      obtain ⟨-, -, -, -, -, hh, hcl⟩ := hmove.frame
      exact .inl (hh ▸ hcl ▸ hc)
  | manager hmove =>
      generalize s.manager = m at hmove
      cases hmove
      case cleanPop l' todo c' q hq =>
        rw [List.mem_append, List.mem_cons] at hc
        rw [List.mem_append]
        rcases hc with hc | heq | hc
        · exact .inl (.inl hc)
        · exact .inr (hpopped hq heq)
        · exact .inl (.inr hc)
      all_goals exact .inl hc
  | judge hp hmove =>
      cases hmove
      case acquire l' c' q hq =>
        rcases List.mem_cons.mp hc with heq | hc
        · exact .inr (hpopped hq heq)
        · exact .inl hc
      all_goals exact .inl hc

theorem Placed.step {T : Int} {s t : State} {a : Action} (hs : Placed s)
    (h : Move T s a t) : Placed t := by
  have hplaces := h.places_le
  refine ⟨fun c => ?_, fun c hc => ?_, fun l c hc => ?_, fun p hp l c hc => ?_,
    fun l c hc => ?_, fun c => ?_⟩
  · -- an id with a place is known, so it is not drawn again
    have := hs.once c
    rcases hplaces c with hle | ⟨hnone, -, hle⟩
    · omega
    · have : ¬ 0 < places c s := fun hpos => hs.known c hpos hnone
      omega
  · rcases hplaces c with hle | ⟨-, hsome, -⟩
    · exact h.known (hs.known c (by omega))
    · exact hsome
  · refine MadeFor.step ?_ h
    rcases h.mem_warm hc with hc | hc
    · exact hs.warm l c hc
    · exact hs.creator _ hc l c (.inr (.inr rfl))
  · exact h.carries_made hs.creator p hp l c hc
  · refine MadeFor.step ?_ h
    rcases h.mem_popped hc with hc | hc
    · exact hs.made l c hc
    · exact hs.warm l c hc
  · have hused := hs.used c
    cases h with
    | spawnJudge => simpa [JudgeWorker.uses] using hused
    | manager hmove =>
        obtain ⟨-, hj, hh⟩ := hmove.frame
        rwa [hj, hh]
    | creator hget hmove =>
        obtain ⟨-, -, hj, -, -, hh, -⟩ := hmove.frame
        simpa only [hj, hh] using hused
    | @judge w a p p' t hget hmove =>
        obtain ⟨-, -, huses⟩ := hmove.places_eq c
        have hw := weight_set (JudgeWorker.uses c) hget p'
        show weight (JudgeWorker.uses c) (s.judges.set w p') ≤ popped c t.handed
        omega

theorem placed_start (cfg : Config) (hempty : ∀ l, cfg.warm l = []) : Placed cfg.start := by
  have hnone : ∀ c, places c cfg.start = 0 := by
    intro c
    simp [places, pooled, popped, Config.start, hempty, Creator.holds, Language.all]
  refine ⟨fun c => ?_, fun c hc => ?_, fun l c hc => ?_, fun p hp l c hc => ?_,
    fun l c hc => ?_, fun c => ?_⟩
  · rw [hnone]
    omega
  · rw [hnone] at hc
    omega
  · simp [Config.start, hempty] at hc
  · obtain rfl := List.eq_of_mem_replicate hp
    simp [Creator.carries] at hc
  · simp [Config.start] at hc
  · simp [Config.start]

/-! ## Isolation -/

/-- Every container is in one place, and is handed to one call of `process_submission`. -/
structure Isolated (s : State) : Prop where
  /-- at most once over all warm lists -/
  warm_nodup : (Language.all.flatMap s.warm).Nodup
  /-- handed out by at most one call of `acquire_warm_sandbox` -/
  handed_nodup : (s.handed.map Prod.snd).Nodup
  /-- used by at most one judge worker -/
  used_once : ∀ c, weight (JudgeWorker.uses c) s.judges ≤ 1
  /-- what was popped, by a judge worker or by `clean_pool`, is in no warm list -/
  not_warm : ∀ e ∈ s.handed ++ s.cleaned, ∀ l, e.2 ∉ s.warm l
  /-- what was popped for a language was created for it, from its image -/
  language : ∀ l c, (l, c) ∈ s.handed ++ s.cleaned → MadeFor l c s

theorem Placed.isolated {s : State} (hs : Placed s) : Isolated s := by
  have hpooled : ∀ c, (Language.all.flatMap s.warm).count c = pooled c s.warm := by
    intro c
    rw [List.count_flatMap]
    rfl
  refine ⟨?_, ?_, fun c => ?_, fun e he l hmem => ?_, hs.made⟩
  · rw [List.nodup_iff_count_le_one]
    intro c
    have := hs.once c
    rw [hpooled]
    unfold places at this
    omega
  · rw [List.nodup_iff_count_le_one]
    intro c
    have := hs.once c
    unfold places popped at this
    omega
  · have := hs.used c
    have := hs.once c
    unfold places at this
    omega
  · have := hs.once e.2
    have hwarm := count_le_pooled e.2 s.warm l
    have hone := List.count_pos_iff.mpr hmem
    have hpop : 0 < popped e.2 s.handed + popped e.2 s.cleaned := by
      rw [popped, popped, ← List.count_append, ← List.map_append]
      exact List.count_pos_iff.mpr (List.mem_map_of_mem he)
    unfold places at this
    omega

/-- **A sandbox is used by at most one submission**, whatever the creators, the
judge workers and `clean_pool` do. -/
theorem isolated_of_reachable (cfg : Config) (hempty : ∀ l, cfg.warm l = []) {s : State}
    (h : (system cfg).Reachable s) : Isolated s := by
  refine Placed.isolated (System.PreservedUnder.invariant ?_ ?_ h)
  · intro s t a _ hs _ hstep
    exact hs.step (move_of_step hstep)
  · rintro _ rfl
    exact placed_start cfg hempty

def freshConfig : Config where
  poolThreshold := 1
  workerCount := 2
  warm := fun _ => []
  containers := fun _ => none

/-- The first creation for `C` fails its health check and is retried by the other
creator; a judge worker takes the container and dies with it. -/
def retryRun : List Action :=
  [.manager .maintain, .manager .count, .manager .readPending, .manager .updatePending,
    .manager .put, .creator 0 .check, .creator 0 .get, .creator 0 (.create 5),
    .creator 0 .start, .creator 0 .healthcheckFails, .creator 0 .requeue,
    .creator 1 .check, .creator 1 .get, .creator 1 (.create 8), .creator 1 .start,
    .creator 1 .healthcheck, .creator 1 .push, .spawnJudge, .judge 0 (.acquire .C),
    .judge 0 .publish, .judge 0 .die]

theorem isolated_retry :
    ∃ s, (system freshConfig).Reachable s ∧ s.handed = [(.C, 8)] ∧ Isolated s := by
  obtain ⟨s, hs, hh⟩ := System.exists_path (system freshConfig) (fun _ _ => True)
    freshConfig.start retryRun (fun s => s.handed = [(.C, 8)]) (by decide)
  exact ⟨s, ⟨_, rfl, hs⟩, hh, isolated_of_reachable freshConfig (fun _ => rfl) ⟨_, rfl, hs⟩⟩

end ByteBattles.Judge.SandboxManager
