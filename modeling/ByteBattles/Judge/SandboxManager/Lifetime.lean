import ByteBattles.Judge.SandboxManager.Isolation

/-!
# A container runs as long as somebody relies on it

A container is relied on from its `start()` on, by the creator that checks it, by the warm
list it stands in and by the judge worker that has taken it.  Whoever asks it to stop is the
only one that relies on it.
-/

namespace ByteBattles.Judge.SandboxManager

open ByteBattles.Lib

def Runs (c : ContainerId) (s : State) : Prop := (s.containers c).map (·.status) = some .running

def Creator.tends (c : ContainerId) : Creator → Nat
  | .started _ c' | .checked _ c' => if c' = c then 1 else 0
  | _ => 0

/-- How many parties rely on `c`. -/
def reliance (c : ContainerId) (creators : List Creator) (warm : Language → List ContainerId)
    (judges : List JudgeWorker) : Nat :=
  weight (Creator.tends c) creators + pooled c warm + weight (JudgeWorker.uses c) judges

def Relies (c : ContainerId) (s : State) : Prop :=
  0 < reliance c s.creators s.warm s.judges

structure Relied (s : State) : Prop where
  runs : ∀ c, Relies c s → Runs c s
  /-- what `clean_pool` is about to stop -/
  removing : ∀ todo c, s.manager = .removing todo (some c) → 0 < popped c s.cleaned

/-! ## Places -/

theorem Creator.tends_le_holds (c : ContainerId) (p : Creator) : p.tends c ≤ p.holds c := by
  cases p <;> simp [Creator.tends, Creator.holds]

theorem weight_tends_le (c : ContainerId) (creators : List Creator) :
    weight (Creator.tends c) creators ≤ weight (Creator.holds c) creators := by
  induction creators with
  | nil => exact Nat.le_refl _
  | cons p creators ih =>
      have := Creator.tends_le_holds c p
      simp only [weight_cons]
      omega

/-- A container that is relied on is in no other place. -/
theorem Placed.reliance_le {s : State} (hs : Placed s) (c : ContainerId) :
    reliance c s.creators s.warm s.judges + popped c s.cleaned ≤ 1 := by
  have := weight_tends_le c s.creators
  have := hs.used c
  have := hs.once c
  unfold reliance
  unfold places at this
  omega

/-! ## The status of a container -/

theorem runs_setStatus {s : State} {c : ContainerId} (h : s.containers c ≠ none) :
    Runs c { s with containers := setStatus s.containers c .running } := by
  obtain ⟨k, hk⟩ := Option.ne_none_iff_exists'.mp h
  simp [Runs, setStatus, hk]

theorem Runs.setStatus_of_ne {s : State} {c c' : ContainerId} (h : Runs c s) (hne : c ≠ c')
    (st : Status) : Runs c { s with containers := setStatus s.containers c' st } := by
  simpa [Runs, setStatus, Function.update_of_ne hne] using h

/-! ## One step -/

section

variable {T : Int} {s t : State}

/-- Nobody new relies on the container, and it goes on running. -/
theorem Relied.of_le (hs : Relied s) (hle : ∀ c, Relies c t → Relies c s)
    (hcontainers : t.containers = s.containers)
    (hremoving : ∀ todo c, t.manager = .removing todo (some c) → 0 < popped c t.cleaned) :
    Relied t where
  removing := hremoving
  runs := by
    intro c hc
    have hruns := hs.runs c (hle c hc)
    unfold Runs at hruns ⊢
    rwa [hcontainers]

/-- Nobody relies on the container that is asked to stop. -/
theorem Relied.of_removed (hs : Relied s) {c' : ContainerId}
    (hle : ∀ c, Relies c t → c ≠ c' ∧ Relies c s)
    (hcontainers : t.containers = setStatus s.containers c' .removed)
    (hremoving : ∀ todo c, t.manager = .removing todo (some c) → 0 < popped c t.cleaned) :
    Relied t where
  removing := hremoving
  runs := by
    intro c hc
    obtain ⟨hne, hc⟩ := hle c hc
    have hruns := (hs.runs c hc).setStatus_of_ne hne .removed
    unfold Runs at hruns ⊢
    rwa [hcontainers]

theorem Relied.creator (hs : Relied s) (hplaced : Placed s) {i : Nat} {p p' : Creator}
    (hp : s.creators[i]? = some p) (h : CreatorMove s p p' t) :
    Relied { t with creators := s.creators.set i p' } := by
  have hset (c : ContainerId) := weight_set (Creator.tends c) hp p'
  have hremoving : ∀ todo c, t.manager = .removing todo (some c) → 0 < popped c t.cleaned := by
    rw [h.frame.1, h.frame.2.2.2.2.2.2]
    exact hs.removing
  have hjudges := h.frame.2.2.1
  -- the creator neither starts nor stops a container
  have hkept (hcontainers : t.containers = s.containers)
      (hle : ∀ c, p'.tends c + pooled c t.warm ≤ p.tends c + pooled c s.warm) :
      Relied { t with creators := s.creators.set i p' } := by
    refine hs.of_le (fun c hc => ?_) hcontainers hremoving
    have := hset c
    have := hle c
    simp only [Relies, reliance, hjudges] at hc ⊢
    omega
  cases h with
  | check =>
      refine hkept rfl fun c => ?_
      split <;> simp [Creator.tends]
  | raise hp =>
      refine hkept rfl fun c => ?_
      simp [Creator.tends]
  | @push l c' =>
      refine hkept rfl fun c => ?_
      have := pooled_update c s.warm l (c' :: s.warm l)
      simp only [Creator.tends, List.count_cons, beq_iff_eq] at this ⊢
      omega
  | @create l c' hnone =>
      refine ⟨fun c hc => ?_, hremoving⟩
      have hruns : Runs c s := by
        apply hs.runs
        have := hset c
        simp only [Relies, reliance, Creator.tends] at hc this ⊢
        omega
      have hne : c ≠ c' := by
        rintro rfl
        simp [Runs, hnone] at hruns
      simpa [Runs, Function.update_of_ne hne] using hruns
  | @start l c' =>
      refine ⟨fun c hc => ?_, hremoving⟩
      by_cases hcc : c = c'
      · subst hcc
        obtain ⟨st, hmade⟩ := hplaced.creator _ (List.mem_of_getElem? hp) l c (.inl rfl)
        exact runs_setStatus (s := s) (by simp [hmade])
      · refine (hs.runs c ?_).setStatus_of_ne hcc .running
        have := hset c
        simp only [Relies, reliance, Creator.tends, if_neg (Ne.symm hcc)] at hc this ⊢
        omega
  | @unhealthy l c' =>
      refine hs.of_removed (fun c hc => ?_) rfl hremoving
      have hone := hplaced.reliance_le c
      have hset := hset c
      simp only [Relies, reliance, Creator.tends] at hc hone hset ⊢
      by_cases hcc : c' = c
      · simp only [hcc, if_true] at hset
        omega
      · simp only [hcc, if_false] at hset
        exact ⟨Ne.symm hcc, by omega⟩
  | _ => exact hkept rfl fun c => by simp [Creator.tends]

theorem Relied.judge (hs : Relied s) (hplaced : Placed s) {w : Nat} {p p' : JudgeWorker}
    {a : JudgeAction} (hp : s.judges[w]? = some p) (h : JudgeMove s p a p' t) :
    Relied { t with judges := s.judges.set w p' } := by
  have hset (c : ContainerId) := weight_set (JudgeWorker.uses c) hp p'
  have hcreators := h.frame.2.2.1
  have hremoving : ∀ todo c, t.manager = .removing todo (some c) → 0 < popped c t.cleaned := by
    rw [h.frame.1, (h.places_eq 0).2.1]
    exact hs.removing
  -- the judge worker stops no container
  have hkept (hcontainers : t.containers = s.containers)
      (hle : ∀ c, p'.uses c + pooled c t.warm ≤ p.uses c + pooled c s.warm) :
      Relied { t with judges := s.judges.set w p' } := by
    refine hs.of_le (fun c hc => ?_) hcontainers hremoving
    have := hset c
    have := hle c
    simp only [Relies, reliance, hcreators] at hc ⊢
    omega
  cases h with
  | acquire hpop =>
      refine hkept rfl fun c => ?_
      have := pooled_rpop hpop c
      simp only [JudgeWorker.uses]
      omega
  | @stop l c' =>
      refine hs.of_removed (fun c hc => ?_) rfl hremoving
      have hone := hplaced.reliance_le c
      have hset := hset c
      simp only [Relies, reliance, JudgeWorker.uses] at hc hone hset ⊢
      by_cases hcc : c' = c
      · simp only [hcc, if_true] at hset
        omega
      · simp only [hcc, if_false] at hset
        exact ⟨Ne.symm hcc, by omega⟩
  | _ => exact hkept rfl fun c => by simp [JudgeWorker.uses]

/-- What `clean_pool` has popped is in no other place. -/
theorem Relied.shutdown (hs : Relied s) (hplaced : Placed s) {a : ManagerAction}
    (h : ShutdownMove s s.manager a t) : Relied t := by
  generalize hm : s.manager = m at h
  cases h with
  | @popped l todo c q hpop =>
      refine hs.of_le (fun c hc => ?_) rfl ?_
      · have := pooled_rpop hpop c
        simp only [Relies, reliance] at hc ⊢
        omega
      · intro todo c hc
        cases hc
        simp [SandboxManager.popped]
  | @asked todo c' =>
      have hcleaned := hs.removing todo c' hm
      refine hs.of_removed (fun c hc => ⟨?_, hc⟩) rfl fun _ _ hc => by cases hc
      rintro rfl
      have := hplaced.reliance_le c
      simp only [Relies] at hc
      omega
  | _ => exact hs.of_le (fun _ hc => hc) rfl fun _ _ hc => by cases hc

theorem Relied.manager (hs : Relied s) (hplaced : Placed s) {a : ManagerAction}
    (hstep : managerStep T s s.manager a = some t) : Relied t := by
  by_cases hstopping : s.manager.stopping = true
  · exact hs.shutdown hplaced (shutdownMove_of_step hstopping hstep)
  · have hmove := managerMove_of_step hstep
    generalize s.manager = m at hmove hstopping
    cases hmove with
    | shutdown hp => exact absurd hp hstopping
    | cleanPop | cleanStop => exact absurd rfl hstopping
    | _ => exact hs.of_le (fun _ hc => hc) rfl fun _ _ hc => by cases hc

end

theorem Relied.step {T : Int} {s t : State} {a : Action} (hs : Relied s) (hplaced : Placed s)
    (hstep : step T s a = some t) : Relied t := by
  cases a with
  | manager a => exact hs.manager hplaced hstep
  | spawnJudge =>
      obtain rfl := Option.some.inj hstep
      refine hs.of_le (fun c hc => ?_) rfl hs.removing
      simpa [Relies, reliance, JudgeWorker.uses] using hc
  | creator i a =>
      cases move_of_step hstep with
      | creator hp hmove => exact hs.creator hplaced hp hmove
  | judge w a =>
      cases move_of_step hstep with
      | judge hp hmove => exact hs.judge hplaced hp hmove

theorem relied_start (cfg : Config) (hempty : ∀ l, cfg.warm l = []) : Relied cfg.start where
  runs := by
    intro c hc
    simp [Relies, reliance, pooled, Config.start, hempty, Creator.tends, Language.all] at hc
  removing := by
    intro todo c hc
    cases hc

theorem relied (cfg : Config) (hempty : ∀ l, cfg.warm l = []) {s : State}
    (h : (system cfg).Reachable s) : Placed s ∧ Relied s := by
  refine System.PreservedUnder.invariant (I := fun s => Placed s ∧ Relied s) ?_ ?_ h
  · intro s t a _ hs _ hstep
    exact ⟨hs.1.step (move_of_step hstep), hs.2.step hs.1 hstep⟩
  · rintro _ rfl
    exact ⟨placed_start cfg hempty, relied_start cfg hempty⟩

end ByteBattles.Judge.SandboxManager
