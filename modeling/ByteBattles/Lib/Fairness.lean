import ByteBattles.Lib.Transition
import Mathlib.Data.Nat.Init
import Mathlib.Tactic.ByContra

/-!
# Fair runs

An infinite run may pause at any time.  If in every state some party can help and every
party that can always take a step takes one, a goal with a rank is reached.
-/

namespace ByteBattles.Lib.System

variable {σ α ι : Type*} {S : System σ α}

/-- An infinite run with the action of each step; `none` is a pause. -/
structure Run (S : System σ α) where
  state : Nat → σ
  action : Nat → Option α
  init : S.init (state 0)
  pause : ∀ n, action n = none → state (n + 1) = state n
  next : ∀ n a, action n = some a → S.step (state n) a = some (state (n + 1))

namespace Run

variable (r : S.Run)

theorem reachable (n : Nat) : S.Reachable (r.state n) := by
  induction n with
  | zero => exact ⟨_, r.init, .refl⟩
  | succ n ih =>
      cases haction : r.action n with
      | none => rwa [r.pause n haction]
      | some a => exact ih.step trivial (r.next n a haction)

/-- A party that can take a step at any time from some time on takes one. -/
def Fair (party : α → Prop) : Prop :=
  ∀ n, (∀ m, n ≤ m → ∃ a, party a ∧ (S.step (r.state m) a).isSome) →
    ∃ m a, n ≤ m ∧ r.action m = some a ∧ party a

theorem always {I : σ → Prop} {n : Nat} (hn : I (r.state n))
    (hstep : ∀ m a, n ≤ m → r.action m = some a → I (r.state m) → I (r.state (m + 1))) :
    ∀ m, n ≤ m → I (r.state m) := by
  intro m hm
  induction m, hm using Nat.le_induction with
  | base => exact hn
  | succ m hm ih =>
      cases haction : r.action m with
      | none => rwa [r.pause m haction]
      | some a => exact hstep m a hm haction ih

variable {r} {I goal : σ → Prop} {rank : σ → Nat} {helper : σ → ι} {party : ι → α → Prop}

/-- As long as the goal is not reached, the rank decreases some time. -/
theorem exists_rank_lt (hfair : ∀ i, r.Fair (party i))
    (henabled : ∀ s, I s → ¬ goal s → ∃ a, party (helper s) a ∧ (S.step s a).isSome)
    (hstep : ∀ s t a, I s → ¬ goal s → S.step s a = some t → goal t ∨ rank t < rank s ∨
      (rank t = rank s ∧ helper t = helper s ∧ ¬ party (helper s) a))
    {n : Nat} (hI : ∀ m, n ≤ m → I (r.state m)) (hgoal : ∀ m, n ≤ m → ¬ goal (r.state m)) :
    ∃ m, n ≤ m ∧ rank (r.state m) < rank (r.state n) := by
  by_contra hnone
  have hnext (m : Nat) (a : α) (hm : n ≤ m) (haction : r.action m = some a)
      (hrank : rank (r.state m) = rank (r.state n)) :
      rank (r.state (m + 1)) = rank (r.state n) ∧
        helper (r.state (m + 1)) = helper (r.state m) ∧ ¬ party (helper (r.state m)) a := by
    rcases hstep _ _ a (hI m hm) (hgoal m hm) (r.next m a haction) with h | h | h
    · exact absurd h (hgoal (m + 1) (by omega))
    · exact absurd ⟨m + 1, by omega, hrank ▸ h⟩ hnone
    · exact ⟨h.1.trans hrank, h.2⟩
  -- the same party stays the helper for ever
  have hstays := r.always (I := fun s => rank s = rank (r.state n) ∧
    helper s = helper (r.state n)) ⟨rfl, rfl⟩ fun m a hm haction ⟨hrank, hhelper⟩ => by
      obtain ⟨hrank', hhelper', -⟩ := hnext m a hm haction hrank
      exact ⟨hrank', hhelper'.trans hhelper⟩
  obtain ⟨m, a, hm, haction, hparty⟩ := hfair (helper (r.state n)) n fun m hm => by
    rw [← (hstays m hm).2]
    exact henabled _ (hI m hm) (hgoal m hm)
  obtain ⟨hrank, hhelper⟩ := hstays m hm
  exact (hnext m a hm haction hrank).2.2 (hhelper ▸ hparty)

/-- **The rank rule.** -/
theorem eventually (hfair : ∀ i, r.Fair (party i))
    (henabled : ∀ s, I s → ¬ goal s → ∃ a, party (helper s) a ∧ (S.step s a).isSome)
    (hstep : ∀ s t a, I s → ¬ goal s → S.step s a = some t → goal t ∨ rank t < rank s ∨
      (rank t = rank s ∧ helper t = helper s ∧ ¬ party (helper s) a))
    {n : Nat} (hI : ∀ m, n ≤ m → I (r.state m)) : ∃ m, n ≤ m ∧ goal (r.state m) := by
  induction hk : rank (r.state n) using Nat.strongRecOn generalizing n with
  | ind k ih =>
      by_contra hnone
      have hgoal (m : Nat) (hm : n ≤ m) : ¬ goal (r.state m) := fun h => hnone ⟨m, hm, h⟩
      obtain ⟨m, hm, hlt⟩ := exists_rank_lt hfair henabled hstep hI hgoal
      obtain ⟨m', hm', hgoal'⟩ := ih _ (hk ▸ hlt) (fun j hj => hI j (Nat.le_trans hm hj)) rfl
      exact hgoal m' (Nat.le_trans hm hm') hgoal'

/-! ## Runs seen by another system -/

/-- A run whose states and actions another system sees less of. -/
def map {τ β : Type*} {T : System τ β} (r : S.Run) (f : σ → τ) (g : α → β)
    (hinit : ∀ s, S.init s → T.init (f s))
    (hstep : ∀ s a t, S.step s a = some t → T.step (f s) (g a) = some (f t)) : T.Run where
  state n := f (r.state n)
  action n := (r.action n).map g
  init := hinit _ r.init
  pause n h := by rw [r.pause n (Option.map_eq_none_iff.mp h)]
  next n b h := by
    obtain ⟨a, ha, rfl⟩ := Option.map_eq_some_iff.mp h
    exact hstep _ _ _ (r.next n a ha)

/-- A party is treated fairly in both systems. -/
theorem Fair.map {τ β : Type*} {T : System τ β} {r : S.Run} {f : σ → τ} {g : α → β}
    {hinit : ∀ s, S.init s → T.init (f s)}
    {hstep : ∀ s a t, S.step s a = some t → T.step (f s) (g a) = some (f t)}
    {party : β → Prop} (h : r.Fair fun a => party (g a))
    (henabled : ∀ s b, (T.step (f s) b).isSome → ∃ a, g a = b ∧ (S.step s a).isSome) :
    (r.map f g hinit hstep).Fair party := by
  intro n hn
  obtain ⟨m, a, hm, haction, hparty⟩ := h n fun m hm => by
    obtain ⟨b, hparty, hb⟩ := hn m hm
    obtain ⟨a, rfl, ha⟩ := henabled _ b hb
    exact ⟨a, hparty, ha⟩
  exact ⟨m, g a, hm, by simp [Run.map, haction], hparty⟩

/-! ## Runs that pause for ever after some actions -/

theorem runUnder_append (s : σ) (as bs : List α) :
    S.runUnder (fun _ _ => True) s (as ++ bs) =
      (S.runUnder (fun _ _ => True) s as).bind fun t => S.runUnder (fun _ _ => True) t bs := by
  induction as generalizing s with
  | nil => rfl
  | cons a as ih =>
      simp only [List.cons_append, runUnder, if_true, Option.bind_assoc]
      exact congrArg _ (funext ih)

variable {s t : σ} {as : List α}

/-- Take the actions one after the other, then pause for ever. -/
def ofActions (hs : S.init s) (h : S.runUnder (fun _ _ => True) s as = some t) : S.Run where
  state n := (S.runUnder (fun _ _ => True) s (as.take n)).getD s
  action n := as[n]?
  init := hs
  pause n hn := by
    have hn := List.getElem?_eq_none_iff.mp hn
    rw [List.take_of_length_le hn, List.take_of_length_le (by omega)]
  next n a ha := by
    rw [← List.take_append_drop (n + 1) as, runUnder_append] at h
    obtain ⟨u, hu, -⟩ := Option.bind_eq_some_iff.mp h
    have htake : as.take (n + 1) = as.take n ++ [a] := by rw [List.take_add_one, ha]; rfl
    rw [hu]
    rw [htake, runUnder_append] at hu
    obtain ⟨u', hu', hstep⟩ := Option.bind_eq_some_iff.mp hu
    simpa [hu', runUnder] using hstep

theorem ofActions_state (hs : S.init s) (h : S.runUnder (fun _ _ => True) s as = some t)
    {n : Nat} (hn : as.length ≤ n) : (ofActions hs h).state n = t := by
  change (S.runUnder _ s (as.take n)).getD s = t
  rw [List.take_of_length_le hn, h]
  rfl

/-- A run of some actions is fair to every party that has come to its end. -/
theorem exists_run (hs : S.init s) (as : List α) (p : σ → Prop) [DecidablePred p]
    (h : (S.runUnder (fun _ _ => True) s as).any (fun t => decide (p t)) = true) :
    ∃ (r : S.Run) (n : Nat), p (r.state n) ∧
      ∀ party : α → Prop, (∀ a, party a → S.step (r.state n) a = none) → r.Fair party := by
  cases ht : S.runUnder (fun _ _ => True) s as with
  | none => simp [ht] at h
  | some t =>
      have hlast := ofActions_state hs ht (Nat.le_refl as.length)
      refine ⟨ofActions hs ht, as.length, ?_, fun party hend n hn => ?_⟩
      · rw [hlast]
        simpa [ht] using h
      · obtain ⟨a, hparty, ha⟩ := hn (max n as.length) (Nat.le_max_left ..)
        rw [ofActions_state hs ht (Nat.le_max_right ..), ← hlast, hend a hparty] at ha
        cases ha

end Run

end ByteBattles.Lib.System
