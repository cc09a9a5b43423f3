import ByteBattles.Lib.Transition

/-!
# History variables

A property of what a run has done so far is an invariant of the system that
carries a record beside its state.  The record only watches: every run of the
system is the run of a recorded one, and the other way round.  And what a run has brought
about, one of its steps has.
-/

namespace ByteBattles.Lib

structure Noted (σ ρ : Type*) where
  state : σ
  record : ρ

namespace System

variable {σ α ρ : Type*} (S : System σ α) (start : ρ) (note : σ → α → ρ → ρ)

/-- The system with a record that `note` extends at each step. -/
def noting : System (Noted σ ρ) α where
  init x := S.init x.state ∧ x.record = start
  step x a := (S.step x.state a).map fun t => ⟨t, note x.state a x.record⟩

variable {S start note} {ok : σ → α → Prop}

theorem noting_step {x y : Noted σ ρ} {a : α} (h : (S.noting start note).step x a = some y) :
    S.step x.state a = some y.state ∧ y.record = note x.state a x.record := by
  obtain ⟨t, ht, rfl⟩ := Option.map_eq_some_iff.mp h
  exact ⟨ht, rfl⟩

/-- The record watches and does not interfere. -/
theorem reachableUnder_iff_noting {s : σ} :
    S.ReachableUnder ok s ↔
      ∃ x, (S.noting start note).ReachableUnder (fun x a => ok x.state a) x ∧ x.state = s := by
  constructor
  · rintro ⟨s₀, h₀, hpath⟩
    induction hpath with
    | refl => exact ⟨⟨s₀, start⟩, ⟨_, ⟨h₀, rfl⟩, .refl⟩, rfl⟩
    | tail _ hstep ih =>
        obtain ⟨a, ha, hstep⟩ := hstep
        obtain ⟨x, hx, rfl⟩ := ih
        have hnoted := congrArg (Option.map fun t => Noted.mk t (note x.state a x.record)) hstep
        exact ⟨_, hx.step ha hnoted, rfl⟩
  · rintro ⟨x, ⟨x₀, h₀, hpath⟩, rfl⟩
    induction hpath with
    | refl => exact ⟨_, h₀.1, .refl⟩
    | tail _ hstep ih =>
        obtain ⟨a, ha, hstep⟩ := hstep
        exact ih.step ha (noting_step hstep).1

theorem Reachable.state {x : Noted σ ρ} (h : (S.noting start note).Reachable x) :
    S.Reachable x.state :=
  reachableUnder_iff_noting.mpr ⟨x, h, rfl⟩

/-- The invariant rule for a state and its record, relative to what holds of the states. -/
theorem noting_invariant (S : System σ α) (ok : σ → α → Prop) {I : Noted σ ρ → Prop}
    {J : σ → Prop}
    (hJ : ∀ s, S.ReachableUnder ok s → J s)
    (hinit : ∀ s, S.init s → I ⟨s, start⟩)
    (hstep : ∀ s t a r, J s → ok s a → S.step s a = some t → I ⟨s, r⟩ → I ⟨t, note s a r⟩)
    {x : Noted σ ρ} (h : (S.noting start note).ReachableUnder (fun x a => ok x.state a) x) :
    I x := by
  refine PreservedUnder.reachable (J := fun x => J x.state) ?_ ?_ ?_ h
  · rintro ⟨s, r⟩ ⟨t, r'⟩ a hs hI ha hnoted
    obtain ⟨ht, rfl⟩ := noting_step hnoted
    exact hstep s t a r hs ha ht hI
  · intro y hy
    exact hJ _ (reachableUnder_iff_noting.mpr ⟨y, hy, rfl⟩)
  · rintro ⟨s, r⟩ ⟨hs, rfl⟩
    exact hinit s hs

/-! ## Origins -/

/-- What holds after a path and not before it comes with one of its steps. -/
theorem PathUnder.exists_origin {P : σ → Prop} {s t : σ} (hpath : S.PathUnder ok s t)
    (hs : ¬ P s) (ht : P t) :
    ∃ u u' a, S.PathUnder ok s u ∧ ok u a ∧ S.step u a = some u' ∧ S.PathUnder ok u' t ∧
      ¬ P u ∧ P u' := by
  induction hpath with
  | refl => exact absurd ht hs
  | @tail v w hprev hlast ih =>
      obtain ⟨a, ha, hstep⟩ := hlast
      by_cases hv : P v
      · obtain ⟨u, u', b, hfirst, hb, hu, hrest, horigin⟩ := ih hv
        exact ⟨u, u', b, hfirst, hb, hu, hrest.tail ⟨a, ha, hstep⟩, horigin⟩
      · exact ⟨v, w, a, hprev, ha, hstep, .refl, hv, ht⟩

end System

end ByteBattles.Lib
