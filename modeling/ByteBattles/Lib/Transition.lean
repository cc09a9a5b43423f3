import Mathlib.Logic.Basic
import Mathlib.Logic.Relation

/-!
# Executable transition systems

A system is a set of initial states and a partial step function, so that a
concrete interleaving is evaluated by `runUnder` and a property of all interleavings
is an invariant of `step`.  Runs are restricted by a condition on the state
before each step (`PathUnder`, `ReachableUnder`): a result about every run whose
steps avoid some defect is an invariant under the condition that avoids it.
-/

namespace ByteBattles.Lib

/-- `step s a = none` says that the action `a` is not enabled in `s`. -/
structure System (σ α : Type*) where
  init : σ → Prop
  step : σ → α → Option σ

namespace System

variable {σ α : Type*} (S : System σ α)

/-- One step whose action the condition `ok` allows in the state before it. -/
def StepUnder (ok : σ → α → Prop) (s t : σ) : Prop :=
  ∃ a, ok s a ∧ S.step s a = some t

/-- Zero or more steps, each of them allowed by `ok`. -/
def PathUnder (ok : σ → α → Prop) : σ → σ → Prop :=
  Relation.ReflTransGen (S.StepUnder ok)

/-- The states of the runs from an initial state whose steps `ok` allows. -/
def ReachableUnder (ok : σ → α → Prop) (t : σ) : Prop :=
  ∃ s, S.init s ∧ S.PathUnder ok s t

def Reachable : σ → Prop := S.ReachableUnder fun _ _ => True

/-- Take the actions one after the other; `none` when one is not enabled or not allowed. -/
def runUnder (ok : σ → α → Prop) [∀ s a, Decidable (ok s a)] : σ → List α → Option σ
  | s, [] => some s
  | s, a :: as => if ok s a then (S.step s a).bind fun t => runUnder ok t as else none

variable {S} {ok : σ → α → Prop} {I J : σ → Prop}

theorem PathUnder.mono {ok' : σ → α → Prop} (hok : ∀ s a, ok s a → ok' s a) {s t : σ}
    (h : S.PathUnder ok s t) : S.PathUnder ok' s t :=
  Relation.ReflTransGen.mono (fun _ _ ⟨a, ha, hstep⟩ => ⟨a, hok _ a ha, hstep⟩) _ _ h

theorem ReachableUnder.mono {ok' : σ → α → Prop} (hok : ∀ s a, ok s a → ok' s a) {s : σ}
    (h : S.ReachableUnder ok s) : S.ReachableUnder ok' s := by
  obtain ⟨s₀, h₀, hpath⟩ := h
  exact ⟨s₀, h₀, hpath.mono hok⟩

theorem ReachableUnder.step {s t : σ} {a : α} (h : S.ReachableUnder ok s) (ha : ok s a)
    (hstep : S.step s a = some t) : S.ReachableUnder ok t := by
  obtain ⟨s₀, h₀, hpath⟩ := h
  exact ⟨s₀, h₀, hpath.tail ⟨a, ha, hstep⟩⟩

/-- A run of actions that satisfy `Q` is a path. -/
theorem path_of_runUnder_of [∀ s a, Decidable (ok s a)] {Q : α → Prop} {s t : σ} {as : List α}
    (hQ : ∀ a ∈ as, Q a) (h : S.runUnder ok s as = some t) :
    S.PathUnder (fun s a => Q a ∧ ok s a) s t := by
  induction as generalizing s with
  | nil =>
      obtain rfl : s = t := Option.some.inj h
      exact .refl
  | cons a as ih =>
      rw [runUnder] at h
      split at h
      case isTrue hok =>
        obtain ⟨u, hu, hrest⟩ := Option.bind_eq_some_iff.mp h
        have ha := hQ a (List.mem_cons_self ..)
        have has := ih (fun b hb => hQ b (List.mem_cons_of_mem _ hb)) hrest
        exact .head ⟨a, ⟨ha, hok⟩, hu⟩ has
      case isFalse => cases h

theorem path_of_runUnder [∀ s a, Decidable (ok s a)] {s t : σ} {as : List α}
    (h : S.runUnder ok s as = some t) : S.PathUnder ok s t := by
  have hpath := path_of_runUnder_of (Q := fun _ => True) (fun _ _ => trivial) h
  exact hpath.mono fun _ _ hok => hok.2

/-- Evaluating a run yields a path, with a decidable fact about its last state. -/
theorem exists_path_of (S : System σ α) (ok : σ → α → Prop) [∀ s a, Decidable (ok s a)]
    {Q : α → Prop} (s : σ) {as : List α} (hQ : ∀ a ∈ as, Q a) (p : σ → Prop) [DecidablePred p]
    (h : (S.runUnder ok s as).any (fun t => decide (p t)) = true) :
    ∃ t, S.PathUnder (fun s a => Q a ∧ ok s a) s t ∧ p t := by
  cases ht : S.runUnder ok s as with
  | none => simp [ht] at h
  | some t => exact ⟨t, path_of_runUnder_of hQ ht, by simpa [ht] using h⟩

theorem exists_path (S : System σ α) (ok : σ → α → Prop) [∀ s a, Decidable (ok s a)]
    (s : σ) (as : List α) (p : σ → Prop) [DecidablePred p]
    (h : (S.runUnder ok s as).any (fun t => decide (p t)) = true) :
    ∃ t, S.PathUnder ok s t ∧ p t := by
  obtain ⟨t, hpath, ht⟩ := exists_path_of S ok (Q := fun _ => True) s (fun _ _ => trivial) p h
  exact ⟨t, hpath.mono fun _ _ hok => hok.2, ht⟩

theorem exists_path_then (S : System σ α) (ok : σ → α → Prop) [∀ s a, Decidable (ok s a)]
    (s : σ) (as bs : List α) (p : σ → σ → Prop) [∀ s t, Decidable (p s t)]
    (h : (S.runUnder ok s as).any (fun t => (S.runUnder ok t bs).any fun u => decide (p t u)) =
      true) :
    ∃ t u, S.PathUnder ok s t ∧ S.PathUnder ok t u ∧ p t u := by
  obtain ⟨t, hfirst, hsecond⟩ := S.exists_path ok s as
    (fun t => (S.runUnder ok t bs).any (fun u => decide (p t u)) = true) (by simpa using h)
  obtain ⟨u, hlast, hp⟩ := S.exists_path ok t bs (p t) hsecond
  exact ⟨t, u, hfirst, hlast, hp⟩

/-- If every step descends in a well-founded relation, some run cannot be continued. -/
theorem exists_stuck {r : σ → σ → Prop} (wf : WellFounded r)
    (hr : ∀ s t a, S.step s a = some t → r t s) (s : σ) :
    ∃ t, S.PathUnder (fun _ _ => True) s t ∧ ∀ a, S.step t a = none := by
  induction s using wf.induction with
  | _ s ih =>
      by_cases hs : ∀ a, S.step s a = none
      · exact ⟨s, .refl, hs⟩
      · obtain ⟨a, ha⟩ := not_forall.mp hs
        obtain ⟨u, hu⟩ := Option.ne_none_iff_exists'.mp ha
        obtain ⟨t, hpath, ht⟩ := ih u (hr s u a hu)
        exact ⟨t, .head ⟨a, trivial, hu⟩ hpath, ht⟩

/-! ## Invariants -/

/-- `I` survives every step that `ok` allows, in states where `J` is known. -/
def PreservedUnder (S : System σ α) (ok : σ → α → Prop) (J I : σ → Prop) : Prop :=
  ∀ ⦃s t : σ⦄ ⦃a : α⦄, J s → I s → ok s a → S.step s a = some t → I t

/-- What a step preserves, a path preserves. -/
theorem PreservedUnder.path {s t : σ} (h : S.PreservedUnder ok (fun _ => True) I)
    (hs : I s) (hpath : S.PathUnder ok s t) : I t := by
  induction hpath with
  | refl => exact hs
  | tail _ hstep ih =>
      obtain ⟨a, ha, hstep⟩ := hstep
      exact h trivial ih ha hstep

/-- The invariant rule, relative to an invariant `J` that is already established. -/
theorem PreservedUnder.reachable (h : S.PreservedUnder ok J I)
    (hJ : ∀ s, S.ReachableUnder ok s → J s) (hinit : ∀ s, S.init s → I s) {s : σ}
    (hs : S.ReachableUnder ok s) : I s := by
  obtain ⟨s₀, h₀, hpath⟩ := hs
  induction hpath with
  | refl => exact hinit _ h₀
  | tail hprev hstep ih =>
      obtain ⟨a, ha, hstep⟩ := hstep
      exact h (hJ _ ⟨s₀, h₀, hprev⟩) ih ha hstep

/-- The invariant rule. -/
theorem PreservedUnder.invariant (h : S.PreservedUnder ok (fun _ => True) I)
    (hinit : ∀ s, S.init s → I s) {s : σ} (hs : S.ReachableUnder ok s) : I s :=
  h.reachable (fun _ _ => trivial) hinit hs

end System

end ByteBattles.Lib
