import ByteBattles.Lib.Transition
import Mathlib.Data.List.Forall2

/-!
# Simulation

A concrete system simulates an abstract one when every concrete step is matched by zero or
more abstract steps between related states; every reachable concrete state is then related to a
reachable abstract one.
-/

namespace ByteBattles.Lib

namespace System

variable {σ α τ β : Type*}

/-- Every step of `C` is matched by a path of `A` whose steps `ok` allows. -/
structure Simulates (C : System σ α) (A : System τ β) (ok : τ → β → Prop) (R : σ → τ → Prop) :
    Prop where
  init : ∀ s, C.init s → ∃ t, A.init t ∧ R s t
  step : ∀ s t s' a, R s t → C.step s a = some s' → ∃ t', A.PathUnder ok t t' ∧ R s' t'

variable {C : System σ α} {A : System τ β} {ok : τ → β → Prop} {R : σ → τ → Prop}

theorem PathUnder.single {t t' : τ} {b : β} (hok : ok t b) (hstep : A.step t b = some t') :
    A.PathUnder ok t t' := Relation.ReflTransGen.single ⟨b, hok, hstep⟩

theorem Simulates.path (h : Simulates C A ok R) {s s' : σ} {t : τ} (hR : R s t)
    (hpath : C.PathUnder (fun _ _ => True) s s') : ∃ t', A.PathUnder ok t t' ∧ R s' t' := by
  induction hpath with
  | refl => exact ⟨t, .refl, hR⟩
  | tail _ hstep ih =>
      obtain ⟨u, hpath, hu⟩ := ih
      obtain ⟨a, -, hstep⟩ := hstep
      obtain ⟨t', hpath', ht'⟩ := h.step _ u _ a hu hstep
      exact ⟨t', hpath.trans hpath', ht'⟩

/-- Every reachable concrete state is related to a reachable abstract one. -/
theorem Simulates.reachable (h : Simulates C A ok R) {s : σ} (hs : C.Reachable s) :
    ∃ t, A.ReachableUnder ok t ∧ R s t := by
  obtain ⟨s₀, h₀, hpath⟩ := hs
  obtain ⟨t₀, ht₀, hR⟩ := h.init s₀ h₀
  obtain ⟨t, hpath', ht⟩ := h.path hR hpath
  exact ⟨t, ⟨t₀, ht₀, hpath'⟩, ht⟩

end System

/-! ## Matched pools -/

section

variable {α β : Type*} {R : α → β → Prop} {l : List α} {l' : List β} {i : Nat} {a : α} {b : β}

/-- The partner of a process. -/
theorem forall₂_getElem? (h : List.Forall₂ R l l') (ha : l[i]? = some a) :
    ∃ b, l'[i]? = some b ∧ R a b := by
  induction h generalizing i with
  | nil => simp at ha
  | @cons a' b' _ _ hab _ ih =>
      cases i with
      | zero =>
          obtain rfl : a' = a := by simpa using ha
          exact ⟨b', rfl, hab⟩
      | succ i => exact ih (i := i) (by simpa using ha)

theorem forall₂_set (h : List.Forall₂ R l l') (i : Nat) (hab : R a b) :
    List.Forall₂ R (l.set i a) (l'.set i b) := by
  induction h generalizing i with
  | nil => exact .nil
  | cons hhead htail ih =>
      cases i with
      | zero => exact .cons hab htail
      | succ i => exact .cons hhead (ih i)

theorem forall₂_set_left (h : List.Forall₂ R l l') (hb : l'[i]? = some b) (hab : R a b) :
    List.Forall₂ R (l.set i a) l' := by
  obtain ⟨hi, rfl⟩ := List.getElem?_eq_some_iff.mp hb
  have hset := forall₂_set h i hab
  rwa [List.set_getElem_self] at hset

end

end ByteBattles.Lib
