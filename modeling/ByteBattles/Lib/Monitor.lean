import ByteBattles.Lib.Traced

/-!
# Monitors

A monitor watches the calls of a run and moves with each of them; a call that it does not
expect stops it.  `Follows` says that a run never stops the monitor, and where the monitor
is when the run returns and when it raises.  There is one rule for each construct of a run.
-/

namespace ByteBattles.Lib

/-- The next state, from a call and the exception that the call raises, if any. -/
abbrev Monitor (π κ ε : Type) := π → κ → Option ε → Option π

namespace Monitor

variable {π κ ε α β : Type}

def run (M : Monitor π κ ε) (raises : κ → Option ε) : π → List κ → Option π
  | p, [] => some p
  | p, c :: calls => (M p c (raises c)).bind fun q => run M raises q calls

/-- `Q` holds of a value, and `R` of an exception. -/
def Ends (Q : α → π → Prop) (R : ε → π → Prop) (q : π) : Except ε α → Prop
  | .ok a => Q a q
  | .error e => R e q

/-- From `p` the run is never stopped; `Q` holds if it returns, and `R` if it raises. -/
def Follows (M : Monitor π κ ε) (raises : κ → Option ε) (p : π) (m : Traced κ ε α)
    (Q : α → π → Prop) (R : ε → π → Prop) : Prop :=
  ∃ q, M.run raises p m.calls = some q ∧ Ends Q R q m.result

variable {M : Monitor π κ ε} {raises : κ → Option ε} {p q : π}

theorem run_append {calls calls' : List κ} (h : M.run raises p calls = some q) :
    M.run raises p (calls ++ calls') = M.run raises q calls' := by
  induction calls generalizing p with
  | nil =>
      obtain rfl : p = q := Option.some.inj h
      rfl
  | cons c calls ih =>
      obtain ⟨r, hr, hrest⟩ := Option.bind_eq_some_iff.mp h
      rw [List.cons_append, run, hr, Option.bind_some, ih hrest]

/-! ## Rules -/

variable {m : Traced κ ε α} {Q Q' : α → π → Prop} {R R' : ε → π → Prop}

theorem Follows.mono (h : M.Follows raises p m Q R) (hQ : ∀ a q, Q a q → Q' a q)
    (hR : ∀ e q, R e q → R' e q) : M.Follows raises p m Q' R' := by
  obtain ⟨q, hrun, hends⟩ := h
  refine ⟨q, hrun, ?_⟩
  cases hm : m.result with
  | ok a =>
      rw [hm] at hends
      exact hQ a q hends
  | error e =>
      rw [hm] at hends
      exact hR e q hends

theorem Follows.and_returns {S : α → Prop} (h : M.Follows raises p m Q R) (hS : m.Returns S) :
    M.Follows raises p m (fun a q => S a ∧ Q a q) R := by
  obtain ⟨q, hrun, hends⟩ := h
  refine ⟨q, hrun, ?_⟩
  cases hm : m.result with
  | ok a =>
      rw [hm] at hends
      exact ⟨hS a hm, hends⟩
  | error e =>
      rw [hm] at hends
      exact hends

theorem follows_ofExcept {r : Except ε α} (h : Ends Q R p r) :
    M.Follows raises p (Traced.ofExcept r) Q R := ⟨p, rfl, h⟩

theorem follows_pure {a : α} (h : Q a p) : M.Follows raises p (pure a) Q R := ⟨p, rfl, h⟩

theorem follows_raise {e : ε} (h : R e p) :
    M.Follows raises p (Traced.raise e : Traced κ ε α) Q R := follows_ofExcept h

theorem follows_call {c : κ} {Q : Unit → π → Prop}
    (hok : raises c = none → ∃ q, M p c none = some q ∧ Q () q)
    (herror : ∀ e, raises c = some e → ∃ q, M p c (some e) = some q ∧ R e q) :
    M.Follows raises p (Traced.call (raises c) c) Q R := by
  cases hc : raises c with
  | none =>
      obtain ⟨q, hq, hQ⟩ := hok hc
      exact ⟨q, by simp [run, hc, hq], hQ⟩
  | some e =>
      obtain ⟨q, hq, hR⟩ := herror e hc
      exact ⟨q, by simp [run, hc, hq], hR⟩

theorem Follows.bind {f : α → Traced κ ε β} {S : β → π → Prop}
    (h : M.Follows raises p m (fun a q => M.Follows raises q (f a) S R) R) :
    M.Follows raises p (m >>= f) S R := by
  obtain ⟨q, hrun, hends⟩ := h
  cases hm : m.result with
  | ok a =>
      rw [hm] at hends
      obtain ⟨r, hrun', hends'⟩ := hends
      rw [Traced.bind_ok hm]
      exact ⟨r, (run_append hrun).trans hrun', hends'⟩
  | error e =>
      rw [hm] at hends
      rw [Traced.bind_error hm]
      exact ⟨q, hrun, hends⟩

theorem Follows.catching {handler : ε → Traced κ ε α}
    (h : M.Follows raises p m Q fun e q => M.Follows raises q (handler e) Q R) :
    M.Follows raises p (m.catching handler) Q R := by
  obtain ⟨q, hrun, hends⟩ := h
  cases hm : m.result with
  | ok a =>
      rw [Traced.catching_ok handler hm]
      exact ⟨q, hrun, by rw [hm] at hends ⊢; exact hends⟩
  | error e =>
      rw [hm] at hends
      obtain ⟨r, hrun', hends'⟩ := hends
      rw [Traced.catching_error handler hm]
      exact ⟨r, (run_append hrun).trans hrun', hends'⟩

/-- The cleanup keeps the end of the run, or replaces it by its own exception. -/
theorem Follows.ensuring {cleanup : Traced κ ε Unit}
    (h : M.Follows raises p m (fun a q => M.Follows raises q cleanup (fun _ r => Q a r) R)
      fun e q => M.Follows raises q cleanup (fun _ r => R e r) R) :
    M.Follows raises p (m.ensuring cleanup) Q R := by
  obtain ⟨q, hrun, hends⟩ := h
  have hcleanup : M.Follows raises q cleanup (fun _ r => Ends Q R r m.result) R := by
    cases hm : m.result with
    | ok a =>
        rw [hm] at hends
        exact hends
    | error e =>
        rw [hm] at hends
        exact hends
  obtain ⟨r, hrun', hends'⟩ := hcleanup
  refine ⟨r, (run_append hrun).trans hrun', ?_⟩
  unfold Traced.ensuring
  cases hc : cleanup.result with
  | ok _ =>
      rw [hc] at hends'
      exact hends'
  | error e =>
      rw [hc] at hends'
      exact hends'

theorem follows_call_bind {c : κ} {f : Unit → Traced κ ε β} {S : β → π → Prop}
    (hok : raises c = none → ∃ q, M p c none = some q ∧ M.Follows raises q (f ()) S R)
    (herror : ∀ e, raises c = some e → ∃ q, M p c (some e) = some q ∧ R e q) :
    M.Follows raises p (Traced.call (raises c) c >>= f) S R :=
  Follows.bind (follows_call hok herror)

/-! ## Runs that have begun -/

/-- The monitor moves with the next call, and the rest follows it. -/
theorem Follows.next {c : κ} {calls : List κ} {result : Except ε α}
    (h : M.Follows raises p ⟨c :: calls, result⟩ Q R) :
    ∃ q, M p c (raises c) = some q ∧ M.Follows raises q ⟨calls, result⟩ Q R := by
  obtain ⟨r, hrun, hends⟩ := h
  obtain ⟨q, hq, hrest⟩ := Option.bind_eq_some_iff.mp hrun
  exact ⟨q, hq, r, hrest, hends⟩

theorem Follows.ends {result : Except ε α} (h : M.Follows raises p ⟨[], result⟩ Q R) :
    Ends Q R p result := by
  obtain ⟨q, hrun, hends⟩ := h
  obtain rfl : p = q := Option.some.inj hrun
  exact hends

end Monitor

end ByteBattles.Lib
