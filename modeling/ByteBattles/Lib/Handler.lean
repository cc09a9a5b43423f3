/-!
# Request handlers

A handler changes a state and returns or raises; what it has changed before it raises
stays changed.
-/

namespace ByteBattles.Lib

def Handler (ε σ α : Type) := σ → Except ε α × σ

namespace Handler

variable {ε σ α β : Type}

instance : Monad (Handler ε σ) where
  pure a s := (.ok a, s)
  bind m f s :=
    match m s with
    | (.ok a, t) => f a t
    | (.error e, t) => (.error e, t)

def raise (e : ε) : Handler ε σ α := fun s => (.error e, s)

def ofExcept (r : Except ε α) : Handler ε σ α := fun s => (r, s)

def read : Handler ε σ σ := fun s => (.ok s, s)

def write (f : σ → σ) : Handler ε σ Unit := fun s => (.ok (), f s)

def refuseIf (c : Prop) [Decidable c] (e : ε) : Handler ε σ Unit :=
  if c then raise e else pure ()

theorem bind_apply (m : Handler ε σ α) (f : α → Handler ε σ β) (s : σ) :
    (m >>= f) s =
      match m s with
      | (.ok a, t) => f a t
      | (.error e, t) => (.error e, t) := rfl

theorem pure_apply (a : α) (s : σ) : (pure a : Handler ε σ α) s = (.ok a, s) := rfl

theorem ofExcept_apply (r : Except ε α) (s : σ) : ofExcept r s = (r, s) := rfl

theorem read_apply (s : σ) : (read : Handler ε σ σ) s = (.ok s, s) := rfl

theorem write_apply (f : σ → σ) (s : σ) : (write f : Handler ε σ Unit) s = (.ok (), f s) := rfl

theorem refuseIf_apply (c : Prop) [Decidable c] (e : ε) (s : σ) :
    refuseIf c e s = (if c then .error e else .ok (), s) := by
  unfold refuseIf
  split
  · rfl
  · rfl

theorem bind_assoc {γ : Type} (m : Handler ε σ α) (f : α → Handler ε σ β)
    (g : β → Handler ε σ γ) : m >>= f >>= g = m >>= fun a => f a >>= g := by
  funext s
  simp only [bind_apply]
  cases m s with
  | mk r t => cases r <;> rfl

/-! ## How a handler ends -/

/-- From `s`, the handler ends with a result and a state that satisfy `P`. -/
def Ends (m : Handler ε σ α) (s : σ) (P : Except ε α → σ → Prop) : Prop := P (m s).1 (m s).2

section

variable {m : Handler ε σ α} {s : σ} {P Q : Except ε α → σ → Prop} {R : Except ε β → σ → Prop}
  {e : ε} {f : α → Handler ε σ β} {g : Unit → Handler ε σ β}

theorem Ends.of_eq (h : m.Ends s P) {r : Except ε α} {t : σ} (hrun : m s = (r, t)) : P r t := by
  rwa [Ends, hrun] at h

theorem Ends.mono (h : m.Ends s P) (hPQ : ∀ r t, P r t → Q r t) : m.Ends s Q := hPQ _ _ h

theorem Ends.pure {a : α} (h : P (.ok a) s) : (Pure.pure a : Handler ε σ α).Ends s P := h

theorem Ends.raise (h : P (.error e) s) : (Handler.raise e : Handler ε σ α).Ends s P := h

theorem Ends.ofExcept {r : Except ε α} (h : P r s) : (Handler.ofExcept r).Ends s P := h

theorem Ends.bind (h : m.Ends s Q) (herror : ∀ e t, Q (.error e) t → R (.error e) t)
    (hok : ∀ a t, Q (.ok a) t → (f a).Ends t R) : (m >>= f).Ends s R := by
  unfold Ends at h ⊢
  rw [bind_apply]
  cases hm : m s with
  | mk r t =>
      rw [hm] at h
      cases r with
      | error e => exact herror e t h
      | ok a => exact hok a t h

theorem Ends.read_bind {f : σ → Handler ε σ β} (h : (f s).Ends s R) :
    (Handler.read >>= f).Ends s R := h

theorem Ends.write {w : σ → σ} {P : Except ε Unit → σ → Prop} (h : P (.ok ()) (w s)) :
    (Handler.write w : Handler ε σ Unit).Ends s P := h

theorem Ends.write_bind {w : σ → σ} (h : (g ()).Ends (w s) R) :
    (Handler.write w >>= g).Ends s R := h

theorem Ends.refuseIf_bind {c : Prop} [Decidable c] (herror : c → R (.error e) s)
    (hok : ¬ c → (g ()).Ends s R) : (Handler.refuseIf c e >>= g).Ends s R := by
  unfold Handler.refuseIf
  by_cases h : c
  · rw [if_pos h]
    exact herror h
  · rw [if_neg h]
    exact hok h

theorem Ends.ofExcept_bind {r : Except ε α} (herror : ∀ e, r = .error e → R (.error e) s)
    (hok : ∀ a, r = .ok a → (f a).Ends s R) : (Handler.ofExcept r >>= f).Ends s R := by
  cases r with
  | error e => exact herror e rfl
  | ok a => exact hok a rfl

end

end Handler

end ByteBattles.Lib
