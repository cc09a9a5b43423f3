import ByteBattles.Lib.Monitor

/-!
# Runs in the middle

What can be said of the calls that a run makes before a given call: which part of the run
has returned by then, and where a monitor is.
-/

namespace ByteBattles.Lib

/-! ## Lists around an element -/

section

variable {κ : Type} {xs ys pre post : List κ} {c : κ}

theorem split_of_not_mem_left (h : xs ++ ys = pre ++ c :: post) (hc : c ∉ xs) :
    ∃ pre', pre = xs ++ pre' ∧ ys = pre' ++ c :: post := by
  induction xs generalizing pre with
  | nil => exact ⟨pre, rfl, h⟩
  | cons x xs ih =>
      cases pre with
      | nil =>
          have hx : x = c := (List.cons.inj h).1
          exact absurd (hx ▸ List.mem_cons_self) hc
      | cons x' pre =>
          obtain ⟨rfl, htail⟩ := List.cons.inj h
          obtain ⟨pre', rfl, hys⟩ := ih htail fun hmem => hc (List.mem_cons_of_mem _ hmem)
          exact ⟨pre', rfl, hys⟩

theorem split_of_not_mem_right (h : xs ++ ys = pre ++ c :: post) (hc : c ∉ ys) :
    ∃ post', xs = pre ++ c :: post' := by
  induction pre generalizing xs with
  | nil =>
      cases xs with
      | nil =>
          have hys : ys = c :: post := h
          exact absurd (hys ▸ List.mem_cons_self) hc
      | cons x xs => exact ⟨xs, congrArg (· :: xs) (List.cons.inj h).1⟩
  | cons p pre ih =>
      cases xs with
      | nil =>
          have hys : ys = (p :: pre) ++ c :: post := h
          exact absurd (hys ▸ List.mem_append_right _ List.mem_cons_self) hc
      | cons x xs =>
          obtain ⟨rfl, htail⟩ := List.cons.inj h
          obtain ⟨post', rfl⟩ := ih htail
          exact ⟨post', rfl⟩

end

/-! ## The part that a call belongs to -/

namespace Traced

variable {κ ε α β : Type} {m : Traced κ ε α} {f : α → Traced κ ε β} {p : κ → Prop} {c : κ}
  {pre post : List κ}

/-- Before a call that the first part does not make, the first part has returned. -/
theorem Makes.split_bind (hm : m.Makes p) (hc : ¬ p c)
    (h : (m >>= f).calls = pre ++ c :: post) :
    ∃ a pre', m.result = .ok a ∧ pre = m.calls ++ pre' ∧ (f a).calls = pre' ++ c :: post := by
  have hout : c ∉ m.calls := fun hmem => hc (hm c hmem)
  cases hresult : m.result with
  | ok a =>
      rw [bind_ok hresult] at h
      obtain ⟨pre', hpre, hcalls⟩ := split_of_not_mem_left h hout
      exact ⟨a, pre', rfl, hpre, hcalls⟩
  | error e =>
      rw [bind_error hresult] at h
      have hmem : c ∈ m.calls := by
        rw [show m.calls = pre ++ c :: post from h]
        exact List.mem_append_right _ List.mem_cons_self
      exact absurd hmem hout

/-- A call that the rest does not make belongs to the first part. -/
theorem split_of_bind (hf : ∀ a, (f a).Makes p) (hc : ¬ p c)
    (h : (m >>= f).calls = pre ++ c :: post) : ∃ post', m.calls = pre ++ c :: post' := by
  obtain ⟨tail, htail, hp⟩ := exists_calls_bind (m := m) hf
  rw [htail] at h
  exact split_of_not_mem_right h fun hmem => hc (hp c hmem)

theorem split_of_catching {handler : ε → Traced κ ε α} (hh : ∀ e, (handler e).Makes p)
    (hc : ¬ p c) (h : (m.catching handler).calls = pre ++ c :: post) :
    ∃ post', m.calls = pre ++ c :: post' := by
  cases hresult : m.result with
  | ok a =>
      rw [catching_ok handler hresult] at h
      exact ⟨post, h⟩
  | error e =>
      rw [catching_error handler hresult] at h
      exact split_of_not_mem_right h fun hmem => hc (hh e c hmem)

end Traced

/-! ## Where a monitor is -/

namespace Monitor

variable {π κ ε : Type} {M : Monitor π κ ε} {raises : κ → Option ε} {p r : π}
  {calls : List κ} {c : κ} {n : Nat}

/-- A monitor that is not stopped by the whole run is not stopped on the way. -/
theorem exists_run_take (h : M.run raises p calls = some r) (n : Nat) :
    ∃ q, M.run raises p (calls.take n) = some q := by
  induction calls generalizing p n with
  | nil => exact ⟨p, by rw [List.take_nil]; rfl⟩
  | cons c calls ih =>
      obtain ⟨q, hq, hrest⟩ := Option.bind_eq_some_iff.mp h
      cases n with
      | zero => exact ⟨p, rfl⟩
      | succ n =>
          obtain ⟨q', hq'⟩ := ih hrest n
          exact ⟨q', by rw [List.take_succ_cons, run, hq, Option.bind_some, hq']⟩

theorem move_of_run_take {q q' : π} (hq : M.run raises p (calls.take n) = some q)
    (hc : calls[n]? = some c) (hq' : M.run raises p (calls.take (n + 1)) = some q') :
    M q c (raises c) = some q' := by
  rw [List.take_add_one, hc, run_append hq] at hq'
  obtain ⟨q'', hmove, hnil⟩ := Option.bind_eq_some_iff.mp hq'
  rw [hmove, ← Option.some.inj hnil]

end Monitor

end ByteBattles.Lib
