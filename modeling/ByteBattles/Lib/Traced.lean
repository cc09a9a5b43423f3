import Mathlib.Algebra.BigOperators.Group.List.Basic

/-!
# Computations that make calls

A run makes calls one after the other and returns or raises, as `try`, `except` and
`finally` have it.
-/

namespace ByteBattles.Lib

def raisedBy {ε α : Type} : Except ε α → Option ε
  | .ok _ => none
  | .error e => some e

@[simp] theorem raisedBy_ok {ε α : Type} (a : α) : raisedBy (.ok a : Except ε α) = none := rfl

@[simp] theorem raisedBy_error {ε α : Type} (e : ε) :
    raisedBy (.error e : Except ε α) = some e := rfl

theorem raisedBy_eq_none {ε α : Type} {r : Except ε α} (h : raisedBy r = none) :
    ∃ a, r = .ok a := by
  cases r with
  | ok a => exact ⟨a, rfl⟩
  | error e => cases h

theorem raisedBy_eq_none_iff {ε α : Type} {r : Except ε α} :
    raisedBy r = none ↔ ∃ a, r = .ok a := by
  constructor
  · exact raisedBy_eq_none
  · rintro ⟨a, rfl⟩
    rfl

theorem raisedBy_eq_some {ε α : Type} {r : Except ε α} {e : ε} (h : raisedBy r = some e) :
    r = .error e := by
  cases r with
  | ok a => cases h
  | error e' => exact congrArg _ (Option.some.inj h)

/-- The calls of a run, in order, and how it ended. -/
structure Traced (κ ε α : Type) where
  calls : List κ
  result : Except ε α

namespace Traced

variable {κ ε α β : Type}

/-- Nothing of `f` happens if `m` raises. -/
def bind (m : Traced κ ε α) (f : α → Traced κ ε β) : Traced κ ε β :=
  match m.result with
  | .ok a => ⟨m.calls ++ (f a).calls, (f a).result⟩
  | .error e => ⟨m.calls, .error e⟩

instance : Monad (Traced κ ε) where
  pure a := ⟨[], .ok a⟩
  bind := bind

def ofExcept (r : Except ε α) : Traced κ ε α := ⟨[], r⟩

def raise (e : ε) : Traced κ ε α := ofExcept (.error e)

/-- A call that raises `e?`, or returns. -/
def call (e? : Option ε) (c : κ) : Traced κ ε Unit where
  calls := [c]
  result :=
    match e? with
    | none => .ok ()
    | some e => .error e

/-- `try: m  except: handler`. -/
def catching (m : Traced κ ε α) (handler : ε → Traced κ ε α) : Traced κ ε α :=
  match m.result with
  | .ok _ => m
  | .error e => ⟨m.calls ++ (handler e).calls, (handler e).result⟩

/-- `try: m  finally: cleanup`.  An exception of the cleanup replaces that of `m`. -/
def ensuring (m : Traced κ ε α) (cleanup : Traced κ ε Unit) : Traced κ ε α where
  calls := m.calls ++ cleanup.calls
  result :=
    match cleanup.result with
    | .ok _ => m.result
    | .error e => .error e

def raised (m : Traced κ ε α) : Option ε := raisedBy m.result

/-! ## Rules -/

variable {m : Traced κ ε α} {f : α → Traced κ ε β} {a : α} {e : ε}

@[simp] theorem result_pure (a : α) : (pure a : Traced κ ε α).result = .ok a := rfl

@[simp] theorem calls_pure (a : α) : (pure a : Traced κ ε α).calls = [] := rfl

@[simp] theorem result_ofExcept (r : Except ε α) :
    (ofExcept r : Traced κ ε α).result = r := rfl

@[simp] theorem calls_ofExcept (r : Except ε α) : (ofExcept r : Traced κ ε α).calls = [] := rfl

@[simp] theorem calls_call (e? : Option ε) (c : κ) : (call e? c).calls = [c] := rfl

@[simp] theorem calls_ensuring (m : Traced κ ε α) (cleanup : Traced κ ε Unit) :
    (m.ensuring cleanup).calls = m.calls ++ cleanup.calls := rfl

theorem bind_ok (h : m.result = .ok a) : m >>= f = ⟨m.calls ++ (f a).calls, (f a).result⟩ := by
  change bind m f = _
  simp only [bind, h]

theorem bind_error (h : m.result = .error e) : m >>= f = ⟨m.calls, .error e⟩ := by
  change bind m f = _
  simp only [bind, h]

@[simp] theorem raised_call (e? : Option ε) (c : κ) : (call e? c).raised = e? := by
  cases e? <;> rfl

@[simp] theorem raised_pure (a : α) : (pure a : Traced κ ε α).raised = none := rfl

@[simp] theorem raised_raise (e : ε) : (raise e : Traced κ ε α).raised = some e := rfl

@[simp] theorem raised_ofExcept (r : Except ε α) :
    (ofExcept r : Traced κ ε α).raised = raisedBy r := rfl

theorem raised_of_ok (h : m.result = .ok a) : m.raised = none := by
  rw [raised, h, raisedBy_ok]

/-- A sequence raises what its first part raises, or else what the rest does. -/
theorem raised_bind {o : Option ε} (h : ∀ a, m.result = .ok a → (f a).raised = o) :
    (m >>= f).raised = m.raised.or o := by
  cases hm : m.result with
  | ok a =>
      rw [raised, raised, bind_ok hm, hm, raisedBy_ok, Option.none_or, ← h a hm]
      rfl
  | error e => simp only [raised, bind_error hm, hm, raisedBy_error, Option.some_or]

@[simp] theorem raised_call_bind (e? : Option ε) (c : κ) (f : Unit → Traced κ ε β) :
    (call e? c >>= f).raised = e?.or (f ()).raised := by
  rw [raised_bind (o := (f ()).raised) fun _ _ => rfl, raised_call]

theorem call_none_bind (c : κ) (f : Unit → Traced κ ε β) :
    (call none c >>= f) = ⟨c :: (f ()).calls, (f ()).result⟩ := rfl

@[simp] theorem raised_ensuring (m : Traced κ ε α) (cleanup : Traced κ ε Unit) :
    (m.ensuring cleanup).raised = cleanup.raised.or m.raised := by
  cases h : cleanup.result <;> simp only [raised, ensuring, h, raisedBy_ok, raisedBy_error,
    Option.none_or, Option.some_or]

/-- A handler that runs raises what it raises. -/
@[simp] theorem raised_catching (m : Traced κ ε α) (handler : ε → Traced κ ε α) :
    (m.catching handler).raised = m.raised.bind fun e => (handler e).raised := by
  cases h : m.result <;> simp only [raised, catching, h, raisedBy_ok, raisedBy_error,
    Option.bind_none, Option.bind_some]

theorem catching_ok (handler : ε → Traced κ ε α) (h : m.result = .ok a) :
    m.catching handler = m := by
  simp only [catching, h]

theorem catching_error (handler : ε → Traced κ ε α) (h : m.result = .error e) :
    m.catching handler = ⟨m.calls ++ (handler e).calls, (handler e).result⟩ := by
  simp only [catching, h]

/-! ## What a run returns -/

/-- If the run returns, its value satisfies `Q`. -/
def Returns (m : Traced κ ε α) (Q : α → Prop) : Prop := ∀ a, m.result = .ok a → Q a

theorem returns_pure {Q : α → Prop} (h : Q a) : (pure a : Traced κ ε α).Returns Q := by
  intro b hb
  cases hb
  exact h

theorem returns_raise {Q : α → Prop} : (raise e : Traced κ ε α).Returns Q := by
  intro b hb
  cases hb

theorem returns_ofExcept {r : Except ε α} {Q : α → Prop} (h : ∀ a, r = .ok a → Q a) :
    (ofExcept r : Traced κ ε α).Returns Q := h

theorem Returns.bind {Q : α → Prop} {R : β → Prop} (hm : m.Returns Q)
    (hf : ∀ a, Q a → (f a).Returns R) : (m >>= f).Returns R := by
  intro b hb
  cases h : m.result with
  | ok a =>
      rw [bind_ok h] at hb
      exact hf a (hm a h) b hb
  | error e =>
      rw [bind_error h] at hb
      cases hb

/-- Nothing is said about the value of the first part. -/
theorem returns_bind {R : β → Prop} (hf : ∀ a, (f a).Returns R) : (m >>= f).Returns R :=
  Returns.bind (Q := fun _ => True) (fun _ _ => trivial) fun a _ => hf a

theorem Returns.and {Q R : α → Prop} (hQ : m.Returns Q) (hR : m.Returns R) :
    m.Returns fun a => Q a ∧ R a := fun a ha => ⟨hQ a ha, hR a ha⟩

/-- If the first part can only return `a`, the rest starts from `a`. -/
theorem Returns.raised_bind (hm : m.Returns (· = a)) :
    (m >>= f).raised = m.raised.or (f a).raised :=
  Traced.raised_bind fun b hb => by rw [hm b hb]

theorem Returns.catching {Q : α → Prop} {handler : ε → Traced κ ε α} (hm : m.Returns Q)
    (hh : ∀ e, (handler e).Returns Q) : (m.catching handler).Returns Q := by
  intro a ha
  cases h : m.result with
  | ok b =>
      rw [catching_ok handler h] at ha
      exact hm a ha
  | error e =>
      rw [catching_error handler h] at ha
      exact hh e a ha

theorem Returns.ensuring {Q : α → Prop} {cleanup : Traced κ ε Unit} (hm : m.Returns Q) :
    (m.ensuring cleanup).Returns Q := by
  intro a ha
  cases h : cleanup.result with
  | ok _ =>
      simp only [Traced.ensuring, h] at ha
      exact hm a ha
  | error e =>
      simp only [Traced.ensuring, h] at ha
      cases ha

/-! ## What a run that returns has called -/

/-- If the run returns, its calls and its value satisfy `Q`. -/
def Yields (m : Traced κ ε α) (Q : List κ → α → Prop) : Prop :=
  ∀ a, m.result = .ok a → Q m.calls a

section

variable {Q : List κ → α → Prop} {R : List κ → β → Prop}

theorem yields_pure (h : Q [] a) : (pure a : Traced κ ε α).Yields Q := by
  intro b hb
  cases hb
  exact h

theorem yields_ofExcept {r : Except ε α} (h : ∀ a, r = .ok a → Q [] a) :
    (ofExcept r : Traced κ ε α).Yields Q := h

theorem Yields.bind (hm : m.Yields Q)
    (hf : ∀ calls a, Q calls a → (f a).Yields fun calls' => R (calls ++ calls')) :
    (m >>= f).Yields R := by
  intro b hb
  cases h : m.result with
  | ok a =>
      rw [bind_ok h] at hb ⊢
      exact hf m.calls a (hm a h) b hb
  | error e =>
      rw [bind_error h] at hb
      cases hb

theorem yields_call_bind {e? : Option ε} {c : κ} {f : Unit → Traced κ ε β}
    (hf : (f ()).Yields fun calls => R (c :: calls)) : (call e? c >>= f).Yields R :=
  Yields.bind (Q := fun calls _ => calls = [c]) (fun _ _ => rfl) fun _ _ hcalls => hcalls ▸ hf

theorem yields_ofExcept_bind {r : Except ε α} (hf : ∀ a, r = .ok a → (f a).Yields R) :
    (ofExcept r >>= f).Yields R :=
  Yields.bind (Q := fun calls a => calls = [] ∧ r = .ok a) (fun _ h => ⟨rfl, h⟩)
    fun _ a h => h.1 ▸ hf a h.2

theorem Yields.ensuring {cleanup : Traced κ ε Unit}
    (hm : m.Yields fun calls => Q (calls ++ cleanup.calls)) : (m.ensuring cleanup).Yields Q := by
  intro a ha
  cases h : cleanup.result with
  | ok _ =>
      simp only [Traced.ensuring, h] at ha
      exact hm a ha
  | error e =>
      simp only [Traced.ensuring, h] at ha
      cases ha

end

/-! ## Which calls a run makes -/

def Makes (m : Traced κ ε α) (p : κ → Prop) : Prop := ∀ c ∈ m.calls, p c

variable {p : κ → Prop}

theorem Makes.yields {Q : α → Prop} (hm : m.Makes p) (hQ : m.Returns Q) :
    m.Yields fun calls a => (∀ c ∈ calls, p c) ∧ Q a := fun a ha => ⟨hm, hQ a ha⟩

theorem Yields.and_makes {Q : List κ → α → Prop} (hQ : m.Yields Q) (hm : m.Makes p) :
    m.Yields fun calls a => Q calls a ∧ ∀ c ∈ calls, p c := fun a ha => ⟨hQ a ha, hm⟩

theorem makes_pure (a : α) : (pure a : Traced κ ε α).Makes p := by
  simp [Makes]

theorem makes_ofExcept (r : Except ε α) : (ofExcept r : Traced κ ε α).Makes p := by
  simp [Makes]

theorem makes_raise (e : ε) : (raise e : Traced κ ε α).Makes p := makes_ofExcept _

theorem makes_call {e? : Option ε} {c : κ} (h : p c) : (call e? c).Makes p := by
  simpa [Makes] using h

theorem Makes.bind (hm : m.Makes p) (hf : ∀ a, m.result = .ok a → (f a).Makes p) :
    (m >>= f).Makes p := by
  intro c hc
  cases h : m.result with
  | ok a =>
      rw [bind_ok h] at hc
      exact (List.mem_append.mp hc).elim (hm c) (hf a h c)
  | error e =>
      rw [bind_error h] at hc
      exact hm c hc

theorem calls_prefix_bind (f : α → Traced κ ε β) : m.calls <+: (m >>= f).calls := by
  cases h : m.result with
  | ok a =>
      rw [bind_ok h]
      exact List.prefix_append _ _
  | error e =>
      have heq : (m >>= f).calls = m.calls := by rw [bind_error h]
      exact heq ▸ List.prefix_rfl

/-- A call that the first part does not make is made by the rest. -/
theorem exists_of_mem_calls_bind {c : κ} (hm : m.Makes p) (hc : ¬ p c)
    (h : c ∈ (m >>= f).calls) : ∃ a, m.result = .ok a ∧ c ∈ (f a).calls := by
  cases hr : m.result with
  | ok a =>
      rw [bind_ok hr] at h
      exact ⟨a, rfl, (List.mem_append.mp h).resolve_left fun h' => hc (hm c h')⟩
  | error e =>
      rw [bind_error hr] at h
      exact absurd (hm c h) hc

theorem exists_calls_bind (hf : ∀ a, (f a).Makes p) :
    ∃ tail, (m >>= f).calls = m.calls ++ tail ∧ ∀ c ∈ tail, p c := by
  cases h : m.result with
  | ok a =>
      rw [bind_ok h]
      exact ⟨_, rfl, hf a⟩
  | error e =>
      rw [bind_error h]
      exact ⟨[], (List.append_nil _).symm, by simp⟩

theorem mem_calls_of_mem_bind {c : κ} (hf : ∀ a, (f a).Makes p) (hc : ¬ p c)
    (h : c ∈ (m >>= f).calls) : c ∈ m.calls := by
  obtain ⟨tail, htail, hp⟩ := exists_calls_bind hf
  rw [htail] at h
  exact (List.mem_append.mp h).resolve_right fun h' => hc (hp c h')

section Count

variable [DecidableEq κ] {c : κ}

/-- A call that the rest does not make is counted in the first part. -/
theorem count_calls_bind_left (hf : ∀ a, (f a).Makes (· ≠ c)) :
    (m >>= f).calls.count c = m.calls.count c := by
  obtain ⟨tail, htail, hne⟩ := exists_calls_bind hf
  rw [htail, List.count_append, List.count_eq_zero.mpr fun h => hne c h rfl, Nat.add_zero]

theorem count_calls_bind_right (hm : m.Makes (· ≠ c)) (h : m.result = .ok a) :
    (m >>= f).calls.count c = (f a).calls.count c := by
  rw [bind_ok h, List.count_append, List.count_eq_zero.mpr fun h => hm c h rfl, Nat.zero_add]

theorem count_calls_bind_error (hm : m.Makes (· ≠ c)) (h : m.result = .error e) :
    (m >>= f).calls.count c = 0 := by
  rw [bind_error h]
  exact List.count_eq_zero.mpr fun h => hm c h rfl

end Count

theorem Makes.catching {handler : ε → Traced κ ε α} (hm : m.Makes p)
    (hh : ∀ e, (handler e).Makes p) : (m.catching handler).Makes p := by
  intro c hc
  cases h : m.result with
  | ok a =>
      rw [catching_ok handler h] at hc
      exact hm c hc
  | error e =>
      rw [catching_error handler h] at hc
      exact (List.mem_append.mp hc).elim (hm c) (hh e c)

theorem Makes.ensuring {cleanup : Traced κ ε Unit} (hm : m.Makes p) (hc : cleanup.Makes p) :
    (m.ensuring cleanup).Makes p := by
  intro c h
  exact (List.mem_append.mp h).elim (hm c) (hc c)

end Traced

end ByteBattles.Lib
