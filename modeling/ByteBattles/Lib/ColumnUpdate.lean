import Mathlib.Logic.Function.Basic

/-!
# Load, modify and commit by changed columns

An object-relational session loads a row, assigns its columns and, on commit,
issues an `UPDATE` of those columns only whose new value differs from the loaded
one.  Two sessions on one row interleave at their loads and commits.  Rows are
dependent functions on the columns, so that every column has its own type.
-/

namespace ByteBattles.Lib.ColumnUpdate

variable {C : Type*} {V : C → Type*}

section Update

variable [∀ c, DecidableEq (V c)]

/-- The row after the `UPDATE` of a session that loaded `loaded` and assigned `new`. -/
def update (loaded new row : ∀ c, V c) : ∀ c, V c :=
  fun c => if new c = loaded c then row c else new c

theorem update_apply (loaded new row : ∀ c, V c) (c : C) :
    update loaded new row c = if new c = loaded c then row c else new c := rfl

/-- A session that loaded the current row writes all of its values. -/
@[simp] theorem update_current (row new : ∀ c, V c) : update row new row = new := by
  funext c
  by_cases h : new c = row c
  · simp [update_apply, h]
  · simp [update_apply, h]

/-- The later write is complete if it changes every column that the earlier one changes. -/
theorem update_eq_later_iff (prior earlier later : ∀ c, V c) :
    update prior later earlier = later ↔ ∀ c, later c = prior c → earlier c = prior c := by
  constructor
  · intro h c hc
    have := congrFun h c
    rw [update_apply, if_pos hc] at this
    rw [this, hc]
  · intro h
    funext c
    rw [update_apply]
    by_cases hc : later c = prior c
    · rw [if_pos hc, h c hc, hc]
    · rw [if_neg hc]

/-- The earlier write survives if the later one changes columns to the same values only. -/
theorem update_eq_earlier_iff (prior earlier later : ∀ c, V c) :
    update prior later earlier = earlier ↔ ∀ c, later c ≠ prior c → later c = earlier c := by
  constructor
  · intro h c hc
    have := congrFun h c
    rwa [update_apply, if_neg hc] at this
  · intro h
    funext c
    rw [update_apply]
    by_cases hc : later c = prior c
    · rw [if_pos hc]
    · rw [if_neg hc, h c hc]

end Update

/-! ## Two sessions on one row -/

/-- One session: the values it assigns are a parameter of the system. -/
inductive Session (V : C → Type*)
  | waiting
  | loaded (row : ∀ c, V c)
  | done

structure State (V : C → Type*) where
  row : ∀ c, V c
  session : Bool → Session V

inductive Op
  | load (i : Bool)
  | commit (i : Bool)
  deriving DecidableEq, Repr

def start (prior : ∀ c, V c) : State V := ⟨prior, fun _ => .waiting⟩

def State.Finished (s : State V) : Prop := ∀ i, s.session i = .done

def pair (i : Bool) (x y : Session V) : Bool → Session V := fun j => if j = i then x else y

@[simp] theorem pair_self (i : Bool) (x y : Session V) : pair i x y i = x := by
  simp [pair]

@[simp] theorem pair_not (i : Bool) (x y : Session V) : pair i x y (!i) = y := by
  simp [pair]

theorem pair_swap (i : Bool) (x y : Session V) : pair (!i) x y = pair i y x := by
  funext j
  cases i <;> cases j <;> simp [pair]

@[simp] theorem update_pair_self (i : Bool) (x y z : Session V) :
    Function.update (pair i x y) i z = pair i z y := by
  funext j
  by_cases hj : j = i <;> simp [pair, hj]

@[simp] theorem update_pair_not (i : Bool) (x y z : Session V) :
    Function.update (pair i x y) (!i) z = pair i x z := by
  rw [← pair_swap, update_pair_self, pair_swap]

theorem start_eq (prior : ∀ c, V c) (i : Bool) :
    start prior = ⟨prior, pair i .waiting .waiting⟩ := by
  have hpair : pair i (.waiting : Session V) .waiting = fun _ => .waiting := by
    funext j
    simp [pair]
  rw [hpair, start]

theorem not_finished {row : ∀ c, V c} {i : Bool} {x y : Session V}
    (h : x ≠ .done ∨ y ≠ .done) : ¬ State.Finished ⟨row, pair i x y⟩ := by
  intro hf
  rcases h with h | h
  · exact h (by simpa using hf i)
  · exact h (by simpa using hf (!i))

variable [∀ c, DecidableEq (V c)]

def step (new : Bool → ∀ c, V c) (s : State V) : Op → Option (State V)
  | .load i =>
      match s.session i with
      | .waiting => some { s with session := Function.update s.session i (.loaded s.row) }
      | _ => none
  | .commit i =>
      match s.session i with
      | .loaded row =>
          some ⟨update row (new i) s.row, Function.update s.session i .done⟩
      | _ => none

def exec (new : Bool → ∀ c, V c) : State V → List Op → Option (State V)
  | s, [] => some s
  | s, op :: ops => (step new s op).bind fun t => exec new t ops

/-! ## The complete schedules -/

def serial (i : Bool) : List Op := [.load i, .commit i, .load (!i), .commit (!i)]

def overlapping (i j : Bool) : List Op := [.load j, .load (!j), .commit i, .commit (!i)]

theorem eq_or_eq_not (i j : Bool) : j = i ∨ j = !i := by
  cases i <;> cases j <;> simp

variable {new : Bool → ∀ c, V c} {ops : List Op} {t : State V}

theorem exec_both_done {row : ∀ c, V c} {i : Bool}
    (h : exec new ⟨row, pair i .done .done⟩ ops = some t) :
    ops = [] := by
  cases ops with
  | nil => rfl
  | cons op ops =>
      rcases op with j | j <;> obtain rfl | rfl := eq_or_eq_not i j <;>
        simp [exec, step] at h

theorem exec_last_loaded {row r : ∀ c, V c} {i : Bool}
    (h : exec new ⟨row, pair i .done (.loaded r)⟩ ops = some t) (hdone : t.Finished) :
    ops = [.commit (!i)] := by
  cases ops with
  | nil =>
      obtain rfl := Option.some.inj h
      exact absurd hdone (not_finished (by simp))
  | cons op ops =>
      rcases op with j | j <;> obtain rfl | rfl := eq_or_eq_not i j <;>
        simp only [exec, step, pair_self, pair_not, update_pair_not, Option.bind_some,
          Option.bind_none, reduceCtorEq] at h
      rw [exec_both_done h]

theorem exec_last_waiting {row : ∀ c, V c} {i : Bool}
    (h : exec new ⟨row, pair i .done .waiting⟩ ops = some t) (hdone : t.Finished) :
    ops = [.load (!i), .commit (!i)] := by
  cases ops with
  | nil =>
      obtain rfl := Option.some.inj h
      exact absurd hdone (not_finished (by simp))
  | cons op ops =>
      rcases op with j | j <;> obtain rfl | rfl := eq_or_eq_not i j <;>
        simp only [exec, step, pair_self, pair_not, update_pair_not, Option.bind_some,
          Option.bind_none, reduceCtorEq] at h
      rw [exec_last_loaded h hdone]

theorem exec_both_loaded {row r r' : ∀ c, V c} {i : Bool}
    (h : exec new ⟨row, pair i (.loaded r) (.loaded r')⟩ ops = some t) (hdone : t.Finished) :
    ∃ j, ops = [.commit j, .commit (!j)] := by
  cases ops with
  | nil =>
      obtain rfl := Option.some.inj h
      exact absurd hdone (not_finished (by simp))
  | cons op ops =>
      rcases op with j | j <;> obtain rfl | rfl := eq_or_eq_not i j <;>
        simp only [exec, step, pair_self, pair_not, update_pair_self, update_pair_not,
          Option.bind_some, Option.bind_none, reduceCtorEq] at h
      · exact ⟨j, by rw [exec_last_loaded h hdone]⟩
      · rw [← pair_swap] at h
        exact ⟨!i, by rw [exec_last_loaded h hdone]⟩

/-- Every complete interleaving is serial or overlapping. -/
theorem complete_schedule {prior : ∀ c, V c} (h : exec new (start prior) ops = some t)
    (hdone : t.Finished) : (∃ i, ops = serial i) ∨ ∃ i j, ops = overlapping i j := by
  cases ops with
  | nil =>
      obtain rfl := Option.some.inj h
      exact absurd (hdone true) (by simp [start])
  | cons op ops =>
      rcases op with i | i <;> simp only [start_eq prior i, exec, step, pair_self,
        update_pair_self, Option.bind_some, Option.bind_none, reduceCtorEq] at h
      cases ops with
      | nil =>
          obtain rfl := Option.some.inj h
          exact absurd hdone (not_finished (by simp))
      | cons op ops =>
          rcases op with j | j <;> obtain rfl | rfl := eq_or_eq_not i j <;>
            simp only [exec, step, pair_self, pair_not, update_pair_self, update_pair_not,
              Option.bind_some, Option.bind_none, reduceCtorEq] at h
          · obtain ⟨k, rfl⟩ := exec_both_loaded h hdone
            exact .inr ⟨k, i, rfl⟩
          · rw [exec_last_waiting h hdone]
            exact .inl ⟨j, rfl⟩

theorem exec_serial (prior : ∀ c, V c) (i : Bool) :
    exec new (start prior) (serial i) = some ⟨new (!i), pair i .done .done⟩ := by
  simp [serial, exec, step, start_eq prior i]

theorem exec_overlapping (prior : ∀ c, V c) (i j : Bool) :
    exec new (start prior) (overlapping i j) =
      some ⟨update prior (new (!i)) (new i), pair i .done .done⟩ := by
  rw [start_eq prior i]
  obtain rfl | rfl := eq_or_eq_not i j <;> simp [overlapping, exec, step]

/-! ## When the stored row is that of one session -/

/-- After the write of `earlier`, the write of `later`, which was computed from
`prior`, leaves a row that is one of the two. -/
def Compatible (prior earlier later : ∀ c, V c) : Prop :=
  (∀ c, later c = prior c → earlier c = prior c) ∨
    ∀ c, later c ≠ prior c → later c = earlier c

/-- **When two sessions do not mix**: exactly if one loads after the other has
committed, or the session that commits last is compatible with the other one. -/
theorem row_eq_iff {prior : ∀ c, V c} (h : exec new (start prior) ops = some t)
    (hdone : t.Finished) :
    (∃ i, t.row = new i) ↔
      (∃ i, ops = serial i) ∨ ∃ i j, ops = overlapping i j ∧
        Compatible prior (new i) (new (!i)) := by
  constructor
  · rintro ⟨k, hk⟩
    rcases complete_schedule h hdone with hserial | ⟨i, j, rfl⟩
    · exact .inl hserial
    · rw [exec_overlapping, Option.some.injEq] at h
      subst h
      refine .inr ⟨i, j, rfl, ?_⟩
      obtain rfl | rfl := eq_or_eq_not i k
      · exact .inr ((update_eq_earlier_iff _ _ _).mp hk)
      · exact .inl ((update_eq_later_iff _ _ _).mp hk)
  · rintro (⟨i, rfl⟩ | ⟨i, j, rfl, hc | hc⟩)
    · rw [exec_serial, Option.some.injEq] at h
      exact ⟨!i, by rw [← h]⟩
    · rw [exec_overlapping, Option.some.injEq] at h
      exact ⟨!i, by rw [← h]; exact (update_eq_later_iff _ _ _).mpr hc⟩
    · rw [exec_overlapping, Option.some.injEq] at h
      exact ⟨i, by rw [← h]; exact (update_eq_earlier_iff _ _ _).mpr hc⟩

end ByteBattles.Lib.ColumnUpdate
