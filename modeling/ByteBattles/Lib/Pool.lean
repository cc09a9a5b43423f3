import Mathlib.Algebra.BigOperators.Group.List.Basic
import Mathlib.Algebra.BigOperators.Group.Finset.Basic
import Mathlib.Algebra.Order.BigOperators.Group.Finset
import Mathlib.Data.Fintype.BigOperators

/-!
# Counting over pools of threads and over queues

An invariant about any number of anonymous threads is stated with a weight of
each thread and summed over the pool.  A step of one thread replaces one entry,
so that the sum changes by the weights of the old and the new entry; the lemmas
say so additively, which is the form `omega` uses.
-/

namespace ByteBattles.Lib

variable {α β ι : Type*}

/-! ## Pools held in a list -/

def weight (f : α → Nat) : List α → Nat
  | [] => 0
  | a :: pool => f a + weight f pool

@[simp] theorem weight_nil (f : α → Nat) : weight f [] = 0 := rfl

@[simp] theorem weight_cons (f : α → Nat) (a : α) (pool : List α) :
    weight f (a :: pool) = f a + weight f pool := rfl

@[simp] theorem weight_append (f : α → Nat) (pool more : List α) :
    weight f (pool ++ more) = weight f pool + weight f more := by
  induction pool with
  | nil => simp
  | cons a pool ih => simp [ih, Nat.add_assoc]

@[simp] theorem weight_replicate (f : α → Nat) (n : Nat) (a : α) :
    weight f (List.replicate n a) = n * f a := by
  induction n with
  | zero => simp
  | succ n ih =>
      rw [List.replicate_succ, weight_cons, ih, Nat.succ_mul]
      omega

/-- One thread moves from `a` to `b`. -/
theorem weight_set (f : α → Nat) {pool : List α} {i : Nat} {a : α}
    (h : pool[i]? = some a) (b : α) :
    weight f (pool.set i b) + f a = weight f pool + f b := by
  induction pool generalizing i with
  | nil => simp at h
  | cons c pool ih =>
      cases i with
      | zero =>
          obtain rfl : c = a := by simpa using h
          simp only [List.set_cons_zero, weight_cons]
          omega
      | succ i =>
          have hrest := ih (i := i) (by simpa using h)
          simp only [List.set_cons_succ, weight_cons]
          omega

theorem count_set [DecidableEq α] {pool : List α} {i : Nat} {a : α} (h : pool[i]? = some a)
    (b c : α) : (pool.set i b).count c + (if a = c then 1 else 0) =
      pool.count c + if b = c then 1 else 0 := by
  have hcount : ∀ l : List α, weight (fun d => if d = c then 1 else 0) l = l.count c := by
    intro l
    induction l with
    | nil => rfl
    | cons d l ih =>
        rw [weight_cons, ih, List.count_cons, Nat.add_comm]
        simp only [beq_iff_eq]
  rw [← hcount, ← hcount]
  exact weight_set (fun d => if d = c then 1 else 0) h b

theorem mem_set_of_ne {pool : List α} {i : Nat} {p p₀ : α} (h : pool[i]? = some p)
    (hp₀ : p₀ ∈ pool) (hne : p₀ ≠ p) (p' : α) : p₀ ∈ pool.set i p' := by
  obtain ⟨j, hj⟩ := List.mem_iff_getElem?.mp hp₀
  have hij : i ≠ j := by
    rintro rfl
    exact hne (Option.some.inj (hj.symm.trans h))
  exact List.mem_of_getElem? ((List.getElem?_set_ne hij).trans hj)

/-- A pool weighs at least as much as each of its threads. -/
theorem le_weight (f : α → Nat) {pool : List α} {a : α} (h : a ∈ pool) :
    f a ≤ weight f pool := by
  induction pool with
  | nil => simp at h
  | cons b pool ih =>
      rw [weight_cons]
      rcases List.mem_cons.mp h with rfl | h
      · omega
      · have := ih h
        omega

theorem weight_eq_zero_iff (f : α → Nat) (pool : List α) :
    weight f pool = 0 ↔ ∀ a ∈ pool, f a = 0 := by
  induction pool with
  | nil => simp
  | cons a pool ih => simp [ih]

/-! ## Pools held in a table of processes -/

section Table

variable [DecidableEq ι]

theorem sum_change {keys : Finset ι} {f g : ι → Nat} {i : ι} (hi : i ∈ keys)
    (h : ∀ j, j ≠ i → g j = f j) : ∑ j ∈ keys, g j + f i = ∑ j ∈ keys, f j + g i := by
  rw [← Finset.add_sum_erase keys _ hi, ← Finset.add_sum_erase keys f hi]
  have hrest : ∑ j ∈ keys.erase i, g j = ∑ j ∈ keys.erase i, f j :=
    Finset.sum_congr rfl fun j hj => h j (Finset.ne_of_mem_erase hj)
  omega

theorem sum_le_add {keys : Finset ι} {f g : ι → Nat} (i : ι)
    (h : ∀ j ∈ keys, j ≠ i → f j ≤ g j) : ∑ j ∈ keys, f j ≤ ∑ j ∈ keys, g j + f i := by
  by_cases hi : i ∈ keys
  · rw [← Finset.add_sum_erase keys _ hi, ← Finset.add_sum_erase keys g hi]
    have hrest : ∑ j ∈ keys.erase i, f j ≤ ∑ j ∈ keys.erase i, g j :=
      Finset.sum_le_sum fun j hj => h j (Finset.mem_of_mem_erase hj) (Finset.ne_of_mem_erase hj)
    omega
  · have hrest : ∑ j ∈ keys, f j ≤ ∑ j ∈ keys, g j :=
      Finset.sum_le_sum fun j hj => h j hj fun hji => hi (hji ▸ hj)
    omega

end Table

/-! ## Lists used as queues -/

/-- Take from the right end, where `none` is the answer of an empty list. -/
def rpop (q : List α) : Option (α × List α) :=
  q.getLast?.map fun a => (a, q.dropLast)

theorem rpop_eq_some {q q' : List α} {a : α} : rpop q = some (a, q') ↔ q = q' ++ [a] := by
  constructor
  · intro h
    obtain ⟨b, hb, heq⟩ := Option.map_eq_some_iff.mp h
    obtain ⟨rfl, rfl⟩ := Prod.mk.inj heq
    exact (List.dropLast_append_getLast? b hb).symm
  · rintro rfl
    simp [rpop]

theorem rpop_eq_none {q : List α} : rpop q = none ↔ q = [] := by
  simp [rpop]

theorem count_of_rpop [DecidableEq α] {q q' : List α} {a : α} (h : rpop q = some (a, q'))
    (b : α) : q.count b = q'.count b + if a = b then 1 else 0 := by
  rw [rpop_eq_some.mp h, List.count_append]
  by_cases hab : a = b
  · simp [hab]
  · simp [hab]

theorem length_of_rpop {q q' : List α} {a : α} (h : rpop q = some (a, q')) :
    q.length = q'.length + 1 := by
  simp [rpop_eq_some.mp h]

end ByteBattles.Lib
