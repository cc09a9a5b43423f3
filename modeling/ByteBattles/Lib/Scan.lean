import Mathlib.Data.List.Basic
import Mathlib.Order.Bounds.Basic
import Mathlib.Order.MinMax

/-!
# Loops that stop at a failure

A loop handles the elements of a list one after the other, numbering them, and stops after
the first result that is not ok.
-/

namespace ByteBattles.Lib

variable {α β : Type}

/-- From number `n` on, the loop over the elements yields these results, and stops at this
element with this result if one is not ok. -/
inductive Scan (handles : Nat → α → β → Prop) (ok : β → Bool) :
    Nat → List α → List β → Option (Nat × α × β) → Prop
  | done (n : Nat) : Scan handles ok n [] [] none
  | stopped {n : Nat} {x : α} {xs : List α} {y : β} (hx : handles n x y) (hok : ok y = false) :
      Scan handles ok n (x :: xs) [y] (some (n, x, y))
  | passed {n : Nat} {x : α} {xs : List α} {y : β} {ys : List β} {failure : Option (Nat × α × β)}
      (hx : handles n x y) (hok : ok y = true) (hrest : Scan handles ok (n + 1) xs ys failure) :
      Scan handles ok n (x :: xs) (y :: ys) failure

namespace Scan

variable {handles : Nat → α → β → Prop} {ok : β → Bool} {n : Nat} {xs : List α} {ys : List β}
  {failure : Option (Nat × α × β)}

theorem exists_of_mem (h : Scan handles ok n xs ys failure) {y : β} (hy : y ∈ ys) :
    ∃ t ∈ xs.zipIdx n, t.2 < n + ys.length ∧ handles t.2 t.1 y := by
  induction h with
  | done n => simp at hy
  | @stopped n x xs y' hx hok =>
      obtain rfl := List.mem_singleton.mp hy
      exact ⟨(x, n), by simp [List.zipIdx_cons], by simp, hx⟩
  | @passed n x xs y' ys failure hx hok hrest ih =>
      rw [List.zipIdx_cons]
      rcases List.mem_cons.mp hy with rfl | hy
      · exact ⟨(x, n), List.mem_cons_self, by simp, hx⟩
      · obtain ⟨t, ht, hlt, hhandles⟩ := ih hy
        refine ⟨t, List.mem_cons_of_mem _ ht, ?_, hhandles⟩
        simp only [List.length_cons]
        omega

theorem exists_mem (h : Scan handles ok n xs ys failure) {t : α × Nat} (ht : t ∈ xs.zipIdx n)
    (hlt : t.2 < n + ys.length) : ∃ y ∈ ys, handles t.2 t.1 y := by
  induction h with
  | done n => simp at ht
  | @stopped n x xs y' hx hok =>
      rw [List.zipIdx_cons] at ht
      rcases List.mem_cons.mp ht with rfl | ht
      · exact ⟨y', List.mem_singleton_self _, hx⟩
      · have hle := (List.mem_zipIdx ht).1
        simp only [List.length_singleton] at hlt
        omega
  | @passed n x xs y' ys failure hx hok hrest ih =>
      rw [List.zipIdx_cons] at ht
      rcases List.mem_cons.mp ht with rfl | ht
      · exact ⟨y', List.mem_cons_self, hx⟩
      · simp only [List.length_cons] at hlt
        obtain ⟨y, hy, hhandles⟩ := ih ht (by omega)
        exact ⟨y, List.mem_cons_of_mem _ hy, hhandles⟩

/-- A loop that does not stop has an ok result for every element. -/
theorem of_none (h : Scan handles ok n xs ys none) :
    ys.length = xs.length ∧ ∀ t ∈ xs.zipIdx n, ∃ y, handles t.2 t.1 y ∧ ok y = true := by
  generalize hfailure : (none : Option (Nat × α × β)) = failure at h
  induction h with
  | done n => simp
  | stopped hx hok => cases hfailure
  | passed hx hok hrest ih =>
      obtain ⟨hlength, hall⟩ := ih hfailure
      constructor
      · simp [hlength]
      · rw [List.zipIdx_cons, List.forall_mem_cons]
        exact ⟨⟨_, hx, hok⟩, hall⟩

/-- A loop that stops does so at the first element whose result is not ok. -/
theorem of_some {k : Nat} {x : α} {y : β} (h : Scan handles ok n xs ys (some (k, x, y))) :
    ∃ before after, xs = before ++ x :: after ∧ ys.length = before.length + 1 ∧
      k = n + before.length ∧ handles k x y ∧ ok y = false ∧
      ∀ t ∈ before.zipIdx n, ∃ y, handles t.2 t.1 y ∧ ok y = true := by
  generalize hfailure : some (k, x, y) = failure at h
  induction h with
  | done n => cases hfailure
  | @stopped n x' xs y' hx hok =>
      cases hfailure
      exact ⟨[], xs, rfl, rfl, rfl, hx, hok, by simp⟩
  | @passed n x' xs y' ys failure hx hok hrest ih =>
      obtain ⟨before, after, rfl, hlength, rfl, hhandles, hfailed, hall⟩ := ih hfailure
      refine ⟨x' :: before, after, rfl, by simp [hlength], ?_, hhandles, hfailed, ?_⟩
      · simp only [List.length_cons]
        omega
      · rw [List.zipIdx_cons, List.forall_mem_cons]
        exact ⟨⟨y', hx, hok⟩, hall⟩

end Scan

theorem isGreatest_foldl_max {γ : Type} [LinearOrder γ] (a : γ) (xs : List γ) :
    IsGreatest {x | x ∈ a :: xs} (xs.foldl max a) := by
  have hmax : (a :: xs).max? = some (xs.foldl max a) := List.max?_cons'
  obtain ⟨hmem, hupper⟩ := List.max?_eq_some_iff.mp hmax
  exact ⟨hmem, fun x hx => hupper x hx⟩

end ByteBattles.Lib
