import Mathlib.Data.List.Sort

/-!
# Pages of an ordered query

A listing is read page by page, each page with a query of its own.  A query that orders
by a key may answer with the rows of equal key in any order, another one each time.
-/

namespace ByteBattles.Lib.Paging

variable {α κ : Type*} [LinearOrder κ] {key : α → κ} {rows a b : List α} {limit p : Nat}

/-- What a query of these rows that orders by the key may answer. -/
structure OrderedBy (key : α → κ) (rows answer : List α) : Prop where
  perm : answer.Perm rows
  sorted : answer.Pairwise fun x y => key x ≤ key y

def slice (limit k : Nat) (answer : List α) : List α := (answer.drop (k * limit)).take limit

/-- The first `n` pages; the query for page `k` has the answer `answers k`. -/
def pages (limit : Nat) (answers : Nat → List α) (n : Nat) : List α :=
  (List.range n).flatMap fun k => slice limit k (answers k)

/-- Rows of one key stand on both sides of position `p`. -/
def SplitsAt (key : α → κ) (rows : List α) (p : Nat) : Prop :=
  ∃ r ∈ rows, rows.countP (key · < key r) < p ∧ p < rows.countP (key · ≤ key r)

instance (key : α → κ) (rows : List α) (p : Nat) : Decidable (SplitsAt key rows p) :=
  List.decidableBEx _ _

theorem orderedBy_insertionSort (key : α → κ) (rows : List α) :
    OrderedBy key rows (rows.insertionSort fun x y => key x ≤ key y) where
  perm := List.perm_insertionSort _ rows
  sorted := by
    have : Std.Total fun x y : α => key x ≤ key y := ⟨fun x y => le_total (key x) (key y)⟩
    have : IsTrans α fun x y => key x ≤ key y := ⟨fun _ _ _ => le_trans⟩
    exact List.pairwise_insertionSort _ rows

/-! ## Beginnings of a sorted list -/

section

variable {P : α → Bool} {l : List α}

theorem countP_eq_zero_of_head {x : α} (h : (x :: l).Pairwise fun x y => P y → P x)
    (hx : ¬ P x) : (x :: l).countP P = 0 := by
  apply List.countP_eq_zero.mpr
  intro y hy hPy
  rcases List.mem_cons.mp hy with rfl | hy
  · exact hx hPy
  · exact hx (List.rel_of_pairwise_cons h hy hPy)

theorem filter_eq_take_countP (h : l.Pairwise fun x y => P y → P x) :
    l.filter P = l.take (l.countP P) := by
  induction l with
  | nil => rfl
  | cons x l ih =>
      by_cases hx : P x
      · rw [List.filter_cons_of_pos hx, List.countP_cons_of_pos hx, List.take_succ_cons,
          ih h.of_cons]
      · have hzero := countP_eq_zero_of_head h hx
        have hnone := List.countP_eq_zero.mp hzero
        rw [hzero, List.take_zero]
        exact List.filter_eq_nil_iff.mpr hnone

theorem getElem_iff_lt_countP (h : l.Pairwise fun x y => P y → P x) {i : Nat}
    (hi : i < l.length) : P l[i] ↔ i < l.countP P := by
  induction l generalizing i with
  | nil => simp at hi
  | cons x l ih =>
      by_cases hx : P x
      · rw [List.countP_cons_of_pos hx]
        cases i with
        | zero => simp [hx]
        | succ i =>
            rw [List.getElem_cons_succ, ih h.of_cons]
            omega
      · have hzero := countP_eq_zero_of_head h hx
        have hnone := List.countP_eq_zero.mp hzero
        simp [hzero, hnone _ (List.getElem_mem hi)]

end

theorem OrderedBy.le_mono (h : OrderedBy key rows a) (k : κ) :
    a.Pairwise fun x y => decide (key y ≤ k) → decide (key x ≤ k) :=
  h.sorted.imp fun hle => by simpa using hle.trans

theorem OrderedBy.lt_mono (h : OrderedBy key rows a) (k : κ) :
    a.Pairwise fun x y => decide (key y < k) → decide (key x < k) :=
  h.sorted.imp fun hle => by simpa using hle.trans_lt

theorem OrderedBy.length_eq (h : OrderedBy key rows a) : a.length = rows.length :=
  h.perm.length_eq

/-- The position of a row in any answer is among those of its key. -/
theorem OrderedBy.position (h : OrderedBy key rows a) {i : Nat} (hi : i < a.length) (k : κ) :
    (key a[i] < k ↔ i < rows.countP (key · < k)) ∧
      (key a[i] ≤ k ↔ i < rows.countP (key · ≤ k)) := by
  rw [← h.perm.countP_eq, ← h.perm.countP_eq, ← getElem_iff_lt_countP (h.lt_mono k) hi,
    ← getElem_iff_lt_countP (h.le_mono k) hi]
  simp

/-- Where no key is split, all answers begin with the same rows. -/
theorem OrderedBy.perm_take (ha : OrderedBy key rows a) (hb : OrderedBy key rows b)
    (hp : ¬ SplitsAt key rows p) : (a.take p).Perm (b.take p) := by
  cases p with
  | zero => rfl
  | succ i =>
      by_cases hi : i < a.length
      · -- the rows up to the key at position `i` are those up to this position
        obtain ⟨hlt, hle⟩ := ha.position hi (key a[i])
        have hcount : rows.countP (key · ≤ key a[i]) = i + 1 := by
          have hfrom := hlt.not.mp (lt_irrefl _)
          have huntil := hle.mp le_rfl
          have hnot : ¬ i + 1 < rows.countP (key · ≤ key a[i]) := fun hsplit =>
            hp ⟨a[i], ha.perm.mem_iff.mp (List.getElem_mem hi), by omega, hsplit⟩
          omega
        rw [← hcount]
        calc a.take (rows.countP (key · ≤ key a[i]))
            = a.filter (key · ≤ key a[i]) := by
              rw [filter_eq_take_countP (ha.le_mono _), ha.perm.countP_eq]
          _ |>.Perm (b.filter (key · ≤ key a[i])) := (ha.perm.trans hb.perm.symm).filter _
          _ = b.take (rows.countP (key · ≤ key a[i])) := by
              rw [filter_eq_take_countP (hb.le_mono _), hb.perm.countP_eq]
      · have hlength := ha.length_eq.trans hb.length_eq.symm
        rw [List.take_of_length_le (by omega), List.take_of_length_le (by omega)]
        exact ha.perm.trans hb.perm.symm

/-! ## All pages -/

theorem pages_succ (limit : Nat) (answers : Nat → List α) (n : Nat) :
    pages limit answers (n + 1) = pages limit answers n ++ slice limit n (answers n) := by
  rw [pages, pages, List.range_succ, List.flatMap_append, List.flatMap_singleton]

theorem take_slice (limit k : Nat) (answer : List α) :
    answer.take (k * limit) ++ slice limit k answer = answer.take ((k + 1) * limit) := by
  rw [slice, Nat.succ_mul, List.take_add]

theorem perm_pages (ha : OrderedBy key rows a) {answers : Nat → List α}
    (hanswers : ∀ k, OrderedBy key rows (answers k))
    (hsplit : ∀ k, ¬ SplitsAt key rows (k * limit)) (n : Nat) :
    (pages limit answers n).Perm (a.take (n * limit)) := by
  induction n with
  | zero => simp [pages]
  | succ n ih =>
      have hsame := (hanswers n).perm_take ha (hsplit n)
      have hnext := (hanswers n).perm_take ha (hsplit (n + 1))
      rw [pages_succ]
      rw [← take_slice] at hnext
      exact ((ih.trans hsame.symm).append_right _).trans hnext

/-- A key that is split at `p` is that of the rows on both sides. -/
theorem OrderedBy.tie_of_splitsAt (ha : OrderedBy key rows a) (hp : SplitsAt key rows p) :
    ∃ (A B : List α) (x y : α), a = A ++ x :: y :: B ∧ A.length + 1 = p ∧ key x = key y := by
  obtain ⟨r, -, hlt, hle⟩ := hp
  obtain ⟨i, rfl⟩ : ∃ i, p = i + 1 := ⟨p - 1, by omega⟩
  have hi : i + 1 < a.length := by
    rw [ha.length_eq]
    exact hle.trans_le List.countP_le_length
  have hkey : ∀ j (hj : j < a.length), i ≤ j → j ≤ i + 1 → key a[j] = key r := by
    intro j hj hfrom huntil
    obtain ⟨hjlt, hjle⟩ := ha.position hj (key r)
    apply le_antisymm
    · exact hjle.mpr (by omega)
    · exact not_lt.mp (hjlt.not.mpr (by omega))
  refine ⟨a.take i, a.drop (i + 2), a[i], a[i + 1], ?_, ?_, ?_⟩
  · rw [← List.drop_eq_getElem_cons, ← List.drop_eq_getElem_cons, List.take_append_drop]
  · rw [List.length_take]
    omega
  · rw [hkey i (by omega) (by omega) (by omega), hkey (i + 1) hi (by omega) (by omega)]

theorem not_splitsAt_of_injOn (hrows : rows.Nodup)
    (hkey : ∀ x ∈ rows, ∀ y ∈ rows, key x = key y → x = y) (p : Nat) :
    ¬ SplitsAt key rows p := by
  intro hp
  have ha := orderedBy_insertionSort key rows
  obtain ⟨A, B, x, y, heq, -, hxy⟩ := ha.tie_of_splitsAt hp
  have hmem : ∀ z ∈ [x, y], z ∈ rows := by
    intro z hz
    rw [← ha.perm.mem_iff, heq]
    simp only [List.mem_append, List.mem_cons] at hz ⊢
    tauto
  have hnodup : (A ++ x :: y :: B).Nodup := heq ▸ ha.perm.nodup_iff.mpr hrows
  have hsame : x = y := hkey x (hmem x (by simp)) y (hmem y (by simp)) hxy
  simp [List.nodup_append, hsame] at hnodup

theorem mem_slice {k : Nat} {x : α} (h : x ∈ slice limit k a) :
    x ∈ a.take ((k + 1) * limit) ∧ x ∈ a.drop (k * limit) := by
  constructor
  · rw [← take_slice]
    exact List.mem_append_right _ h
  · exact List.mem_of_mem_take h

/-- If a key is split between two pages, a row can be missing from all of them: the query
for the first page puts it second, that for the second page puts it first. -/
theorem exists_missing (hrows : rows.Nodup) {k : Nat} (hp : SplitsAt key rows (k * limit)) :
    ∃ answers : Nat → List α, (∀ i, OrderedBy key rows (answers i)) ∧
      ∃ y ∈ rows, ∀ n, y ∉ pages limit answers n := by
  have ha := orderedBy_insertionSort key rows
  obtain ⟨A, B, x, y, heq, hlength, hxy⟩ := ha.tie_of_splitsAt hp
  rw [heq] at ha
  have hswap : OrderedBy key rows (A ++ y :: x :: B) := by
    constructor
    · exact ((List.Perm.swap x y B).append_left A).trans ha.perm
    · have hkeys : (A ++ y :: x :: B).map key = (A ++ x :: y :: B).map key := by simp [hxy]
      have hsorted := List.pairwise_map.mpr ha.sorted
      rw [← hkeys] at hsorted
      exact List.pairwise_map.mp hsorted
  have hnodup : (A ++ x :: y :: B).Nodup := ha.perm.nodup_iff.mpr hrows
  obtain ⟨hbefore, hy, hafter⟩ : (y ∉ A) ∧ x ≠ y ∧ y ∉ B := by
    simp only [List.nodup_append, List.nodup_cons, List.mem_cons] at hnodup
    grind
  refine ⟨fun i => if i = k then A ++ y :: x :: B else A ++ x :: y :: B, fun i => ?_, y,
    ha.perm.mem_iff.mp (by simp), fun n hmem => ?_⟩
  · dsimp only
    split
    · exact hswap
    · exact ha
  · obtain ⟨i, -, hslice⟩ := List.mem_flatMap.mp hmem
    have hpage : y ∈ slice limit i
        (if i = k then A ++ y :: x :: B else A ++ x :: y :: B) := hslice
    obtain ⟨htake, hdrop⟩ := mem_slice hpage
    rcases lt_trichotomy i k with hi | rfl | hi
    · -- an earlier page ends before position `k * limit`
      rw [if_neg hi.ne] at htake
      have huntil : (i + 1) * limit ≤ A.length + 1 := by
        rw [hlength]
        exact Nat.mul_le_mul_right _ hi
      have hprefix := List.take_subset_take_left (A ++ x :: y :: B) huntil htake
      rw [List.take_length_add_append] at hprefix
      simp [hbefore, hy.symm] at hprefix
    · rw [if_pos rfl, ← hlength, List.drop_length_add_append] at hdrop
      simp [hy.symm, hafter] at hdrop
    · rw [if_neg hi.ne'] at hdrop
      have hlimit : 0 < limit := Nat.pos_of_ne_zero fun hzero => by simp [hzero] at hlength
      have hfrom : A.length + 2 ≤ i * limit := by
        have hmul : (k + 1) * limit ≤ i * limit := Nat.mul_le_mul_right _ hi
        rw [Nat.succ_mul] at hmul
        omega
      have hsuffix := List.drop_subset_drop_left (A ++ x :: y :: B) hfrom hdrop
      rw [List.drop_length_add_append] at hsuffix
      exact hafter hsuffix

theorem pages_subset {answers : Nat → List α} (hanswers : ∀ k, OrderedBy key rows (answers k))
    (n : Nat) : pages limit answers n ⊆ rows := by
  intro x hx
  obtain ⟨k, -, hx⟩ := List.mem_flatMap.mp hx
  exact (hanswers k).perm.mem_iff.mp (List.mem_of_mem_drop (List.mem_of_mem_take hx))

theorem perm_of_map_pages {β : Type*} {f : α → β} (hf : (rows.map f).Nodup)
    {answers : Nat → List α} (hanswers : ∀ k, OrderedBy key rows (answers k)) {n : Nat}
    (h : ((pages limit answers n).map f).Perm (rows.map f)) :
    (pages limit answers n).Perm rows := by
  have hnodup : (pages limit answers n).Nodup := (h.nodup_iff.mpr hf).of_map
  have hlength : rows.length = (pages limit answers n).length := by
    simpa using h.length_eq.symm
  have hsub := List.subperm_of_subset hnodup (pages_subset hanswers n)
  exact hsub.perm_of_length_le hlength.le

/-- `n` pages reach the end of the listing, and none of them begins after it. -/
structure Covers (limit length n : Nat) : Prop where
  reaches : length ≤ n * limit
  begins : ∀ k < n, k * limit ≤ length

theorem covers_div {limit : Nat} (hlimit : 0 < limit) (length : Nat) :
    Covers limit length (length / limit + 1) where
  reaches := (Nat.lt_mul_of_div_lt (Nat.lt_succ_self (length / limit)) hlimit).le
  begins := by
    intro k hk
    calc k * limit ≤ length / limit * limit := Nat.mul_le_mul_right _ (Nat.le_of_lt_succ hk)
      _ ≤ length := Nat.div_mul_le_self _ _

/-- **Exact pages**: whatever the queries answer, the pages show every row once if and only
if no key is split between two of them. -/
theorem pages_perm_iff {β : Type*} {f : α → β} (hf : (rows.map f).Nodup) (limit : Nat) :
    (∀ answers : Nat → List α, (∀ k, OrderedBy key rows (answers k)) →
      ∀ n, Covers limit rows.length n → ((pages limit answers n).map f).Perm (rows.map f)) ↔
    ∀ k, ¬ SplitsAt key rows (k * limit) := by
  constructor
  · intro hexact k hsplit
    obtain ⟨answers, hanswers, y, hy, hmissing⟩ := exists_missing hf.of_map hsplit
    have hlimit : 1 ≤ limit := by
      obtain ⟨r, -, hlt, -⟩ := hsplit
      exact Nat.pos_of_ne_zero fun hzero => by simp [hzero] at hlt
    have hmap := hexact answers hanswers _ (covers_div hlimit rows.length)
    have hall := perm_of_map_pages hf hanswers hmap
    exact hmissing _ (hall.mem_iff.mpr hy)
  · intro hsplit answers hanswers n hn
    have ha := orderedBy_insertionSort key rows
    have hpages := perm_pages ha hanswers hsplit n
    rw [List.take_of_length_le (ha.length_eq.trans_le hn.reaches)] at hpages
    exact (hpages.trans ha.perm).map f

end ByteBattles.Lib.Paging
