import Mathlib.Data.List.Nodup
import Mathlib.Data.List.Perm.Subperm

/-!
# Keyed tables

A table is the list of its rows.  A column is unique when no two rows share a value; then
a query for a list of keys finds as many rows as there are keys exactly if it finds each
key once.
-/

namespace ByteBattles.Lib.Table

variable {α κ ι : Type*} {key : α → κ} {rows : List α} {row a b : α}

def Unique (key : α → κ) (rows : List α) : Prop := (rows.map key).Nodup

/-- The row takes the place of the one with its id. -/
def replace [DecidableEq ι] (id : α → ι) (row : α) (rows : List α) : List α :=
  rows.map fun r => if id r = id row then row else r

theorem unique_nil (key : α → κ) : Unique key [] := List.nodup_nil

theorem Unique.eq (h : Unique key rows) (ha : a ∈ rows) (hb : b ∈ rows) (hkey : key a = key b) :
    a = b :=
  List.inj_on_of_nodup_map h ha hb hkey

theorem Unique.append (h : Unique key rows) (hnew : ∀ r ∈ rows, key r ≠ key row) :
    Unique key (rows ++ [row]) := by
  rw [Unique, List.map_append]
  refine List.Nodup.append h (List.nodup_singleton _) ?_
  intro k hk hrow
  obtain ⟨r, hr, rfl⟩ := List.mem_map.mp hk
  exact hnew r hr (List.mem_singleton.mp hrow)

theorem Unique.filter (h : Unique key rows) (p : α → Bool) : Unique key (rows.filter p) :=
  h.sublist (List.filter_sublist.map key)

theorem Unique.map (h : Unique key rows) {f : α → α} (hf : ∀ r, key (f r) = key r) :
    Unique key (rows.map f) := by
  rw [Unique, List.map_map]
  have hkey : key ∘ f = key := funext hf
  rwa [hkey]

theorem Unique.find? [DecidableEq κ] (h : Unique key rows) (ha : a ∈ rows) :
    rows.find? (fun r => key r = key a) = some a := by
  cases hfind : rows.find? fun r => key r = key a with
  | none =>
      have := List.find?_eq_none.mp hfind a ha
      simp at this
  | some b =>
      have hkey : key b = key a := by simpa using List.find?_some hfind
      rw [h.eq (List.mem_of_find?_eq_some hfind) ha hkey]

section

variable [DecidableEq ι] {id : α → ι}

theorem mem_replace (h : a ∈ replace id row rows) : a = row ∨ a ∈ rows ∧ id a ≠ id row := by
  obtain ⟨r, hr, rfl⟩ := List.mem_map.mp h
  by_cases hid : id r = id row
  · rw [if_pos hid]
    exact .inl rfl
  · rw [if_neg hid]
    exact .inr ⟨hr, hid⟩

theorem map_id_replace (rows : List α) : (replace id row rows).map id = rows.map id := by
  rw [replace, List.map_map]
  apply List.map_congr_left
  intro r _
  by_cases hid : id r = id row
  · simp [hid]
  · simp [hid]

theorem Unique.replace_id (h : Unique id rows) : Unique id (replace id row rows) := by
  rwa [Unique, map_id_replace]

/-- A column stays unique if the new row shares its value with no row but its own. -/
theorem Unique.replace (h : Unique key rows) (hid : Unique id rows)
    (hnew : ∀ r ∈ rows, id r ≠ id row → key r ≠ key row) :
    Unique key (replace id row rows) := by
  rw [Unique, List.Nodup, List.pairwise_map] at h hid ⊢
  rw [Table.replace, List.pairwise_map]
  refine (h.and hid).imp_of_mem ?_
  rintro a b ha hb ⟨hkey, hne⟩
  by_cases haid : id a = id row
  · have hbid : id b ≠ id row := fun hb => hne (haid.trans hb.symm)
    rw [if_pos haid, if_neg hbid]
    exact (hnew b hb hbid).symm
  · by_cases hbid : id b = id row
    · rw [if_neg haid, if_pos hbid]
      exact hnew a ha haid
    · rwa [if_neg haid, if_neg hbid]

end

/-! ## Rows by a list of keys -/

section

variable [DecidableEq κ]

/-- The rows whose key is one of these. -/
def select (key : α → κ) (keys : List κ) (rows : List α) : List α :=
  rows.filter fun r => key r ∈ keys

theorem mem_map_select {keys : List κ} {k : κ} :
    k ∈ (select key keys rows).map key ↔ k ∈ keys ∧ k ∈ rows.map key := by
  constructor
  · intro h
    obtain ⟨r, hr, rfl⟩ := List.mem_map.mp h
    obtain ⟨hr, hkey⟩ := List.mem_filter.mp hr
    exact ⟨of_decide_eq_true hkey, List.mem_map_of_mem hr⟩
  · intro h
    obtain ⟨hk, hrow⟩ := h
    obtain ⟨r, hr, rfl⟩ := List.mem_map.mp hrow
    exact List.mem_map_of_mem (List.mem_filter.mpr ⟨hr, decide_eq_true hk⟩)

/-- The keys that are found are distinct keys of the list. -/
theorem Unique.map_select_subperm (h : Unique key rows) (keys : List κ) :
    ((select key keys rows).map key).Subperm keys := by
  apply List.subperm_of_subset (h.filter _)
  intro k hk
  exact (mem_map_select.mp hk).1

/-- Every key is found once if and only if no key is repeated and each of them is in the
table. -/
theorem Unique.map_select_perm_iff (h : Unique key rows) {keys : List κ} :
    ((select key keys rows).map key).Perm keys ↔
      keys.Nodup ∧ ∀ k ∈ keys, k ∈ rows.map key := by
  have hnodup : ((select key keys rows).map key).Nodup := h.filter _
  constructor
  · intro hperm
    refine ⟨hperm.nodup_iff.mp hnodup, fun k hk => ?_⟩
    exact (mem_map_select.mp (hperm.mem_iff.mpr hk)).2
  · intro hkeys
    obtain ⟨hdistinct, hrows⟩ := hkeys
    apply (List.perm_ext_iff_of_nodup hnodup hdistinct).mpr
    intro k
    rw [mem_map_select]
    exact ⟨fun hk => hk.1, fun hk => ⟨hk, hrows k hk⟩⟩

/-- No missing key is masked by another one: the numbers agree only if every key is found
once. -/
theorem Unique.length_select_iff (h : Unique key rows) {keys : List κ} :
    (select key keys rows).length = keys.length ↔
      ((select key keys rows).map key).Perm keys := by
  constructor
  · intro hlength
    apply (h.map_select_subperm keys).perm_of_length_le
    rw [List.length_map]
    omega
  · intro hperm
    rw [← hperm.length_eq, List.length_map]

end

end ByteBattles.Lib.Table
