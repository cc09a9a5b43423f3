import ByteBattles.Lib.PyStr
import Mathlib.Data.List.Dedup

/-!
# Object stores

A bucket maps keys to data.  Keys that share a prefix are listed in their order,
one page at a time.
-/

namespace ByteBattles.Lib

/-- The objects of a bucket, at most one under each key. -/
abbrev Bucket (β : Type*) := List (Str × β)

namespace Bucket

variable {β : Type*}

def keys (b : Bucket β) : List Str := b.map Prod.fst

/-- Store an object, in place of one that has the same key. -/
def putObject (b : Bucket β) (key : Str) (data : β) : Bucket β :=
  (key, data) :: b.filter (·.1 != key)

def putObjects (b : Bucket β) (objects : List (Str × β)) : Bucket β :=
  objects.foldl (fun b o => b.putObject o.1 o.2) b

def getObject (b : Bucket β) (key : Str) : Option β := (b.find? (·.1 == key)).map Prod.snd

def deleteObjects (b : Bucket β) (deleted : List Str) : Bucket β :=
  b.filter fun o => o.1 ∉ deleted

/-- The first page of the keys that begin with `start`. -/
def listObjects (b : Bucket β) (pageSize : Nat) (start : Str) : List Str :=
  (Str.sorted (b.keys.filter start.isPrefixOf)).take pageSize

def under (b : Bucket β) (start : Str) : List Str := b.keys.filter start.isPrefixOf

@[simp] theorem mem_keys_putObject {b : Bucket β} {key k : Str} {data : β} :
    k ∈ (b.putObject key data).keys ↔ k = key ∨ k ∈ b.keys := by
  by_cases hk : k = key
  · simp [putObject, keys, hk]
  · simp [putObject, keys, hk]

@[simp] theorem mem_keys_deleteObjects {b : Bucket β} {deleted : List Str} {k : Str} :
    k ∈ (b.deleteObjects deleted).keys ↔ k ∈ b.keys ∧ k ∉ deleted := by
  simp [deleteObjects, keys]

theorem getObject_putObject_of_ne {b : Bucket β} {key k : Str} (data : β) (h : k ≠ key) :
    (b.putObject key data).getObject k = b.getObject k := by
  have hhead : ¬ (fun o : Str × β => o.1 == k) (key, data) = true := by simpa using h.symm
  rw [getObject, putObject, List.find?_cons_of_neg (p := fun o : Str × β => o.1 == k) hhead,
    List.find?_filter, getObject]
  congr
  funext o
  by_cases ho : o.1 = k
  · simp [ho, h]
  · simp [ho]

@[simp] theorem getObject_putObject (b : Bucket β) (key : Str) (data : β) :
    (b.putObject key data).getObject key = some data := by
  simp [getObject, putObject]

theorem getObject_putObject_eq_iff {b : Bucket β} {key : Str} {data : β} :
    (∀ k, (b.putObject key data).getObject k = b.getObject k) ↔ b.getObject key = some data := by
  constructor
  · intro h
    rw [← h key, getObject_putObject]
  · intro h k
    by_cases hk : k = key
    · rw [hk, getObject_putObject, h]
    · exact getObject_putObject_of_ne data hk

theorem getObject_deleteObjects {b : Bucket β} {deleted : List Str} {k : Str} (h : k ∉ deleted) :
    (b.deleteObjects deleted).getObject k = b.getObject k := by
  rw [getObject, deleteObjects, List.find?_filter, getObject]
  congr
  funext o
  by_cases ho : o.1 = k
  · simp [ho, h]
  · simp [ho]

theorem mem_keys_iff_getObject {b : Bucket β} {k : Str} :
    k ∈ b.keys ↔ ∃ data, b.getObject k = some data := by
  rw [keys, getObject, List.mem_map]
  constructor
  · rintro ⟨o, ho, rfl⟩
    have hsome : (b.find? (·.1 == o.1)).isSome = true :=
      List.find?_isSome.mpr ⟨o, ho, by simp⟩
    obtain ⟨o', ho'⟩ := Option.isSome_iff_exists.mp hsome
    exact ⟨o'.2, by rw [ho']; rfl⟩
  · rintro ⟨data, hdata⟩
    obtain ⟨o, ho, -⟩ := Option.map_eq_some_iff.mp hdata
    exact ⟨o, List.mem_of_find?_eq_some ho, by simpa using List.find?_some ho⟩

theorem deleteObjects_nil (b : Bucket β) : b.deleteObjects [] = b := by
  simp [deleteObjects]

theorem deleteObjects_append (b : Bucket β) (deleted deleted' : List Str) :
    b.deleteObjects (deleted ++ deleted') = (b.deleteObjects deleted).deleteObjects deleted' := by
  rw [deleteObjects, deleteObjects, deleteObjects, List.filter_filter]
  apply List.filter_congr
  intro o _
  simp [Bool.and_comm]

theorem prefix_of_mem_listObjects {b : Bucket β} {n : Nat} {start k : Str}
    (h : k ∈ b.listObjects n start) : start <+: k := by
  have := Str.mem_sorted.mp (List.mem_of_mem_take h)
  exact List.isPrefixOf_iff_prefix.mp (List.mem_filter.mp this).2

/-- A page that is not full has all the keys. -/
theorem mem_listObjects {b : Bucket β} {n : Nat} {start k : Str} (hn : b.length ≤ n)
    (hk : k ∈ b.keys) (hp : start <+: k) : k ∈ b.listObjects n start := by
  have hlen : (Str.sorted (b.keys.filter start.isPrefixOf)).length ≤ n :=
    calc (Str.sorted (b.keys.filter start.isPrefixOf)).length
        = (b.keys.filter start.isPrefixOf).length := List.length_insertionSort _ _
      _ ≤ b.keys.length := List.length_filter_le _ _
      _ = b.length := List.length_map _
      _ ≤ n := hn
  rw [listObjects, List.take_of_length_le hlen, Str.mem_sorted]
  exact List.mem_filter.mpr ⟨hk, List.isPrefixOf_iff_prefix.mpr hp⟩

theorem mem_under {b : Bucket β} {start k : Str} :
    k ∈ b.under start ↔ k ∈ b.keys ∧ start <+: k := by
  rw [under, List.mem_filter, List.isPrefixOf_iff_prefix]

theorem nodup_keys_putObject {b : Bucket β} (h : b.keys.Nodup) (key : Str) (data : β) :
    (b.putObject key data).keys.Nodup := by
  rw [putObject, keys, List.map_cons, List.nodup_cons]
  refine ⟨?_, h.sublist (List.filter_sublist.map Prod.fst)⟩
  simp

theorem mem_keys_putObjects {b : Bucket β} {objects : List (Str × β)} {k : Str} :
    k ∈ (b.putObjects objects).keys ↔ k ∈ b.keys ∨ k ∈ objects.map Prod.fst := by
  induction objects generalizing b with
  | nil => simp [putObjects]
  | cons o objects ih =>
      have hrest : k ∈ (b.putObjects (o :: objects)).keys ↔ _ := ih (b := b.putObject o.1 o.2)
      rw [hrest, mem_keys_putObject, List.map_cons, List.mem_cons]
      tauto

theorem nodup_keys_putObjects {b : Bucket β} (h : b.keys.Nodup) (objects : List (Str × β)) :
    (b.putObjects objects).keys.Nodup := by
  induction objects generalizing b with
  | nil => exact h
  | cons o objects ih => exact ih (nodup_keys_putObject h o.1 o.2)

theorem getObject_putObjects {b : Bucket β} {objects : List (Str × β)} {k : Str}
    (h : ∀ o ∈ objects, k ≠ o.1) : (b.putObjects objects).getObject k = b.getObject k := by
  induction objects generalizing b with
  | nil => rfl
  | cons o objects ih =>
      have hrest := ih (b := b.putObject o.1 o.2) fun o' ho' => h o' (List.mem_cons_of_mem _ ho')
      rw [← getObject_putObject_of_ne (b := b) o.2 (h o (List.mem_cons_self ..))]
      exact hrest

/-- The keys under `start` after uploads, each counted once. -/
theorem length_under_putObjects {b : Bucket β} (h : b.keys.Nodup) {objects : List (Str × β)}
    {start : Str} (hstart : ∀ o ∈ objects, start <+: o.1) :
    ((b.putObjects objects).under start).length =
      (b.under start ++ objects.map Prod.fst).dedup.length := by
  have hunder : ((b.putObjects objects).under start).Nodup :=
    (nodup_keys_putObjects h objects).filter _
  apply List.Perm.length_eq
  rw [List.perm_ext_iff_of_nodup hunder (List.nodup_dedup _)]
  intro k
  have hobjects : k ∈ objects.map Prod.fst → start <+: k := by
    intro hk
    obtain ⟨o, ho, rfl⟩ := List.mem_map.mp hk
    exact hstart o ho
  rw [mem_under, mem_keys_putObjects, List.mem_dedup, List.mem_append, mem_under]
  tauto

/-- All of a list without duplicates is on its first page. -/
theorem forall_mem_take_iff {α : Type*} {l : List α} (h : l.Nodup) {n : Nat} :
    (∀ a ∈ l, a ∈ l.take n) ↔ l.length ≤ n := by
  constructor
  · intro hall
    have hsub : l.Subperm (l.take n) := List.subperm_of_subset h hall
    have hle := hsub.length_le
    rw [List.length_take] at hle
    omega
  · intro hle a ha
    rwa [List.take_of_length_le hle]

/-- The keys that begin with `start` are gone exactly if they fit on one page. -/
theorem under_deleted_iff {b : Bucket β} (h : b.keys.Nodup) {n : Nat} {start : Str} :
    (b.deleteObjects (b.listObjects n start)).under start = [] ↔ (b.under start).length ≤ n := by
  have hsorted : (Str.sorted (b.under start)).Nodup :=
    (List.perm_insertionSort _ _).nodup_iff.mpr (h.filter _)
  have hlength : (Str.sorted (b.under start)).length = (b.under start).length :=
    List.length_insertionSort _ _
  rw [← hlength, ← forall_mem_take_iff hsorted, List.eq_nil_iff_forall_not_mem]
  constructor
  · intro hnone k hk
    rw [Str.mem_sorted, mem_under] at hk
    by_contra hlisted
    apply hnone k
    rw [mem_under, mem_keys_deleteObjects]
    exact ⟨⟨hk.1, hlisted⟩, hk.2⟩
  · intro hall k hk
    rw [mem_under, mem_keys_deleteObjects] at hk
    obtain ⟨⟨hkey, hlisted⟩, hstart⟩ := hk
    exact hlisted (hall k (Str.mem_sorted.mpr (mem_under.mpr ⟨hkey, hstart⟩)))

end Bucket

end ByteBattles.Lib
