import Mathlib.Data.Char
import Mathlib.Data.List.Lex
import Mathlib.Data.List.Sort
import Mathlib.Data.List.TakeWhile

/-!
# Python strings

A `str` is the list of its characters, compared character by character.
-/

namespace ByteBattles.Lib

abbrev Str := List Char

namespace Str

instance : LawfulBEq Str := inferInstance

/-- `s.split(sep)[-1]`: what follows the last separator. -/
def lastSegment (sep : Char) (s : Str) : Str := (s.reverse.takeWhile (· != sep)).reverse

/-- `s.split(sep)[0]`: what precedes the first separator. -/
def firstSegment (sep : Char) (s : Str) : Str := s.takeWhile (· != sep)

/-- `sorted(strings)`. -/
def sorted (strings : List Str) : List Str := strings.insertionSort (· ≤ ·)

/-- The order of a sort by the key `key`. -/
def keyLe {α : Type*} (key : α → Str) (a b : α) : Prop := key a ≤ key b

instance {α : Type*} (key : α → Str) : DecidableRel (keyLe key) := fun a b =>
  inferInstanceAs (Decidable (key a ≤ key b))

/-- `c.isspace()`. -/
def isSpace (c : Char) : Bool :=
  let n := c.toNat
  (9 ≤ n && n ≤ 13) || (28 ≤ n && n ≤ 32) || n == 0x85 || n == 0xA0 || n == 0x1680 ||
    (0x2000 ≤ n && n ≤ 0x200A) || n == 0x2028 || n == 0x2029 || n == 0x202F || n == 0x205F ||
    n == 0x3000

/-- `s` without the characters `p` at both ends. -/
def stripBy (p : Char → Bool) (s : Str) : Str := ((s.dropWhile p).reverse.dropWhile p).reverse

/-- `s.strip()`. -/
def strip (s : Str) : Str := stripBy isSpace s

/-- `s.split()`: the runs of characters between whitespace. -/
def words (s : Str) : List Str := (s.splitOnP isSpace).filter (· ≠ [])

/-- `sep.join(strings)`. -/
def join (sep : Str) (strings : List Str) : Str := sep.intercalate strings

/-- `str(n)`. -/
def ofInt (n : Int) : Str := n.repr.toList

theorem not_mem_lastSegment (sep : Char) (s : Str) : sep ∉ lastSegment sep s := by
  intro h
  have := List.mem_takeWhile_imp (List.mem_reverse.mp h)
  simp at this

@[simp] theorem mem_sorted {s : Str} {strings : List Str} : s ∈ sorted strings ↔ s ∈ strings :=
  List.mem_insertionSort _

theorem append_le_append_iff {p a b : Str} : p ++ a ≤ p ++ b ↔ a ≤ b := by
  induction p with
  | nil => rfl
  | cons c p ih =>
      rw [← ih, ← not_lt, ← not_lt, List.cons_append, List.cons_append, List.cons_lt_cons_iff]
      simp

theorem sorted_map_append (p : Str) (strings : List Str) :
    sorted (strings.map (p ++ ·)) = (sorted strings).map (p ++ ·) := by
  symm
  apply List.map_insertionSort
  intro a _ b _
  exact append_le_append_iff.symm

theorem perm_sorted (strings : List Str) : (sorted strings).Perm strings :=
  List.perm_insertionSort _ strings

theorem sorted_eq_iff_perm {strings strings' : List Str} :
    sorted strings = sorted strings' ↔ strings.Perm strings' := by
  constructor
  · intro h
    exact (perm_sorted strings).symm.trans (h ▸ perm_sorted strings')
  · intro h
    have hperm : (sorted strings).Perm (sorted strings') :=
      (perm_sorted strings).trans (h.trans (perm_sorted strings').symm)
    exact hperm.eq_of_sortedLE List.sortedLE_insertionSort List.sortedLE_insertionSort

theorem stripBy_eq_self {p : Char → Bool} {s : Str} (h : ∀ c ∈ s, p c = false) :
    stripBy p s = s := by
  have hdrop : ∀ {t : Str}, (∀ c ∈ t, p c = false) → t.dropWhile p = t := by
    intro t ht
    cases t with
    | nil => rfl
    | cons c t => simp [ht c (List.mem_cons_self ..)]
  rw [stripBy, hdrop h, hdrop fun c hc => h c (List.mem_reverse.mp hc), List.reverse_reverse]

/-- A terminated prefix of a terminated name with an unterminated rest is that name,
or lies within it. -/
theorem eq_or_within_of_prefixed {sep : Char} {p q rest : Str} (hrest : sep ∉ rest)
    (h : p ++ [sep] <+: q ++ sep :: rest) : q = p ∨ p ++ [sep] <+: q := by
  induction p generalizing q with
  | nil =>
      cases q with
      | nil => exact .inl rfl
      | cons c q => exact .inr (by simpa using h)
  | cons a p ih =>
      cases q with
      | nil =>
          rw [List.nil_append, List.cons_append, List.cons_prefix_cons] at h
          exact absurd (h.2.subset (by simp)) hrest
      | cons c q =>
          rw [List.cons_append, List.cons_append, List.cons_prefix_cons] at h
          obtain ⟨rfl, h⟩ := h
          simpa using ih h

end Str

end ByteBattles.Lib
