import ByteBattles.Lib.PyStr
import Mathlib.Algebra.Order.Floor.Ring
import Mathlib.Data.Int.Log
import Mathlib.Data.Rat.Floor

/-!
# Numbers in text

`int(s)` and `float(s)` on strings and `int(x)` on floats.  A float is the binary64
number nearest to the decimal number in the text, as a rational.
-/

namespace ByteBattles.Lib

inductive PyFloat
  | finite (value : ℚ)
  | inf
  | nan
  deriving DecidableEq

def PyFloat.negated : PyFloat → PyFloat
  | .finite x => .finite (-x)
  | x => x

namespace PyNumber

/-! ## Digits -/

/-- The zeros of the decimal digits of Unicode 15. -/
def zeros : List Nat :=
  [0x30, 0x660, 0x6F0, 0x7C0, 0x966, 0x9E6, 0xA66, 0xAE6, 0xB66, 0xBE6, 0xC66, 0xCE6, 0xD66,
    0xDE6, 0xE50, 0xED0, 0xF20, 0x1040, 0x1090, 0x17E0, 0x1810, 0x1946, 0x19D0, 0x1A80, 0x1A90,
    0x1B50, 0x1BB0, 0x1C40, 0x1C50, 0xA620, 0xA8D0, 0xA900, 0xA9D0, 0xA9F0, 0xAA50, 0xABF0,
    0xFF10, 0x104A0, 0x10D30, 0x11066, 0x110F0, 0x11136, 0x111D0, 0x112F0, 0x11450, 0x114D0,
    0x11650, 0x116C0, 0x11730, 0x118E0, 0x11950, 0x11C50, 0x11D50, 0x11DA0, 0x11F50, 0x16A60,
    0x16AC0, 0x16B50, 0x1D7CE, 0x1D7D8, 0x1D7E2, 0x1D7EC, 0x1D7F6, 0x1E140, 0x1E2F0, 0x1E4F0,
    0x1E950, 0x1FBF0]

/-- The value of a decimal digit. -/
def digit (c : Char) : Option Nat :=
  (zeros.find? fun z => z ≤ c.toNat ∧ c.toNat ≤ z + 9).map fun z => c.toNat - z

/-- The digits of a text in which single underscores may stand between two digits. -/
def digits : Str → Option (List Nat)
  | [] => none
  | [c] => (digit c).map ([·])
  | c :: '_' :: rest => do
      let d ← digit c
      let ds ← digits rest
      return d :: ds
  | c :: c' :: rest => do
      let d ← digit c
      let ds ← digits (c' :: rest)
      return d :: ds

def value (ds : List Nat) : Nat := ds.foldl (fun n d => 10 * n + d) 0

/-- The text without its surrounding whitespace; the separators `U+001C` to `U+001F` are not
whitespace here. -/
def trimmed (s : Str) : Str :=
  Str.stripBy (fun c => Str.isSpace c && !(28 ≤ c.toNat && c.toNat ≤ 31)) s

def signed : Str → Int × Str
  | '-' :: s => (-1, s)
  | '+' :: s => (1, s)
  | s => (1, s)

/-- `int(s)`, if it does not raise.  There is a limit of 4300 digits. -/
def int (s : Str) : Option Int := do
  let (sign, rest) := signed (trimmed s)
  let ds ← digits rest
  if ds.length ≤ 4300 then some (sign * value ds) else none

/-! ## Rounding -/

/-- The nearest integer, the even one of two. -/
def roundHalfEven (q : ℚ) : Int :=
  let d := q - ⌊q⌋
  if d < 1 / 2 then ⌊q⌋
  else if 1 / 2 < d then ⌊q⌋ + 1
  else if ⌊q⌋ % 2 = 0 then ⌊q⌋ else ⌊q⌋ + 1

/-- The binary64 number nearest to a number that is not negative. -/
def nearest (q : ℚ) : PyFloat :=
  let e := max (Int.log 2 q - 52) (-1074)
  let x := roundHalfEven (q / 2 ^ e) * (2 : ℚ) ^ e
  if x < 2 ^ 1024 then .finite x else .inf

/-! ## Floats in text -/

/-- The exponent after the digits of a number, `0` if there is none. -/
def exponent : Str → Option Int
  | [] => some 0
  | c :: rest =>
      if c = 'e' ∨ c = 'E' then
        let (sign, rest) := signed rest
        (digits rest).map fun ds => sign * value ds
      else none

def digitsOrNone (s : Str) : Option (List Nat) := if s = [] then some [] else digits s

/-- A number without its sign: digits with a point, and an exponent. -/
def magnitude (s : Str) : Option ℚ := do
  let mantissa := s.takeWhile fun c => c ≠ 'e' ∧ c ≠ 'E'
  let whole ← digitsOrNone (mantissa.takeWhile (· ≠ '.'))
  let fraction ← digitsOrNone ((mantissa.dropWhile (· ≠ '.')).drop 1)
  let e ← exponent (s.dropWhile fun c => c ≠ 'e' ∧ c ≠ 'E')
  if whole ++ fraction = [] then none
  else some (value (whole ++ fraction) * 10 ^ (e - fraction.length))

def lower (s : Str) : Str := s.map Char.toLower

/-- `float(s)`, if it does not raise. -/
def float (s : Str) : Option PyFloat :=
  let (sign, rest) := signed (trimmed s)
  if lower rest = ['i', 'n', 'f'] ∨ lower rest = ['i', 'n', 'f', 'i', 'n', 'i', 't', 'y'] then
    some .inf
  else if lower rest = ['n', 'a', 'n'] then some .nan
  else (magnitude rest).map fun q => if sign < 0 then (nearest q).negated else nearest q

/-! ## `int(str(n))` -/

theorem bounds_of_isDigit {c : Char} (h : c.isDigit = true) : 48 ≤ c.toNat ∧ c.toNat ≤ 57 :=
  Char.isDigit_iff_toNat.mp h

theorem digit_of_isDigit {c : Char} (h : c.isDigit = true) : digit c = some (c.toNat - 48) := by
  have hbounds := bounds_of_isDigit h
  have hfirst : zeros.find? (fun z => z ≤ c.toNat ∧ c.toNat ≤ z + 9) = some 0x30 :=
    List.find?_cons_of_pos (by simpa using hbounds)
  rw [digit, hfirst]
  rfl

theorem digits_of_isDigit {s : Str} (hs : s ≠ []) (h : ∀ c ∈ s, c.isDigit = true) :
    digits s = some (s.map fun c => c.toNat - 48) := by
  induction s with
  | nil => exact absurd rfl hs
  | cons c s ih =>
      have hc := digit_of_isDigit (h c (List.mem_cons_self ..))
      cases s with
      | nil => simp [digits, hc]
      | cons c' s =>
          have hrest := ih (List.cons_ne_nil _ _) fun x hx => h x (List.mem_cons_of_mem _ hx)
          have hne : c' ≠ '_' := by
            rintro rfl
            have := h '_' (by simp)
            revert this
            decide
          have hstep : digits (c :: c' :: s) = (do
              let d ← digit c
              let ds ← digits (c' :: s)
              return d :: ds) := by
            rw [digits]
            rintro rfl
            exact hne rfl
          rw [hstep, hc, hrest]
          rfl

theorem value_map_toDigits (n : Nat) :
    value ((Nat.toDigits 10 n).map fun c => c.toNat - 48) = n := by
  rw [value, List.foldl_map]
  have h := @Nat.ofDigitChars_ten_toDigits n
  rw [Nat.ofDigitChars_eq_foldl] at h
  exact h

theorem not_isSpace_of_isDigit {c : Char} (h : c.isDigit = true) : Str.isSpace c = false := by
  have hbounds := bounds_of_isDigit h
  simp only [Str.isSpace, Bool.or_eq_false_iff, Bool.and_eq_false_imp, decide_eq_true_eq,
    decide_eq_false_iff_not, beq_eq_false_iff_ne]
  omega

theorem signed_cons_of_isDigit {c : Char} (hc : c.isDigit = true) (s : Str) :
    signed (c :: s) = (1, c :: s) := by
  unfold signed
  split
  case h_1 heq =>
    obtain rfl := (List.cons.inj heq).1
    cases hc
  case h_2 heq =>
    obtain rfl := (List.cons.inj heq).1
    cases hc
  case h_3 => rfl

theorem signed_of_isDigit {s : Str} (hs : s ≠ []) (h : ∀ c ∈ s, c.isDigit = true) (minus : Bool) :
    signed (if minus then '-' :: s else s) = (if minus then -1 else 1, s) := by
  cases minus with
  | true => rfl
  | false =>
      obtain ⟨c, t, rfl⟩ := List.exists_cons_of_ne_nil hs
      exact signed_cons_of_isDigit (h c (List.mem_cons_self ..)) t

theorem int_of_isDigit {s : Str} (hs : s ≠ []) (h : ∀ c ∈ s, c.isDigit = true) (minus : Bool) :
    int (if minus then '-' :: s else s) =
      if s.length ≤ 4300 then
        some ((if minus then -1 else 1 : Int) * value (s.map fun c => c.toNat - 48))
      else none := by
  have htrim : trimmed (if minus then '-' :: s else s) = if minus then '-' :: s else s := by
    refine Str.stripBy_eq_self fun c hc => ?_
    have hspace : Str.isSpace c = false := by
      cases minus with
      | false => exact not_isSpace_of_isDigit (h c hc)
      | true =>
          rcases List.mem_cons.mp hc with rfl | hc
          · decide
          · exact not_isSpace_of_isDigit (h c hc)
    simp [hspace]
  rw [int, htrim, signed_of_isDigit hs h minus]
  simp only [digits_of_isDigit hs h, Option.bind_eq_bind, Option.bind_some, List.length_map]

theorem isDigit_of_mem_toDigits (n : Nat) : ∀ c ∈ Nat.toDigits 10 n, c.isDigit = true :=
  fun _ hc => Nat.isDigit_of_mem_toDigits (by decide) (by decide) hc

/-- `int(str(n))` is `n`, unless there are too many digits. -/
theorem int_ofInt (n : Int) :
    int (Str.ofInt n) = if (Nat.toDigits 10 n.natAbs).length ≤ 4300 then some n else none := by
  cases n with
  | ofNat m =>
      have h := int_of_isDigit Nat.toDigits_ne_nil (isDigit_of_mem_toDigits m) false
      rw [value_map_toDigits] at h
      simpa [Str.ofInt, Int.repr] using h
  | negSucc m =>
      have h := int_of_isDigit Nat.toDigits_ne_nil (isDigit_of_mem_toDigits (m + 1)) true
      have hneg : (if true then -1 else 1 : Int) * (m + 1 : Nat) = Int.negSucc m := by
        rw [if_pos rfl]
        omega
      rw [value_map_toDigits, hneg] at h
      rw [show (Int.negSucc m).natAbs = m + 1 from rfl]
      simpa [Str.ofInt, Int.repr] using h

theorem eq_of_int_ofInt {n m : Int} (h : int (Str.ofInt n) = some m) : n = m := by
  rw [int_ofInt] at h
  split at h
  · exact Option.some.inj h
  · cases h

theorem signed_ofInt (n : Int) :
    signed (Str.ofInt n) = (if n < 0 then -1 else 1, Nat.toDigits 10 n.natAbs) := by
  cases n with
  | ofNat m =>
      have h := signed_of_isDigit Nat.toDigits_ne_nil (isDigit_of_mem_toDigits m) false
      have hnonneg : ¬ Int.ofNat m < 0 := Int.not_lt.mpr (Int.natCast_nonneg m)
      rw [if_neg hnonneg]
      simpa [Str.ofInt, Int.repr] using h
  | negSucc m =>
      have h := signed_of_isDigit Nat.toDigits_ne_nil (isDigit_of_mem_toDigits (m + 1)) true
      rw [show (Int.negSucc m).natAbs = m + 1 from rfl, if_pos (Int.negSucc_lt_zero m)]
      simpa [Str.ofInt, Int.repr] using h

theorem ofInt_injective {n m : Int} (h : Str.ofInt n = Str.ofInt m) : n = m := by
  have hsigned := congrArg signed h
  rw [signed_ofInt, signed_ofInt, Prod.mk.injEq] at hsigned
  obtain ⟨hsign, hdigits⟩ := hsigned
  have habs : n.natAbs = m.natAbs := by
    rw [← value_map_toDigits n.natAbs, hdigits, value_map_toDigits]
  split at hsign <;> split at hsign <;> omega

end PyNumber

end ByteBattles.Lib
