import ByteBattles.Lib.Rounding

/-!
# Decimal numbers in text

`printf("%ld.%02ld", ...)` and what `float` reads of it.
-/

namespace ByteBattles.Lib.PyNumber

def twoDigits (n : Nat) : Str := [Nat.digitChar (n / 10), Nat.digitChar (n % 10)]

/-- `%ld.%02ld`. -/
def decimal (whole hundredths : Nat) : Str := Nat.toDigits 10 whole ++ '.' :: twoDigits hundredths

def decimalValue (whole hundredths : Nat) : ℚ := whole + hundredths / 100

theorem isDigit_digitChar : ∀ d < 10, (Nat.digitChar d).isDigit = true := by decide

theorem toNat_digitChar : ∀ d < 10, (Nat.digitChar d).toNat - 48 = d := by decide

theorem isDigit_of_mem_twoDigits {n : Nat} (hn : n < 100) :
    ∀ c ∈ twoDigits n, c.isDigit = true := by
  intro c hc
  simp only [twoDigits, List.mem_cons, List.not_mem_nil, or_false] at hc
  rcases hc with rfl | rfl
  · exact isDigit_digitChar _ (by omega)
  · exact isDigit_digitChar _ (by omega)

theorem map_twoDigits {n : Nat} (hn : n < 100) :
    (twoDigits n).map (fun c => c.toNat - 48) = [n / 10, n % 10] := by
  simp only [twoDigits, List.map_cons, List.map_nil, List.cons.injEq, and_true]
  exact ⟨toNat_digitChar _ (by omega), toNat_digitChar _ (by omega)⟩

theorem value_append_two (ds : List Nat) (a b : Nat) :
    value (ds ++ [a, b]) = 100 * value ds + 10 * a + b := by
  simp only [value, List.foldl_append, List.foldl_cons, List.foldl_nil]
  ring

section

variable {whole hundredths : Nat}

theorem mem_decimal (h : hundredths < 100) {c : Char} (hc : c ∈ decimal whole hundredths) :
    c.isDigit = true ∨ c = '.' := by
  rcases List.mem_append.mp hc with hc | hc
  · exact .inl (isDigit_of_mem_toDigits whole c hc)
  · rcases List.mem_cons.mp hc with rfl | hc
    · exact .inr rfl
    · exact .inl (isDigit_of_mem_twoDigits h c hc)

/-- The text has no character of a class that has neither digits nor the point. -/
theorem not_of_mem_decimal (h : hundredths < 100) {p : Char → Bool}
    (hdigit : ∀ c, c.isDigit = true → p c = false) (hpoint : p '.' = false) :
    ∀ c ∈ decimal whole hundredths, p c = false := by
  intro c hc
  rcases mem_decimal h hc with hc | rfl
  · exact hdigit c hc
  · exact hpoint

theorem decimal_eq_cons (whole hundredths : Nat) :
    ∃ c s, c.isDigit = true ∧ decimal whole hundredths = c :: s := by
  obtain ⟨c, s, hs⟩ := List.exists_cons_of_ne_nil (@Nat.toDigits_ne_nil whole 10)
  refine ⟨c, s ++ '.' :: twoDigits hundredths, ?_, by rw [decimal, hs, List.cons_append]⟩
  exact isDigit_of_mem_toDigits whole c (by rw [hs]; exact List.mem_cons_self ..)

/-- A text that begins with a digit is none of the words for infinity and no number. -/
theorem lower_cons_ne {c : Char} (hc : c.isDigit = true) (s : Str) {d : Char}
    (hd : d.isDigit = false) (t : Str) : lower (c :: s) ≠ d :: t := by
  intro h
  have hhead : c.toLower = d := (List.cons.inj h).1
  have hlower : c.toLower = c := by
    have hbounds := bounds_of_isDigit hc
    unfold Char.toLower
    rw [dif_neg]
    rintro ⟨hlow, -⟩
    have hupper : 65 ≤ c.toNat := UInt32.le_iff_toNat_le.mp hlow
    omega
  rw [hlower] at hhead
  rw [hhead, hd] at hc
  cases hc

theorem digitsOrNone_of_isDigit {s : Str} (hs : s ≠ []) (h : ∀ c ∈ s, c.isDigit = true) :
    digitsOrNone s = some (s.map fun c => c.toNat - 48) := by
  rw [digitsOrNone, if_neg hs]
  exact digits_of_isDigit hs h

theorem split_decimal (whole hundredths : Nat) :
    (decimal whole hundredths).takeWhile (· ≠ '.') = Nat.toDigits 10 whole ∧
      ((decimal whole hundredths).dropWhile (· ≠ '.')).drop 1 = twoDigits hundredths := by
  have hwhole : ∀ c ∈ Nat.toDigits 10 whole, decide (c ≠ '.') = true := by
    intro c hc
    have hdigit := isDigit_of_mem_toDigits whole c hc
    apply decide_eq_true
    rintro rfl
    cases hdigit
  constructor
  · rw [decimal, List.takeWhile_append_of_pos hwhole]
    simp
  · rw [decimal, List.dropWhile_append_of_pos hwhole]
    simp

theorem magnitude_decimal (h : hundredths < 100) :
    magnitude (decimal whole hundredths) = some (decimalValue whole hundredths) := by
  have hexponent : ∀ c ∈ decimal whole hundredths, c ≠ 'e' ∧ c ≠ 'E' := by
    intro c hc
    rcases mem_decimal h hc with hc | rfl
    · constructor <;> rintro rfl <;> cases hc
    · decide
  have hmantissa : (decimal whole hundredths).takeWhile (fun c => c ≠ 'e' ∧ c ≠ 'E') =
      decimal whole hundredths :=
    List.takeWhile_eq_self_iff.mpr fun c hc => decide_eq_true (hexponent c hc)
  have hrest : (decimal whole hundredths).dropWhile (fun c => c ≠ 'e' ∧ c ≠ 'E') = [] :=
    List.dropWhile_eq_nil_iff.mpr fun c hc => decide_eq_true (hexponent c hc)
  obtain ⟨hbefore, hafter⟩ := split_decimal whole hundredths
  have hwhole := digitsOrNone_of_isDigit Nat.toDigits_ne_nil (isDigit_of_mem_toDigits whole)
  have hfraction : digitsOrNone (twoDigits hundredths) =
      some [hundredths / 10, hundredths % 10] := by
    rw [← map_twoDigits h]
    exact digitsOrNone_of_isDigit (List.cons_ne_nil _ _) (isDigit_of_mem_twoDigits h)
  have hvalue : value ((Nat.toDigits 10 whole).map (fun c => c.toNat - 48) ++
      [hundredths / 10, hundredths % 10]) = 100 * whole + hundredths := by
    rw [value_append_two, value_map_toDigits]
    omega
  unfold magnitude
  dsimp only
  rw [hmantissa, hrest, hbefore, hafter, hwhole, hfraction]
  simp only [exponent, Option.bind_eq_bind, Option.bind_some, hvalue]
  rw [if_neg (by simp)]
  congr 1
  rw [decimalValue]
  push_cast
  norm_num
  ring

/-- `int` reads the digits of a number, unless there are too many. -/
theorem int_toDigits (n : Nat) :
    int (Nat.toDigits 10 n) =
      if (Nat.toDigits 10 n).length ≤ 4300 then some (n : Int) else none := by
  have h := int_of_isDigit Nat.toDigits_ne_nil (isDigit_of_mem_toDigits n) false
  rw [value_map_toDigits] at h
  simpa using h

/-- `float` reads the nearest float. -/
theorem float_decimal (h : hundredths < 100) :
    float (decimal whole hundredths) = some (nearest (decimalValue whole hundredths)) := by
  have htrim : trimmed (decimal whole hundredths) = decimal whole hundredths := by
    apply Str.stripBy_eq_self
    refine not_of_mem_decimal h (fun c hc => ?_) (by decide)
    simp [not_isSpace_of_isDigit hc]
  obtain ⟨c, s, hc, hdecimal⟩ := decimal_eq_cons whole hundredths
  have hword (d : Char) (hd : d.isDigit = false) (t : Str) :
      lower (decimal whole hundredths) ≠ d :: t := by
    rw [hdecimal]
    exact lower_cons_ne hc s hd t
  have hsigned : signed (decimal whole hundredths) = (1, decimal whole hundredths) := by
    rw [hdecimal]
    exact signed_cons_of_isDigit hc s
  rw [float, htrim, hsigned]
  simp only [hword 'i' (by decide), hword 'n' (by decide), or_self, if_false,
    magnitude_decimal h, Option.map_some]
  rfl

end

end ByteBattles.Lib.PyNumber
