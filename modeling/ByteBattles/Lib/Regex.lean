import ByteBattles.Lib.PyStr

/-!
# Regular expressions

Patterns that are sequences of anchors, repeated character classes and lookaheads, as
`re.match` reads them without flags: a match starts at the first character and may end
anywhere, and `$` holds at the end of the text and before a newline that ends it.
-/

namespace ByteBattles.Lib

/-- A pattern is its first item and the rest. -/
inductive Regex
  | done
  /-- `^` -/
  | start (rest : Regex)
  /-- `$` -/
  | finish (rest : Regex)
  /-- A class that is repeated at least `lo` times, and at most `hi` times if there is
  a bound. -/
  | run (p : Char → Bool) (lo : Nat) (hi : Option Nat) (rest : Regex)
  /-- `(?=q)` -/
  | ahead (q rest : Regex)

namespace Regex

variable {p : Char → Bool} {lo i : Nat} {hi : Option Nat} {q rest : Regex} {s : Str}

def atEnd (s : Str) : Bool := s == [] || s == ['\n']

/-- Whether the pattern matches the rest `s` of a text, after `i` characters of it.  The
engine tries the longest runs first, which makes no difference to whether one fits. -/
def matchFrom : Regex → Nat → Str → Bool
  | done, _, _ => true
  | start rest, i, s => i == 0 && rest.matchFrom i s
  | finish rest, i, s => atEnd s && rest.matchFrom i s
  | run p lo hi rest, i, s =>
      (List.range (s.length + 1)).any fun n =>
        decide (lo ≤ n) && hi.all (decide <| n ≤ ·) && (s.take n).all p &&
          rest.matchFrom (i + n) (s.drop n)
  | ahead q rest, i, s => q.matchFrom i s && rest.matchFrom i s

/-- `re.match(r, s)` finds a match. -/
def accepts (r : Regex) (s : Str) : Bool := r.matchFrom 0 s

structure Run (p : Char → Bool) (lo : Nat) (hi : Option Nat) (t : Str) : Prop where
  lo_le : lo ≤ t.length
  le_hi : ∀ n, hi = some n → t.length ≤ n
  all : ∀ c ∈ t, p c = true

theorem atEnd_iff : atEnd s = true ↔ s = [] ∨ s = ['\n'] := by simp [atEnd]

theorem matchFrom_done : done.matchFrom i s = true := rfl

theorem matchFrom_start :
    (start rest).matchFrom i s = true ↔ i = 0 ∧ rest.matchFrom i s = true := by
  simp [matchFrom]

theorem matchFrom_finish :
    (finish rest).matchFrom i s = true ↔
      (s = [] ∨ s = ['\n']) ∧ rest.matchFrom i s = true := by
  rw [matchFrom, Bool.and_eq_true, atEnd_iff]

theorem matchFrom_ahead :
    (ahead q rest).matchFrom i s = true ↔
      q.matchFrom i s = true ∧ rest.matchFrom i s = true := by
  rw [matchFrom, Bool.and_eq_true]

theorem matchFrom_run :
    (run p lo hi rest).matchFrom i s = true ↔
      ∃ t u, s = t ++ u ∧ Run p lo hi t ∧ rest.matchFrom (i + t.length) u = true := by
  simp only [matchFrom, List.any_eq_true, Bool.and_eq_true, List.mem_range, decide_eq_true_eq,
    List.all_eq_true, Option.all_eq_true]
  constructor
  · rintro ⟨n, hn, ⟨⟨hlo, hhi⟩, hall⟩, hrest⟩
    have hlength : (s.take n).length = n := List.length_take_of_le (by omega)
    refine ⟨s.take n, s.drop n, (List.take_append_drop n s).symm, ⟨?_, ?_, hall⟩, ?_⟩
    · rwa [hlength]
    · intro m hm
      rw [hlength]
      exact hhi m hm
    · rwa [hlength]
  · rintro ⟨t, u, rfl, ⟨hlo, hhi, hall⟩, hrest⟩
    refine ⟨t.length, ?_, ⟨⟨hlo, hhi⟩, ?_⟩, ?_⟩
    · rw [List.length_append]
      omega
    · rwa [List.take_left]
    · rwa [List.drop_left]

/-- `[...]{lo,hi}$`: a run, or a run and a newline. -/
theorem matchFrom_run_finish :
    (run p lo hi (finish done)).matchFrom i s = true ↔
      ∃ t, Run p lo hi t ∧ (s = t ∨ s = t ++ ['\n']) := by
  simp only [matchFrom_run, matchFrom_finish, matchFrom_done, and_true]
  constructor
  · rintro ⟨t, u, rfl, hrun, rfl | rfl⟩
    · exact ⟨t, hrun, .inl (List.append_nil t)⟩
    · exact ⟨t, hrun, .inr rfl⟩
  · rintro ⟨t, hrun, hs | hs⟩
    · exact ⟨t, [], hs.trans (List.append_nil t).symm, hrun, .inl rfl⟩
    · exact ⟨t, ['\n'], hs, hrun, .inr rfl⟩

/-- `.*[...]`, which looks for a character of the class before the next newline. -/
theorem matchFrom_find {dot : Char → Bool} :
    (run dot 0 none (run p 1 (some 1) done)).matchFrom i s = true ↔
      ∃ t c u, s = t ++ c :: u ∧ (∀ d ∈ t, dot d = true) ∧ p c = true := by
  simp only [matchFrom_run, matchFrom_done, and_true]
  constructor
  · rintro ⟨t, _, rfl, ht, c, u, rfl, hc⟩
    obtain ⟨a, rfl⟩ : ∃ a, c = [a] :=
      List.length_eq_one_iff.mp (le_antisymm (hc.le_hi 1 rfl) hc.lo_le)
    exact ⟨t, a, u, rfl, ht.all, hc.all a (List.mem_singleton_self a)⟩
  · rintro ⟨t, c, u, rfl, ht, hc⟩
    have hone : Run p 1 (some 1) [c] :=
      ⟨le_rfl, fun n hn => (Option.some.inj hn).le, by simpa using hc⟩
    exact ⟨t, c :: u, rfl, ⟨Nat.zero_le _, by simp, ht⟩, [c], u, rfl, hone⟩

end Regex

end ByteBattles.Lib
