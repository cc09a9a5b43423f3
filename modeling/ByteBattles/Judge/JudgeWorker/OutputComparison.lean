import ByteBattles.Judge.JudgeWorker.Executor
import ByteBattles.Lib.Tokens

/-!
# The comparison of outputs

`norm` joins the words of a text, so that the verdict depends on the tokens of the two
outputs and on nothing else.
-/

namespace ByteBattles.Judge.JudgeWorker

open ByteBattles.Lib

/-- `ts` are the maximal runs of characters other than whitespace. -/
abbrev Tokenizes (s : Str) (ts : List Str) : Prop := TokensOf Str.isSpace s ts

inductive Edit : List Str → List Str → Prop
  | merge (ts us : List Str) (t u : Str) : Edit (ts ++ t :: u :: us) (ts ++ (t ++ u) :: us)
  | split (ts us : List Str) (t u : Str) : Edit (ts ++ (t ++ u) :: us) (ts ++ t :: u :: us)
  | add (ts us : List Str) (t : Str) : Edit (ts ++ us) (ts ++ t :: us)
  | drop (ts us : List Str) (t : Str) : Edit (ts ++ t :: us) (ts ++ us)
  | reorder {ts us : List Str} (hperm : ts.Perm us) (hne : ts ≠ us) : Edit ts us

theorem Edit.ne {ts us : List Str} (h : Edit ts us) : ts ≠ us := by
  intro heq
  have hlength := congrArg List.length heq
  cases h with
  | reorder _ hne => exact hne heq
  | _ =>
      simp only [List.length_append, List.length_cons] at hlength
      omega

/-! ## Stripping -/

/-- Stripping takes separators away at both ends. -/
theorem exists_gaps (p : Char → Bool) (s : Str) :
    ∃ lead trail, Gap p lead ∧ Gap p trail ∧ s = lead ++ (Str.stripBy p s ++ trail) := by
  have hgap (t : Str) : Gap p (t.takeWhile p) := fun c hc => List.mem_takeWhile_imp hc
  refine ⟨s.takeWhile p, ((s.dropWhile p).reverse.takeWhile p).reverse, hgap s, ?_, ?_⟩
  · intro c hc
    exact hgap _ c (List.mem_reverse.mp hc)
  · have htail : Str.stripBy p s ++ ((s.dropWhile p).reverse.takeWhile p).reverse =
        s.dropWhile p := by
      rw [Str.stripBy, ← List.reverse_append, List.takeWhile_append_dropWhile,
        List.reverse_reverse]
    rw [htail, List.takeWhile_append_dropWhile]

theorem words_strip (s : Str) : Str.words (Str.strip s) = Str.words s := by
  obtain ⟨lead, trail, hlead, htrail, hs⟩ := exists_gaps Str.isSpace s
  calc Str.words (Str.strip s)
      = tokens Str.isSpace (Str.strip s ++ trail) := (tokens_append_gap _ htrail).symm
    _ = tokens Str.isSpace (lead ++ (Str.strip s ++ trail)) := (tokens_gap_append hlead _).symm
    _ = Str.words s := congrArg (tokens Str.isSpace) hs.symm

/-! ## Normal forms -/

theorem isToken_words (s : Str) : ∀ t ∈ Str.words s, IsToken Str.isSpace t :=
  (tokensOf_tokens s).isToken

theorem norm_eq_join (s : Str) : norm s = Str.join ['\n'] (Str.words s) := by
  rw [norm, words_strip]

theorem isSpace_newline : Str.isSpace '\n' = true := by decide

theorem words_norm (s : Str) : Str.words (norm s) = Str.words s := by
  rw [norm_eq_join]
  exact tokens_intercalate isSpace_newline (isToken_words s)

theorem norm_norm (s : Str) : norm (norm s) = norm s := by
  rw [norm_eq_join (norm s), words_norm, ← norm_eq_join]

theorem norm_eq_iff (a b : Str) : norm a = norm b ↔ Str.words a = Str.words b := by
  rw [norm_eq_join, norm_eq_join]
  exact intercalate_inj isSpace_newline (isToken_words a) (isToken_words b)

theorem Tokenizes.words {s : Str} {ts : List Str} (h : Tokenizes s ts) : Str.words s = ts :=
  h.eq_tokens.symm

theorem norm_eq_iff_of_tokenizes {a b : Str} {ts us : List Str} (ha : Tokenizes a ts)
    (hb : Tokenizes b us) : norm a = norm b ↔ ts = us := by
  rw [norm_eq_iff, ha.words, hb.words]

/-! ## Verdicts -/

section

variable {memory_kb_used memory_limit_kb : Int} {exit_code : Option Int} {a b a' b' : Str}

/-- The verdict depends on the normal forms. -/
theorem verdictOf_congr (ha : norm a = norm a') (hb : norm b = norm b') :
    verdictOf memory_kb_used memory_limit_kb exit_code a b =
      verdictOf memory_kb_used memory_limit_kb exit_code a' b' := by
  unfold verdictOf
  rw [ha, hb]

theorem verdictOf_eq_accepted
    (h : verdictOf memory_kb_used memory_limit_kb exit_code a b = .ACCEPTED) :
    memory_kb_used ≠ memory_limit_kb ∧ exit_code = some 0 ∧ norm a = norm b := by
  unfold verdictOf at h
  split_ifs at h with hmemory hkilled hexit hsame
  exact ⟨hmemory, not_not.mp hexit, hsame⟩

theorem verdictOf_eq_wrong (hmemory : memory_kb_used ≠ memory_limit_kb)
    (hdiffers : norm a ≠ norm b) :
    verdictOf memory_kb_used memory_limit_kb (some 0) a b = .WRONG_ANSWER := by
  simp [verdictOf, hmemory, hdiffers]

end

/-- **Comparison is token equality.** -/
theorem comparison_by_tokens :
    (∀ s, ∃! ts, Tokenizes s ts) ∧
    (∀ a b ts us, Tokenizes a ts → Tokenizes b us → (norm a = norm b ↔ ts = us)) ∧
    Equivalence (fun a b => norm a = norm b) ∧
    (∀ s, norm (norm s) = norm s) ∧
    (∀ a b ts, Tokenizes a ts → Tokenizes b ts → ∀ memory_kb_used memory_limit_kb exit_code other,
      verdictOf memory_kb_used memory_limit_kb exit_code a other =
        verdictOf memory_kb_used memory_limit_kb exit_code b other ∧
      verdictOf memory_kb_used memory_limit_kb exit_code other a =
        verdictOf memory_kb_used memory_limit_kb exit_code other b) ∧
    (∀ a b ts us, Tokenizes a ts → Tokenizes b us → Edit ts us →
      ∀ memory_kb_used memory_limit_kb exit_code other,
        verdictOf memory_kb_used memory_limit_kb exit_code a other = .ACCEPTED →
        verdictOf memory_kb_used memory_limit_kb exit_code b other = .WRONG_ANSWER) := by
  refine ⟨?unique, ?iff, ?equivalence, norm_norm, ?layout, ?edit⟩
  case unique =>
    intro s
    exact ⟨Str.words s, tokensOf_tokens s, fun ts hts => hts.eq_tokens⟩
  case iff => exact fun a b ts us ha hb => norm_eq_iff_of_tokenizes ha hb
  case equivalence => exact ⟨fun a => rfl, fun h => h.symm, fun h h' => h.trans h'⟩
  case layout =>
    intro a b ts ha hb memory_kb_used memory_limit_kb exit_code other
    have hsame := (norm_eq_iff_of_tokenizes ha hb).mpr rfl
    exact ⟨verdictOf_congr hsame rfl, verdictOf_congr rfl hsame⟩
  case edit =>
    intro a b ts us ha hb hedit memory_kb_used memory_limit_kb exit_code other haccepted
    obtain ⟨hmemory, rfl, hsame⟩ := verdictOf_eq_accepted haccepted
    apply verdictOf_eq_wrong hmemory
    intro hother
    exact hedit.ne ((norm_eq_iff_of_tokenizes ha hb).mp (hsame.trans hother.symm))

example : norm " a\n b\t".toList = norm "a b".toList := by decide

end ByteBattles.Judge.JudgeWorker
