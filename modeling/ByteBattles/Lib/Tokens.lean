import Mathlib.Data.List.Basic
import Mathlib.Data.List.DropRight

/-!
# Tokens

Some elements of a list are separators; the tokens are the maximal runs of the others.
`TokensOf` says what the tokens of a list are, and `tokens` computes them.
-/

namespace ByteBattles.Lib

variable {α : Type*} {p : α → Bool} {s t gap token : List α} {ts us : List (List α)}

def Gap (p : α → Bool) (s : List α) : Prop := ∀ c ∈ s, p c = true

def IsToken (p : α → Bool) (t : List α) : Prop := t ≠ [] ∧ ∀ c ∈ t, p c = false

def Breaks (p : α → Bool) (s : List α) : Prop := ∀ c ∈ s.head?, p c = true

/-- The tokens of a list, in order; each run ends where a separator or the end follows. -/
inductive TokensOf (p : α → Bool) : List α → List (List α) → Prop
  | gap {s : List α} (hgap : Gap p s) : TokensOf p s []
  | token {gap token rest : List α} {ts : List (List α)} (hgap : Gap p gap)
      (htoken : IsToken p token) (hbreaks : Breaks p rest) (hrest : TokensOf p rest ts) :
      TokensOf p (gap ++ (token ++ rest)) (token :: ts)

def tokens (p : α → Bool) (s : List α) : List (List α) := (s.splitOnP p).filter (· ≠ [])

/-! ## Computing tokens -/

theorem tokens_append_cons (s t : List α) {c : α} (hc : p c = true) :
    tokens p (s ++ c :: t) = tokens p s ++ tokens p t := by
  rw [tokens, List.splitOnP_append_cons s t hc, List.filter_append, tokens, tokens]

@[simp] theorem tokens_nil : tokens p ([] : List α) = [] := by simp [tokens]

theorem tokens_cons {c : α} (hc : p c = true) (s : List α) : tokens p (c :: s) = tokens p s := by
  simpa using tokens_append_cons [] s hc

theorem tokens_gap_append (hgap : Gap p gap) (s : List α) :
    tokens p (gap ++ s) = tokens p s := by
  induction gap with
  | nil => rfl
  | cons c gap ih =>
      have htail : Gap p gap := fun d hd => hgap d (List.mem_cons_of_mem c hd)
      rw [List.cons_append, tokens_cons (hgap c (List.mem_cons_self ..)), ih htail]

theorem tokens_of_gap (hgap : Gap p gap) : tokens p gap = [] := by
  have h := tokens_gap_append hgap []
  rwa [List.append_nil, tokens_nil] at h

/-- Before a separator and at the end, the tokens so far are complete. -/
theorem tokens_append (s : List α) (ht : Breaks p t) :
    tokens p (s ++ t) = tokens p s ++ tokens p t := by
  cases t with
  | nil => simp
  | cons c t =>
      have hc := ht c rfl
      rw [tokens_append_cons s t hc, tokens_cons hc]

theorem breaks_of_gap (hgap : Gap p gap) : Breaks p gap := fun c hc => hgap c (List.mem_of_head? hc)

theorem tokens_append_gap (s : List α) (hgap : Gap p gap) : tokens p (s ++ gap) = tokens p s := by
  rw [tokens_append s (breaks_of_gap hgap), tokens_of_gap hgap, List.append_nil]

theorem tokens_of_isToken (h : IsToken p t) : tokens p t = [t] := by
  rw [tokens, List.splitOnP_eq_singleton h.2]
  simp [h.1]

/-- There are no other tokens than the computed ones. -/
theorem TokensOf.eq_tokens (h : TokensOf p s ts) : ts = tokens p s := by
  induction h with
  | gap hgap => exact (tokens_of_gap hgap).symm
  | token hgap htoken hbreaks _ ih =>
      rw [tokens_gap_append hgap, tokens_append _ hbreaks, tokens_of_isToken htoken, ← ih]
      rfl

theorem TokensOf.isToken (h : TokensOf p s ts) : ∀ t ∈ ts, IsToken p t := by
  induction h with
  | gap => simp
  | token _ htoken _ _ ih =>
      intro t ht
      rcases List.mem_cons.mp ht with rfl | ht
      · exact htoken
      · exact ih t ht

/-! ## Every list has tokens -/

theorem TokensOf.cons_sep {c : α} (hc : p c = true) (h : TokensOf p s ts) :
    TokensOf p (c :: s) ts := by
  have hcons {gap : List α} (hgap : Gap p gap) : Gap p (c :: gap) := by
    intro d hd
    rcases List.mem_cons.mp hd with rfl | hd
    · exact hc
    · exact hgap d hd
  cases h with
  | gap hgap => exact .gap (hcons hgap)
  | token hgap htoken hbreaks hrest => exact .token (hcons hgap) htoken hbreaks hrest

/-- Any other element in front begins a token or extends the first one. -/
theorem TokensOf.exists_cons {c : α} (hc : p c = false) (h : TokensOf p s ts) :
    ∃ us, TokensOf p (c :: s) us := by
  have hempty : Gap p ([] : List α) := fun d hd => by cases hd
  have hone : IsToken p [c] := by
    refine ⟨List.cons_ne_nil _ _, fun d hd => ?_⟩
    rwa [List.mem_singleton.mp hd]
  cases h with
  | gap hgap => exact ⟨_, .token hempty hone (breaks_of_gap hgap) (.gap hgap)⟩
  | @token gap token rest ts hgap htoken hbreaks hrest =>
      cases gap with
      | cons d gap =>
          have hstart : Breaks p (d :: gap ++ (token ++ rest)) := by
            intro e he
            obtain rfl := Option.some.inj he
            exact hgap d (List.mem_cons_self ..)
          exact ⟨_, .token hempty hone hstart (.token hgap htoken hbreaks hrest)⟩
      | nil =>
          have hlonger : IsToken p (c :: token) := by
            refine ⟨List.cons_ne_nil _ _, fun d hd => ?_⟩
            rcases List.mem_cons.mp hd with rfl | hd
            · exact hc
            · exact htoken.2 d hd
          exact ⟨_, .token hempty hlonger hbreaks hrest⟩

theorem exists_tokensOf (s : List α) : ∃ ts, TokensOf p s ts := by
  induction s with
  | nil => exact ⟨[], .gap fun c hc => by cases hc⟩
  | cons c s ih =>
      obtain ⟨ts, hts⟩ := ih
      cases hc : p c with
      | true => exact ⟨ts, hts.cons_sep hc⟩
      | false => exact hts.exists_cons hc

theorem tokensOf_tokens (s : List α) : TokensOf p s (tokens p s) := by
  obtain ⟨ts, hts⟩ := exists_tokensOf (p := p) s
  rwa [← hts.eq_tokens]

/-! ## Joining tokens -/

/-- Joined by a separator, tokens are read back. -/
theorem tokens_intercalate {c : α} (hc : p c = true) (h : ∀ t ∈ ts, IsToken p t) :
    tokens p ([c].intercalate ts) = ts := by
  induction ts with
  | nil => simp
  | cons t ts ih =>
      have ht := h t (List.mem_cons_self ..)
      have hts := ih fun u hu => h u (List.mem_cons_of_mem t hu)
      cases ts with
      | nil => rw [List.intercalate_singleton, tokens_of_isToken ht]
      | cons u ts =>
          calc tokens p ([c].intercalate (t :: u :: ts))
              = tokens p (t ++ c :: [c].intercalate (u :: ts)) := by
                rw [List.intercalate_cons_cons, List.append_assoc, List.singleton_append]
            _ = tokens p t ++ tokens p ([c].intercalate (u :: ts)) := tokens_append_cons _ _ hc
            _ = t :: u :: ts := by
                rw [tokens_of_isToken ht, hts, List.singleton_append]

/-- Tokens are determined by their join. -/
theorem intercalate_inj {c : α} (hc : p c = true) (ht : ∀ t ∈ ts, IsToken p t)
    (hu : ∀ t ∈ us, IsToken p t) : [c].intercalate ts = [c].intercalate us ↔ ts = us := by
  constructor
  · intro h
    rw [← tokens_intercalate hc ht, h, tokens_intercalate hc hu]
  · rintro rfl
    rfl

end ByteBattles.Lib
