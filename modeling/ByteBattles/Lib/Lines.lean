import Mathlib.Data.List.Basic

/-!
# Lines

The last complete line of a text, which is the piece before the last one when the text
is split at its separators.
-/

namespace ByteBattles.Lib

variable {α : Type*} {sep : α}

/-- `line` is the last line of the text that is ended by a separator. -/
inductive LastLine (sep : α) : List α → List α → Prop
  | only {line last : List α} (hline : sep ∉ line) (hlast : sep ∉ last) :
      LastLine sep (line ++ sep :: last) line
  | after {before line last : List α} (hline : sep ∉ line) (hlast : sep ∉ last) :
      LastLine sep (before ++ sep :: (line ++ sep :: last)) line

theorem intercalate_append {pieces more : List (List α)} (hpieces : pieces ≠ [])
    (hmore : more ≠ []) :
    [sep].intercalate (pieces ++ more) =
      [sep].intercalate pieces ++ sep :: [sep].intercalate more := by
  induction pieces with
  | nil => exact absurd rfl hpieces
  | cons piece pieces ih =>
      cases pieces with
      | nil =>
          obtain ⟨first, rest, rfl⟩ := List.exists_cons_of_ne_nil hmore
          rw [List.intercalate_singleton, List.singleton_append, List.intercalate_cons_cons,
            List.append_assoc, List.singleton_append]
      | cons next pieces =>
          have hrest := ih (List.cons_ne_nil _ _)
          rw [List.cons_append, List.cons_append, List.intercalate_cons_cons,
            List.intercalate_cons_cons, List.append_assoc, List.append_assoc, List.append_assoc,
            ← List.cons_append, hrest]

variable [DecidableEq α] {s line piece : List α}

theorem not_mem_of_mem_splitOn (h : piece ∈ s.splitOn sep) : sep ∉ piece := by
  induction s generalizing piece with
  | nil =>
      rw [List.splitOn_eq_singleton (by simp)] at h
      rw [List.mem_singleton.mp h]
      simp
  | cons c s ih =>
      rw [List.splitOn_cons_eq_if_modifyHead] at h
      split at h
      · rcases List.mem_cons.mp h with rfl | h
        · simp
        · exact ih h
      case isFalse hc =>
        obtain ⟨first, rest, hs⟩ := List.exists_cons_of_ne_nil (List.splitOn_ne_nil sep s)
        rw [hs, List.modifyHead_cons] at h
        rcases List.mem_cons.mp h with rfl | h
        · have hfirst := ih (hs ▸ List.mem_cons_self ..)
          simpa [hfirst] using fun heq : sep = c => hc (by simp [heq])
        · exact ih (hs ▸ List.mem_cons_of_mem _ h)

theorem splitOn_line {last : List α} (hline : sep ∉ line) (hlast : sep ∉ last) :
    (line ++ sep :: last).splitOn sep = [line, last] := by
  rw [List.splitOn_append_cons_self, List.splitOn_eq_singleton hline,
    List.splitOn_eq_singleton hlast, List.singleton_append]

/-- The piece before the last one. -/
theorem getElem?_reverse_splitOn :
    (s.splitOn sep).reverse[1]? = some line ↔ LastLine sep s line := by
  constructor
  · intro h
    obtain ⟨last, before, hreverse⟩ : ∃ last before,
        (s.splitOn sep).reverse = last :: line :: before := by
      cases hpieces : (s.splitOn sep).reverse with
      | nil => simp [hpieces] at h
      | cons last rest =>
          cases rest with
          | nil => simp [hpieces] at h
          | cons piece before =>
              rw [hpieces] at h
              obtain rfl : piece = line := Option.some.inj h
              exact ⟨last, before, rfl⟩
    have hpieces : s.splitOn sep = before.reverse ++ [line, last] := by
      rw [← List.reverse_reverse (s.splitOn sep), hreverse]
      simp
    have hline : sep ∉ line := not_mem_of_mem_splitOn (s := s) (by simp [hpieces])
    have hlast : sep ∉ last := not_mem_of_mem_splitOn (s := s) (by simp [hpieces])
    have hjoin : [sep].intercalate (s.splitOn sep) = s := List.intercalate_splitOn sep
    have hpair : [sep].intercalate [line, last] = line ++ sep :: last := by
      rw [List.intercalate_cons_cons, List.intercalate_singleton, List.append_assoc,
        List.singleton_append]
    rw [← hjoin, hpieces]
    by_cases hbefore : before.reverse = []
    · rw [hbefore, List.nil_append, hpair]
      exact .only hline hlast
    · rw [intercalate_append hbefore (List.cons_ne_nil _ _), hpair]
      exact .after hline hlast
  · intro h
    cases h with
    | only hline hlast =>
        rw [splitOn_line hline hlast]
        rfl
    | after hline hlast =>
        rw [List.splitOn_append_cons_self, splitOn_line hline hlast]
        simp

theorem LastLine.eq {line' : List α} (h : LastLine sep s line) (h' : LastLine sep s line') :
    line = line' := by
  rw [← getElem?_reverse_splitOn] at h h'
  exact Option.some.inj (h.symm.trans h')

end ByteBattles.Lib
