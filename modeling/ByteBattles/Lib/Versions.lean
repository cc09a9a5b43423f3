import ByteBattles.Lib.Table
import Mathlib.Order.Lattice

/-!
# Tables over time

The ids of a table are drawn from a sequence.  Between two versions of the table a row
changes only as `R` allows, rows may go, and new rows have ids that had not been drawn.
Versions compose, so what one step does to a table a whole run does.
-/

namespace ByteBattles.Lib.Table

variable {α ι : Type*} [LinearOrder ι] {id : α → ι} {R : α → α → Prop}
  {serial serial' serial'' : ι} {rows rows' rows'' : List α} {row : α}

/-- From one version of a table, with the next id of its sequence, to a later one. -/
structure Evolves (id : α → ι) (R : α → α → Prop) (serial : ι) (rows : List α) (serial' : ι)
    (rows' : List α) : Prop where
  serial_le : serial ≤ serial'
  old : ∀ r' ∈ rows', id r' < serial → ∃ r ∈ rows, id r = id r' ∧ R r r'

theorem Evolves.of_subset (hR : ∀ r, R r r) (hle : serial ≤ serial') (hsubset : rows' ⊆ rows) :
    Evolves id R serial rows serial' rows' where
  serial_le := hle
  old := fun r' hr' _ => ⟨r', hsubset hr', rfl, hR r'⟩

theorem Evolves.refl (hR : ∀ r, R r r) : Evolves id R serial rows serial rows :=
  .of_subset hR le_rfl (List.Subset.refl rows)

theorem Evolves.trans (hR : ∀ {r r' r''}, R r r' → R r' r'' → R r r'')
    (h : Evolves id R serial rows serial' rows')
    (h' : Evolves id R serial' rows' serial'' rows'') :
    Evolves id R serial rows serial'' rows'' where
  serial_le := h.serial_le.trans h'.serial_le
  old := by
    intro r'' hr'' hlt
    obtain ⟨r', hr', hid', hchange'⟩ := h'.old r'' hr'' (hlt.trans_le h.serial_le)
    obtain ⟨r, hr, hid, hchange⟩ := h.old r' hr' (hid' ▸ hlt)
    exact ⟨r, hr, hid.trans hid', hR hchange hchange'⟩

theorem Evolves.append (hR : ∀ r, R r r) (hle : serial ≤ serial')
    (hnew : ∀ r ∈ rows', serial ≤ id r) :
    Evolves id R serial rows serial' (rows ++ rows') where
  serial_le := hle
  old := by
    intro r' hr' hlt
    apply Or.elim (List.mem_append.mp hr')
    · intro hold
      exact ⟨r', hold, rfl, hR r'⟩
    · intro hmem
      exact absurd hlt (not_lt.mpr (hnew r' hmem))

theorem Evolves.map {f : α → α} (hid : ∀ r, id (f r) = id r) (hf : ∀ r, R r (f r)) :
    Evolves id R serial rows serial (rows.map f) where
  serial_le := le_rfl
  old := by
    intro r' hr' _
    obtain ⟨r, hr, rfl⟩ := List.mem_map.mp hr'
    exact ⟨r, hr, (hid r).symm, hf r⟩

/-- One row is replaced by a version of itself. -/
theorem Evolves.replace {current : α} (hR : ∀ r, R r r) (hcurrent : current ∈ rows)
    (hid : id row = id current) (hrow : R current row) :
    Evolves id R serial rows serial (replace id row rows) where
  serial_le := le_rfl
  old := by
    intro r' hr' _
    apply Or.elim (mem_replace hr')
    · rintro rfl
      exact ⟨current, hcurrent, hid.symm, hrow⟩
    · intro hold
      exact ⟨r', hold.1, rfl, hR r'⟩

/-- An id that was drawn and has no row gets none again. -/
theorem Evolves.gone (h : Evolves id R serial rows serial' rows') {k : ι} (hk : k < serial)
    (hgone : ∀ r ∈ rows, id r ≠ k) : ∀ r' ∈ rows', id r' ≠ k := by
  rintro r' hr' rfl
  obtain ⟨r, hr, hid, -⟩ := h.old r' hr' hk
  exact hgone r hr hid

/-- Where ids are unique, a row that is still there is a version of the row it was. -/
theorem Evolves.version (h : Evolves id R serial rows serial' rows') (hunique : Unique id rows)
    (hrow : row ∈ rows) (hlt : id row < serial) {row' : α} (hrow' : row' ∈ rows')
    (hid : id row' = id row) : R row row' := by
  obtain ⟨r, hr, hsame, hchange⟩ := h.old row' hrow' (hid ▸ hlt)
  have heq : r = row := hunique.eq hr hrow (hsame.trans hid)
  rwa [heq] at hchange

end ByteBattles.Lib.Table
