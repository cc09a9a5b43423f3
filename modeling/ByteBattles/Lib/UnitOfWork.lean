import ByteBattles.Lib.Handler
import ByteBattles.Lib.Table

/-!
# Sessions that write at commit

A session has loaded one row of a table.  Assignments change the loaded object; queries
see the table, which changes only at a commit, and not if the new rows violate a
constraint.  What is assigned and not committed is lost when the session is closed.
-/

namespace ByteBattles.Lib

/-- The table, and the loaded row with the attributes that have been assigned to it. -/
structure Session (α : Type) where
  rows : List α
  object : α

namespace Session

variable {ε α β ι : Type}

abbrev Work (ε α β : Type) := Handler ε (Session α) β

def assign (f : α → α) : Work ε α Unit :=
  Handler.write fun s => { s with object := f s.object }

/-- The object takes the place of its row, unless the constraint is violated. -/
def commit [DecidableEq ι] (id : α → ι) (constraint : List α → Prop)
    [DecidablePred constraint] (violated : ε) : Work ε α Unit := do
  let s ← Handler.read
  let rows := Table.replace id s.object s.rows
  Handler.refuseIf (¬ constraint rows) violated
  Handler.write fun s => { s with rows := rows }

/-- The work leaves the table as it is, however it ends. -/
def Buffers (m : Work ε α β) : Prop := ∀ s, (m s).2.rows = s.rows

theorem buffers_pure (b : β) : Buffers (pure b : Work ε α β) := fun _ => rfl

theorem buffers_raise (e : ε) : Buffers (Handler.raise e : Work ε α β) := fun _ => rfl

theorem buffers_read : Buffers (Handler.read : Work ε α (Session α)) := fun _ => rfl

theorem buffers_assign (f : α → α) : Buffers (assign f : Work ε α Unit) := fun _ => rfl

theorem buffers_refuseIf (c : Prop) [Decidable c] (e : ε) :
    Buffers (Handler.refuseIf c e : Work ε α Unit) := by
  unfold Handler.refuseIf
  split
  · exact buffers_raise e
  · exact buffers_pure ()

theorem Buffers.bind {γ : Type} {m : Work ε α β} {f : β → Work ε α γ} (hm : Buffers m)
    (hf : ∀ b, Buffers (f b)) : Buffers (m >>= f) := by
  intro s
  have hrows := hm s
  rw [Handler.bind_apply]
  cases hrun : m s with
  | mk r t =>
      rw [hrun] at hrows
      cases r with
      | error e => exact hrows
      | ok b => exact (hf b t).trans hrows

theorem commit_apply [DecidableEq ι] (id : α → ι) (constraint : List α → Prop)
    [DecidablePred constraint] (violated : ε) (s : Session α) :
    commit id constraint violated s =
      if constraint (Table.replace id s.object s.rows) then
        (.ok (), { s with rows := Table.replace id s.object s.rows })
      else (.error violated, s) := by
  simp only [commit, Handler.bind_apply, Handler.read_apply, Handler.refuseIf_apply,
    Handler.write_apply]
  by_cases hok : constraint (Table.replace id s.object s.rows)
  · simp only [hok, not_true_eq_false, if_false, if_true]
  · simp only [hok, not_false_eq_true, if_false, if_true]

/-- **Atomic commit**: buffered work that is followed by a commit either ends with an error
and the table as it was, or puts the object that the work has left in place of its row. -/
theorem Buffers.commit [DecidableEq ι] {m : Work ε α Unit} (hm : Buffers m) (id : α → ι)
    (constraint : List α → Prop) [DecidablePred constraint] (violated : ε) (s : Session α) :
    (m >>= fun _ => commit id constraint violated).Ends s fun r t =>
      (∃ e, r = .error e) ∧ t.rows = s.rows ∨
      r = .ok () ∧ m s = (.ok (), ⟨s.rows, t.object⟩) ∧
        t.rows = Table.replace id t.object s.rows ∧ constraint t.rows := by
  have hrows := hm s
  unfold Handler.Ends
  rw [Handler.bind_apply]
  cases hrun : m s with
  | mk r t =>
      obtain ⟨rows, object⟩ := t
      rw [hrun] at hrows
      obtain rfl : rows = s.rows := hrows
      cases r with
      | error e => exact .inl ⟨⟨e, rfl⟩, rfl⟩
      | ok _ =>
          dsimp only
          rw [commit_apply]
          by_cases hok : constraint (Table.replace id object s.rows)
          · rw [if_pos hok]
            exact .inr ⟨rfl, rfl, rfl, hok⟩
          · rw [if_neg hok]
            exact .inl ⟨⟨violated, rfl⟩, rfl⟩

end Session

end ByteBattles.Lib
