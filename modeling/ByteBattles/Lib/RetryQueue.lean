import ByteBattles.Lib.Pool

/-!
# A queue whose failed tasks go back to it

Workers take tasks from a queue; a task that fails is put back and taken again.
The tasks of such a queue are often equal values, so that the queue itself does
not say which of them is which.  `Ledger` numbers them, and records what becomes
of each; `RetryQueue.step_map` says that forgetting the numbers gives the steps of
the queue back.
-/

namespace ByteBattles.Lib

inductive Holding (τ : Type*)
  | nothing
  | working (t : τ)
  /-- the task has failed and is not put back yet -/
  | failed (t : τ)
  deriving DecidableEq

/-- The queue, and what each of the workers holds. -/
structure RetryQueue (τ : Type*) where
  queue : List τ
  held : List (Holding τ)

/-- `finish i b`: worker `i` has finished its task, with the result `b`. -/
inductive RetryOp (τ β : Type*)
  | issue (t : τ)
  | take (i : Nat)
  | fail (i : Nat)
  | requeue (i : Nat)
  | finish (i : Nat) (b : β)

variable {τ υ α β : Type*}

@[simp] def Holding.map (f : τ → υ) : Holding τ → Holding υ
  | nothing => nothing
  | working t => working (f t)
  | failed t => failed (f t)

def RetryOp.map (f : τ → υ) : RetryOp τ β → RetryOp υ β
  | issue t => issue (f t)
  | take i => take i
  | fail i => fail i
  | requeue i => requeue i
  | finish i b => finish i b

namespace RetryQueue

def current (r : RetryQueue τ) (i : Nat) : Option τ :=
  match r.held[i]? with
  | some (.working t) => some t
  | _ => none

/-- The task that worker `i` is about to put back. -/
def returned (r : RetryQueue τ) (i : Nat) : Option τ :=
  match r.held[i]? with
  | some (.failed t) => some t
  | _ => none

def step (r : RetryQueue τ) : RetryOp τ β → RetryQueue τ
  | .issue t => { r with queue := r.queue ++ [t] }
  | .take i =>
      match r.queue with
      | [] => r
      | t :: rest => ⟨rest, r.held.set i (.working t)⟩
  | .fail i =>
      match r.current i with
      | none => r
      | some t => { r with held := r.held.set i (.failed t) }
  | .requeue i =>
      match r.returned i with
      | none => r
      | some t => ⟨r.queue ++ [t], r.held.set i .nothing⟩
  | .finish i _ =>
      match r.current i with
      | none => r
      | some _ => { r with held := r.held.set i .nothing }

def map (f : τ → υ) (r : RetryQueue τ) : RetryQueue υ :=
  ⟨r.queue.map f, r.held.map (Holding.map f)⟩

theorem current_eq_some {r : RetryQueue τ} {i : Nat} {t : τ} :
    r.current i = some t ↔ r.held[i]? = some (.working t) := by
  unfold current
  split <;> simp_all

theorem returned_eq_some {r : RetryQueue τ} {i : Nat} {t : τ} :
    r.returned i = some t ↔ r.held[i]? = some (.failed t) := by
  unfold returned
  split <;> simp_all

theorem current_map (f : τ → υ) (r : RetryQueue τ) (i : Nat) :
    (r.map f).current i = (r.current i).map f := by
  simp only [current, map, List.getElem?_map]
  cases r.held[i]? with
  | none => rfl
  | some h => cases h <;> rfl

theorem returned_map (f : τ → υ) (r : RetryQueue τ) (i : Nat) :
    (r.map f).returned i = (r.returned i).map f := by
  simp only [returned, map, List.getElem?_map]
  cases r.held[i]? with
  | none => rfl
  | some h => cases h <;> rfl

/-- The steps do not depend on what the tasks are. -/
theorem step_map (f : τ → υ) (r : RetryQueue τ) (op : RetryOp τ β) :
    (r.step op).map f = (r.map f).step (op.map f) := by
  cases op with
  | issue t => simp [step, map, RetryOp.map]
  | take i =>
      cases hq : r.queue with
      | nil => simp [step, map, RetryOp.map, hq]
      | cons t rest => simp [step, map, RetryOp.map, hq, List.map_set]
  | fail i =>
      have hcurrent := current_map f r i
      cases h : r.current i with
      | none => simp only [step, RetryOp.map, hcurrent, h, Option.map]
      | some t =>
          simp only [step, RetryOp.map, hcurrent, h, Option.map]
          simp [map, List.map_set]
  | requeue i =>
      have hreturned := returned_map f r i
      cases h : r.returned i with
      | none => simp only [step, RetryOp.map, hreturned, h, Option.map]
      | some t =>
          simp only [step, RetryOp.map, hreturned, h, Option.map]
          simp [map, List.map_set]
  | finish i b =>
      have hcurrent := current_map f r i
      cases h : r.current i with
      | none => simp only [step, RetryOp.map, hcurrent, h, Option.map]
      | some t =>
          simp only [step, RetryOp.map, hcurrent, h, Option.map]
          simp [map, List.map_set]

end RetryQueue

/-! ## What becomes of each task -/

/-- Equal tasks are told apart by the order in which they were issued. -/
structure Ticket (α : Type*) where
  label : α
  number : Nat
  deriving DecidableEq

/-- A queue of numbered tasks, with a record of what its workers have done. -/
structure Ledger (α β : Type*) where
  tasks : RetryQueue (Ticket α)
  issued : List (Ticket α)
  failures : List (Ticket α)
  requeues : List (Ticket α)
  finished : List (Ticket α × β)

namespace Ledger

def empty (n : Nat) : Ledger α β := ⟨⟨[], List.replicate n .nothing⟩, [], [], [], []⟩

def number (x : Ledger α β) : RetryOp α β → RetryOp (Ticket α) β
  | .issue a => .issue ⟨a, x.issued.length⟩
  | .take i => .take i
  | .fail i => .fail i
  | .requeue i => .requeue i
  | .finish i b => .finish i b

def step (x : Ledger α β) (op : RetryOp α β) : Ledger α β :=
  let tasks := x.tasks.step (x.number op)
  match op with
  | .issue a => { x with tasks, issued := ⟨a, x.issued.length⟩ :: x.issued }
  | .take _ => { x with tasks }
  | .fail i => { x with tasks, failures := (x.tasks.current i).toList ++ x.failures }
  | .requeue i => { x with tasks, requeues := (x.tasks.returned i).toList ++ x.requeues }
  | .finish i b =>
      { x with tasks, finished := (x.tasks.current i).toList.map (·, b) ++ x.finished }

def labels (x : Ledger α β) : RetryQueue α := x.tasks.map Ticket.label

theorem map_number (x : Ledger α β) (op : RetryOp α β) :
    (x.number op).map Ticket.label = op := by
  cases op <;> rfl

theorem labels_step (x : Ledger α β) (op : RetryOp α β) :
    (x.step op).labels = x.labels.step op := by
  have htasks : (x.step op).tasks = x.tasks.step (x.number op) := by cases op <;> rfl
  rw [labels, htasks, RetryQueue.step_map, map_number, labels]

def results [DecidableEq α] (x : Ledger α β) (t : Ticket α) : List β :=
  (x.finished.filter fun e => e.1 = t).map Prod.snd

def Outstanding (x : Ledger α β) (t : Ticket α) : Prop :=
  t ∈ x.tasks.queue ∨ .working t ∈ x.tasks.held ∨ .failed t ∈ x.tasks.held

def Free (x : Ledger α β) : RetryOp α β → Prop
  | .take i => x.tasks.held[i]? = some .nothing
  | _ => True

theorem free_of_labels {x : Ledger α β} {i : Nat} (h : x.labels.held[i]? = some .nothing) :
    x.Free (.take i) := by
  obtain ⟨held, hheld, hmap⟩ := Option.map_eq_some_iff.mp ((List.getElem?_map ..).symm.trans h)
  cases held with
  | nothing => exact hheld
  | _ => cases hmap

section Balance

variable [DecidableEq α]

/-- Each task is in one place, and each failure is followed by one return to the queue. -/
structure Balanced (x : Ledger α β) : Prop where
  place_eq : ∀ t, x.tasks.queue.count t + x.tasks.held.count (.working t) +
    x.tasks.held.count (.failed t) + (x.results t).length = x.issued.count t
  requeue_eq : ∀ t, x.failures.count t = x.requeues.count t + x.tasks.held.count (.failed t)
  number_lt : ∀ t ∈ x.issued, t.number < x.issued.length
  nodup : x.issued.Nodup

theorem balanced_empty (n : Nat) : (empty n : Ledger α β).Balanced := by
  constructor <;> simp [empty, results, List.count_replicate]

theorem Balanced.issue {x : Ledger α β} (h : x.Balanced) (a : α) :
    (x.step (.issue a)).Balanced := by
  have hnew : (⟨a, x.issued.length⟩ : Ticket α) ∉ x.issued := by
    intro hmem
    have := h.number_lt _ hmem
    simp at this
  constructor
  · intro t
    have := h.place_eq t
    simp only [step, number, RetryQueue.step, results, List.count_append, List.count_cons,
      List.count_nil] at this ⊢
    omega
  · exact h.requeue_eq
  · intro t ht
    rcases List.mem_cons.mp ht with rfl | ht
    · simp [step]
    · have := h.number_lt t ht
      simp only [step, List.length_cons]
      omega
  · exact List.nodup_cons.mpr ⟨hnew, h.nodup⟩

/-- A worker puts down what it holds and holds something else; the task is in one place
before and after. -/
theorem Balanced.move {x y : Ledger α β} (h : x.Balanced) {i : Nat}
    {old : Holding (Ticket α)} (new : Holding (Ticket α)) (hold : x.tasks.held[i]? = some old)
    (hnew : y.tasks.held = x.tasks.held.set i new) (hissued : y.issued = x.issued)
    (hplace : ∀ t, y.tasks.queue.count t + (if new = .working t then 1 else 0) +
        (if new = .failed t then 1 else 0) + (y.results t).length =
      x.tasks.queue.count t + (if old = .working t then 1 else 0) +
        (if old = .failed t then 1 else 0) + (x.results t).length)
    (hrequeue : ∀ t, y.failures.count t + x.requeues.count t + (if old = .failed t then 1 else 0) =
      x.failures.count t + y.requeues.count t + (if new = .failed t then 1 else 0)) :
    y.Balanced := by
  constructor
  · intro t
    have hbefore := h.place_eq t
    have hmoved := hplace t
    have hworking := count_set hold new (.working t)
    have hfailed := count_set hold new (.failed t)
    rw [hnew, hissued]
    omega
  · intro t
    have hbefore := h.requeue_eq t
    have hmoved := hrequeue t
    have hfailed := count_set hold new (.failed t)
    rw [hnew]
    omega
  · rw [hissued]
    exact h.number_lt
  · rw [hissued]
    exact h.nodup

theorem Balanced.take {x : Ledger α β} (h : x.Balanced) {i : Nat}
    (hfree : x.tasks.held[i]? = some .nothing) : (x.step (.take i)).Balanced := by
  cases hq : x.tasks.queue with
  | nil =>
      have hsame : x.step (.take i) = x := by simp [step, number, RetryQueue.step, hq]
      rw [hsame]
      exact h
  | cons t rest =>
      apply h.move (.working t) hfree
      · simp only [step, number, RetryQueue.step, hq]
      · rfl
      · intro t'
        simp only [step, number, RetryQueue.step, results, hq, List.count_cons, beq_iff_eq,
          reduceCtorEq, if_false, Holding.working.injEq]
      · intro t'
        simp only [step, reduceCtorEq, if_false]

theorem Balanced.fail {x : Ledger α β} (h : x.Balanced) (i : Nat) :
    (x.step (.fail i)).Balanced := by
  cases hcurrent : x.tasks.current i with
  | none =>
      have hsame : x.step (.fail i) = x := by
        simp [step, number, RetryQueue.step, hcurrent]
      rw [hsame]
      exact h
  | some t =>
      apply h.move (.failed t) (RetryQueue.current_eq_some.mp hcurrent)
      · simp only [step, number, RetryQueue.step, hcurrent]
      · rfl
      · intro t'
        simp only [step, number, RetryQueue.step, results, hcurrent, reduceCtorEq, if_false,
          Holding.working.injEq, Holding.failed.injEq]
        omega
      · intro t'
        simp only [step, hcurrent, Option.toList_some, List.singleton_append, List.count_cons,
          beq_iff_eq, reduceCtorEq, if_false, Holding.failed.injEq]
        omega

theorem Balanced.requeue {x : Ledger α β} (h : x.Balanced) (i : Nat) :
    (x.step (.requeue i)).Balanced := by
  cases hreturned : x.tasks.returned i with
  | none =>
      have hsame : x.step (.requeue i) = x := by
        simp [step, number, RetryQueue.step, hreturned]
      rw [hsame]
      exact h
  | some t =>
      apply h.move .nothing (RetryQueue.returned_eq_some.mp hreturned)
      · simp only [step, number, RetryQueue.step, hreturned]
      · rfl
      · intro t'
        simp only [step, number, RetryQueue.step, results, hreturned, List.count_append,
          List.count_cons, List.count_nil, beq_iff_eq, reduceCtorEq, if_false,
          Holding.failed.injEq]
        omega
      · intro t'
        simp only [step, hreturned, Option.toList_some, List.singleton_append, List.count_cons,
          beq_iff_eq, reduceCtorEq, if_false, Holding.failed.injEq]
        omega

theorem Balanced.finish {x : Ledger α β} (h : x.Balanced) (i : Nat) (b : β) :
    (x.step (.finish i b)).Balanced := by
  cases hcurrent : x.tasks.current i with
  | none =>
      have hsame : x.step (.finish i b) = x := by
        simp [step, number, RetryQueue.step, hcurrent]
      rw [hsame]
      exact h
  | some t =>
      apply h.move .nothing (RetryQueue.current_eq_some.mp hcurrent)
      · simp only [step, number, RetryQueue.step, hcurrent]
      · rfl
      · intro t'
        have hresults : ((x.step (.finish i b)).results t').length =
            (x.results t').length + if t = t' then 1 else 0 := by
          by_cases ht : t = t' <;> simp [step, results, hcurrent, ht]
        rw [hresults]
        simp only [step, number, RetryQueue.step, hcurrent, reduceCtorEq, if_false,
          Holding.working.injEq]
        omega
      · intro t'
        simp only [step, reduceCtorEq, if_false]

theorem Balanced.step {x : Ledger α β} (h : x.Balanced) {op : RetryOp α β}
    (hfree : x.Free op) : (x.step op).Balanced := by
  cases op with
  | issue a => exact h.issue a
  | take i => exact h.take hfree
  | fail i => exact h.fail i
  | requeue i => exact h.requeue i
  | finish i b => exact h.finish i b

/-- A task that is not outstanding any more has exactly one result. -/
theorem Balanced.exists_result {x : Ledger α β} (h : x.Balanced) {t : Ticket α}
    (ht : t ∈ x.issued) (hdone : ¬ x.Outstanding t) : ∃ b, x.results t = [b] := by
  obtain ⟨hqueue, hheld⟩ := not_or.mp hdone
  obtain ⟨hworking, hfailed⟩ := not_or.mp hheld
  have hplace := h.place_eq t
  rw [List.count_eq_zero.mpr hqueue, List.count_eq_zero.mpr hworking,
    List.count_eq_zero.mpr hfailed, List.count_eq_one_of_mem h.nodup ht] at hplace
  exact List.length_eq_one_iff.mp (by omega)

theorem Balanced.no_result {x : Ledger α β} (h : x.Balanced) {t : Ticket α}
    (hopen : x.Outstanding t) : x.results t = [] := by
  have hplace := h.place_eq t
  have hissued := List.nodup_iff_count_le_one.mp h.nodup t
  apply List.eq_nil_of_length_eq_zero
  rcases hopen with hmem | hmem | hmem
  all_goals
    have := List.count_pos_iff.mpr hmem
    omega

end Balance

end Ledger

end ByteBattles.Lib
