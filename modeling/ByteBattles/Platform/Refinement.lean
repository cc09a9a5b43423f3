import ByteBattles.Api.ProblemRoundTrip
import ByteBattles.Api.SubmissionCounts
import ByteBattles.Api.SubmissionRequests
import ByteBattles.Judge.JudgeWorker.Protocol
import ByteBattles.Lib.Simulation
import ByteBattles.Platform.Model

/-!
# The platform refines the service

The service lets workers take jobs, put back what was taken and store any result for it.
Workers that make every call do no more: whatever an iteration pushes or commits is an id
that was popped, and a commit that writes only the changed columns stores some result.
-/

namespace ByteBattles.Platform

open ByteBattles.Lib

open ByteBattles.Judge.JudgeWorker (Advances Call Environment Exc Outcome Phase Row
  SubmissionResult advances_of_protocol assigned boundId ifReturns keeps_consume protocol)

variable {cfg : Config} {s s' : State} {it : Iteration} {c : Call} {p : Nat}

/-! ## Iterations in the middle -/

def Iteration.At (cfg : Config) (it : Iteration) (phase : Phase) : Prop :=
  (protocol it.env it.previous it.payload).run it.env.raising .beat (it.calls cfg) = some phase

theorem Iteration.keeps (cfg : Config) (it : Iteration) :
    Judge.JudgeWorker.Keeps it.env it.previous it.payload .beat (it.run cfg)
      Judge.JudgeWorker.Finished fun _ q => q = .failed ∨ q = .dead :=
  keeps_consume cfg.judge

theorem Iteration.at_start {env : Environment} {db : Judge.JudgeWorker.Database}
    {previous : Option Int} {payload : Option Str} :
    (Iteration.start env db previous payload).At cfg .beat := rfl

theorem Iteration.At.next {phase : Phase} (h : it.At cfg phase) (hc : it.next? cfg = some c)
    (loaded : Option Row) :
    ∃ phase', Iteration.At cfg { it with made := it.made + 1, loaded := loaded } phase' ∧
      Advances it.env it.previous it.payload phase c (it.env.raises c.step) phase' := by
  obtain ⟨last, hrun, -⟩ := it.keeps cfg
  obtain ⟨phase', hphase'⟩ := Monitor.exists_run_take hrun (it.made + 1)
  exact ⟨phase', hphase', advances_of_protocol (Monitor.move_of_run_take h hc hphase')⟩

theorem Iteration.calls_next (hc : it.next? cfg = some c) (loaded : Option Row) :
    Iteration.calls cfg { it with made := it.made + 1, loaded := loaded } =
      it.calls cfg ++ [c] := by
  show (it.run cfg).calls.take (it.made + 1) = _
  rw [List.take_add_one, show (it.run cfg).calls[it.made]? = some c from hc]
  rfl

/-! ## What was popped -/

/-- The id has been taken from the job list. -/
def Picked (s : Api.State) (id : Int) : Prop := Str.ofInt id ∈ s.picked

/-- The local `submission_id` has been popped, unless the item is still in the list or the
iteration is over. -/
def Iteration.Bound (cfg : Config) (it : Iteration) (s : Api.State) (phase : Phase) : Prop :=
  phase = .beat ∧ it.calls cfg = [] ∨ phase = .pop ∧ it.calls cfg = [.setHeartbeat] ∨
    phase = .dead ∨ ∀ id ∈ it.submission_id, Picked s id

theorem Iteration.Bound.late {t : Api.State} {phase : Phase} (h : it.Bound cfg t phase)
    (hlate : phase ≠ .beat ∧ phase ≠ .pop ∧ phase ≠ .dead) :
    ∀ id ∈ it.submission_id, Picked t id := by
  have hafter := h.resolve_left fun hbeat => hlate.1 hbeat.1
  exact (hafter.resolve_left fun hpop => hlate.2.1 hpop.1).resolve_left hlate.2.2

structure Sound (cfg : Config) (s : Api.State) (it : Iteration) : Prop where
  previous : ∀ id ∈ it.previous, Picked s id
  bound : ∃ phase, it.At cfg phase ∧ it.Bound cfg s phase

def LoopSound (cfg : Config) (s : Api.State) : Loop → Prop
  | .gone => True
  | .between previous => ∀ id ∈ previous, Picked s id
  | .busy it => Sound cfg s it

/-- Every id outside the job list has been popped. -/
structure Grounded (cfg : Config) (s : State) : Prop where
  key : ∀ i, ∀ id ∈ s.key i, Picked s.api id
  read : ∀ id ∈ s.read, Picked s.api id
  loop : ∀ p, LoopSound cfg s.api (s.process p).loop

section

variable {a a' : Api.State} {loop : Loop}

theorem Picked.mono {id : Int} (h : Picked a id) (hle : a.picked ⊆ a'.picked) : Picked a' id :=
  hle h

theorem LoopSound.mono (h : LoopSound cfg a loop) (hle : a.picked ⊆ a'.picked) :
    LoopSound cfg a' loop := by
  cases loop with
  | gone => trivial
  | between previous => exact fun id hid => hle (h id hid)
  | busy it =>
      obtain ⟨phase, hphase, hbound⟩ := h.bound
      refine ⟨fun id hid => hle (h.previous id hid), phase, hphase, ?_⟩
      exact hbound.imp_right (.imp_right (.imp_right fun hbound id hid => hle (hbound id hid)))

theorem Grounded.mono (h : Grounded cfg s) (hapi : s.api.picked ⊆ s'.api.picked)
    (hkey : ∀ i, ∀ id ∈ s'.key i, s.key i = some id ∨ Picked s'.api id)
    (hread : ∀ id ∈ s'.read, id ∈ s.read ∨ Picked s'.api id)
    (hloop : ∀ p, (s'.process p).loop = (s.process p).loop ∨
      LoopSound cfg s'.api (s'.process p).loop) : Grounded cfg s' where
  key := fun i id hid => (hkey i id hid).elim (fun hid => hapi (h.key i id hid)) fun h => h
  read := fun id hid => (hread id hid).elim (fun hid => hapi (h.read id hid)) fun h => h
  loop := fun p => (hloop p).elim (fun heq => heq ▸ (h.loop p).mono hapi) id

end

/-! ## Steps of the service -/

/-- The service makes the same request, a step that is none, or no step. -/
inductive Mirrors (cfg : Config) (s : Api.State) : Action → Api.State → Prop
  | stays (a : Action) : Mirrors cfg s a s
  | request {env : Api.Environment} {request : Api.Request} {s' : Api.State}
      (hstep : Api.step cfg.libraries cfg.api s (.request env request) = some s') :
      Mirrors cfg s (.request env request) s'
  | other {a : Action} {b : Api.Action} {s' : Api.State}
      (hb : ∀ env request, b ≠ .request env request)
      (hstep : Api.step cfg.libraries cfg.api s b = some s') : Mirrors cfg s a s'

def resultOf (submission_id : Int) (row : Row) : SubmissionResult where
  submission_id := submission_id
  verdict := row .verdict
  output := row .output
  incorrect_testcase_key := row .incorrect_testcase_key
  runtime_ms := row .walltime_ms
  memory_kb := row .memory_kb

theorem assigned_resultOf (submission_id : Int) (row : Row) :
    assigned (resultOf submission_id row) = row := by
  funext c
  cases c <;> rfl

/-- Where ids are unique, writing the changed columns stores some result. -/
theorem writeResult_eq {t : Api.Store} (hids : Table.Unique (·.id) t.submissions) (id : Int)
    (loaded : Row) (result : SubmissionResult) :
    ∃ result', writeResult t id loaded result = t.setResult id result' := by
  by_cases hrow : ∃ r ∈ t.submissions, r.id = id
  · obtain ⟨r, hr, rfl⟩ := hrow
    refine ⟨resultOf r.id (ColumnUpdate.update loaded (assigned result) r.result), ?_⟩
    unfold writeResult Api.Store.setResult
    congr 1
    apply List.map_congr_left
    intro r' hr'
    by_cases hid : r'.id = r.id
    · rw [if_pos hid, if_pos hid, assigned_resultOf, hids.eq hr' hr hid]
    · rw [if_neg hid, if_neg hid]
  · refine ⟨result, ?_⟩
    unfold writeResult Api.Store.setResult
    congr 1
    apply List.map_congr_left
    intro r hr
    have hne : r.id ≠ id := fun hid => hrow ⟨r, hr, hid⟩
    rw [if_neg hne, if_neg hne]

section

variable {t : Api.State} {id : Int} {a : Action}

theorem mirrors_pop (t : Api.State) (a : Action) : Mirrors cfg t a (pop t) := by
  unfold pop
  split
  case h_1 => exact .stays a
  case h_2 payload hjobs =>
    refine .other (b := .pick) (fun _ _ h => by cases h) ?_
    simp only [Api.step, hjobs]

theorem mirrors_push (h : Picked t id) : Mirrors cfg t a (push t id) :=
  .other (b := .requeue (Str.ofInt id)) (fun _ _ h => by cases h) (if_pos h)

theorem mirrors_write (h : Picked t id) (hids : Table.Unique (·.id) t.store.submissions)
    (loaded : Row) (result : SubmissionResult) :
    Mirrors cfg t a { t with store := writeResult t.store id loaded result } := by
  obtain ⟨result', heq⟩ := writeResult_eq hids id loaded result
  rw [heq]
  exact .other (b := .judged id result') (fun _ _ h => by cases h) (if_pos h)

theorem picked_subset_pop (t : Api.State) : t.picked ⊆ (pop t).picked := by
  unfold pop
  split
  · exact List.Subset.refl _
  · exact List.subset_cons_self _ _

theorem picked_effect (t : Api.State) (c : Call) : t.picked ⊆ (it.effect t c).picked := by
  unfold Iteration.effect
  split
  · exact picked_subset_pop t
  · exact List.Subset.refl _
  · split <;> exact List.Subset.refl _
  · exact List.Subset.refl _

theorem picked_of_popped (hqueued : Api.Queued t) (hprevious : ∀ id ∈ it.previous, Picked t id)
    (hpayload : it.payload = t.store.jobs.getLast?) :
    ∀ id ∈ it.submission_id, Picked (pop t) id := by
  intro id hid
  have hkept (id : Int) (hid : id ∈ it.previous) : Picked (pop t) id :=
    picked_subset_pop t (hprevious id hid)
  unfold Iteration.submission_id boundId at hid
  split at hid
  case h_2 => exact hkept id hid
  case h_1 payload _ hsome =>
    apply (Option.or_eq_some_iff.mp hid).elim
    · intro hint
      have hlast : t.store.jobs.getLast? = some payload := hpayload.symm.trans hsome
      obtain ⟨k, -, rfl⟩ := hqueued.jobs payload (List.mem_of_getLast? hlast)
      rw [← PyNumber.eq_of_int_ofInt hint]
      unfold Picked pop
      rw [hlast]
      exact List.mem_cons_self
    · intro hprev
      exact hkept id hprev.2

end

/-! ## Calls -/

/-- A call that raises leaves the stores alone. -/
theorem Sound.raised {t : Api.State} {e : Exc} (h : Sound cfg t it) (hc : it.next? cfg = some c)
    (hraises : it.env.raises c.step = some e) :
    Sound cfg t { it with made := it.made + 1 } := by
  obtain ⟨phase, hat, hbound⟩ := h.bound
  obtain ⟨phase', hat', hadvances⟩ := hat.next hc it.loaded
  rw [hraises] at hadvances
  refine ⟨h.previous, phase', hat', ?_⟩
  rcases hbound with ⟨rfl, -⟩ | ⟨rfl, -⟩ | rfl | hbound
  · exact .inr (.inr (.inl hadvances.of_beat.2))
  · refine .inr (.inr (.inr fun id hid => h.previous id ?_))
    obtain ⟨rfl, -⟩ := hadvances.of_pop
    have hnone : it.env.raises .brpop = some e := hraises
    unfold Iteration.submission_id boundId at hid
    rwa [hnone] at hid
  · exact absurd hadvances Advances.not_dead
  · exact .inr (.inr (.inr hbound))

/-- A call that returns, where the stores give the answer. -/
theorem Sound.returned {t : Api.State} (hqueued : Api.Queued t) (h : Sound cfg t it)
    (hc : it.next? cfg = some c) (hraises : it.env.raises c.step = none)
    (hanswered : it.Answered t.store c) (loaded : Option Row) :
    Sound cfg (it.effect t c) { it with made := it.made + 1, loaded := loaded } := by
  obtain ⟨phase, hat, hbound⟩ := h.bound
  obtain ⟨phase', hat', hadvances⟩ := hat.next hc loaded
  rw [hraises] at hadvances
  have hpicked : t.picked ⊆ (it.effect t c).picked := picked_effect t c
  refine ⟨fun id hid => hpicked (h.previous id hid), phase', hat', ?_⟩
  rcases hbound with ⟨rfl, hcalls⟩ | ⟨rfl, -⟩ | rfl | hbound
  · obtain ⟨rfl, hphase⟩ := hadvances.of_beat
    refine .inr (.inl ⟨hphase, ?_⟩)
    rw [Iteration.calls_next hc, hcalls, List.nil_append]
  · obtain ⟨rfl, -⟩ := hadvances.of_pop
    exact .inr (.inr (.inr (picked_of_popped hqueued h.previous hanswered)))
  · exact absurd hadvances Advances.not_dead
  · exact .inr (.inr (.inr fun id hid => hpicked (hbound id hid)))

/-- What a call writes has been popped. -/
theorem Sound.picked_of_written {t : Api.State} (h : Sound cfg t it) (hc : it.next? cfg = some c)
    {id : Int} (hid : c.written = some id) : Picked t id := by
  obtain ⟨phase, hat, hbound⟩ := h.bound
  obtain ⟨phase', -, hadvances⟩ := hat.next hc it.loaded
  obtain ⟨hlate, hlocal⟩ := hadvances.bound_of_written hid
  exact hbound.late hlate id hlocal

theorem Sound.mirrors {t : Api.State} (h : Sound cfg t it) (hc : it.next? cfg = some c)
    (hids : Table.Unique (·.id) t.store.submissions) (a : Action) :
    Mirrors cfg t a (it.effect t c) := by
  unfold Iteration.effect
  split
  case h_1 => exact mirrors_pop t a
  case h_2 id => exact mirrors_push (h.picked_of_written hc rfl)
  case h_3 db id result =>
    split
    case h_1 loaded _ => exact mirrors_write (h.picked_of_written hc rfl) hids loaded result
    case h_2 => exact .stays a
  case h_4 => exact .stays a

theorem Sound.keyAfter {t : Api.State} (h : Sound cfg t it) (hc : it.next? cfg = some c)
    {key : Option Int} :
    ∀ id ∈ Platform.keyAfter key c, key = some id ∨ Picked (it.effect t c) id := by
  intro id hid
  unfold Platform.keyAfter at hid
  split at hid
  case h_1 id' =>
    obtain rfl := Option.some.inj hid
    exact .inr (picked_effect t _ (h.picked_of_written hc rfl))
  case h_2 => cases hid
  case h_3 => exact .inl hid

/-! ## Steps -/

theorem picked_of_step {t t' : Api.State} {b : Api.Action}
    (hstep : Api.step cfg.libraries cfg.api t b = some t') : t.picked ⊆ t'.picked := by
  cases Api.moves_of_step hstep with
  | pick hjobs => exact List.subset_cons_self _ _
  | _ => exact List.Subset.refl _

theorem Grounded.api {t : Api.State} {b : Api.Action} (h : Grounded cfg s)
    (hstep : Api.step cfg.libraries cfg.api s.api b = some t) :
    Grounded cfg { s with api := t } :=
  h.mono (picked_of_step hstep) (fun _ _ hid => .inl hid) (fun _ hid => .inl hid) fun _ => .inl rfl

theorem loop_update {t : Api.State} (process : Nat → Process) {x : Process}
    (hx : LoopSound cfg t x.loop) (q : Nat) :
    (Function.update process p x q).loop = (process q).loop ∨
      LoopSound cfg t (Function.update process p x q).loop := by
  by_cases hq : q = p
  · subst hq
    rw [Function.update_self]
    exact .inr hx
  · rw [Function.update_of_ne hq]
    exact .inl rfl

theorem Grounded.setLoop (h : Grounded cfg s) {loop : Loop} (hloop : LoopSound cfg s.api loop) :
    Grounded cfg (s.setLoop p loop) :=
  h.mono (List.Subset.refl _) (fun _ _ hid => .inl hid) (fun _ hid => .inl hid)
    (loop_update s.process hloop)

theorem Sound.start {t : Api.State} {env : Environment} {db : Judge.JudgeWorker.Database}
    {previous : Option Int} {payload : Option Str} (h : ∀ id ∈ previous, Picked t id) :
    Sound cfg t (.start env db previous payload) where
  previous := h
  bound := ⟨.beat, Iteration.at_start, .inl ⟨rfl, rfl⟩⟩

/-- After the last call, the local variable is what was popped. -/
theorem Sound.after {t : Api.State} (h : Sound cfg t it) (hnext : it.next? cfg = none) :
    LoopSound cfg t (Platform.after it.submission_id (it.run cfg).result) := by
  obtain ⟨phase, hat, hbound⟩ := h.bound
  obtain ⟨last, hrun, hends⟩ := it.keeps cfg
  have hall : it.calls cfg = (it.run cfg).calls :=
    List.take_of_length_le (List.getElem?_eq_none_iff.mp hnext)
  have hphase : phase = last := by
    unfold Iteration.At at hat
    rw [hall] at hat
    exact Option.some.inj (hat.symm.trans hrun)
  unfold Platform.after
  split
  case h_1 => trivial
  case h_3 => trivial
  case h_2 outcome _ hresult =>
    -- an iteration that returns has ended in a phase after the `brpop`
    rw [hresult] at hends
    subst hphase
    have hlate : phase ≠ .beat ∧ phase ≠ .pop ∧ phase ≠ .dead := by
      cases outcome with
      | idle | processed | retried | shutdown =>
          rw [hends]
          simp
      | dropped e =>
          rcases (show Judge.JudgeWorker.LeavesTry e phase from hends) with rfl | ⟨rfl, -⟩ <;> simp
    exact hbound.late hlate

theorem Grounded.step (h : Grounded cfg s)
    (hreach : (Api.system cfg.libraries cfg.api).Reachable s.api) {a : Action}
    (hstep : step cfg s a = some s') : Mirrors cfg s.api a s'.api ∧ Grounded cfg s' := by
  have hsound {p : Nat} {it : Iteration} (hloop : (s.process p).loop = .busy it) :
      Sound cfg s.api it := by
    have hp := h.loop p
    rwa [hloop] at hp
  cases moves_of_step hstep with
  | request ht => exact ⟨.request ht, h.api ht⟩
  | promote ht => exact ⟨.other (fun _ _ h => by cases h) ht, h.api ht⟩
  | spawn identifier =>
      exact ⟨.stays _, h.mono (List.Subset.refl _) (fun _ _ hid => .inl hid)
        (fun _ hid => .inl hid) (loop_update s.process fun id hid => by cases hid)⟩
  | @begin p _ _ _ _ hloop =>
      have hp := h.loop p
      rw [hloop] at hp
      exact ⟨.stays _, h.setLoop (Sound.start hp)⟩
  | raise hloop hc hraises => exact ⟨.stays _, h.setLoop ((hsound hloop).raised hc hraises)⟩
  | @call p it c hloop hc hraises hanswered =>
      have hids := (Api.consistent_of_reachable hreach).submission_ids
      refine ⟨(hsound hloop).mirrors hc hids _, ?_⟩
      have hbusy := (hsound hloop).returned (Api.queued_of_reachable hreach) hc hraises hanswered
        (it.load s.api.store c)
      refine h.mono (picked_effect _ c) (fun i id hid => ?_) (fun _ hid => .inl hid)
        (loop_update s.process hbusy)
      change id ∈ Function.update s.key _ _ _ at hid
      by_cases hi : i = (s.process p).identifier
      · subst hi
        rw [Function.update_self] at hid
        exact (hsound hloop).keyAfter hc id hid
      · rw [Function.update_of_ne hi] at hid
        exact .inl hid
  | finish hloop hnext => exact ⟨.stays _, h.setLoop ((hsound hloop).after hnext)⟩
  | die p => exact ⟨.stays _, h.setLoop trivial⟩
  | @readKey i id hkey =>
      refine ⟨.stays _, h.mono (List.Subset.refl _) (fun _ _ hid => .inl hid) (fun id' hid => ?_)
        fun _ => .inl rfl⟩
      apply (List.mem_cons.mp hid).elim
      · rintro rfl
        exact .inr (h.key i id' hkey)
      · exact .inl
  | deleteKey i =>
      refine ⟨.stays _, h.mono (List.Subset.refl _) (fun j id hid => ?_) (fun _ hid => .inl hid)
        fun _ => .inl rfl⟩
      change id ∈ Function.update s.key _ _ _ at hid
      by_cases hj : j = i
      · rw [hj, Function.update_self] at hid
        cases hid
      · rw [Function.update_of_ne hj] at hid
        exact .inl hid
  | @retry id hread =>
      exact ⟨mirrors_push (h.read id hread), h.mono (List.Subset.refl _)
        (fun _ _ hid => .inl hid) (fun _ hid => .inl hid) fun _ => .inl rfl⟩

/-! ## Runs -/

theorem grounded_start : Grounded cfg start where
  key := fun i id hid => by cases hid
  read := fun id hid => by cases hid
  loop := fun p => trivial

theorem Mirrors.reachable {t t' : Api.State} {a : Action} (h : Mirrors cfg t a t')
    (ht : (Api.system cfg.libraries cfg.api).Reachable t) :
    (Api.system cfg.libraries cfg.api).Reachable t' := by
  cases h with
  | stays => exact ht
  | request hstep => exact Api.reachable_step ht hstep
  | other _ hstep => exact Api.reachable_step ht hstep

theorem Mirrors.path {ok : Api.State → Api.Action → Prop}
    (hok : ∀ t b, (∀ env request, b ≠ .request env request) → ok t b) {t t' : Api.State}
    {a : Action} (h : Mirrors cfg t a t')
    (hasks : ∀ env request, a = .request env request → ok t (.request env request)) :
    (Api.system cfg.libraries cfg.api).PathUnder ok t t' := by
  cases h with
  | stays => exact .refl
  | request hstep => exact System.PathUnder.single (hasks _ _ rfl) hstep
  | other hb hstep => exact System.PathUnder.single (hok _ _ hb) hstep

structure Founded (cfg : Config) (s : State) : Prop where
  service : (Api.system cfg.libraries cfg.api).Reachable s.api
  grounded : Grounded cfg s

theorem Founded.step (h : Founded cfg s) {a : Action} (hstep : Platform.step cfg s a = some s') :
    Founded cfg s' := by
  obtain ⟨hmirrors, hgrounded⟩ := h.grounded.step h.service hstep
  exact ⟨hmirrors.reachable h.service, hgrounded⟩

theorem founded_of_reachable (h : (system cfg).Reachable s) : Founded cfg s := by
  apply System.PreservedUnder.invariant (I := Founded cfg) ?_ ?_ h
  · intro s s' a _ hs _ hstep
    exact hs.step hstep
  · rintro _ rfl
    exact ⟨⟨_, rfl, .refl⟩, grounded_start⟩

/-- A condition on requests. -/
def Asks (ok : Api.State → Api.Action → Prop) (s : State) : Action → Prop
  | .request env request => ok s.api (.request env request)
  | _ => True

instance (ok : Api.State → Api.Action → Prop) [∀ t b, Decidable (ok t b)] (s : State) :
    (a : Action) → Decidable (Asks ok s a)
  | .request env request => inferInstanceAs (Decidable (ok s.api (.request env request)))
  | .promote _ | .spawn _ _ | .begin _ _ _ _ | .call _ | .finish _ | .die _ | .readKey _
  | .deleteKey _ | .retry _ => isTrue trivial

/-- A run of the platform is one of the service, with the same requests. -/
theorem service_path {ok : Api.State → Api.Action → Prop}
    (hok : ∀ t b, (∀ env request, b ≠ .request env request) → ok t b) (h : Founded cfg s)
    (hpath : (system cfg).PathUnder (Asks ok) s s') :
    (Api.system cfg.libraries cfg.api).PathUnder ok s.api s'.api ∧ Founded cfg s' := by
  induction hpath with
  | refl => exact ⟨.refl, h⟩
  | tail _ hstep ih =>
      obtain ⟨a, hasks, hstep⟩ := hstep
      obtain ⟨hpath, hu⟩ := ih
      have hmirrors := (hu.grounded.step hu.service hstep).1
      refine ⟨hpath.trans (hmirrors.path hok ?_), hu.step hstep⟩
      rintro env request rfl
      exact hasks

/-- **The platform refines the service**: what requests and workers that make every call
reach, the service reaches with workers that only take jobs, put back what was taken and store
results for it; and every id in a submission key, or read in one, is of a submission that was
committed, queued and taken. -/
theorem service_refined (h : (system cfg).Reachable s) :
    (Api.system cfg.libraries cfg.api).Reachable s.api ∧
      ∀ id, (id ∈ s.read ∨ ∃ i, s.key i = some id) →
        Picked s.api id ∧ id < s.api.store.submission_serial := by
  have hfounded := founded_of_reachable h
  refine ⟨hfounded.service, fun id hid => ?_⟩
  have hpicked : Picked s.api id := by
    apply hid.elim
    · exact hfounded.grounded.read id
    · intro hkey
      obtain ⟨i, hi⟩ := hkey
      exact hfounded.grounded.key i id hi
  obtain ⟨id', hlt, heq⟩ := (Api.queued_of_reachable hfounded.service).picked _ hpicked
  exact ⟨hpicked, PyNumber.ofInt_injective heq ▸ hlt⟩

/-! ## A submission that is judged -/

def quietConfig : Config where
  libraries := Api.plain
  api := Api.halfHour
  judge := Judge.JudgeWorker.anyConfig

def preparing : List Action :=
  [.request (Api.quiet 1 Api.CreateProblem.zeros) (.register Api.ann),
    .promote 1,
    .request (Api.quiet 5 Api.CreateProblem.zeros) (.login Api.ann.username Api.ann.password)]

def creating : Action :=
  .request (Api.quiet 6 Api.CreateProblem.zeros)
    (.createProblem (some Api.annToken) (Api.sumForm ['p'] true))

def submitting : Action :=
  .request (Api.quiet 7 Api.CreateProblem.zeros)
    (.createSubmission (some Api.annToken) ⟨['p'], "print(3)".toList, .PYTHON⟩)

/-- Nothing fails, and the program prints the digit 2. -/
def meets (t : Api.Store) : Environment :=
  { Api.undisturbed t with
    submissionFile := fun key => (t.submissionFiles.getObject key).getD []
    execution := fun _ => Judge.JudgeWorker.printing [50] }

def working (t : Api.Store) (n : Nat) : List Action :=
  [.spawn 0 1, .begin 0 (meets t) t.judgeDatabase t.jobs.getLast?] ++ List.replicate n (.call 0)

/-- Before its 25th call, the deletion of the key, the iteration has stored the verdict. -/
theorem exists_judged :
    ∃ s s₁ s₂ s₃ : State, (system quietConfig).Reachable s ∧
      step quietConfig s creating = some s₁ ∧
      (Api.serve Api.plain Api.halfHour (Api.quiet 6 Api.CreateProblem.zeros)
        (.createProblem (some Api.annToken) (Api.sumForm ['p'] true)) s.api.store).1 =
          .ok (.problemCreated Api.sumCreated) ∧
      step quietConfig s₁ submitting = some s₂ ∧
      (∃ r ∈ s₂.api.store.submissions, r.id = s₁.api.store.submission_serial) ∧
      (system quietConfig).PathUnder
        (Asks fun t a => Api.Spares ['p'] a ∧ Api.FreshUuid t a) s₂ s₃ ∧
      s₃.key 1 = some 1 ∧
      ∃ r ∈ s₃.api.store.submissions, r.id = s₁.api.store.submission_serial ∧
        r.verdict = .ACCEPTED := by
  obtain ⟨s, hprepared, hok, hcreate⟩ :=
    System.exists_path (system quietConfig) (fun _ _ => True) start preparing
      (fun s => (Api.serve Api.plain Api.halfHour (Api.quiet 6 Api.CreateProblem.zeros)
          (.createProblem (some Api.annToken) (Api.sumForm ['p'] true)) s.api.store).1 =
            .ok (.problemCreated Api.sumCreated) ∧
        (step quietConfig s creating).any (fun s₁ => (step quietConfig s₁ submitting).any
          fun s₂ => decide (∃ r ∈ s₂.api.store.submissions,
              r.id = s₁.api.store.submission_serial) &&
            ((system quietConfig).runUnder
              (Asks fun t a => Api.Spares ['p'] a ∧ Api.FreshUuid t a) s₂
              (working s₂.api.store 24)).any fun s₃ => decide (s₃.key 1 = some 1 ∧
                ∃ r ∈ s₃.api.store.submissions, r.id = s₁.api.store.submission_serial ∧
                  r.verdict = .ACCEPTED)) = true)
      (by decide +kernel)
  obtain ⟨s₁, hs₁, hsubmit⟩ := (Option.any_eq_true _ _).mp hcreate
  obtain ⟨s₂, hs₂, hjudge⟩ := (Option.any_eq_true _ _).mp hsubmit
  obtain ⟨hrow, hworks⟩ := Bool.and_eq_true_iff.mp hjudge
  obtain ⟨s₃, hpath, hkey, hjudged⟩ := System.exists_path _ _ _ _ _ hworks
  exact ⟨s, s₁, s₂, s₃, ⟨_, rfl, hprepared⟩, hs₁, hok, hs₂, of_decide_eq_true hrow, hpath, hkey,
    hjudged⟩

theorem service_refined_judged :
    ∃ s : State, (Api.system quietConfig.libraries quietConfig.api).Reachable s.api ∧
      s.key 1 = some 1 ∧ Picked s.api 1 := by
  obtain ⟨s, s₁, s₂, s₃, hs, hs₁, -, hs₂, -, hpath, hkey, -⟩ := exists_judged
  have hreach : (system quietConfig).Reachable s₃ := by
    obtain ⟨s₀, h₀, hprefix⟩ := (hs.step (a := creating) trivial hs₁).step (a := submitting)
      trivial hs₂
    exact ⟨s₀, h₀, hprefix.trans (hpath.mono fun _ _ _ => trivial)⟩
  obtain ⟨hservice, hknown⟩ := service_refined hreach
  exact ⟨s₃, hservice, hkey, (hknown 1 (.inr ⟨1, hkey⟩)).1⟩

end ByteBattles.Platform
