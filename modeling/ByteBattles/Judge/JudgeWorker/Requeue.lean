import ByteBattles.Judge.JudgeWorker.Retention
import ByteBattles.Lib.Transition

/-!
# What the workers put back

Any number of workers that consume one job list.  The heartbeat and the `brpop` of an
iteration are one step, and every further call is one; each iteration meets an
environment and rows of its own.  Ghost fields record which id an iteration has popped
and neither judged nor put back, and whose verdicts have been stored.
-/

namespace ByteBattles.Judge.JudgeWorker.Requeue

open ByteBattles.Lib

/-! ## The system -/

/-- A worker process in `_consume_from_list`. -/
structure Consumer where
  /-- The local variable, which survives the iteration that assigned it. -/
  submission_id : Option Int
  held : Option Int
  /-- Which calls of the iteration raise. -/
  raises : Step → Option Exc
  /-- The calls that it has still to make, and its end. -/
  rest : Run Outcome

structure State where
  jobs : List Str
  /-- One entry for each verdict that has been stored. -/
  judged : List Int
  consumers : List Consumer

inductive Action
  /-- The API or the orchestrator pushes a payload. -/
  | enqueue (payload : Str)
  /-- A worker is started. -/
  | spawn
  /-- Worker `i` begins an iteration; `db` is what `process_submission` will read. -/
  | begin (i : Nat) (env : Environment) (db : Database)
  /-- Worker `i` makes its next call. -/
  | call (i : Nat)
  | die (i : Nat)

def Action.isEnqueue : Action → Bool
  | .enqueue _ => true
  | _ => false

/-- The loop goes on: the iteration is over, and neither returned nor raised. -/
def Consumer.loops (c : Consumer) : Bool :=
  match c.rest.calls, c.rest.result with
  | [], .ok .shutdown => false
  | [], .ok _ => true
  | _, _ => false

/-- The id that the call puts back, or whose verdict it stores. -/
def settles : Call → Option Int
  | .lpush submission_id => some submission_id
  | .commit _ (some (submission_id, _)) => some submission_id
  | _ => none

def State.after (s : State) : Call → State
  | .brpop => { s with jobs := s.jobs.dropLast }
  | .lpush submission_id => { s with jobs := Str.ofInt submission_id :: s.jobs }
  | .commit _ (some (submission_id, _)) => { s with judged := submission_id :: s.judged }
  | _ => s

def State.called (s : State) (raises : Step → Option Exc) (c : Call) : State :=
  if raises c.step = none then s.after c else s

def holds (raises : Step → Option Exc) (held : Option Int) (c : Call) : Option Int :=
  if raises c.step = none ∧ (settles c).isSome then none else held

def poppedId (env : Environment) (payload : Option Str) : Option Int :=
  if env.raises .setHeartbeat = none ∧ env.raises .brpop = none then
    payload.bind PyNumber.int
  else none

def iteration (cfg : Config) (env : Environment) (db : Database) (s : State) (c : Consumer) :
    Run Outcome :=
  consume cfg env db c.submission_id s.jobs.getLast?

def Consumer.begun (cfg : Config) (env : Environment) (db : Database) (s : State) (c : Consumer) :
    Consumer where
  submission_id :=
    if env.raises .setHeartbeat = none then boundId env c.submission_id s.jobs.getLast?
    else c.submission_id
  held := poppedId env s.jobs.getLast?
  raises := env.raises
  rest := ⟨(iteration cfg env db s c).calls.drop 2, (iteration cfg env db s c).result⟩

def State.setConsumer (s : State) (i : Nat) (c : Consumer) : State :=
  { s with consumers := s.consumers.set i c }

def step (cfg : Config) (s : State) : Action → Option State
  | .enqueue payload => some { s with jobs := payload :: s.jobs }
  | .spawn =>
      some { s with consumers := s.consumers ++ [⟨none, none, fun _ => none, pure .idle⟩] }
  | .begin i env db =>
      (s.consumers[i]?).bind fun c =>
        if c.loops then
          let calls := (iteration cfg env db s c).calls.take 2
          some ((calls.foldl (fun t call => t.called env.raises call) s).setConsumer i
            (c.begun cfg env db s))
        else none
  | .call i =>
      (s.consumers[i]?).bind fun c =>
        match c.rest.calls with
        | [] => none
        | call :: calls => some ((s.called c.raises call).setConsumer i
            { c with held := holds c.raises c.held call, rest := ⟨calls, c.rest.result⟩ })
  | .die i =>
      (s.consumers[i]?).map fun c =>
        s.setConsumer i { c with held := none, rest := ⟨[], .ok .shutdown⟩ }

def system (cfg : Config) : System State Action where
  init := fun s => s = ⟨[], [], []⟩
  step := step cfg

/-! ## The property -/

/-- How often the id is queued, held by a worker, or judged. -/
def total (id : Int) (s : State) : Nat :=
  s.jobs.countP (PyNumber.int · = some id) +
    weight (fun c => if c.held = some id then 1 else 0) s.consumers + s.judged.count id

/-- The worker only puts back what it holds, and the loop ends with no unbound variable. -/
structure Consumer.PutsBackOwn (c : Consumer) : Prop where
  pushes : ∀ id calls, c.rest.calls = .lpush id :: calls → c.raises .lpush = none →
    c.held = some id
  bound : c.rest.result = .error .unboundLocalError →
    ∃ step, c.raises step = some .unboundLocalError

/-- In the runs whose steps `ok` allows, workers only put back what they hold, and nothing but
an enqueue adds an id to those that are queued, held or judged. -/
structure NeverRequeuesOther (cfg : Config) (ok : State → Action → Prop) : Prop where
  putsBackOwn : ∀ s, (system cfg).ReachableUnder ok s → ∀ c ∈ s.consumers, c.PutsBackOwn
  total_le : ∀ s a t, (system cfg).ReachableUnder ok s → ok s a → step cfg s a = some t →
    a.isEnqueue = false → ∀ id, total id t ≤ total id s

/-! ## The condition -/

/-- `except Exception` catches it, after the other two branches. -/
def failure (e : Exc) : Prop := e ≠ .keyboardInterrupt ∧ e.isValueError = false

def Stores (env : Environment) (db : Database) (id : Int) : Prop :=
  ∃ submission problem, db.submissions id = some submission ∧
    db.problems submission.problem_id = some problem ∧
    raisedBeforeStore env (db.job submission problem) = none

/-- The `brpop` fails only after an id has been bound, and only when `lpush` fails too. -/
def PopSpares (env : Environment) (previous : Option Int) : Prop :=
  env.raises .setHeartbeat = none → ∀ e, env.raises .brpop = some e → failure e →
    previous ≠ none ∧ env.raises .lpush ≠ none

/-- After the verdict has been stored no call fails, unless `lpush` fails too. -/
def StoreSpares (env : Environment) (db : Database) (popped : Option Int) : Prop :=
  ∀ id, popped = some id → Stores env db id → ∀ e, raisedAfterStore env = some e → failure e →
    env.raises .lpush ≠ none

/-- No iteration fails in its `brpop` or after it has stored a verdict. -/
def spares (s : State) : Action → Prop
  | .begin i env db => ∀ c, s.consumers[i]? = some c →
      PopSpares env c.submission_id ∧ StoreSpares env db (poppedId env s.jobs.getLast?)
  | _ => True

/-! ## Guarded calls -/

/-- Along the calls, an id is only put back or stored while it is held. -/
def Guarded (raises : Step → Option Exc) : Option Int → List Call → Prop
  | _, [] => True
  | held, c :: calls =>
      (raises c.step = none → ∀ id, settles c = some id → held = some id) ∧
        Guarded raises (holds raises held c) calls

variable {cfg : Config} {env : Environment} {db : Database} {held : Option Int} {id : Int}

theorem settles_of_quiet {c : Call} (h : c.quiet = true) : settles c = none := by
  cases c with
  | lpush => cases h
  | commit _ update =>
      cases update with
      | none => rfl
      | some _ => cases h
  | _ => rfl

/-- Calls that change neither rows nor the job list settle nothing. -/
theorem Guarded.append {before after : List Call} (hbefore : ∀ c ∈ before, env.Leaves c)
    (hafter : Guarded env.raises held after) : Guarded env.raises held (before ++ after) := by
  induction before with
  | nil => exact hafter
  | cons c before ih =>
      have hsettles : env.raises c.step = none → settles c = none := by
        intro hc
        exact settles_of_quiet ((hbefore c (List.mem_cons_self ..)).resolve_right (absurd hc))
      have hholds : holds env.raises held c = held := by
        unfold holds
        split
        case isTrue h =>
          rw [hsettles h.1] at h
          cases h.2
        case isFalse => rfl
      refine ⟨fun hc id hid => ?_, ?_⟩
      · rw [hsettles hc] at hid
        cases hid
      · rw [hholds]
        exact ih fun c' hc' => hbefore c' (List.mem_cons_of_mem _ hc')

theorem guarded_of_leaves {calls : List Call} (h : ∀ c ∈ calls, env.Leaves c) :
    Guarded env.raises held calls := by
  rw [← List.append_nil calls]
  exact Guarded.append h trivial

/-! ## The handler -/

theorem handle_of_not_failure (env : Environment) {e : Exc} (h : ¬ failure e)
    (local? : Option Int) :
    ∃ outcome, handle env local? e = pure outcome := by
  by_cases hne : e = .keyboardInterrupt
  · subst hne
    exact ⟨_, handle_keyboardInterrupt env local?⟩
  · have hvalue : e.isValueError = true := by
      by_contra hfalse
      exact h ⟨hne, by simpa using hfalse⟩
    exact ⟨_, handle_valueError hvalue local?⟩

/-- The handler puts back the id of the iteration. -/
theorem guarded_handle (e : Exc) :
    Guarded env.raises (some id) (handle env (some id) e).calls := by
  by_cases he : failure e
  · rw [handle_failure he.1 he.2]
    cases hpush : env.raises .lpush with
    | some e' =>
        rw [Environment.call_bind_raises hpush]
        exact ⟨fun _ _ h => h, trivial⟩
    | none =>
        rw [Environment.call_bind hpush]
        exact ⟨fun _ _ h => h, guarded_of_leaves fun c hc => .inl (quiet_pause c hc)⟩
  · obtain ⟨outcome, ho⟩ := handle_of_not_failure env he (some id)
    rw [ho]
    trivial

theorem guarded_handle_of_raises {e : Exc} (h : failure e → env.raises .lpush ≠ none) :
    Guarded env.raises held (handle env (some id) e).calls := by
  by_cases he : failure e
  · obtain ⟨e', hpush⟩ := Option.ne_none_iff_exists'.mp (h he)
    rw [handle_failure he.1 he.2, Environment.call_bind_raises hpush]
    exact ⟨fun hnone => absurd hnone (h he), trivial⟩
  · obtain ⟨outcome, ho⟩ := handle_of_not_failure env he (some id)
    rw [ho]
    trivial

/-- With a bound id, the handler raises what one of its calls raises. -/
theorem handle_raises {e e' : Exc} (h : (handle env (some id) e).result = .error e') :
    ∃ step, env.raises step = some e' := by
  by_cases he : failure e
  · have hraised : (handle env (some id) e).raised = some e' := by
      rw [Traced.raised, h, raisedBy_error]
    rw [handle_failure he.1 he.2] at hraised
    simp only [Environment.raised_call_bind, Traced.raised_pure, Option.or_none,
      Option.or_eq_some_iff] at hraised
    rcases hraised with hpush | ⟨-, hsleep⟩
    · exact ⟨_, hpush⟩
    · exact ⟨_, hsleep⟩
  · obtain ⟨outcome, ho⟩ := handle_of_not_failure env he (some id)
    rw [ho] at h
    cases h

/-! ## The work on an id -/

/-- The first session returns only if both rows exist. -/
theorem returns_readJob_rows :
    (readJob env db id).Returns fun _ => ∃ submission problem,
      db.submissions id = some submission ∧
        db.problems submission.problem_id = some problem := by
  cases hs : db.submissions id with
  | none =>
      have hraise : (getSubmission env db id).Returns fun _ => False := by
        simp only [getSubmission, hs]
        exact Traced.returns_bind fun _ => Traced.returns_raise
      exact hraise.bind fun _ h => h.elim
  | some row =>
      refine (returns_getSubmission hs).bind ?_
      rintro submission rfl
      refine Traced.returns_bind fun _ => ?_
      cases hp : db.problems submission.problem_id with
      | none =>
          have hraise : (getTimeMemLimit env db submission.problem_id).Returns fun _ => False := by
            simp only [getTimeMemLimit, hp]
            exact Traced.returns_bind fun _ => Traced.returns_raise
          exact hraise.bind fun _ h => h.elim
      | some problem => exact fun _ _ => ⟨submission, problem, rfl, hp⟩

theorem returns_judgeSubmission_rows :
    (judgeSubmission cfg env db id).Returns fun _ => ∃ submission problem,
      db.submissions id = some submission ∧
        db.problems submission.problem_id = some problem :=
  (returns_session returns_readJob_rows).bind fun _ hrows => fun _ _ => hrows

/-- Unless a verdict is stored, the work changes neither rows nor the job list. -/
theorem leaves_work_of_not_stores (cfg : Config) (h : ¬ Stores env db id) :
    (work cfg env db id).Makes env.Leaves := by
  by_cases hrows : ∃ submission problem, db.submissions id = some submission ∧
      db.problems submission.problem_id = some problem
  · obtain ⟨submission, problem, hs, hp⟩ := hrows
    exact leaves_work hs hp fun hbefore => h ⟨submission, problem, hs, hp, hbefore⟩
  · refine (makes_call (.inl rfl)).bind fun _ _ => Traced.Makes.bind ?_ fun _ _ =>
      (makes_call (.inl rfl)).bind fun _ _ => Traced.makes_pure _
    refine Traced.Makes.bind (fun c hc => .inl (quiet_judgeSubmission db id c hc)) ?_
    intro result hresult
    exact absurd (returns_judgeSubmission_rows result hresult) hrows

theorem guarded_handledWork
    (h : Stores env db id → ∀ e, raisedAfterStore env = some e → failure e →
      env.raises .lpush ≠ none) :
    Guarded env.raises (some id) (handledWork cfg env db id).calls := by
  by_cases hstores : Stores env db id
  · obtain ⟨submission, problem, hs, hp, hbefore⟩ := hstores
    obtain ⟨result, before, after, -, hpre, hpost, hcalls, hcommit⟩ :=
      @calls_work cfg env db id submission problem hs hp hbefore
    have hraised := @raised_work cfg env db id submission problem hs hp
    rw [hbefore, Option.none_or] at hraised
    -- the commit settles the id; whatever follows must settle nothing
    have hguarded : ∀ rest, (∀ held, Guarded env.raises held rest) →
        Guarded env.raises (some id) ((work cfg env db id).calls ++ rest) := by
      intro rest hrest
      rw [hcalls, List.append_assoc]
      refine Guarded.append (fun c hc => .inl (hpre c hc)) ⟨fun _ _ h => h, ?_⟩
      exact Guarded.append (fun c hc => .inl (hpost c hc)) (hrest _)
    cases hafter : raisedAfterStore env with
    | none =>
        rw [hafter] at hraised
        obtain ⟨outcome, ho⟩ := raisedBy_eq_none hraised
        rw [handledWork, Traced.catching_ok _ ho, ← List.append_nil (work cfg env db id).calls]
        exact hguarded [] fun _ => trivial
    | some e =>
        rw [hafter] at hraised
        rw [handledWork, Traced.catching_error _ (raisedBy_eq_some hraised)]
        exact hguarded _ fun _ => guarded_handle_of_raises
          (h ⟨submission, problem, hs, hp, hbefore⟩ e hafter)
  · have hleaves := leaves_work_of_not_stores cfg hstores
    rw [handledWork]
    cases hwork : (work cfg env db id).result with
    | ok outcome =>
        rw [Traced.catching_ok _ hwork]
        exact guarded_of_leaves hleaves
    | error e =>
        rw [Traced.catching_error _ hwork]
        exact Guarded.append hleaves (guarded_handle e)

theorem handledWork_raises {e : Exc} (h : (handledWork cfg env db id).result = .error e) :
    ∃ step, env.raises step = some e := by
  rw [handledWork] at h
  cases hwork : (work cfg env db id).result with
  | ok outcome =>
      rw [Traced.catching_ok _ hwork, hwork] at h
      cases h
  | error e' =>
      rw [Traced.catching_error _ hwork] at h
      exact handle_raises h

/-! ## An iteration -/

section

variable {previous : Option Int} {payload : Option Str}

theorem consume_of_setHeartbeat {e : Exc} (h : env.raises .setHeartbeat = some e) :
    consume cfg env db previous payload = ⟨[.setHeartbeat], .error e⟩ := by
  rw [consume, Environment.call_bind_raises h]

theorem consume_of_brpop {e : Exc} (hset : env.raises .setHeartbeat = none)
    (h : env.raises .brpop = some e) :
    consume cfg env db previous payload =
      ⟨.setHeartbeat :: .brpop :: (handle env previous e).calls,
        (handle env previous e).result⟩ := by
  have hbound : boundId env previous payload = previous := by
    simp [boundId, h]
  have htry : tryBlock cfg env db payload = ⟨[.brpop], .error e⟩ :=
    Environment.call_bind_raises h
  rw [consume, Environment.call_bind hset, hbound, htry, Traced.catching_error _ rfl]
  rfl

theorem consume_of_empty (hset : env.raises .setHeartbeat = none)
    (hbrpop : env.raises .brpop = none) :
    consume cfg env db previous none = ⟨[.setHeartbeat, .brpop], .ok .idle⟩ := by
  have htry : tryBlock cfg env db none = ⟨[.brpop], .ok .idle⟩ := Environment.call_bind hbrpop
  rw [consume, Environment.call_bind hset, htry, Traced.catching_ok _ rfl]

theorem consume_of_conversion {p : Str} (hset : env.raises .setHeartbeat = none)
    (hbrpop : env.raises .brpop = none) (hint : PyNumber.int p = none) :
    consume cfg env db previous (some p) =
      ⟨[.setHeartbeat, .brpop], .ok (.dropped .conversionError)⟩ := by
  have htry : tryBlock cfg env db (some p) = ⟨[.brpop], .error .conversionError⟩ := by
    have hraise : (Traced.ofExcept (intOf p) : Run Int).result = .error .conversionError := by
      simp [intOf, hint]
    rw [tryBlock, Environment.call_bind hbrpop, Traced.bind_error hraise]
    rfl
  rw [consume, Environment.call_bind hset, htry, Traced.catching_error _ rfl,
    handle_valueError rfl]
  rfl

theorem guarded_consume (hpop : PopSpares env previous)
    (hstore : StoreSpares env db (poppedId env payload)) :
    Guarded env.raises (poppedId env payload)
        ((consume cfg env db previous payload).calls.drop 2) ∧
      ((consume cfg env db previous payload).result = .error .unboundLocalError →
        ∃ step, env.raises step = some .unboundLocalError) := by
  cases hset : env.raises .setHeartbeat with
  | some e =>
      rw [consume_of_setHeartbeat hset]
      refine ⟨trivial, fun h => ⟨.setHeartbeat, ?_⟩⟩
      obtain rfl : e = .unboundLocalError := by simpa using h
      exact hset
  | none =>
    cases hbrpop : env.raises .brpop with
    | some e =>
        rw [consume_of_brpop hset hbrpop]
        by_cases he : failure e
        · obtain ⟨hbound, hpush⟩ := hpop hset e hbrpop he
          obtain ⟨id, rfl⟩ := Option.ne_none_iff_exists'.mp hbound
          exact ⟨guarded_handle_of_raises fun _ => hpush, handle_raises⟩
        · obtain ⟨outcome, ho⟩ := handle_of_not_failure env he previous
          rw [ho]
          exact ⟨trivial, fun h => by cases h⟩
    | none =>
      cases payload with
      | none =>
          rw [consume_of_empty hset hbrpop]
          exact ⟨trivial, fun h => by cases h⟩
      | some p =>
        cases hint : PyNumber.int p with
        | none =>
            rw [consume_of_conversion hset hbrpop hint]
            exact ⟨trivial, fun h => by cases h⟩
        | some id =>
            have hpopped : poppedId env (some p) = some id := by
              simp [poppedId, hset, hbrpop, hint]
            rw [consume_eq hset hbrpop hint, hpopped]
            exact ⟨guarded_handledWork (hstore id hpopped), handledWork_raises⟩

theorem take_two_consume :
    (consume cfg env db previous payload).calls.take 2 =
      if env.raises .setHeartbeat = none then [.setHeartbeat, .brpop] else [.setHeartbeat] := by
  cases hset : env.raises .setHeartbeat with
  | some e =>
      rw [consume_of_setHeartbeat hset]
      rfl
  | none =>
    cases hbrpop : env.raises .brpop with
    | some e =>
        rw [consume_of_brpop hset hbrpop]
        rfl
    | none =>
      cases payload with
      | none =>
          rw [consume_of_empty hset hbrpop]
          rfl
      | some p =>
        cases hint : PyNumber.int p with
        | none =>
            rw [consume_of_conversion hset hbrpop hint]
            rfl
        | some id =>
            rw [consume_eq hset hbrpop hint]
            rfl

end

/-! ## The invariant -/

/-- The rest of the iteration settles only what the worker holds. -/
structure Consumer.Ok (c : Consumer) : Prop where
  guarded : Guarded c.raises c.held c.rest.calls
  bound : c.rest.result = .error .unboundLocalError →
    ∃ step, c.raises step = some .unboundLocalError

theorem Consumer.Ok.putsBackOwn {c : Consumer} (h : c.Ok) : c.PutsBackOwn where
  pushes := by
    intro id calls hcalls hpush
    have hguarded := h.guarded
    rw [hcalls] at hguarded
    exact hguarded.1 hpush id rfl
  bound := h.bound

theorem Consumer.Ok.begun {s : State} {c : Consumer} (hpop : PopSpares env c.submission_id)
    (hstore : StoreSpares env db (poppedId env s.jobs.getLast?)) : (c.begun cfg env db s).Ok where
  guarded := (guarded_consume hpop hstore).1
  bound := (guarded_consume hpop hstore).2

theorem Consumer.Ok.next {c : Consumer} {call : Call} {calls : List Call} (h : c.Ok)
    (hcalls : c.rest.calls = call :: calls) :
    Consumer.Ok { c with held := holds c.raises c.held call, rest := ⟨calls, c.rest.result⟩ } where
  guarded := by
    have hguarded := h.guarded
    rw [hcalls] at hguarded
    exact hguarded.2
  bound := h.bound

def Ok (s : State) : Prop := ∀ c ∈ s.consumers, c.Ok

theorem Ok.setConsumer {s t : State} {i : Nat} {c : Consumer} (hs : Ok s)
    (ht : t.consumers = s.consumers) (hc : c.Ok) : Ok (t.setConsumer i c) := by
  intro c' hc'
  rcases List.mem_or_eq_of_mem_set hc' with hmem | rfl
  · exact hs c' (ht ▸ hmem)
  · exact hc

theorem consumers_called (s : State) (raises : Step → Option Exc) (c : Call) :
    (s.called raises c).consumers = s.consumers := by
  unfold State.called
  split
  · cases c with
    | commit _ update => cases update <;> rfl
    | _ => rfl
  · rfl

theorem foldl_take_two (s : State) (c : Consumer) :
    ((iteration cfg env db s c).calls.take 2).foldl (fun t call => t.called env.raises call) s =
      if env.raises .setHeartbeat = none ∧ env.raises .brpop = none then
        { s with jobs := s.jobs.dropLast }
      else s := by
  rw [iteration, take_two_consume]
  cases hset : env.raises .setHeartbeat <;> cases hbrpop : env.raises .brpop <;>
    simp [State.called, State.after, Call.step, hset, hbrpop]

/-! ## Steps -/

inductive Move (cfg : Config) (s : State) : Action → State → Prop
  | enqueue (payload : Str) : Move cfg s (.enqueue payload) { s with jobs := payload :: s.jobs }
  | spawn :
      Move cfg s .spawn
        { s with consumers := s.consumers ++ [⟨none, none, fun _ => none, pure .idle⟩] }
  | begin (i : Nat) (env : Environment) (db : Database) (c : Consumer) :
      s.consumers[i]? = some c →
      Move cfg s (.begin i env db)
        ((if env.raises .setHeartbeat = none ∧ env.raises .brpop = none then
          { s with jobs := s.jobs.dropLast }
        else s).setConsumer i (c.begun cfg env db s))
  | call (i : Nat) (c : Consumer) (call : Call) (calls : List Call) :
      s.consumers[i]? = some c → c.rest.calls = call :: calls →
      Move cfg s (.call i) ((s.called c.raises call).setConsumer i
        { c with held := holds c.raises c.held call, rest := ⟨calls, c.rest.result⟩ })
  | die (i : Nat) (c : Consumer) :
      s.consumers[i]? = some c →
      Move cfg s (.die i) (s.setConsumer i { c with held := none, rest := ⟨[], .ok .shutdown⟩ })

theorem move_of_step {s t : State} {a : Action} (h : step cfg s a = some t) : Move cfg s a t := by
  cases a with
  | enqueue payload =>
      obtain rfl := Option.some.inj h
      exact .enqueue payload
  | spawn =>
      obtain rfl := Option.some.inj h
      exact .spawn
  | begin i env db =>
      obtain ⟨c, hc, h⟩ := Option.bind_eq_some_iff.mp h
      split at h
      · dsimp only at h
        rw [foldl_take_two] at h
        obtain rfl := Option.some.inj h
        exact .begin i env db c hc
      · cases h
  | call i =>
      obtain ⟨c, hc, h⟩ := Option.bind_eq_some_iff.mp h
      split at h
      · cases h
      · rename_i call calls hcalls
        obtain rfl := Option.some.inj h
        exact .call i c call calls hc hcalls
  | die i =>
      obtain ⟨c, hc, rfl⟩ := Option.map_eq_some_iff.mp h
      exact .die i c hc

theorem Ok.step {s t : State} {a : Action} (hs : Ok s) (ha : spares s a) (h : Move cfg s a t) :
    Ok t := by
  cases h with
  | enqueue => exact hs
  | spawn =>
      intro c hc
      rcases List.mem_append.mp hc with hc | hc
      · exact hs c hc
      · obtain rfl := List.mem_singleton.mp hc
        exact ⟨trivial, fun h => by cases h⟩
  | begin i env db c hc =>
      obtain ⟨hpop, hstore⟩ := ha c hc
      refine hs.setConsumer ?_ (.begun hpop hstore)
      split <;> rfl
  | call i c call calls hc hcalls =>
      exact hs.setConsumer (consumers_called s _ _)
        ((hs c (List.mem_of_getElem? hc)).next hcalls)
  | die i c hc => exact hs.setConsumer rfl ⟨trivial, fun h => by cases h⟩

/-! ## Conservation -/

/-- One worker is changed, and the rest of the state by no more than the worker gives up. -/
theorem total_setConsumer_le {s t : State} {i : Nat} {c c' : Consumer} {id : Int}
    (hc : s.consumers[i]? = some c) (ht : t.consumers = s.consumers)
    (hle : t.jobs.countP (PyNumber.int · = some id) + t.judged.count id +
        (if c'.held = some id then 1 else 0) ≤
      s.jobs.countP (PyNumber.int · = some id) + s.judged.count id +
        (if c.held = some id then 1 else 0)) :
    total id (t.setConsumer i c') ≤ total id s := by
  have hweight := weight_set (fun c : Consumer => if c.held = some id then 1 else 0)
    (ht ▸ hc : t.consumers[i]? = some c) c'
  simp only [total, State.setConsumer]
  rw [← ht]
  omega

theorem countP_pop (jobs : List Str) (id : Int) :
    jobs.dropLast.countP (PyNumber.int · = some id) +
        (if jobs.getLast?.bind PyNumber.int = some id then 1 else 0) =
      jobs.countP (PyNumber.int · = some id) := by
  cases jobs using List.reverseRecOn with
  | nil => simp
  | append_singleton jobs p => simp [List.countP_append]

/-- A call that is guarded moves the id that it settles. -/
theorem countP_called_le {s : State} {c : Consumer} {call : Call} {calls : List Call} {id : Int}
    (hguarded : Guarded c.raises c.held (call :: calls)) :
    (s.called c.raises call).jobs.countP (PyNumber.int · = some id) +
        (s.called c.raises call).judged.count id +
        (if holds c.raises c.held call = some id then 1 else 0) ≤
      s.jobs.countP (PyNumber.int · = some id) + s.judged.count id +
        (if c.held = some id then 1 else 0) := by
  cases hraises : c.raises call.step with
  | some e => simp [State.called, holds, hraises]
  | none =>
      have hheld := hguarded.1 hraises
      simp only [State.called, holds, hraises, if_true, true_and]
      cases call with
      | brpop =>
          have hpop := countP_pop s.jobs id
          simp only [State.after, settles, Option.isSome_none, Bool.false_eq_true, if_false]
          omega
      | lpush submission_id =>
          rw [hheld submission_id rfl]
          have hread : PyNumber.int (Str.ofInt submission_id) = some id → submission_id = id :=
            PyNumber.eq_of_int_ofInt
          simp only [State.after, settles, Option.isSome_some, if_true, List.countP_cons,
            decide_eq_true_eq, Option.some.injEq, reduceCtorEq, if_false]
          grind
      | commit db update =>
          cases update with
          | none => simp [State.after, settles]
          | some update =>
              rw [hheld update.1 rfl]
              simp only [State.after, settles, Option.isSome_some, if_true, List.count_cons,
                beq_iff_eq, Option.some.injEq, reduceCtorEq, if_false]
              omega
      | _ => simp [State.after, settles]

theorem total_le_of_move {s t : State} {a : Action} (hs : Ok s) (h : Move cfg s a t)
    (ha : a.isEnqueue = false) (id : Int) : total id t ≤ total id s := by
  cases h with
  | enqueue => cases ha
  | spawn => simp [total]
  | begin i env db c hc =>
      refine total_setConsumer_le hc (by split <;> rfl) ?_
      have hpop := countP_pop s.jobs id
      simp only [Consumer.begun, poppedId]
      split
      · dsimp only
        omega
      · simp
  | call i c call calls hc hcalls =>
      have hguarded := (hs c (List.mem_of_getElem? hc)).guarded
      rw [hcalls] at hguarded
      exact total_setConsumer_le hc (consumers_called s _ _) (countP_called_le hguarded)
  | die i c hc => exact total_setConsumer_le hc rfl (by simp)

theorem ok_of_reachable {s : State} (h : (system cfg).ReachableUnder spares s) : Ok s := by
  refine System.PreservedUnder.invariant ?_ ?_ h
  · intro s t a _ hs ha hstep
    exact hs.step ha (move_of_step hstep)
  · rintro _ rfl c hc
    cases hc

/-- **The workers put back only what they hold** in every run in which no iteration fails in
its `brpop` or after it has stored a verdict. -/
theorem neverRequeuesOther_of_spares (cfg : Config) : NeverRequeuesOther cfg spares where
  putsBackOwn := fun _ h c hc => (ok_of_reachable h c hc).putsBackOwn
  total_le := fun _ _ _ h _ hstep ha id =>
    total_le_of_move (ok_of_reachable h) (move_of_step hstep) ha id

/-! ## What is put back otherwise -/

def oneC : Database where
  submissions := fun id => if id = 1 then some ⟨['p'], .C, ['c'], pendingRow⟩ else none
  problems := fun id => if id = ['p'] then some ⟨1, 64⟩ else none
  testcases := []

def failingAt (failing : Option Step) : Environment :=
  { storing [] with
    compilation := ⟨some 1, none⟩
    raises := fun step => if some step = failing then some .other else none }

/-- The verdict is stored, the key of the submission cannot be deleted. -/
def judgedTwice : List Action :=
  [.enqueue ['1'], .spawn, .begin 0 (failingAt (some .deleteSubmission)) oneC] ++
    List.replicate 18 (.call 0)

def staleId : List Action :=
  [.enqueue ['1'], .spawn, .begin 0 (failingAt none) oneC] ++ List.replicate 17 (.call 0) ++
    [.begin 0 (failingAt (some .brpop)) oneC, .call 0]

def failsAtOnce : List Action := [.spawn, .begin 0 (failingAt (some .brpop)) oneC]

def unbound : Consumer :=
  Consumer.begun anyConfig (failingAt (some .brpop)) oneC ⟨[], [], []⟩
    ⟨none, none, fun _ => none, pure .idle⟩

/-- Submission 1 is in the list again although it is judged, because of the key or because of the
stale id; and a `brpop` that fails at once ends the loop with an unbound variable. -/
theorem not_neverRequeuesOther :
    ¬ NeverRequeuesOther anyConfig (fun _ _ => True) ∧
      (∃ s, (system anyConfig).runUnder (fun _ _ => True) ⟨[], [], []⟩ judgedTwice = some s ∧
        s.jobs = [['1']] ∧ s.judged = [1]) ∧
      (∃ s, (system anyConfig).runUnder (fun _ _ => True) ⟨[], [], []⟩ staleId = some s ∧
        s.jobs = [['1']] ∧ s.judged = [1]) := by
  refine ⟨fun h => ?_, ⟨_, rfl, rfl, rfl⟩, ⟨_, rfl, rfl, rfl⟩⟩
  have hrun : (system anyConfig).runUnder (fun _ _ => True) ⟨[], [], []⟩ failsAtOnce =
      some ⟨[], [], [unbound]⟩ := rfl
  have hown := h.putsBackOwn _ ⟨_, rfl, System.path_of_runUnder hrun⟩ unbound
    (List.mem_singleton_self _)
  obtain ⟨step, hstep⟩ := hown.bound rfl
  simp only [unbound, Consumer.begun, failingAt] at hstep
  split at hstep <;> cases hstep

end ByteBattles.Judge.JudgeWorker.Requeue
