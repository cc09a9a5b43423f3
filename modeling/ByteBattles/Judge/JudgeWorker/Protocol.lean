import ByteBattles.Judge.JudgeWorker.Measurements
import ByteBattles.Judge.JudgeWorker.Requeue
import ByteBattles.Lib.Monitor

/-!
# The order of the calls

The calls that an iteration of the worker may make, one after the other, as a monitor:
which database session is open, what has been done with the container, and what may
follow a call that has raised.  Every iteration keeps to it, whatever it meets.
-/

namespace ByteBattles.Judge.JudgeWorker

open ByteBattles.Lib

/-! ## The protocol -/

/-- What has happened in an open database session. -/
inductive Transaction
  | working
  | committed
  /-- A call has raised an `Exception`. -/
  | failing
  /-- A call has raised a `KeyboardInterrupt`. -/
  | interrupted
  | rolledBack
  deriving DecidableEq, Repr

inductive Stage
  | found
  | fetched
  | copied
  | compiled
  | input (idx : Nat)
  | output (idx : Nat)
  | created (idx : Nat)
  | started (idx : Nat)
  | sent (idx : Nat)
  | received (idx : Nat)
  | closed (idx : Nat)
  | inspected (idx : Nat)
  /-- A call has raised. -/
  | unwinding
  deriving DecidableEq, Repr

inductive Phase
  | beat
  | pop
  | popped
  | keyed
  | session (db : Session) (t : Transaction)
  /-- The first session is over. -/
  | read
  | acquired (language : Language) (container_id : Str)
  | published (language : Language) (container_id : Str)
  | container (language : Language) (container_id : Str) (stage : Stage)
  /-- The body of the container's block has returned, and the container has been stopped. -/
  | judged
  /-- The second session is over. -/
  | stored
  /-- The `try` block has been left by an exception, and so have all context managers. -/
  | failed
  | pushed
  /-- Nothing was popped. -/
  | idle
  /-- The submission key has been deleted. -/
  | processed
  /-- The id has been pushed back. -/
  | retried
  /-- A call outside the `try` block has raised. -/
  | dead
  deriving DecidableEq, Repr

/-- `next` after a call that returns. -/
def ifReturns {α : Type} (next otherwise : α) : Option Exc → α
  | none => next
  | some _ => otherwise

def Transaction.raised (e : Exc) : Transaction := if e.isException then .failing else .interrupted

def Transaction.ifReturns (next : Transaction) : Option Exc → Transaction
  | none => next
  | some e => .raised e

def Stage.tested : Stage → Option Nat
  | .copied | .compiled => some 0
  | .inspected idx => some idx
  | _ => none

/-- The body may end here: it is done, or something other than a call has raised. -/
def Stage.mayEnd : Stage → Bool
  | .copied | .compiled | .input _ | .output _ | .inspected _ | .unwinding => true
  | _ => false

/-- A body that ends here has returned: what the compiler or the last run has left behind
could be read. -/
def Stage.returns (env : Environment) : Stage → Bool
  | .copied => true
  | .compiled => (compileResult env.compilation).isOk
  | .inspected idx => (measurements (env.execution idx).stderr 0 0).isOk
  | _ => false

/-- What a call that returns does inside the `with` block of the container. -/
def Stage.next (container_id : Str) : Stage → Call → Option Stage
  | .found, .readSubmissionCode _ => some .fetched
  | .fetched, .putArchive c _ _ => if c = container_id then some .copied else none
  | .copied, .execRun c _ _ => if c = container_id then some .compiled else none
  | stage, .readTestcaseInput idx _ =>
      if stage.tested.any fun n => n + 1 = idx then some (.input idx) else none
  | .input idx, .readTestcaseOutput idx' _ => if idx' = idx then some (.output idx) else none
  | .output idx, .execCreate idx' c _ =>
      if idx' = idx ∧ c = container_id then some (.created idx) else none
  | .created idx, .execStart idx' => if idx' = idx then some (.started idx) else none
  | .started idx, .sendall idx' _ => if idx' = idx then some (.sent idx) else none
  | .sent idx, .framesIter idx' => if idx' = idx then some (.received idx) else none
  | .received idx, .closeSocket idx' => if idx' = idx then some (.closed idx) else none
  | .closed idx, .execInspect idx' => if idx' = idx then some (.inspected idx) else none
  | _, _ => none

/-- A call inside the `with` block of the container, or the one that leaves it. -/
def containerCall (env : Environment) (language : Language) (container_id : Str) (stage : Stage)
    (c : Call) (e? : Option Exc) : Option Phase :=
  match c with
  | .stopContainer c =>
      if c = container_id ∧ stage.mayEnd = true then
        some (if stage.returns env = true then ifReturns .judged .failed e? else .failed)
      else none
  | c =>
      (stage.next container_id c).map fun next =>
        .container language container_id (ifReturns next .unwinding e?)

def Session.mayWrite (local? : Option Int) : Session → Option (Int × SubmissionResult) → Bool
  | .submission, none => true
  | .result, some (submission_id, r) => local? = some submission_id && r.verdict != .PENDING
  | _, _ => false

def sessionCall (local? : Option Int) (db : Session) : Transaction → Call → Option Exc →
    Option Phase
  | .working, .query db' _, e? =>
      if db' = db then some (.session db (Transaction.working.ifReturns e?)) else none
  | .working, .commit db' update, e? =>
      if db' = db ∧ db.mayWrite local? update = true then
        some (.session db (Transaction.committed.ifReturns e?)) else none
  | .working, .rollback db', _ | .failing, .rollback db', _ =>
      if db' = db then some (.session db .rolledBack) else none
  | .committed, .close db', e? =>
      if db' = db then
        some (ifReturns (match db with | .submission => .read | .result => .stored) .failed e?)
      else none
  | .rolledBack, .close db', _ | .interrupted, .close db', _ =>
      if db' = db then some .failed else none
  | _, _, _ => none

/-- The calls of an iteration that finds `payload` in the job list. -/
def protocol (env : Environment) (previous : Option Int) (payload : Option Str) :
    Monitor Phase Call Exc :=
  let local? := boundId env previous payload
  fun
  | .beat, .setHeartbeat, e? => some (ifReturns .pop .dead e?)
  | .pop, .brpop, e? => some (ifReturns (if payload.isSome then .popped else .idle) .failed e?)
  | .popped, .setSubmission submission_id, e? =>
      if local? = some submission_id then some (ifReturns .keyed .failed e?) else none
  | .keyed, .query .submission _, e? =>
      some (.session .submission (Transaction.working.ifReturns e?))
  | .session db t, c, e? => sessionCall local? db t c e?
  | .read, .acquireWarmSandbox language _, e? =>
      some (ifReturns ((env.sandbox.map (.acquired language)).getD .failed) .failed e?)
  | .acquired language container_id, .publishEvent submission_id language', e? =>
      if local? = some submission_id ∧ language' = language then
        some (ifReturns (.published language container_id) .failed e?)
      else none
  | .published language container_id, .getContainer container_id', e? =>
      if container_id' = container_id then
        some (ifReturns (.container language container_id .found) .failed e?)
      else none
  | .container language container_id stage, c, e? =>
      containerCall env language container_id stage c e?
  | .judged, .query .result _, e? => some (.session .result (Transaction.working.ifReturns e?))
  | .stored, .deleteSubmission submission_id, e? =>
      if local? = some submission_id then some (ifReturns .processed .failed e?) else none
  | .failed, .lpush submission_id, e? =>
      if local? = some submission_id then some (ifReturns .pushed .dead e?) else none
  | .pushed, .sleep, e? => some (ifReturns .retried .dead e?)
  | _, _, _ => none

/-! ## The protocol, call by call -/

section

variable {env : Environment} {previous : Option Int} {payload : Option Str} {db : Session}
  {t : Transaction} {c : Call} {l : Language} {container_id : Str} {stage : Stage}

theorem protocol_session (e? : Option Exc) :
    protocol env previous payload (.session db t) c e? =
      sessionCall (boundId env previous payload) db t c e? := rfl

theorem protocol_container (e? : Option Exc) :
    protocol env previous payload (.container l container_id stage) c e? =
      containerCall env l container_id stage c e? := rfl

theorem sessionCall_query {local? : Option Int} (table : Table) (e? : Option Exc) :
    sessionCall local? db .working (.query db table) e? =
      some (.session db (Transaction.working.ifReturns e?)) := if_pos rfl

theorem sessionCall_commit {local? : Option Int} {update : Option (Int × SubmissionResult)}
    (hupdate : db.mayWrite local? update = true) (e? : Option Exc) :
    sessionCall local? db .working (.commit db update) e? =
      some (.session db (Transaction.committed.ifReturns e?)) := if_pos ⟨rfl, hupdate⟩

theorem sessionCall_rollback {local? : Option Int} (ht : t = .working ∨ t = .failing)
    (e? : Option Exc) :
    sessionCall local? db t (.rollback db) e? = some (.session db .rolledBack) := by
  rcases ht with rfl | rfl <;> exact if_pos rfl

theorem sessionCall_close {local? : Option Int} (e? : Option Exc) :
    sessionCall local? db .committed (.close db) e? =
      some (ifReturns (match db with | .submission => .read | .result => .stored) .failed e?) :=
  if_pos rfl

theorem sessionCall_abandon {local? : Option Int} (ht : t = .rolledBack ∨ t = .interrupted)
    (e? : Option Exc) : sessionCall local? db t (.close db) e? = some .failed := by
  rcases ht with rfl | rfl <;> exact if_pos rfl

theorem containerCall_stop (hstage : stage.mayEnd = true) (e? : Option Exc) :
    containerCall env l container_id stage (.stopContainer container_id) e? =
      some (if stage.returns env = true then ifReturns .judged .failed e? else .failed) :=
  if_pos ⟨rfl, hstage⟩

theorem containerCall_of_next {next : Stage} (hnext : stage.next container_id c = some next)
    (e? : Option Exc) : containerCall env l container_id stage c e? =
      some (.container l container_id (ifReturns next .unwinding e?)) := by
  unfold containerCall
  split
  case h_1 => cases stage <;> cases hnext
  case h_2 => rw [hnext, Option.map_some]

end

/-! ## What one call can do -/

def Session.done : Session → Phase
  | .submission => .read
  | .result => .stored

inductive Advances (env : Environment) (previous : Option Int) (payload : Option Str) :
    Phase → Call → Option Exc → Phase → Prop
  | beat (e?) : Advances env previous payload .beat .setHeartbeat e? (ifReturns .pop .dead e?)
  | pop (e?) : Advances env previous payload .pop .brpop e?
      (ifReturns (if payload.isSome then .popped else .idle) .failed e?)
  | setKey {submission_id} (e?) (hlocal : boundId env previous payload = some submission_id) :
      Advances env previous payload .popped (.setSubmission submission_id) e?
        (ifReturns .keyed .failed e?)
  | enter {p db table} (e?) (hp : p = .keyed ∧ db = .submission ∨ p = .judged ∧ db = .result) :
      Advances env previous payload p (.query db table) e?
        (.session db (Transaction.working.ifReturns e?))
  | query {db table} (e?) : Advances env previous payload (.session db .working) (.query db table)
      e? (.session db (Transaction.working.ifReturns e?))
  | commit {db update} (e?)
      (hupdate : db.mayWrite (boundId env previous payload) update = true) :
      Advances env previous payload (.session db .working) (.commit db update) e?
        (.session db (Transaction.committed.ifReturns e?))
  | rollback {db t} (e?) (ht : t = .working ∨ t = .failing) :
      Advances env previous payload (.session db t) (.rollback db) e? (.session db .rolledBack)
  | close {db} (e?) : Advances env previous payload (.session db .committed) (.close db) e?
      (ifReturns db.done .failed e?)
  | abandon {db t} (e?) (ht : t = .rolledBack ∨ t = .interrupted) :
      Advances env previous payload (.session db t) (.close db) e? .failed
  | acquire {l timeout} (e?) : Advances env previous payload .read (.acquireWarmSandbox l timeout)
      e? (ifReturns ((env.sandbox.map (.acquired l)).getD .failed) .failed e?)
  | publish {l container_id submission_id} (e?)
      (hlocal : boundId env previous payload = some submission_id) :
      Advances env previous payload (.acquired l container_id) (.publishEvent submission_id l) e?
        (ifReturns (.published l container_id) .failed e?)
  | lookUp {l container_id} (e?) :
      Advances env previous payload (.published l container_id) (.getContainer container_id) e?
        (ifReturns (.container l container_id .found) .failed e?)
  | inside {l container_id stage c next} (e?)
      (hnext : Stage.next container_id stage c = some next) :
      Advances env previous payload (.container l container_id stage) c e?
        (.container l container_id (ifReturns next .unwinding e?))
  | stop {l container_id stage} (e?) : Advances env previous payload
      (.container l container_id stage) (.stopContainer container_id) e?
        (if stage.returns env = true then ifReturns .judged .failed e? else .failed)
  | deleteKey {submission_id} (e?)
      (hlocal : boundId env previous payload = some submission_id) :
      Advances env previous payload .stored (.deleteSubmission submission_id) e?
        (ifReturns .processed .failed e?)
  | push {submission_id} (e?) (hlocal : boundId env previous payload = some submission_id) :
      Advances env previous payload .failed (.lpush submission_id) e? (ifReturns .pushed .dead e?)
  | pause (e?) : Advances env previous payload .pushed .sleep e? (ifReturns .retried .dead e?)

section

variable {env : Environment} {previous : Option Int} {payload : Option Str} {p q : Phase}
  {c : Call} {e? : Option Exc}

theorem advances_of_sessionCall {db : Session} {t : Transaction}
    (h : sessionCall (boundId env previous payload) db t c e? = some q) :
    Advances env previous payload (.session db t) c e? q := by
  unfold sessionCall at h
  split at h
  case h_1 =>
    obtain ⟨rfl, hq⟩ := Option.ite_none_right_eq_some.mp h
    obtain rfl := Option.some.inj hq
    exact .query e?
  case h_2 =>
    obtain ⟨⟨rfl, hupdate⟩, hq⟩ := Option.ite_none_right_eq_some.mp h
    obtain rfl := Option.some.inj hq
    exact .commit e? hupdate
  case h_3 =>
    obtain ⟨rfl, hq⟩ := Option.ite_none_right_eq_some.mp h
    obtain rfl := Option.some.inj hq
    exact .rollback _ (.inl rfl)
  case h_4 =>
    obtain ⟨rfl, hq⟩ := Option.ite_none_right_eq_some.mp h
    obtain rfl := Option.some.inj hq
    exact .rollback _ (.inr rfl)
  case h_5 db' =>
    obtain ⟨rfl, hq⟩ := Option.ite_none_right_eq_some.mp h
    obtain rfl := Option.some.inj hq
    cases db' <;> exact .close e?
  case h_6 =>
    obtain ⟨rfl, hq⟩ := Option.ite_none_right_eq_some.mp h
    obtain rfl := Option.some.inj hq
    exact .abandon _ (.inl rfl)
  case h_7 =>
    obtain ⟨rfl, hq⟩ := Option.ite_none_right_eq_some.mp h
    obtain rfl := Option.some.inj hq
    exact .abandon _ (.inr rfl)
  case h_8 => cases h

theorem advances_of_containerCall {l : Language} {container_id : Str} {stage : Stage}
    (h : containerCall env l container_id stage c e? = some q) :
    Advances env previous payload (.container l container_id stage) c e? q := by
  unfold containerCall at h
  split at h
  case h_1 =>
    obtain ⟨⟨rfl, -⟩, hq⟩ := Option.ite_none_right_eq_some.mp h
    obtain rfl := Option.some.inj hq
    exact .stop e?
  case h_2 =>
    obtain ⟨next, hnext, rfl⟩ := Option.map_eq_some_iff.mp h
    exact .inside e? hnext

theorem advances_of_protocol (h : protocol env previous payload p c e? = some q) :
    Advances env previous payload p c e? q := by
  unfold protocol at h
  split at h
  case h_1 => cases h; exact .beat e?
  case h_2 => cases h; exact .pop e?
  case h_3 =>
    obtain ⟨hlocal, h⟩ := Option.ite_none_right_eq_some.mp h
    cases h
    exact .setKey e? hlocal
  case h_4 => cases h; exact .enter e? (.inl ⟨rfl, rfl⟩)
  case h_5 => exact advances_of_sessionCall h
  case h_6 => cases h; exact .acquire e?
  case h_7 =>
    obtain ⟨⟨hlocal, rfl⟩, h⟩ := Option.ite_none_right_eq_some.mp h
    cases h
    exact .publish e? hlocal
  case h_8 =>
    obtain ⟨rfl, h⟩ := Option.ite_none_right_eq_some.mp h
    cases h
    exact .lookUp e?
  case h_9 => exact advances_of_containerCall h
  case h_10 => cases h; exact .enter e? (.inr ⟨rfl, rfl⟩)
  case h_11 =>
    obtain ⟨hlocal, h⟩ := Option.ite_none_right_eq_some.mp h
    cases h
    exact .deleteKey e? hlocal
  case h_12 =>
    obtain ⟨hlocal, h⟩ := Option.ite_none_right_eq_some.mp h
    cases h
    exact .push e? hlocal
  case h_13 => cases h; exact .pause e?
  case h_14 => cases h

/-- The id that the call writes to Redis or to a row. -/
def Call.written : Call → Option Int
  | .setSubmission submission_id | .publishEvent submission_id _ | .deleteSubmission submission_id
  | .lpush submission_id => some submission_id
  | .commit _ update => update.map Prod.fst
  | _ => none

/-- Only the id of the iteration is written, and only once an item has been popped. -/
theorem Advances.bound_of_written {submission_id : Int}
    (h : Advances env previous payload p c e? q) (hc : c.written = some submission_id) :
    (p ≠ .beat ∧ p ≠ .pop ∧ p ≠ .dead) ∧ boundId env previous payload = some submission_id := by
  cases h with
  | setKey _ hlocal | deleteKey _ hlocal | publish _ hlocal | push _ hlocal =>
      obtain rfl := Option.some.inj hc
      exact ⟨by simp, hlocal⟩
  | @commit db update _ hupdate =>
      refine ⟨by simp, ?_⟩
      obtain ⟨update, rfl, rfl⟩ := Option.map_eq_some_iff.mp hc
      cases db with
      | submission => cases hupdate
      | result =>
          simp only [Session.mayWrite, Bool.and_eq_true, decide_eq_true_eq] at hupdate
          exact hupdate.1
  | @inside l container_id stage c next _ hnext =>
      cases c
      case setSubmission | publishEvent | deleteSubmission | lpush | commit =>
        cases stage <;> cases hnext
      all_goals cases hc
  | _ => cases hc

/-- The first two calls are the heartbeat and the `brpop`, and after `dead` there is none. -/
theorem Advances.of_beat (h : Advances env previous payload .beat c e? q) :
    c = .setHeartbeat ∧ q = ifReturns .pop .dead e? := by
  cases h with
  | beat => exact ⟨rfl, rfl⟩
  | enter _ hp => rcases hp with ⟨h, -⟩ | ⟨h, -⟩ <;> cases h

theorem Advances.of_pop (h : Advances env previous payload .pop c e? q) :
    c = .brpop ∧ q = ifReturns (if payload.isSome then .popped else .idle) .failed e? := by
  cases h with
  | pop => exact ⟨rfl, rfl⟩
  | enter _ hp => rcases hp with ⟨h, -⟩ | ⟨h, -⟩ <;> cases h

theorem Advances.not_dead : ¬ Advances env previous payload .dead c e? q := by
  intro h
  cases h with
  | enter _ hp => rcases hp with ⟨h, -⟩ | ⟨h, -⟩ <;> cases h

end

def Environment.raising (env : Environment) : Call → Option Exc := fun c => env.raises c.step

/-! ## The rules for the calls of the worker -/

section

variable {α : Type} {cfg : Config} {env : Environment} {db : Database} {previous : Option Int}
  {payload : Option Str} {p : Phase} {Q : α → Phase → Prop} {R : Exc → Phase → Prop}

abbrev Keeps (env : Environment) (previous : Option Int) (payload : Option Str) (p : Phase)
    (m : Run α) (Q : α → Phase → Prop) (R : Exc → Phase → Prop) : Prop :=
  (protocol env previous payload).Follows env.raising p m Q R

theorem keeps_call_bind {c : Call} {f : Unit → Run α}
    (hok : env.raises c.step = none → ∃ q, protocol env previous payload p c none = some q ∧
      Keeps env previous payload q (f ()) Q R)
    (herror : ∀ e, env.raises c.step = some e →
      ∃ q, protocol env previous payload p c (some e) = some q ∧ R e q) :
    Keeps env previous payload p (env.call c >>= f) Q R :=
  Monitor.follows_call_bind hok herror

theorem keeps_call {c : Call} {Q : Unit → Phase → Prop}
    (hok : env.raises c.step = none →
      ∃ q, protocol env previous payload p c none = some q ∧ Q () q)
    (herror : ∀ e, env.raises c.step = some e →
      ∃ q, protocol env previous payload p c (some e) = some q ∧ R e q) :
    Keeps env previous payload p (env.call c) Q R :=
  Monitor.follows_call hok herror

/-! ## Sessions -/

/-- Where the body of a session may raise. -/
def InSession (db : Session) (e : Exc) (q : Phase) : Prop :=
  q = .session db (.raised e) ∨ e.isException = true ∧ q = .session db .working

/-- The session can only be closed. -/
def Unwound (db : Session) (q : Phase) : Prop :=
  q = .session db .rolledBack ∨ q = .session db .interrupted

theorem keeps_rollbackAndRaise {db : Session} {e : Exc} (hp : InSession db e p) :
    Keeps env previous payload p (rollbackAndRaise env db e : Run α) Q
      (fun _ q => Unwound db q) := by
  unfold rollbackAndRaise
  split
  case isTrue he =>
    have hrollback (e? : Option Exc) : protocol env previous payload p (.rollback db) e? =
        some (.session db .rolledBack) := by
      rcases hp with rfl | ⟨-, rfl⟩
      · rw [protocol_session, Transaction.raised, if_pos he]
        exact sessionCall_rollback (.inr rfl) e?
      · rw [protocol_session]
        exact sessionCall_rollback (.inl rfl) e?
    exact keeps_call_bind (fun _ => ⟨_, hrollback _, Monitor.follows_raise (.inl rfl)⟩)
      fun _ _ => ⟨_, hrollback _, .inl rfl⟩
  case isFalse he =>
    apply Monitor.follows_raise
    rcases hp with rfl | ⟨he', -⟩
    · exact .inr (by simp [Transaction.raised, he])
    · exact absurd he' he

/-- A session is closed on every path. -/
theorem keeps_session {db : Session} {body : Run α} {update : α → Option (Int × SubmissionResult)}
    (hbody : Keeps env previous payload p body
      (fun a q => db.mayWrite (boundId env previous payload) (update a) = true ∧
        q = .session db .working) (InSession db)) :
    Keeps env previous payload p (session env db body update)
      (fun _ q => q = db.done) (fun _ q => q = .failed) := by
  have htry : Keeps env previous payload p
      ((do
        let a ← body
        env.call (.commit db (update a))
        return a : Run α).catching (rollbackAndRaise env db))
      (fun _ q => q = .session db .committed) (fun _ q => Unwound db q) := by
    apply Monitor.Follows.catching
    apply Monitor.Follows.bind
    refine hbody.mono ?_ fun e q hq => keeps_rollbackAndRaise hq
    rintro a q ⟨hupdate, rfl⟩
    refine keeps_call_bind (fun _ => ?_) fun e _ => ?_
    · exact ⟨_, sessionCall_commit hupdate none, Monitor.follows_pure rfl⟩
    · exact ⟨_, sessionCall_commit hupdate (some e), keeps_rollbackAndRaise (.inl rfl)⟩
  have hclose {q : Phase} (hq : Unwound db q) (e? : Option Exc) :
      protocol env previous payload q (.close db) e? = some .failed := by
    rcases hq with rfl | rfl
    · exact (protocol_session e?).trans (sessionCall_abandon (.inl rfl) e?)
    · exact (protocol_session e?).trans (sessionCall_abandon (.inr rfl) e?)
  apply Monitor.Follows.ensuring
  refine htry.mono ?_ fun e q hq => ?_
  · rintro a q rfl
    refine keeps_call (fun _ => ⟨db.done, ?_, rfl⟩) fun e _ => ⟨.failed, ?_, rfl⟩
    · rw [protocol_session, sessionCall_close]
      cases db <;> rfl
    · rw [protocol_session, sessionCall_close]
      rfl
  · exact keeps_call (fun _ => ⟨_, hclose hq _, rfl⟩) fun _ _ => ⟨_, hclose hq _, rfl⟩

/-- The queries of the first session. -/
theorem keeps_query {f : Unit → Run α} {db : Session} {table : Table} {Q : α → Phase → Prop}
    (hp : p = .session db .working ∨ db = .submission ∧ p = .keyed ∨ db = .result ∧ p = .judged)
    (hf : Keeps env previous payload (.session db .working) (f ()) Q (InSession db)) :
    Keeps env previous payload p (env.call (.query db table) >>= f) Q (InSession db) := by
  have hquery (e? : Option Exc) : protocol env previous payload p (.query db table) e? =
      some (.session db (Transaction.working.ifReturns e?)) := by
    rcases hp with rfl | ⟨rfl, rfl⟩ | ⟨rfl, rfl⟩
    · rw [protocol_session, sessionCall_query]
    · rfl
    · rfl
  exact keeps_call_bind (fun _ => ⟨_, hquery _, hf⟩) fun _ _ => ⟨_, hquery _, .inl rfl⟩

theorem keeps_readJob (submission_id : Int) :
    Keeps env previous payload .keyed (readJob env db submission_id)
      (fun _ q => q = .session .submission .working) (InSession .submission) := by
  apply Monitor.Follows.bind
  refine keeps_query (.inr (.inl ⟨rfl, rfl⟩)) ?_
  cases db.submissions submission_id with
  | none => exact Monitor.follows_raise (.inr ⟨rfl, rfl⟩)
  | some submission =>
      apply Monitor.follows_pure
      apply Monitor.Follows.bind
      refine keeps_query (.inl rfl) ?_
      apply Monitor.follows_pure
      apply Monitor.Follows.bind
      refine keeps_query (.inl rfl) ?_
      cases db.problems submission.problem_id with
      | none => exact Monitor.follows_raise (.inr ⟨rfl, rfl⟩)
      | some problem => exact Monitor.follows_pure (Monitor.follows_pure rfl)

theorem keeps_updateSubmissionResult {submission_id : Int} {result : SubmissionResult}
    (hlocal : boundId env previous payload = some submission_id)
    (hrow : (db.submissions submission_id).isSome = true) (hresult : result.verdict ≠ .PENDING) :
    Keeps env previous payload .judged (updateSubmissionResult env db submission_id result)
      (fun _ q => q = .stored) (fun _ q => q = .failed) := by
  apply keeps_session
  refine keeps_query (.inr (.inr ⟨rfl, rfl⟩)) (Monitor.follows_pure ⟨?_, rfl⟩)
  simp [hrow, hlocal, hresult, Session.mayWrite]

/-! ## The container -/

variable {language : Language} {container_id : Str} {stage : Stage}

def Unwinds (env : Environment) (language : Language) (container_id : Str) (q : Phase) : Prop :=
  ∃ stage : Stage, stage.mayEnd = true ∧ stage.returns env = false ∧
    q = .container language container_id stage

def Tested (env : Environment) (language : Language) (container_id : Str) (q : Phase) : Prop :=
  ∃ stage : Stage, stage.tested.isSome = true ∧ stage.returns env = true ∧
    q = .container language container_id stage

theorem mayEnd_of_tested (h : stage.tested.isSome = true) : stage.mayEnd = true := by
  cases stage <;> first | rfl | cases h

theorem unwinds_unwinding : Unwinds env language container_id
    (.container language container_id .unwinding) := ⟨.unwinding, rfl, rfl, rfl⟩

theorem keeps_in_container {c : Call} (next : Stage) {f : Unit → Run α}
    (hnext : stage.next container_id c = some next)
    (hf : Keeps env previous payload (.container language container_id next) (f ()) Q
      fun _ q => Unwinds env language container_id q) :
    Keeps env previous payload (.container language container_id stage) (env.call c >>= f) Q
      fun _ q => Unwinds env language container_id q := by
  have hcall (e? : Option Exc) :
      protocol env previous payload (.container language container_id stage) c e? =
        some (.container language container_id (ifReturns next .unwinding e?)) :=
    containerCall_of_next hnext e?
  exact keeps_call_bind (fun _ => ⟨_, hcall _, hf⟩) fun _ _ => ⟨_, hcall _, unwinds_unwinding⟩

theorem keeps_ofExcept_bind {β : Type} {r : Except Exc β} {f : β → Run α}
    (hstage : stage.mayEnd = true) (hraises : stage.returns env = false)
    (hf : ∀ a, r = .ok a → Keeps env previous payload (.container language container_id stage)
      (f a) Q fun _ q => Unwinds env language container_id q) :
    Keeps env previous payload (.container language container_id stage) (Traced.ofExcept r >>= f)
      Q fun _ q => Unwinds env language container_id q := by
  apply Monitor.Follows.bind
  apply Monitor.follows_ofExcept
  cases r with
  | ok a => exact hf a rfl
  | error e => exact ⟨stage, hstage, hraises, rfl⟩

/-- Whether a run returns depends on what it has printed only. -/
theorem isOk_runResult (session : ExecSession) (expected_output : Str)
    (time_limit_sec memory_limit_kb : Int) :
    (measurements session.stderr 0 0).isOk =
      (runResult session expected_output time_limit_sec memory_limit_kb).isOk := by
  have hiff : (∃ m, measurements session.stderr 0 0 = .ok m) ↔
      ∃ r, runResult session expected_output time_limit_sec memory_limit_kb = .ok r := by
    rw [isOk_measurements_iff,
      ← @isOk_measurements_iff session.stderr time_limit_sec memory_limit_kb]
    simp only [runResult_eq_ok_iff]
    constructor
    · rintro ⟨m, hm⟩
      exact ⟨_, m, hm, rfl⟩
    · rintro ⟨_, m, hm, -⟩
      exact ⟨m, hm⟩
  cases hm : measurements session.stderr 0 0 with
  | ok m =>
      obtain ⟨r, hr⟩ := hiff.mp ⟨m, hm⟩
      rw [hr]
      rfl
  | error e =>
      cases hr : runResult session expected_output time_limit_sec memory_limit_kb with
      | error e => rfl
      | ok r =>
          obtain ⟨m, hm'⟩ := hiff.mpr ⟨r, hr⟩
          rw [hm] at hm'
          cases hm'

def Ran (env : Environment) (language : Language) (container_id : Str) (idx : Nat) (q : Phase) :
    Prop :=
  Stage.returns env (.inspected idx) = true ∧ q = .container language container_id (.inspected idx)

theorem keeps_runProgram (idx : Nat) (path input_data expected_output : Str)
    (time_limit_sec memory_limit_kb : Int) :
    Keeps env previous payload (.container language container_id (.output idx))
      (runProgram env idx container_id language path input_data expected_output time_limit_sec
        memory_limit_kb)
      (fun _ q => Ran env language container_id idx q)
      fun _ q => Unwinds env language container_id q := by
  unfold runProgram
  refine keeps_in_container (.created idx) (if_pos ⟨rfl, rfl⟩) ?_
  refine keeps_in_container (.started idx) (if_pos rfl) ?_
  refine keeps_in_container (.sent idx) (if_pos rfl) ?_
  refine keeps_in_container (.received idx) (if_pos rfl) ?_
  refine keeps_in_container (.closed idx) (if_pos rfl) ?_
  refine keeps_in_container (.inspected idx) (if_pos rfl) ?_
  apply Monitor.follows_ofExcept
  have hreturns :=
    isOk_runResult (env.execution idx) expected_output time_limit_sec memory_limit_kb
  cases hrun : runResult (env.execution idx) expected_output time_limit_sec memory_limit_kb with
  | ok r =>
      rw [hrun] at hreturns
      exact ⟨hreturns, rfl⟩
  | error e =>
      rw [hrun] at hreturns
      exact ⟨.inspected idx, rfl, hreturns, rfl⟩

theorem keeps_runTestcase {sandbox : Sandbox} (hcontainer : sandbox.container = container_id)
    (hlanguage : sandbox.language = language) {n : Nat} (hstage : stage.tested = some n)
    (testcase : TestCase) :
    Keeps env previous payload (.container language container_id stage)
      (runTestcase env sandbox (n + 1) testcase)
      (fun _ q => Ran env language container_id (n + 1) q)
      fun _ q => Unwinds env language container_id q := by
  unfold runTestcase
  refine keeps_in_container (.input (n + 1)) ?_ ?_
  · cases stage <;> simp_all [Stage.next, Stage.tested]
  refine keeps_ofExcept_bind rfl rfl fun input_data _ => ?_
  refine keeps_in_container (.output (n + 1)) (if_pos rfl) ?_
  refine keeps_ofExcept_bind rfl rfl fun expected_output _ => ?_
  rw [hcontainer, hlanguage]
  exact keeps_runProgram _ _ _ _ _ _

def Judged.Explains (j : Judged) : Prop :=
  j.final_verdict = .ACCEPTED ∨ j.first_failure.isSome = true

theorem keeps_judgeTestcases (sandbox : Sandbox) (hcontainer : sandbox.container = container_id)
    (hlanguage : sandbox.language = language) {n : Nat} (hstage : stage.tested = some n)
    (hreturns : stage.returns env = true) (max_runtime_ms max_memory_used_kb : Int)
    (testcases : List TestCase) :
    Keeps env previous payload (.container language container_id stage)
      (judgeTestcases env sandbox (n + 1) max_runtime_ms max_memory_used_kb testcases)
      (fun j q => j.Explains ∧ Tested env language container_id q)
      fun _ q => Unwinds env language container_id q := by
  induction testcases generalizing n stage max_runtime_ms max_memory_used_kb with
  | nil =>
      exact Monitor.follows_pure ⟨.inl rfl, stage, by rw [hstage]; rfl, hreturns, rfl⟩
  | cons testcase testcases ih =>
      apply Monitor.Follows.bind
      refine (keeps_runTestcase hcontainer hlanguage hstage testcase).mono ?_ fun _ _ hq => hq
      rintro run_result _ ⟨hran, rfl⟩
      dsimp only
      split
      case isTrue => exact ih rfl hran _ _
      case isFalse => exact Monitor.follows_pure ⟨.inr rfl, .inspected (n + 1), rfl, hran, rfl⟩

def Ready (env : Environment) (language : Language) (container_id : Str) (q : Phase) : Prop :=
  ∃ stage : Stage, stage.tested = some 0 ∧ stage.returns env = true ∧
    q = .container language container_id stage

/-- Only a compiled language compiles. -/
theorem keeps_compile (result : SubmissionResult) :
    Keeps env previous payload (.container language container_id .copied)
      (compile cfg env container_id language result)
      (fun _ q => Ready env language container_id q)
      fun _ q => Unwinds env language container_id q := by
  have hcompiled (line : Str) :
      Keeps env previous payload (.container language container_id .copied)
        (do return result.compiled (← compileWith cfg env container_id line))
        (fun _ q => Ready env language container_id q)
        fun _ q => Unwinds env language container_id q := by
    apply Monitor.Follows.bind
    unfold compileWith
    refine keeps_in_container .compiled (if_pos rfl) ?_
    apply Monitor.follows_ofExcept
    have hreturns : Stage.returns env .compiled = (compileResult env.compilation).isOk := rfl
    cases hcompile : compileResult env.compilation with
    | ok r =>
        rw [hcompile] at hreturns
        exact Monitor.follows_pure ⟨.compiled, rfl, hreturns, rfl⟩
    | error e =>
        rw [hcompile] at hreturns
        exact ⟨.compiled, rfl, hreturns, rfl⟩
  cases language with
  | PYTHON => exact Monitor.follows_pure ⟨.copied, rfl, rfl, rfl⟩
  | C => exact hcompiled _
  | CPP => exact hcompiled _

theorem keeps_judge (submission_id : Int) (job : Job)
    (hlanguage : job.submission.language = language) :
    Keeps env previous payload (.container language container_id .found)
      (judge cfg env submission_id job container_id)
      (fun _ q => Tested env language container_id q)
      fun _ q => Unwinds env language container_id q := by
  subst hlanguage
  unfold judge
  refine keeps_in_container .fetched rfl ?_
  refine keeps_in_container .copied (if_pos rfl) ?_
  apply Monitor.Follows.bind
  refine (keeps_compile _).mono ?_ fun _ _ hq => hq
  rintro result _ ⟨stage, hstage, hreturns, rfl⟩
  split
  case isTrue =>
    apply Monitor.Follows.bind
    refine (keeps_judgeTestcases ⟨_, _, _, _⟩ rfl rfl hstage hreturns 0 0 _).mono ?_
      fun _ _ hq => hq
    rintro j q ⟨hexplains, hq⟩
    apply Monitor.follows_ofExcept
    unfold SubmissionResult.judged
    dsimp only
    split
    case isFalse => exact hq
    case isTrue hrejected =>
      obtain ⟨failure, hfailure⟩ :=
        Option.isSome_iff_exists.mp (hexplains.resolve_left hrejected)
      rw [hfailure]
      exact hq
  case isFalse => exact Monitor.follows_pure ⟨stage, by rw [hstage]; rfl, hreturns, rfl⟩

/-- The container is stopped on every path. -/
theorem keeps_getContainer {body : Run α}
    (hbody : Keeps env previous payload (.container language container_id .found) body
      (fun _ q => Tested env language container_id q)
      fun _ q => Unwinds env language container_id q) :
    Keeps env previous payload (.published language container_id)
      (getContainer env container_id body)
      (fun _ q => q = .judged) (fun _ q => q = .failed) := by
  have hlookup : Keeps env previous payload (.published language container_id)
      ((env.call (.getContainer container_id)).catching (lookupFailed container_id))
      (fun _ q => q = .container language container_id .found) (fun _ q => q = .failed) := by
    apply Monitor.Follows.catching
    refine keeps_call (fun _ => ⟨_, ?_, rfl⟩) fun e _ => ⟨.failed, ?_, ?_⟩
    · exact if_pos rfl
    · exact if_pos rfl
    · unfold lookupFailed
      split <;> exact Monitor.follows_raise rfl
  have hstop {stage : Stage} (hstage : stage.mayEnd = true) (e? : Option Exc) :
      protocol env previous payload (.container language container_id stage)
        (.stopContainer container_id) e? =
        some (if stage.returns env = true then ifReturns .judged .failed e? else .failed) := by
    rw [protocol_container, containerCall_stop hstage]
  apply Monitor.Follows.bind
  refine hlookup.mono ?_ fun _ _ hq => hq
  rintro _ q rfl
  apply Monitor.Follows.ensuring
  refine hbody.mono (fun _ q hq => ?_) fun e q hq => ?_
  · obtain ⟨stage, hstage, hreturns, rfl⟩ := hq
    refine keeps_call (fun _ => ⟨_, hstop (mayEnd_of_tested hstage) _, if_pos hreturns⟩)
      fun e _ => ⟨_, hstop (mayEnd_of_tested hstage) _, if_pos hreturns⟩
  · obtain ⟨stage, hstage, hraises, rfl⟩ := hq
    have hfailed : ¬ stage.returns env = true := by simp [hraises]
    exact keeps_call (fun _ => ⟨_, hstop hstage _, if_neg hfailed⟩)
      fun e _ => ⟨_, hstop hstage _, if_neg hfailed⟩

/-! ## The iteration -/

theorem keeps_judgeSubmission {submission_id : Int}
    (hlocal : boundId env previous payload = some submission_id) :
    Keeps env previous payload .keyed (judgeSubmission cfg env db submission_id)
      (fun _ q => q = .judged) (fun _ q => q = .failed) := by
  apply Monitor.Follows.bind
  refine (keeps_session ((keeps_readJob submission_id).mono (fun _ _ hq => ⟨rfl, hq⟩)
    fun _ _ hq => hq)).mono ?_ fun _ _ hq => hq
  rintro job _ rfl
  refine keeps_call_bind (fun _ => ⟨_, rfl, ?_⟩) fun e _ => ⟨_, rfl, rfl⟩
  cases hsandbox : env.sandbox with
  | none => exact Monitor.follows_raise rfl
  | some container_id =>
      refine keeps_call_bind
        (fun _ => ⟨.published job.submission.language container_id, ?_, ?_⟩)
        fun e _ => ⟨.failed, ?_, rfl⟩
      · exact if_pos ⟨hlocal, rfl⟩
      · exact keeps_getContainer (keeps_judge submission_id job rfl)
      · exact if_pos ⟨hlocal, rfl⟩

theorem keeps_processSubmission {submission_id : Int}
    (hlocal : boundId env previous payload = some submission_id) :
    Keeps env previous payload .keyed (processSubmission cfg env db submission_id)
      (fun _ q => q = .stored) (fun _ q => q = .failed) := by
  apply Monitor.Follows.bind
  have hreturns := (@returns_judgeSubmission cfg env submission_id db).and
    (@Requeue.returns_judgeSubmission_rows cfg env db submission_id)
  refine ((keeps_judgeSubmission hlocal).and_returns hreturns).mono ?_ fun _ _ hq => hq
  rintro result _ ⟨⟨hverdict, submission, problem, hrow, -⟩, rfl⟩
  apply Monitor.Follows.bind
  refine (keeps_updateSubmissionResult hlocal (by rw [hrow]; rfl) hverdict).mono ?_
    fun _ _ hq => hq
  rintro _ _ rfl
  exact Monitor.follows_pure rfl

/-- Where the `try` block may raise: at `popped`, an item that is no number. -/
def LeavesTry (e : Exc) (q : Phase) : Prop :=
  q = .failed ∨ q = .popped ∧ e.isValueError = true

/-- Where an iteration may end. -/
def Finished : Outcome → Phase → Prop
  | .idle, q => q = .idle
  | .processed _, q => q = .processed
  | .retried _, q => q = .retried
  | .shutdown, q => q = .failed
  | .dropped e, q => LeavesTry e q

theorem keeps_tryBlock :
    Keeps env previous payload .pop (tryBlock cfg env db payload) Finished LeavesTry := by
  unfold tryBlock
  refine keeps_call_bind (fun hbrpop => ?_) fun e _ => ⟨.failed, rfl, .inl rfl⟩
  cases payload with
  | none => exact ⟨.idle, rfl, Monitor.follows_pure rfl⟩
  | some payload =>
      refine ⟨.popped, rfl, ?_⟩
      apply Monitor.Follows.bind
      apply Monitor.follows_ofExcept
      cases hint : PyNumber.int payload with
      | none => simp [intOf, hint, Monitor.Ends, LeavesTry, Exc.isValueError]
      | some submission_id =>
          have hlocal : boundId env previous (some payload) = some submission_id := by
            simp [boundId, show env.raises .brpop = none from hbrpop, hint]
          simp only [intOf, hint, Monitor.Ends]
          refine keeps_call_bind (fun _ => ⟨.keyed, ?_, ?_⟩) fun e _ => ⟨.failed, ?_, ?_⟩
          · exact if_pos hlocal
          · apply Monitor.Follows.bind
            refine (keeps_processSubmission hlocal).mono ?_ fun e q hq => .inl hq
            rintro result _ rfl
            exact keeps_call_bind
              (fun _ => ⟨.processed, if_pos hlocal, Monitor.follows_pure rfl⟩)
              fun e _ => ⟨.failed, if_pos hlocal, .inl rfl⟩
          · exact if_pos hlocal
          · exact .inl rfl

theorem keeps_handle {e : Exc} (hp : LeavesTry e p) :
    Keeps env previous payload p (handle env (boundId env previous payload) e) Finished
      fun _ q => q = .failed ∨ q = .dead := by
  by_cases hinterrupt : e = .keyboardInterrupt
  · subst hinterrupt
    rw [handle_keyboardInterrupt]
    refine Monitor.follows_pure (hp.resolve_right fun hpopped => ?_)
    cases hpopped.2
  cases hvalue : e.isValueError with
  | true =>
      rw [handle_valueError hvalue]
      exact Monitor.follows_pure hp
  | false =>
      obtain rfl := hp.resolve_right fun hpopped => by simp [hvalue] at hpopped
      cases hlocal : boundId env previous payload with
      | none =>
          simp only [handle, if_neg hinterrupt, hvalue]
          exact Monitor.follows_raise (.inl rfl)
      | some submission_id =>
          have hlpush (e? : Option Exc) : protocol env previous payload .failed
              (.lpush submission_id) e? = some (ifReturns .pushed .dead e?) := if_pos hlocal
          rw [handle_failure hinterrupt hvalue]
          refine keeps_call_bind (fun _ => ⟨_, hlpush _, ?_⟩) fun e _ => ⟨_, hlpush _, .inr rfl⟩
          exact keeps_call_bind (fun _ => ⟨.retried, rfl, Monitor.follows_pure rfl⟩)
            fun e _ => ⟨.dead, rfl, .inr rfl⟩

theorem keeps_consume (cfg : Config) :
    Keeps env previous payload .beat (consume cfg env db previous payload) Finished
      fun _ q => q = .failed ∨ q = .dead := by
  unfold consume
  refine keeps_call_bind (fun _ => ⟨.pop, rfl, ?_⟩) fun e _ => ⟨.dead, rfl, .inr rfl⟩
  apply Monitor.Follows.catching
  exact keeps_tryBlock.mono (fun _ _ hq => hq) fun _ _ hq => keeps_handle hq

theorem keeps_run (cfg : Config) (env : Environment) (w : World) :
    Keeps env w.submission_id w.jobs.getLast? .beat (w.run cfg env) Finished
      fun _ q => q = .failed ∨ q = .dead := keeps_consume cfg

/-- **Every iteration keeps to the protocol**, whatever it reads, finds and meets. -/
theorem iteration_keeps_protocol (cfg : Config) (env : Environment) (w : World) :
    ∃ q, (protocol env w.submission_id w.jobs.getLast?).run env.raising .beat
        (w.run cfg env).calls = some q ∧
      match (w.run cfg env).result with
      | .ok outcome => Finished outcome q
      | .error _ => q = .failed ∨ q = .dead := by
  obtain ⟨q, hrun, hends⟩ := keeps_run cfg env w
  refine ⟨q, hrun, ?_⟩
  cases hresult : (w.run cfg env).result with
  | ok outcome =>
      rw [hresult] at hends
      exact hends
  | error e =>
      rw [hresult] at hends
      exact hends

end

end ByteBattles.Judge.JudgeWorker
