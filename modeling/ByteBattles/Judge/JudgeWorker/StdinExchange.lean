import ByteBattles.Lib.StdioProgram
import ByteBattles.Lib.Transition

/-!
# The exchange of `run_program` with the executed program

`JudgeExecutor.run_program` sends the whole input with `sendall`, then reads
frames until the stream ends, then closes the socket.  Both directions are
bounded.  The write side of the socket is never shut down, so the program sees an
end of its input only after `close`.
-/

namespace ByteBattles.Judge.JudgeWorker.StdinExchange

open ByteBattles.Lib

/-- The capacities of the two directions of the exec session. -/
structure Channels where
  stdin : Nat
  stdout : Nat
  stdin_pos : 0 < stdin
  stdout_pos : 0 < stdout

/-- The position of the executor in `run_program`. -/
inductive Executor
  | sendall (rest : List Byte)
  | frames_iter
  | closed
  deriving DecidableEq

def Executor.unsent : Executor → List Byte
  | sendall rest => rest
  | _ => []

structure State where
  executor : Executor
  stdin : List Byte
  program : Program
  /-- What the current read of the program has got so far. -/
  got : List Byte
  stdout : List Byte
  stdout_chunks : List Byte

inductive Action
  | send
  | sent
  | receive
  | close
  | take
  | put
  | finish
  deriving DecidableEq, Repr

def start (input : List Byte) (program : Program) : State where
  executor := .sendall input
  stdin := []
  program := program
  got := []
  stdout := []
  stdout_chunks := []

/-- The end of the input is signalled by `sock.close()` only. -/
def State.atEnd (s : State) : Prop := s.executor = .closed ∧ s.stdin = []

instance (s : State) : Decidable s.atEnd := inferInstanceAs (Decidable (_ ∧ _))

def State.proceed (s : State) (next : Program) : State :=
  { s with program := next, got := [] }

def step (c : Channels) (s : State) : Action → Option State
  | .send =>
      match s.executor with
      | .sendall (b :: rest) =>
          -- what is sent to a program that has exited is discarded
          if s.program.isExit then some { s with executor := .sendall rest }
          else if s.stdin.length < c.stdin then
            some { s with executor := .sendall rest, stdin := s.stdin ++ [b] }
          else none
      | _ => none
  | .sent =>
      match s.executor with
      | .sendall [] => some { s with executor := .frames_iter }
      | _ => none
  | .receive =>
      match s.executor, s.stdout with
      | .frames_iter, b :: out =>
          some { s with stdout := out, stdout_chunks := s.stdout_chunks ++ [b] }
      | _, _ => none
  | .close =>
      match s.executor, s.stdout, s.program with
      | .frames_iter, [], .exit => some { s with executor := .closed }
      | _, _, _ => none
  | .take =>
      match s.program, s.stdin with
      | .read k _, b :: rest =>
          if s.got.length < k then some { s with stdin := rest, got := s.got ++ [b] } else none
      | .readToEnd _, b :: rest => some { s with stdin := rest, got := s.got ++ [b] }
      | _, _ => none
  | .put =>
      match s.program with
      | .write (b :: bytes) next =>
          if s.stdout.length < c.stdout then
            some { s with program := .write bytes next, stdout := s.stdout ++ [b] }
          else none
      | _ => none
  | .finish =>
      match s.program with
      | .read k next =>
          if k ≤ s.got.length ∨ s.atEnd then some (s.proceed (next s.got)) else none
      | .readToEnd next => if s.atEnd then some (s.proceed (next s.got)) else none
      | .write [] next => some (s.proceed next)
      | _ => none

def system (c : Channels) (input : List Byte) (program : Program) : System State Action where
  init := fun s => s = start input program
  step := step c

/-! ## Deadlock -/

def State.SendBlocked (c : Channels) (s : State) : Prop :=
  s.executor.unsent ≠ [] ∧ c.stdin ≤ s.stdin.length

def State.AwaitsOutput (s : State) : Prop := s.executor = .frames_iter ∧ s.stdout = []

def State.WriteBlocked (c : Channels) (s : State) : Prop :=
  s.program.writes = true ∧ c.stdout ≤ s.stdout.length

def State.AwaitsInput (s : State) : Prop :=
  s.stdin = [] ∧ s.program.wants s.got.length = true

instance (c : Channels) (s : State) : Decidable (s.SendBlocked c) :=
  inferInstanceAs (Decidable (_ ∧ _))

instance (s : State) : Decidable s.AwaitsOutput := inferInstanceAs (Decidable (_ ∧ _))

instance (c : Channels) (s : State) : Decidable (s.WriteBlocked c) :=
  inferInstanceAs (Decidable (_ ∧ _))

instance (s : State) : Decidable s.AwaitsInput := inferInstanceAs (Decidable (_ ∧ _))

def State.Deadlock (c : Channels) (s : State) : Prop :=
  s.SendBlocked c ∧ s.WriteBlocked c ∨ s.AwaitsOutput ∧ s.AwaitsInput

instance (c : Channels) (s : State) : Decidable (s.Deadlock c) :=
  inferInstanceAs (Decidable (_ ∨ _))

def NeverBlocks (c : Channels) (input : List Byte) (program : Program) : Prop :=
  ∀ s, (system c input program).Reachable s → ¬ s.Deadlock c

/-! ## Two deadlocks -/

def buffers : Channels := ⟨65536, 65536, by decide, by decide⟩

/-- A program that reads all of its input, then prints. -/
def slurp : Program := .readToEnd fun _ => .write [52, 50] .exit

/-- `sendall` returns, the program reads everything and waits for the end. -/
def slurpRun : List Action := [.send, .send, .sent, .take, .take]

def narrow : Channels := ⟨1, 1, by decide, by decide⟩

def eager : Program := .write [52, 50] (.read 3 fun _ => .exit)

/-- Both directions are full. -/
def eagerRun : List Action := [.send, .put]

theorem not_neverBlocks :
    (∃ s, (system buffers [49, 10] slurp).Reachable s ∧ s.AwaitsOutput ∧ s.AwaitsInput) ∧
    (∃ s, (system narrow [49, 50, 10] eager).Reachable s ∧
      s.SendBlocked narrow ∧ s.WriteBlocked narrow) ∧
    ¬ ∀ c input program, NeverBlocks c input program := by
  obtain ⟨s, hs, hd⟩ := System.exists_path (system buffers [49, 10] slurp) (fun _ _ => True)
    (start [49, 10] slurp) slurpRun (fun s => s.AwaitsOutput ∧ s.AwaitsInput) (by decide)
  obtain ⟨t, ht, he⟩ := System.exists_path (system narrow [49, 50, 10] eager) (fun _ _ => True)
    (start [49, 50, 10] eager) eagerRun
    (fun t => t.SendBlocked narrow ∧ t.WriteBlocked narrow) (by decide)
  refine ⟨⟨s, ⟨_, rfl, hs⟩, hd⟩, ⟨t, ⟨_, rfl, ht⟩, he⟩, fun hall => ?_⟩
  exact hall _ _ _ s ⟨_, rfl, hs⟩ (.inr hd)

/-! ## When the exchange flows

The condition follows the program along its run with the input as a file: `unread`
is what it has not read, `written` how much it has written.
-/

/-- The program never reads to the end of its input or past it, and whenever it
writes, its whole output so far fits into the channel or its unread input does. -/
def Flows (c : Channels) : Program → List Byte → Nat → Prop
  | .exit, _, _ => True
  | .read k next, unread, written =>
      k ≤ unread.length ∧ Flows c (next (unread.take k)) (unread.drop k) written
  | .readToEnd _, _, _ => False
  | .write bytes next, unread, written =>
      (written + bytes.length ≤ c.stdout ∨ unread.length ≤ c.stdin) ∧
        Flows c next unread (written + bytes.length)

def State.unread (s : State) : List Byte := s.got ++ s.stdin ++ s.executor.unsent

def State.written (s : State) : Nat := s.stdout_chunks.length + s.stdout.length

def State.Flows (c : Channels) (s : State) : Prop :=
  StdinExchange.Flows c s.program s.unread s.written

/-! ## What one step does -/

inductive Move (c : Channels) (s : State) : State → Prop
  | discard (b : Byte) (rest : List Byte) :
      s.executor = .sendall (b :: rest) → s.program = .exit →
      Move c s { s with executor := .sendall rest }
  | send (b : Byte) (rest : List Byte) :
      s.executor = .sendall (b :: rest) → s.stdin.length < c.stdin →
      Move c s { s with executor := .sendall rest, stdin := s.stdin ++ [b] }
  | sent : s.executor = .sendall [] → Move c s { s with executor := .frames_iter }
  | receive (b : Byte) (out : List Byte) :
      s.executor = .frames_iter → s.stdout = b :: out →
      Move c s { s with stdout := out, stdout_chunks := s.stdout_chunks ++ [b] }
  | close : s.executor = .frames_iter → s.program = .exit →
      Move c s { s with executor := .closed }
  | take (b : Byte) (rest : List Byte) :
      s.program.wants s.got.length = true → s.stdin = b :: rest →
      Move c s { s with stdin := rest, got := s.got ++ [b] }
  | put (b : Byte) (bytes : List Byte) (next : Program) :
      s.program = .write (b :: bytes) next → s.stdout.length < c.stdout →
      Move c s { s with program := .write bytes next, stdout := s.stdout ++ [b] }
  | read (k : Nat) (next : List Byte → Program) :
      s.program = .read k next → k ≤ s.got.length ∨ s.atEnd → Move c s (s.proceed (next s.got))
  | readToEnd (next : List Byte → Program) :
      s.program = .readToEnd next → s.atEnd → Move c s (s.proceed (next s.got))
  | wrote (next : Program) : s.program = .write [] next → Move c s (s.proceed next)

theorem move_of_step {c : Channels} {s t : State} {a : Action} (h : step c s a = some t) :
    Move c s t := by
  cases a with
  | send =>
      simp only [step] at h
      split at h
      case h_1 b rest hex =>
        split at h
        case isTrue hexit =>
          obtain rfl := Option.some.inj h
          exact .discard b rest hex (Program.eq_exit hexit)
        case isFalse =>
          split at h
          case isTrue hroom =>
            obtain rfl := Option.some.inj h
            exact .send b rest hex hroom
          case isFalse => cases h
      case h_2 => cases h
  | sent =>
      simp only [step] at h
      split at h
      case h_1 hex =>
        obtain rfl := Option.some.inj h
        exact .sent hex
      case h_2 => cases h
  | receive =>
      simp only [step] at h
      split at h
      case h_1 b out hex hout =>
        obtain rfl := Option.some.inj h
        exact .receive b out hex hout
      case h_2 => cases h
  | close =>
      simp only [step] at h
      split at h
      case h_1 hex _ hprog =>
        obtain rfl := Option.some.inj h
        exact .close hex hprog
      case h_2 => cases h
  | take =>
      simp only [step] at h
      split at h
      case h_1 k next b rest hprog hin =>
        split at h
        case isTrue hlt =>
          obtain rfl := Option.some.inj h
          exact .take b rest (by simpa [hprog, Program.wants] using hlt) hin
        case isFalse => cases h
      case h_2 next b rest hprog hin =>
        obtain rfl := Option.some.inj h
        exact .take b rest (by simp [hprog, Program.wants]) hin
      case h_3 => cases h
  | put =>
      simp only [step] at h
      split at h
      case h_1 b bytes next hprog =>
        split at h
        case isTrue hroom =>
          obtain rfl := Option.some.inj h
          exact .put b bytes next hprog hroom
        case isFalse => cases h
      case h_2 => cases h
  | finish =>
      simp only [step] at h
      split at h
      case h_1 k next hprog =>
        split at h
        case isTrue hdone =>
          obtain rfl := Option.some.inj h
          exact .read k next hprog hdone
        case isFalse => cases h
      case h_2 next hprog =>
        split at h
        case isTrue hend =>
          obtain rfl := Option.some.inj h
          exact .readToEnd next hprog hend
        case isFalse => cases h
      case h_3 next hprog =>
        obtain rfl := Option.some.inj h
        exact .wrote next hprog
      case h_4 => cases h

/-! ## The invariant -/

/-- `n` bytes may have been read by an operation that has not returned. -/
def Partial (n : Nat) : Program → Prop
  | .read k _ => n ≤ k
  | .readToEnd _ => True
  | _ => n = 0

theorem partial_zero (p : Program) : Partial 0 p := by
  cases p <;> simp [Partial]

theorem Partial.succ {n : Nat} {p : Program} (h : p.wants n = true) : Partial (n + 1) p := by
  cases p with
  | read k next =>
      have hlt : n < k := by simpa [Program.wants] using h
      exact hlt
  | readToEnd next => trivial
  | exit => cases h
  | write bytes next => cases h

structure Sound (c : Channels) (s : State) : Prop where
  stdin_le : s.stdin.length ≤ c.stdin
  stdout_le : s.stdout.length ≤ c.stdout
  /-- Nothing is received while there is input to send. -/
  received : s.executor.unsent ≠ [] → s.stdout_chunks = []
  reading : Partial s.got.length s.program
  closed : s.executor = .closed → s.program = .exit

theorem Sound.not_atEnd {c : Channels} {s : State} (hs : Sound c s) (hend : s.atEnd) :
    s.program = .exit :=
  hs.closed hend.1

/-- A read returns with all the bytes that it asked for. -/
theorem Sound.read_complete {c : Channels} {s : State} (hs : Sound c s) {k : Nat}
    {next : List Byte → Program} (hprog : s.program = .read k next)
    (hdone : k ≤ s.got.length ∨ s.atEnd) : s.got.length = k := by
  rcases hdone with hdone | hend
  · have := hs.reading
    rw [hprog] at this
    exact Nat.le_antisymm this hdone
  · simp [hs.not_atEnd hend] at hprog

theorem Sound.write_got {c : Channels} {s : State} (hs : Sound c s) {bytes : List Byte}
    {next : Program} (hprog : s.program = .write bytes next) : s.got = [] := by
  have := hs.reading
  rw [hprog] at this
  exact List.eq_nil_of_length_eq_zero this

theorem Sound.step {c : Channels} {s t : State} (hs : Sound c s) (h : Move c s t) :
    Sound c t := by
  obtain ⟨hin, hout, hrec, hread, hclosed⟩ := hs
  cases h with
  | discard b rest hex hprog =>
      exact ⟨hin, hout, fun _ => hrec (by simp [hex, Executor.unsent]), hread, fun _ => hprog⟩
  | send b rest hex hroom =>
      exact ⟨by simpa [Nat.succ_le_iff] using hroom, hout,
        fun _ => hrec (by simp [hex, Executor.unsent]), hread, nofun⟩
  | sent hex => exact ⟨hin, hout, fun h => absurd rfl h, hread, nofun⟩
  | receive b out hex hbuf =>
      refine ⟨hin, ?_, fun h => absurd (by simp [hex, Executor.unsent]) h, hread, hclosed⟩
      rw [hbuf, List.length_cons] at hout
      exact Nat.le_of_succ_le hout
  | close hex hprog => exact ⟨hin, hout, fun h => absurd rfl h, hread, fun _ => hprog⟩
  | take b rest hwants hbuf =>
      refine ⟨?_, hout, hrec, by simpa using Partial.succ hwants, hclosed⟩
      rw [hbuf, List.length_cons] at hin
      exact Nat.le_of_succ_le hin
  | put b bytes next hprog hroom =>
      refine ⟨hin, by simpa [Nat.succ_le_iff] using hroom, hrec, ?_, fun h => ?_⟩
      · simpa [hprog, Partial] using hread
      · simp [hprog] at hclosed
        exact absurd h hclosed
  | read k next hprog =>
      refine ⟨hin, hout, hrec, partial_zero _, fun h => ?_⟩
      simp [hclosed h] at hprog
  | readToEnd next hprog =>
      refine ⟨hin, hout, hrec, partial_zero _, fun h => ?_⟩
      simp [hclosed h] at hprog
  | wrote next hprog =>
      refine ⟨hin, hout, hrec, partial_zero _, fun h => ?_⟩
      simp [hclosed h] at hprog

theorem sound_start (c : Channels) (input : List Byte) (program : Program) :
    Sound c (start input program) where
  stdin_le := Nat.zero_le _
  stdout_le := Nat.zero_le _
  received := fun _ => rfl
  reading := partial_zero _
  closed := nofun

/-- No step changes whether the rest of the exchange flows. -/
theorem Sound.flows_iff {c : Channels} {s t : State} (hs : Sound c s) (h : Move c s t) :
    t.Flows c ↔ s.Flows c := by
  cases h with
  | discard b rest hex hprog => simp [State.Flows, hprog, Flows]
  | send b rest hex hroom =>
      simp [State.Flows, State.unread, State.written, hex, Executor.unsent]
  | sent hex => simp [State.Flows, State.unread, State.written, hex, Executor.unsent]
  | receive b out hex hbuf =>
      have hlen : s.stdout_chunks.length + 1 + out.length =
          s.stdout_chunks.length + (out.length + 1) := by
        omega
      simp [State.Flows, State.unread, State.written, hbuf, hlen]
  | close hex hprog => simp [State.Flows, hprog, Flows]
  | take b rest hwants hbuf => simp [State.Flows, State.unread, State.written, hbuf]
  | put b bytes next hprog hroom =>
      have hlen : s.stdout_chunks.length + (s.stdout.length + 1) + bytes.length =
          s.stdout_chunks.length + s.stdout.length + (bytes.length + 1) := by
        omega
      simp [State.Flows, State.unread, State.written, hprog, Flows, hlen]
  | read k next hprog hdone =>
      obtain rfl := hs.read_complete hprog hdone
      simp [State.Flows, State.unread, State.written, State.proceed, hprog, Flows,
        List.append_assoc]
  | readToEnd next hprog hend => simp [hs.not_atEnd hend] at hprog
  | wrote next hprog =>
      have hgot := hs.write_got hprog
      -- a write that returns has fitted: all input was sent, or nothing was received
      have hfits : s.written ≤ c.stdout ∨ s.unread.length ≤ c.stdin := by
        have hin := hs.stdin_le
        have hout := hs.stdout_le
        by_cases hun : s.executor.unsent = []
        · right
          simpa [State.unread, hgot, hun] using hin
        · left
          simpa [State.written, hs.received hun] using hout
      have hflows : s.Flows c ↔ Flows c next s.unread s.written := by
        simp only [State.Flows, hprog, Flows, List.length_nil, Nat.add_zero, hfits, true_and]
      rw [hflows]
      simp [State.Flows, State.proceed, State.unread, State.written, hgot]

/-- What has been written, and what the rest of the program writes with the rest of
the input as a file. -/
def State.output (s : State) : List Byte :=
  s.stdout_chunks ++ s.stdout ++ s.program.onFile s.unread

theorem Sound.output_eq {c : Channels} {s t : State} (hs : Sound c s) (h : Move c s t) :
    t.output = s.output := by
  cases h with
  | discard b rest hex hprog => simp [State.output, hprog, Program.onFile]
  | send b rest hex hroom => simp [State.output, State.unread, hex, Executor.unsent]
  | sent hex => simp [State.output, State.unread, hex, Executor.unsent]
  | receive b out hex hbuf => simp [State.output, State.unread, hbuf]
  | close hex hprog => simp [State.output, hprog, Program.onFile]
  | take b rest hwants hbuf => simp [State.output, State.unread, hbuf]
  | put b bytes next hprog hroom => simp [State.output, State.unread, hprog, Program.onFile]
  | read k next hprog hdone =>
      obtain rfl := hs.read_complete hprog hdone
      simp [State.output, State.unread, State.proceed, hprog, Program.onFile, List.append_assoc]
  | readToEnd next hprog hend => simp [hs.not_atEnd hend] at hprog
  | wrote next hprog =>
      simp [State.output, State.unread, State.proceed, hprog, Program.onFile,
        hs.write_got hprog]

theorem invariants {c : Channels} {input : List Byte} {program : Program} {s : State}
    (h : (system c input program).Reachable s) :
    Sound c s ∧ (s.Flows c ↔ Flows c program input 0) ∧ s.output = program.onFile input := by
  refine System.PreservedUnder.invariant (I := fun s => Sound c s ∧
    (s.Flows c ↔ Flows c program input 0) ∧ s.output = program.onFile input) ?_ ?_ h
  · intro s t a _ ⟨hs, hflows, hout⟩ _ hstep
    have hmove := move_of_step hstep
    exact ⟨hs.step hmove, (hs.flows_iff hmove).trans hflows, (hs.output_eq hmove).trans hout⟩
  · rintro _ rfl
    refine ⟨sound_start c input program, ?_, ?_⟩
    · simp [State.Flows, State.unread, State.written, start, Executor.unsent]
    · simp [State.output, State.unread, start, Executor.unsent]

/-- What the executor has collected begins the output of the run on a file, and it is
all of it once the program has exited and the stream is empty. -/
theorem collected_isPrefix {c : Channels} {input : List Byte} {program : Program} {s : State}
    (h : (system c input program).Reachable s) :
    s.stdout_chunks <+: program.onFile input ∧
      (s.program = .exit → s.stdout = [] → s.stdout_chunks = program.onFile input) := by
  obtain ⟨-, -, hout⟩ := invariants h
  rw [State.output, List.append_assoc] at hout
  refine ⟨⟨_, hout⟩, fun hexit hempty => ?_⟩
  simpa [hexit, hempty, Program.onFile] using hout

/-! ## Deadlocks are where the exchange does not flow -/

theorem Sound.not_deadlock {c : Channels} {s : State} (hs : Sound c s) (h : s.Flows c) :
    ¬ s.Deadlock c := by
  rintro (⟨⟨hunsent, hfull⟩, hwrites, hroom⟩ | ⟨⟨hex, -⟩, hin, hwants⟩)
  · have hpos := List.length_pos_of_ne_nil hunsent
    have hrec := hs.received hunsent
    unfold State.Flows at h
    cases hprog : s.program with
    | write bytes next =>
        cases bytes with
        | nil => simp [hprog, Program.writes] at hwrites
        | cons b bytes =>
            rw [hprog, Flows, State.unread, State.written, hrec] at h
            simp only [List.length_append, List.length_cons, List.length_nil] at h
            omega
    | _ => simp [hprog, Program.writes] at hwrites
  · unfold State.Flows at h
    cases hprog : s.program with
    | read k next =>
        rw [hprog, Flows, State.unread, hin, hex] at h
        simp only [hprog, Program.wants, decide_eq_true_eq] at hwants
        simp only [Executor.unsent, List.append_nil] at h
        omega
    | readToEnd next =>
        rw [hprog] at h
        exact h
    | _ => simp [hprog, Program.wants] at hwants

/-- A program that cannot go on, and whose executor cannot either, is in a deadlock. -/
theorem deadlock_of_stuck {c : Channels} {s : State} (hs : Sound c s)
    (hprog : s.program ≠ .exit) (hstuck : ∀ a, step c s a = none) : s.Deadlock c := by
  have hexit : s.program.isExit = false := by
    cases h : s.program.isExit with
    | false => rfl
    | true => exact absurd (Program.eq_exit h) hprog
  -- the program does not take, put or return
  have hblocked : s.AwaitsInput ∨ s.WriteBlocked c := by
    have htake := hstuck .take
    have hput := hstuck .put
    have hfinish := hstuck .finish
    cases hp : s.program with
    | exit => exact absurd hp hprog
    | read k next =>
        left
        simp only [step, hp, reduceCtorEq, ite_eq_right_iff, imp_false, not_or, not_le] at hfinish
        refine ⟨?_, by simpa [hp, Program.wants] using hfinish.1⟩
        cases hin : s.stdin with
        | nil => rfl
        | cons b rest => simp [step, hp, hin, hfinish.1] at htake
    | readToEnd next =>
        left
        refine ⟨?_, by simp [hp, Program.wants]⟩
        cases hin : s.stdin with
        | nil => rfl
        | cons b rest => simp [step, hp, hin] at htake
    | write bytes next =>
        right
        cases bytes with
        | nil => simp [step, hp] at hfinish
        | cons b bytes =>
            simp only [step, hp, reduceCtorEq, ite_eq_right_iff, imp_false, not_lt] at hput
            exact ⟨by simp [hp, Program.writes], hput⟩
  cases hex : s.executor with
  | sendall rest =>
      cases rest with
      | nil => simpa [step, hex] using hstuck .sent
      | cons b rest =>
          have hsend := hstuck .send
          simp only [step, hex, hexit, Bool.false_eq_true, if_false, reduceCtorEq,
            ite_eq_right_iff, imp_false, not_lt] at hsend
          refine .inl ⟨⟨by simp [hex, Executor.unsent], hsend⟩, ?_⟩
          rcases hblocked with ⟨hin, -⟩ | hwrite
          · have := c.stdin_pos
            simp only [hin, List.length_nil] at hsend
            omega
          · exact hwrite
  | frames_iter =>
      have hout : s.stdout = [] := by
        cases hout : s.stdout with
        | nil => rfl
        | cons b out => simpa [step, hex, hout] using hstuck .receive
      refine .inr ⟨⟨hex, hout⟩, ?_⟩
      rcases hblocked with hin | ⟨-, hroom⟩
      · exact hin
      · have := c.stdout_pos
        simp only [hout, List.length_nil] at hroom
        omega
  | closed => exact absurd (hs.closed hex) hprog

/-! ## Every run ends -/

/-- Bytes and phases that the executor has before it. -/
def Executor.todo : Executor → Nat
  | sendall rest => 2 * rest.length + 2
  | frames_iter => 1
  | closed => 0

def pendingBytes : Program → Nat
  | .write bytes _ => bytes.length
  | _ => 0

/-- A byte that is sent or written still has to be taken on the other side. -/
def State.work (s : State) : Nat :=
  s.executor.todo + s.stdin.length + 2 * pendingBytes s.program + s.stdout.length

/-- Every step moves bytes along, or an operation of the program returns. -/
def Descends : State → State → Prop :=
  InvImage (Prod.Lex Program.Below (· < ·)) fun s => (s.program.strip, s.work)

theorem wellFounded_descends : WellFounded Descends :=
  InvImage.wf _ (WellFounded.prod_lex Program.wellFounded_below Nat.lt_wfRel.wf)

theorem descends_of_work {s t : State} (hprog : t.program.strip = s.program.strip)
    (h : t.work < s.work) : Descends t s := by
  change Prod.Lex Program.Below (· < ·) (t.program.strip, t.work) (s.program.strip, s.work)
  rw [hprog]
  exact .right _ h

theorem descends_of_below {s t : State}
    (h : Program.Below t.program.strip s.program.strip) : Descends t s :=
  .left _ _ h

theorem descends_of_move {c : Channels} {s t : State} (h : Move c s t) : Descends t s := by
  cases h with
  | discard b rest hex hprog =>
      refine descends_of_work rfl ?_
      simp [State.work, hex, Executor.todo]
  | send b rest hex hroom =>
      refine descends_of_work rfl ?_
      simp only [State.work, hex, Executor.todo, List.length_append, List.length_cons,
        List.length_nil]
      omega
  | sent hex =>
      refine descends_of_work rfl ?_
      simp [State.work, hex, Executor.todo]
  | receive b out hex hbuf =>
      refine descends_of_work rfl ?_
      simp [State.work, hbuf]
  | close hex hprog =>
      refine descends_of_work rfl ?_
      simp only [State.work, hex, Executor.todo]
      omega
  | take b rest hwants hbuf =>
      refine descends_of_work rfl ?_
      simp [State.work, hbuf]
  | put b bytes next hprog hroom =>
      refine descends_of_work (by rw [hprog]; rfl) ?_
      simp only [State.work, hprog, pendingBytes, List.length_append, List.length_cons,
        List.length_nil]
      omega
  | read k next hprog hdone =>
      apply descends_of_below
      rw [hprog]
      exact .read k next s.got
  | readToEnd next hprog hend =>
      apply descends_of_below
      rw [hprog]
      exact .readToEnd next s.got
  | wrote next hprog =>
      apply descends_of_below
      rw [hprog]
      exact .write [] next

/-- **The exchange never blocks exactly if it flows.** -/
theorem neverBlocks_iff_flows (c : Channels) (input : List Byte) (program : Program) :
    NeverBlocks c input program ↔ Flows c program input 0 := by
  constructor
  · intro hnever
    by_contra hflows
    obtain ⟨t, hpath, hstuck⟩ := System.exists_stuck (S := system c input program)
      wellFounded_descends (fun _ _ _ h => descends_of_move (move_of_step h))
      (start input program)
    have hreach : (system c input program).Reachable t := ⟨_, rfl, hpath⟩
    obtain ⟨hs, hiff, -⟩ := invariants hreach
    refine hnever t hreach (deadlock_of_stuck hs (fun hexit => ?_) hstuck)
    exact hflows (hiff.mp (by simp [State.Flows, hexit, Flows]))
  · intro hflows s hreach
    obtain ⟨hs, hiff, -⟩ := invariants hreach
    exact hs.not_deadlock (hiff.mpr hflows)

end ByteBattles.Judge.JudgeWorker.StdinExchange
