import Mathlib.Data.List.Basic
import Mathlib.Order.WellFounded

/-!
# Programs over standard input and output

A program reads its input in order and writes output.  It depends on what it has
read, and it is an inductive value: whatever it reads, it performs finitely many
operations and exits.
-/

namespace ByteBattles.Lib

abbrev Byte := UInt8

/-- What a program does next. -/
inductive Program
  | exit
  /-- Read `k` bytes, or fewer at the end of the input. -/
  | read (k : Nat) (next : List Byte → Program)
  | readToEnd (next : List Byte → Program)
  | write (bytes : List Byte) (next : Program)

namespace Program

/-- The output of a run whose input is a file. -/
def onFile : Program → List Byte → List Byte
  | exit, _ => []
  | read k next, input => (next (input.take k)).onFile (input.drop k)
  | readToEnd next, input => (next input).onFile []
  | write bytes next, input => bytes ++ next.onFile input

def isExit : Program → Bool
  | exit => true
  | _ => false

theorem eq_exit {p : Program} (h : p.isExit = true) : p = .exit := by
  cases p with
  | exit => rfl
  | _ => cases h

def writes : Program → Bool
  | write (_ :: _) _ => true
  | _ => false

/-- The current read does not return with `n` bytes before the end of the input. -/
def wants (n : Nat) : Program → Bool
  | read k _ => n < k
  | readToEnd _ => true
  | _ => false

/-- A write is known by what comes after it. -/
def strip : Program → Program
  | write _ next => write [] next
  | p => p

/-- `Below q p`: the operation of `p` has returned, and `q` remains. -/
inductive Below : Program → Program → Prop
  | read (k : Nat) (next : List Byte → Program) (bytes : List Byte) :
      Below (next bytes).strip (.read k next)
  | readToEnd (next : List Byte → Program) (bytes : List Byte) :
      Below (next bytes).strip (.readToEnd next)
  | write (bytes : List Byte) (next : Program) : Below next.strip (.write bytes next)

theorem acc_strip {p : Program} (h : Acc Below p) : Acc Below p.strip := by
  cases p with
  | write bytes next =>
      refine ⟨_, fun q hq => ?_⟩
      cases hq
      exact h.inv (.write bytes next)
  | _ => exact h

theorem acc_below (p : Program) : Acc Below p := by
  induction p with
  | exit => exact ⟨_, nofun⟩
  | read k next ih =>
      refine ⟨_, fun q hq => ?_⟩
      cases hq with
      | read _ _ bytes => exact acc_strip (ih bytes)
  | readToEnd next ih =>
      refine ⟨_, fun q hq => ?_⟩
      cases hq with
      | readToEnd _ bytes => exact acc_strip (ih bytes)
  | write bytes next ih =>
      refine ⟨_, fun q hq => ?_⟩
      cases hq
      exact acc_strip ih

/-- Every run of a program performs finitely many operations. -/
theorem wellFounded_below : WellFounded Below := ⟨acc_below⟩

end Program

end ByteBattles.Lib
