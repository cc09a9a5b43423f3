import Mathlib.Data.List.Basic

/-!
# Enumerations shared by the API and the judge

`api/app/models/enums.py` and the tables of `judge/models.py`.
-/

namespace ByteBattles.Judge

/-- `Language`, with the members in the order in which `for lang in Language` visits them. -/
inductive Language
  | C
  | CPP
  | PYTHON
  deriving DecidableEq, Repr

/-- The string value of a member, which is what events and queue names carry. -/
def Language.value : Language → String
  | .C => "C"
  | .CPP => "CPP"
  | .PYTHON => "PY"

/-- `for language in Language`. -/
def Language.all : List Language := [.C, .CPP, .PYTHON]

theorem Language.mem_all (l : Language) : l ∈ Language.all := by
  cases l <;> simp [Language.all]

def FILENAME : Language → String
  | .C => "main.c"
  | .CPP => "main.cpp"
  | .PYTHON => "main.py"

def IMAGE : Language → String
  | .C => "judge-gcc:latest"
  | .CPP => "judge-gcc:latest"
  | .PYTHON => "judge-python:latest"

inductive Verdict
  | PENDING
  | ACCEPTED
  | WRONG_ANSWER
  | TIME_LIMIT_EXCEEDED
  | MEMORY_LIMIT_EXCEEDED
  | COMPILATION_ERROR
  | RUNTIME_ERROR
  | SKIPPED
  deriving DecidableEq, Repr

def Verdict.value : Verdict → String
  | .PENDING => "PD"
  | .ACCEPTED => "AC"
  | .WRONG_ANSWER => "WA"
  | .TIME_LIMIT_EXCEEDED => "TLE"
  | .MEMORY_LIMIT_EXCEEDED => "MLE"
  | .COMPILATION_ERROR => "CE"
  | .RUNTIME_ERROR => "RE"
  | .SKIPPED => "SKP"

end ByteBattles.Judge
