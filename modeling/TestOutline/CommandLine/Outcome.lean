import TestOutline.Fault

/-!
The outcome of a command: what it prints, and how it fails if it does. What was printed before a
failure stays.
-/

namespace TestOutline.CommandLine

structure Failure where
  message : String
  causes : List String := []
deriving DecidableEq, Repr

namespace Failure

/-- A file error is its own cause. -/
def ofFault (fault : Fault) : Failure :=
  match fault with
  | .file error => ⟨fault.message, [error.message]⟩
  | _ => ⟨fault.message, []⟩

def withContext (failure : Failure) (context : String) : Failure :=
  ⟨context, failure.message :: failure.causes⟩

def causeLines : List String → List String
  | [] => []
  | [cause] => ["", "Caused by:", "    " ++ cause]
  | causes =>
    ["", "Caused by:"] ++ causes.zipIdx.map fun (cause, n) => "    " ++ toString n ++ ": " ++ cause

def report (failure : Failure) : String :=
  "\n".intercalate (("Error: " ++ failure.message) :: causeLines failure.causes)

end Failure

structure Outcome where
  output : String := ""
  failure : Option Failure := none
deriving DecidableEq, Repr

namespace Outcome

def print (lines : List String) : Outcome :=
  { output := String.join (lines.map (· ++ "\n")) }

def printThenFail (lines : List String) (failure : Failure) : Outcome :=
  { print lines with failure := some failure }

def ofResult : Except Failure Outcome → Outcome
  | .ok outcome => outcome
  | .error failure => { failure := some failure }

def exitCode (outcome : Outcome) : Nat :=
  if outcome.failure.isSome then 1 else 0

def errorText (outcome : Outcome) : String :=
  match outcome.failure with
  | some failure => failure.report
  | none => ""

end Outcome

end TestOutline.CommandLine
