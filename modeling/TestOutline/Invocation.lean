import TestOutline.Json.Basic
import TestOutline.Shell

/-!
Invocations of the test runner: a program with its arguments, and the directory and the variables it
runs with. One that is narrowed to a block also says by which pattern.
-/

namespace TestOutline

structure Invocation where
  program : String
  args : List String := []
  workingDirectory : Option String := none
  env : List (String × String) := []
  grep : Option String := none
deriving DecidableEq, Repr

namespace Invocation

def inDirectory (invocation : Invocation) (directory : String) : Invocation :=
  { invocation with workingDirectory := some directory }

def withVariable (invocation : Invocation) (name value : String) : Invocation :=
  { invocation with env := invocation.env ++ [(name, value)] }

def narrow (invocation : Invocation) (pattern : String) : Invocation :=
  { invocation with args := invocation.args ++ ["--grep", pattern], grep := some pattern }

def shellWords (invocation : Invocation) : List String :=
  invocation.env.map (fun entry => entry.1 ++ "=" ++ Shell.word entry.2) ++
    Shell.word invocation.program :: invocation.args.map Shell.word

def shellLine (invocation : Invocation) : String :=
  " ".intercalate invocation.shellWords

def toJson (invocation : Invocation) : Json :=
  .record <|
    [("program", .text invocation.program), ("args", .texts invocation.args)] ++
    (invocation.workingDirectory.map fun path => ("working_dir", Json.text path)).toList ++
    (if invocation.env.isEmpty then []
      else [("env", .array (invocation.env.map fun entry => .texts [entry.1, entry.2]))]) ++
    (invocation.grep.map fun pattern => ("grep", Json.text pattern)).toList

@[simp] theorem args_narrow (invocation : Invocation) (pattern : String) :
    (invocation.narrow pattern).args = invocation.args ++ ["--grep", pattern] := rfl

end Invocation

end TestOutline
