import TestOutline.Invocation

/-!
An invocation explained line by line.
-/

namespace TestOutline.CommandLine

inductive Part where
  | inspector (port : String)
  | grep (pattern : String)
  | flag (text : String)
  | argument (text : String)
deriving DecidableEq, Repr

namespace Part

def inspectorOption : String :=
  "--inspect-brk="

def ofArgument (text : String) : Part :=
  match inspectorOption.toList.isPrefixOf? text.toList with
  | some port => inspector (.ofList port)
  | none => if text.toList.head? = some '-' then flag text else argument text

/-- The parts of an argument list. `--grep` takes the argument behind it along; without one it is no
part. -/
def ofArguments : List String → List Part
  | [] => []
  | [last] => if last = "--grep" then [] else [ofArgument last]
  | text :: next :: rest =>
    if text = "--grep" then grep next :: ofArguments rest
    else ofArgument text :: ofArguments (next :: rest)

def line : Part → String
  | inspector port => "      • inspector: port " ++ port
  | grep pattern => "      • grep: " ++ pattern
  | flag text => "      • flag: " ++ text
  | argument text => "      • arg: " ++ text

end Part

def breakdown (invocation : Invocation) : List String :=
  ["   🔧 Command breakdown:", "      • program: " ++ invocation.program] ++
    (Part.ofArguments invocation.args).map Part.line ++
    (invocation.workingDirectory.map ("      • working dir: " ++ ·)).toList ++
    invocation.env.map (fun entry => "      • env: " ++ entry.1 ++ "=" ++ entry.2) ++
    ["   ▶️  " ++ invocation.shellLine]

end TestOutline.CommandLine
