import TestOutline.CommandLine.Footprint
import TestOutline.CommandLine.Run

/-!
The program. It looks at the files that a request may need, carries the request out on them, and
writes the files that are different afterwards.
-/

namespace TestOutline.CommandLine

def usage : List String :=
  ["Find and run single tests by the outline of their file.",
    "",
    "Usage: test-outline <command> [options]",
    "",
    "  analyze, a <path[:line]>   list the blocks of a file    -v, --verbose: as JSON",
    "  pattern, p <path:line>     print the pattern for a block",
    "  command, c <path[:line]>   print the invocation    -d, --debug: under a debugger; --json",
    "  init                       write default settings    --cwd <directory>; -f, --force",
    "  help [command]             print this text"]

def observe (path : String) : IO (Option Entry) := do
  try
    return some (.file (String.fromUTF8? (← IO.FS.readBinFile path)))
  catch _ =>
    try
      let _ ← IO.FS.realPath (path ++ "/.")
      return some .directory
    catch _ =>
      return none

def snapshot (here : Location) (places : List Location) : IO Workspace := do
  let entries ← places.mapM fun place => do
    return (place, ← observe place.path.text)
  return { tree := ⟨fun place => (entries.lookup place).join⟩, here }

def store (before after : Workspace) (places : List Location) : IO Unit :=
  places.forM fun place =>
    match after.tree.lookup place with
    | some (.file (some text)) =>
      if before.tree.lookup place = some (.file (some text)) then pure ()
      else IO.FS.writeFile place.path.text text
    | _ => pure ()

def carryOut (request : Request) : IO UInt32 := do
  let here : Location := (Path.mk (← IO.currentDir).toString).names.reverse
  let places := request.footprint here
  let before ← snapshot here places
  let (outcome, after) := run before request
  store before after places
  IO.print outcome.output
  unless outcome.errorText.isEmpty do IO.eprintln outcome.errorText
  return .ofNat outcome.exitCode

def notify : Notice → IO UInt32
  | .help => do
    IO.print (Outcome.print usage).output
    return 0
  | .version => do
    IO.println "test-outline 0.1.0"
    return 0
  | .usageError => do
    IO.eprint (Outcome.print usage).output
    return 2

end TestOutline.CommandLine

def main (args : List String) : IO UInt32 :=
  match TestOutline.CommandLine.parse args with
  | .ok request => TestOutline.CommandLine.carryOut request
  | .error notice => TestOutline.CommandLine.notify notice
