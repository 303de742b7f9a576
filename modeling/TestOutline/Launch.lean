import TestOutline.Fault
import TestOutline.Grep
import TestOutline.Invocation
import TestOutline.Settings.Basic

/-!
How tests are launched: the invocation for a whole file, and for one block of it.
-/

namespace TestOutline

inductive Mode where
  | run
  | debug
deriving DecidableEq, Repr

def Mode.tag : Mode → String
  | run => "run"
  | debug => "debug"

namespace Settings

/-- The directory to run in: the root, or else the directory of the file. The empty path is the
current directory and is not given. -/
def workingDirectory (settings : Settings) (file : Path) : Option Path :=
  (settings.root.or file.parent?).filter (!·.text.isEmpty)

/-- The file as the test runner gets it: relative to the working directory if it lies there. -/
def fileArgument (settings : Settings) (file : Path) : Path :=
  ((settings.workingDirectory file).bind file.relativeTo?).getD file

/-- The program and what stands before the configured arguments. -/
def launcher (settings : Settings) (mode : Mode) : String × List String :=
  match mode, settings.nodePath with
  | .run, none => (settings.runnerPath, [])
  | .run, some node => (node, [settings.runnerPath])
  | .debug, node =>
    (node.getD "node",
      ["--inspect-brk=" ++ toString settings.debugPort.toNat, settings.runnerPath,
        "--no-timeouts"])

def launchFile (settings : Settings) (file : Path) (mode : Mode) : Invocation where
  program := (settings.launcher mode).1
  args := (settings.launcher mode).2 ++ settings.mochaArgs ++ [(settings.fileArgument file).text]
  workingDirectory := (settings.workingDirectory file).map (·.text)
  env := settings.env.sorted

def launchBlock (settings : Settings) (file : Path) (outline : Outline) (id : Nat) (mode : Mode) :
    Except Fault Invocation :=
  match outline.get? id with
  | some _ => .ok ((settings.launchFile file mode).narrow (outline.pattern id))
  | none => .error .noBlock

end Settings

end TestOutline
