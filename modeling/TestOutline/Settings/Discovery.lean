import TestOutline.Fault
import TestOutline.Settings.Json
import TestOutline.Workspace

/-!
Settings in files. The settings for a file or directory are those of the nearest settings file in
the directories on its path, going up; without one they are the defaults.
-/

namespace TestOutline.Settings

/-- The names that a settings file may have; in one directory the first one counts. -/
def fileNames : List String :=
  [".mocha-lens.json", "mocha-lens.json"]

def newFileName : String :=
  ".mocha-lens.json"

def fileIn? (workspace : Workspace) (directory : Path) : Option Path :=
  (fileNames.map (directory.join ⟨·⟩)).find? workspace.isFile

def searchPath (workspace : Workspace) (start : Path) : List Path :=
  if workspace.isFile start then start.ancestors else start :: start.ancestors

def findFile? (workspace : Workspace) (start : Path) : Option Path :=
  (searchPath workspace start).findSome? (fileIn? workspace)

/-- The settings in the file at `path`; its directory is their root. -/
def load (workspace : Workspace) (path : Path) : Except Fault Settings := do
  let text ← Fault.ofFile (workspace.read path)
  match parse? text with
  | some settings => .ok { settings with root := path.parent? }
  | none => .error (.settings path)

def nearest (workspace : Workspace) (start : Path) : Except Fault Settings :=
  match findFile? workspace start with
  | some path => load workspace path
  | none => .ok {}

def save (settings : Settings) (workspace : Workspace) (path : Path) : Except Fault Workspace :=
  Fault.ofFile (workspace.write path settings.render)

end TestOutline.Settings
