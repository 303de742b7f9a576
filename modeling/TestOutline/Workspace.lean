import TestOutline.FileTree

/-!
A tree of files together with the current directory, which relative paths start from.
-/

namespace TestOutline

structure Workspace where
  tree : FileTree
  here : Location

namespace Workspace

def locate (workspace : Workspace) (path : Path) : Except FileError Location :=
  workspace.tree.locate workspace.here path

def lookup (workspace : Workspace) (path : Path) : Option Entry :=
  match workspace.locate path with
  | .ok location => workspace.tree.lookup location
  | .error _ => none

def contains (workspace : Workspace) (path : Path) : Bool :=
  (workspace.lookup path).isSome

def isFile (workspace : Workspace) (path : Path) : Bool :=
  match workspace.lookup path with
  | some (.file _) => true
  | _ => false

def read (workspace : Workspace) (path : Path) : Except FileError String := do
  match workspace.tree.lookup (← workspace.locate path) with
  | some (.file (some text)) => .ok text
  | some (.file none) => .error .notText
  | some .directory => .error .isDirectory
  | none => .error .notFound

/-- Writes a file, which replaces one that is there; `content` is `none` for bytes that are not a
text. -/
def write (workspace : Workspace) (path : Path) (content : Option String) :
    Except FileError Workspace := do
  let location ← workspace.tree.destination workspace.here path
  .ok { workspace with tree := workspace.tree.update location (some (.file content)) }

def remove (workspace : Workspace) (path : Path) : Except FileError Workspace := do
  let location ← workspace.locate path
  match workspace.tree.lookup location with
  | some (.file _) => .ok { workspace with tree := workspace.tree.update location none }
  | some .directory => .error .isDirectory
  | none => .error .notFound

def enter (workspace : Workspace) (path : Path) : Except FileError Workspace := do
  let location ← workspace.locate path
  match workspace.tree.lookup location with
  | some .directory => .ok { workspace with here := location }
  | some (.file _) => .error .notDirectory
  | none => .error .notFound

def makeDirectories (workspace : Workspace) (path : Path) : Workspace × Option FileError :=
  let (tree, error) := workspace.tree.makeDirectories workspace.here path
  ({ workspace with tree }, error)

def place (workspace : Workspace) (path : Path) (content : Option String) :
    Workspace × Option FileError :=
  let (made, error) :=
    match path.parent? with
    | some directory => workspace.makeDirectories directory
    | none => (workspace, none)
  match error with
  | some error => (made, some error)
  | none =>
    match made.write path content with
    | .ok written => (written, none)
    | .error error => (made, some error)

def absolute (workspace : Workspace) (path : Path) : Path :=
  workspace.here.path.join path

/-- The absolute path of the place that a path names, without `.`, `..` and extra slashes. The names
are looked up one by one, so that the text of the path may have any length. -/
def canonical (workspace : Workspace) (path : Path) : Except FileError Path := do
  if FileTree.hasNul path then .error .nulInPath
  else if path.text.isEmpty then .error .notFound
  else
    let place ← workspace.tree.walk (FileTree.start workspace.here path) path.segments
    .ok place.path

end Workspace

end TestOutline
