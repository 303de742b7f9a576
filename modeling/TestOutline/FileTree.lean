import TestOutline.Path

/-!
A tree of files, and the ways of a path through it. Every segment of a path needs a directory to
start from, so that `file/` and `file/..` lead nowhere; going up from the root stays there.
Operations fail with the cause that an operating system of the Unix family would give.
-/

namespace TestOutline

inductive FileError where
  | notFound
  | alreadyExists
  | notDirectory
  | isDirectory
  /-- A name, or the whole text of a path, is longer than the operating system takes. -/
  | nameTooLong
  | notText
  /-- The path holds the character that ends texts for the operating system. -/
  | nulInPath
deriving DecidableEq, Repr

def FileError.message : FileError → String
  | notFound => "No such file or directory (os error 2)"
  | alreadyExists => "File exists (os error 17)"
  | notDirectory => "Not a directory (os error 20)"
  | isDirectory => "Is a directory (os error 21)"
  | nameTooLong => "File name too long (os error 36)"
  | nulInPath => "file name contained an unexpected NUL byte"
  | notText => "stream did not contain valid UTF-8"

/-- The names from a place up to the root. -/
abbrev Location := List String

def Location.path (location : Location) : Path :=
  .ofSegments .root (location.reverse.map String.toList)

/-- What stands at a place: a directory, or a regular file, which has no text if its bytes are not
UTF-8. Nothing else is in a tree. Links are outside it, though an operating system follows them when
it reads or writes a file, also one where new settings are put; so are pipes, devices and sockets,
and whether someone has the permission to read, write or search. -/
inductive Entry where
  | directory
  | file (text : Option String)
deriving DecidableEq, Repr

/-- A tree without links: every place is reached by the one way of its names. The names are texts;
files and directories whose names are other bytes are left out. -/
structure FileTree where
  lookup : Location → Option Entry

namespace FileTree

def empty : FileTree :=
  ⟨fun location => if location.isEmpty then some .directory else none⟩

def update (tree : FileTree) (location : Location) (entry : Option Entry) : FileTree :=
  ⟨fun place => if place = location then entry else tree.lookup place⟩

@[simp] theorem lookup_update_self (tree : FileTree) (location : Location)
    (entry : Option Entry) : (tree.update location entry).lookup location = entry := by
  simp [update]

theorem lookup_update_of_ne (tree : FileTree) {place location : Location} (entry : Option Entry)
    (h : place ≠ location) : (tree.update location entry).lookup place = tree.lookup place := by
  simp [update, h]

def nameLimit : Nat :=
  255

def pathLimit : Nat :=
  4095

def hasNul (path : Path) : Bool :=
  '\x00' ∈ path.text.toList

def checkPath (path : Path) : Except FileError Unit :=
  if hasNul path then .error .nulInPath
  else if path.text.isEmpty then .error .notFound
  else if pathLimit < path.text.utf8ByteSize then .error .nameTooLong
  else .ok ()

def step (tree : FileTree) (here : Location) (segment : List Char) : Except FileError Location :=
  match tree.lookup here with
  | none => .error .notFound
  | some (.file _) => .error .notDirectory
  | some .directory =>
    if Path.isFiller segment then .ok here
    else if Path.isUp segment then .ok here.tail
    else if nameLimit < (String.ofList segment).utf8ByteSize then .error .nameTooLong
    else if (tree.lookup (.ofList segment :: here)).isSome then .ok (.ofList segment :: here)
    else .error .notFound

def walk (tree : FileTree) (here : Location) (segments : List (List Char)) :
    Except FileError Location :=
  segments.foldlM tree.step here

@[simp] theorem walk_nil (tree : FileTree) (here : Location) : tree.walk here [] = .ok here := rfl

theorem walk_append (tree : FileTree) (here : Location) (first rest : List (List Char)) :
    tree.walk here (first ++ rest) = tree.walk here first >>= (tree.walk · rest) := by
  simp [walk, List.foldlM_append]

def start (here : Location) (path : Path) : Location :=
  if path.isAbsolute then [] else here

def locate (tree : FileTree) (here : Location) (path : Path) : Except FileError Location := do
  checkPath path
  tree.walk (start here path) path.segments

def walkInto (tree : FileTree) (here : Location) (segments : List (List Char)) :
    Except FileError Location :=
  tree.walk here (segments ++ [[]])

/-- The place where writing to a path puts its file. The last name need not exist, but no slash may
stand behind it, and it must not be a directory. -/
def destination (tree : FileTree) (here : Location) (path : Path) : Except FileError Location := do
  checkPath path
  match path.segments.reverse.dropWhile (·.isEmpty) with
  | [] => .error .isDirectory
  | last :: before =>
    let directory ← tree.walkInto (start here path) before.reverse
    if Path.isFiller last || Path.isUp last || path.segments.getLast? = some [] then
      .error .isDirectory
    else match tree.step directory last with
      | .ok place =>
        if tree.lookup place = some .directory then .error .isDirectory else .ok place
      | .error .notFound => .ok (.ofList last :: directory)
      | .error error => .error error

def makeDirectory (tree : FileTree) (here : Location) (path : Path) :
    Except FileError FileTree := do
  checkPath path
  match path.segments.reverse.dropWhile (·.isEmpty) with
  | [] => .error .alreadyExists
  | last :: before =>
    let directory ← tree.walkInto (start here path) before.reverse
    match tree.step directory last with
    | .ok _ => .error .alreadyExists
    | .error .notFound => .ok (tree.update (.ofList last :: directory) (some .directory))
    | .error error => .error error

def isDirectory (tree : FileTree) (here : Location) (path : Path) : Bool :=
  match tree.locate here path with
  | .ok place => tree.lookup place = some .directory
  | .error _ => false

def ensureDirectory (tree : FileTree) (here : Location) (path : Path) :
    Except FileError FileTree :=
  match tree.makeDirectory here path with
  | .error .alreadyExists =>
    if tree.isDirectory here path then .ok tree else .error .alreadyExists
  | result => result

/-- Makes the first of some directories that lie in each other, innermost first, and before it those
of the others that are missing. What was made before a failure stays. -/
def ensureDirectories (tree : FileTree) (here : Location) : List Path → FileTree × Option FileError
  | [] => (tree, none)
  | path :: outer =>
    if path.parent?.isNone then (tree, none)
    else match tree.ensureDirectory here path with
      | .ok made => (made, none)
      | .error .notFound =>
        match ensureDirectories tree here outer with
        | (made, some error) => (made, some error)
        | (made, none) =>
          match made.ensureDirectory here path with
          | .ok all => (all, none)
          | .error error => (made, some error)
      | .error error => (tree, some error)

def makeDirectories (tree : FileTree) (here : Location) (path : Path) :
    FileTree × Option FileError :=
  tree.ensureDirectories here (path :: path.ancestors)

end FileTree

end TestOutline
