import TestOutline.Text.Lines

/-!
Paths of files. A path keeps its text; nothing is looked up and `..` stands for itself. It is read
as an anchor and the segments between slashes, of which the empty ones and `.` add nothing: `a//b/.`
and `a/b` have the same names.
-/

namespace TestOutline
open Text

/-- A path is a text. What is no UTF-8 names nothing here, though an operating system takes other
bytes in names too. -/
structure Path where
  text : String
deriving DecidableEq, Repr

namespace Path

/-- Where a path starts: at the root, at an explicit leading `.`, or at its first name. -/
inductive Anchor where
  | root
  | here
  | relative
deriving DecidableEq, Repr

def anchor (path : Path) : Anchor :=
  match path.text.toList with
  | '/' :: _ => .root
  | ['.'] => .here
  | '.' :: '/' :: _ => .here
  | _ => .relative

def segments (path : Path) : List (List Char) :=
  match path.text.toList with
  | '/' :: rest => pieces '/' rest
  | ['.'] => []
  | '.' :: '/' :: rest => pieces '/' rest
  | text => pieces '/' text

def ofSegments (anchor : Anchor) (segments : List (List Char)) : Path :=
  let text := ['/'].intercalate segments
  ⟨.ofList <| match anchor with
    | .root => '/' :: text
    | .here => if segments.isEmpty then ['.'] else '.' :: '/' :: text
    | .relative => text⟩

/-- A segment that adds nothing. -/
def isFiller (segment : List Char) : Bool :=
  segment.isEmpty || segment = ['.']

def isUp (segment : List Char) : Bool :=
  segment = ['.', '.']

def trimEnd (segments : List (List Char)) : List (List Char) :=
  (segments.reverse.dropWhile isFiller).reverse

def trim (segments : List (List Char)) : List (List Char) :=
  trimEnd (segments.dropWhile isFiller)

def names (path : Path) : List String :=
  (path.segments.filter (!isFiller ·)).map .ofList

/-- Two texts for the same way: the same anchor and the same names. -/
def sameWay (path other : Path) : Bool :=
  path.anchor = other.anchor && path.names = other.names

def isAbsolute (path : Path) : Bool :=
  path.anchor = .root

/-- The path without its last name and what stands around it. A lone `.` leaves the empty path. -/
def parent? (path : Path) : Option Path :=
  match path.segments.reverse.dropWhile isFiller with
  | _ :: before => some (ofSegments path.anchor (before.dropWhile isFiller).reverse)
  | [] => if path.anchor = .here then some ⟨""⟩ else none

/-- All that can be reached by going to the parent again and again, nearest first; the segments are
given from the last one back. -/
def above (anchor : Anchor) : List (List Char) → List Path
  | [] => if anchor = .here then [⟨""⟩] else []
  | segment :: before =>
    if isFiller segment then above anchor before
    else ofSegments anchor (before.dropWhile isFiller).reverse :: above anchor before

def ancestors (path : Path) : List Path :=
  above path.anchor path.segments.reverse

def fileName? (path : Path) : Option String :=
  path.names.getLast?.filter (· ≠ "..")

/-- What stands behind the last dot of the file name; a dot in front of it all does not count. -/
def extension? (path : Path) : Option String :=
  path.fileName?.bind fun name =>
    (splitLast? '.' name.toList).bind fun (stem, rest) =>
      if stem.isEmpty then none else some (.ofList rest)

def join (path other : Path) : Path :=
  if other.isAbsolute then other
  else if path.text.isEmpty || path.text.toList.getLast? = some '/' then ⟨path.text ++ other.text⟩
  else ⟨path.text ++ "/" ++ other.text⟩

def dropNames? : (names : List String) → (segments : List (List Char)) → Option (List (List Char))
  | [], segments => some segments
  | _ :: _, [] => none
  | name :: names, segment :: segments =>
    if isFiller segment then dropNames? (name :: names) segments
    else if segment = name.toList then dropNames? names segments
    else none

def relativeTo? (path base : Path) : Option Path :=
  if path.anchor = base.anchor then
    (dropNames? base.names path.segments).map fun rest => ofSegments .relative (trim rest)
  else none

theorem ofSegments_segments (path : Path) : ofSegments path.anchor path.segments = path := by
  obtain ⟨text⟩ := path
  simp only [anchor, segments]
  split
  · next rest h => simp [ofSegments, Text.intercalate_pieces, ← h]
  · next h => simp [ofSegments, ← h]
  · next rest h => simp [ofSegments, Text.intercalate_pieces, Text.pieces_ne_nil, ← h]
  · simp [ofSegments, Text.intercalate_pieces]

theorem head?_ancestors (path : Path) : path.ancestors.head? = path.parent? := by
  have key (segments : List (List Char)) : (above path.anchor segments).head? =
      match segments.dropWhile isFiller with
      | _ :: before => some (ofSegments path.anchor (before.dropWhile isFiller).reverse)
      | [] => if path.anchor = .here then some ⟨""⟩ else none := by
    induction segments with
    | nil => by_cases h : path.anchor = .here <;> simp [above, h]
    | cons segment before ih => by_cases h : isFiller segment <;> simp [above, h, ih]
  exact key path.segments.reverse

end Path

end TestOutline
