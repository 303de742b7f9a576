import TestOutline.Outline.Basic
import TestOutline.Text.Lines

/-!
The outline of a file. Indentation alone decides what lies below what: a declaration closes every
open suite that starts in its own column or further right, and lies below the innermost suite that
is still open.
-/

namespace TestOutline.Outline
open Text

/-- What has been found in the lines so far: the blocks, and the suites still open, innermost
first. -/
structure Scan where
  outline : Outline := {}
  openSuites : List Block := []
deriving DecidableEq, Repr

namespace Scan

/-- The suites that a declaration in `column` leaves open. -/
def stillOpen (scan : Scan) (column : UInt32) : List Block :=
  scan.openSuites.dropWhile (column ≤ ·.start.character)

def declare (scan : Scan) (line : Nat) (declaration : Declaration) : Scan :=
  let enclosing := scan.stillOpen declaration.column
  let block := Block.ofDeclaration scan.outline.size line enclosing.head? declaration
  { outline := scan.outline.push block
    openSuites := if block.isSuite then block :: enclosing else enclosing }

def step (scan : Scan) (line : List Char × Nat) : Scan :=
  match Declaration.ofLine? line.1 with
  | some declaration => scan.declare line.2 declaration
  | none => scan

end Scan

def ofLines (lines : List (List Char)) : Outline :=
  (lines.zipIdx.foldl Scan.step {}).outline

def ofSource (source : String) : Outline :=
  ofLines (lines source.toList)

theorem Scan.step_of_none {scan : Scan} {line : List Char × Nat}
    (h : Declaration.ofLine? line.1 = none) : scan.step line = scan := by
  simp [step, h]

end TestOutline.Outline
