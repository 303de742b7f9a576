import TestOutline.Outline.Extract

/-!
The block that a cursor is in. A cursor on a line of code takes the column of that line; on a blank
line it takes the column of the next line of code, or of the last one if none follows.
-/

namespace TestOutline.Outline
open Text

def isCode (line : List Char) : Bool :=
  !isBlankLine line

def decisiveLine? (lines : List (List Char)) (line : Nat) : Option (List Char) :=
  ((lines.drop line).find? isCode).or ((lines.take line).reverse.find? isCode)

/-- The column of a cursor on line `line`; in a file without code it is right of everything. -/
def cursorColumn (lines : List (List Char)) (line : Nat) : UInt32 :=
  match decisiveLine? lines line with
  | some code => .ofNat (indentation code)
  | none => .ofNat (UInt32.size - 1)

def atCursor? (lines : List (List Char)) (line : UInt32) : Option Block :=
  (ofLines lines).innermost? line (cursorColumn lines line.toNat)

end TestOutline.Outline
