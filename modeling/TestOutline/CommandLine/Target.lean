import TestOutline.Text.Lines
import TestOutline.Text.Numeral

/-!
The file that a command works on, with a line in it: `path:line`. Lines are counted from one there.
-/

namespace TestOutline.CommandLine
open Text

structure Target where
  path : String
  /-- Counted from zero. -/
  line : Option UInt32
deriving DecidableEq, Repr

namespace Target

def lineNumber? (text : List Char) : Option Nat :=
  (numeral? 10 (match text with | '+' :: digits => digits | digits => digits)).filter
    (· < UInt32.size)

/-- What stands behind the last colon is a line if it is a number; otherwise it belongs to the path.
Line zero is the first line too. -/
def ofArgument (argument : String) : Target :=
  match splitLast? ':' argument.toList with
  | some (path, line) =>
    match lineNumber? line with
    | some number => ⟨.ofList path, some (.ofNat (number - 1))⟩
    | none => ⟨argument, none⟩
  | none => ⟨argument, none⟩

end Target

end TestOutline.CommandLine
