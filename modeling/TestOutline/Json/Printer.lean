import TestOutline.Json.Basic
import TestOutline.Json.Literal

/-!
JSON text, laid out over lines: every item and every member on a line of its own, two spaces further
in than its container. Empty containers are closed at once.
-/

namespace TestOutline.Json

def lineBreak (depth : Nat) : List Char :=
  '\n' :: List.replicate (2 * depth) ' '

/-- A literal; a value without a text is written as a lone surrogate. -/
def quoteText : Option String → List Char
  | some text => quote text.toList
  | none => ['"', '\\', 'u', 'd', '8', '0', '0', '"']

mutual

/-- The text of a value whose container stands `depth` levels in. -/
def layOut (depth : Nat) : Json → List Char
  | .null => "null".toList
  | .bool true => "true".toList
  | .bool false => "false".toList
  | .number spelling => spelling.toList
  | .string text => quoteText text
  | .array [] => ['[', ']']
  | .array (item :: items) =>
    '[' :: lineBreak (depth + 1) ++ layOut (depth + 1) item ++ layOutItems (depth + 1) items
      ++ lineBreak depth ++ [']']
  | .object [] => ['\x7b', '\x7d']
  | .object ((key, value) :: members) =>
    '\x7b' :: lineBreak (depth + 1) ++ quoteText key ++ [':', ' '] ++ layOut (depth + 1) value
      ++ layOutMembers (depth + 1) members ++ lineBreak depth ++ ['\x7d']

def layOutItems (depth : Nat) : List Json → List Char
  | [] => []
  | item :: items => ',' :: lineBreak depth ++ layOut depth item ++ layOutItems depth items

def layOutMembers (depth : Nat) : List (Option String × Json) → List Char
  | [] => []
  | (key, value) :: members =>
    ',' :: lineBreak depth ++ quoteText key ++ [':', ' '] ++ layOut depth value
      ++ layOutMembers depth members

end

def pretty (value : Json) : String :=
  .ofList (layOut 0 value)

end TestOutline.Json
