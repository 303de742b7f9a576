import TestOutline.Text.Numeral

/-!
JSON values as they are written: an object keeps its members in order and may repeat a key, a number
keeps its spelling, and a string whose escapes leave a surrogate unpaired is a value without a text.
-/

namespace TestOutline

inductive Json where
  | null
  | bool (value : Bool)
  | number (spelling : String)
  | string (text : Option String)
  | array (items : List Json)
  | object (members : List (Option String × Json))
deriving Inhabited, Repr

namespace Json
open Text

def text (value : String) : Json :=
  .string (some value)

def natural (value : Nat) : Json :=
  .number (toString value)

def texts (values : List String) : Json :=
  .array (values.map text)

def record (members : List (String × Json)) : Json :=
  .object (members.map fun member => (some member.1, member.2))

def text? : Json → Option String
  | .string text => text
  | _ => none

def natural? (bound : Nat) : Json → Option Nat
  | .number spelling => (numeral? 10 spelling.toList).filter (· < bound)
  | _ => none

def items? : Json → Option (List Json)
  | .array items => some items
  | _ => none

def texts? (value : Json) : Option (List String) :=
  value.items?.bind (·.mapM text?)

/-- The value of an optional field, where `null` says that there is none. -/
def nullable? {α : Type} (read : Json → Option α) : Json → Option (Option α)
  | .null => some none
  | value => (read value).map some

/-- The members of an object under their keys; `none` if a key has no text. -/
def namedMembers? (members : List (Option String × Json)) : Option (List (String × Json)) :=
  members.mapM fun member => member.1.map (·, member.2)

def valuesOf (key : String) (members : List (String × Json)) : List Json :=
  (members.filter (·.1 = key)).map (·.2)

/-- Reads the member `key`: `absent` if there is none, and no result if there are several. -/
def readMember? {α : Type} (members : List (String × Json)) (key : String)
    (absent : Option α) (read : Json → Option α) : Option α :=
  match valuesOf key members with
  | [] => absent
  | [value] => read value
  | _ => none

end Json

end TestOutline
