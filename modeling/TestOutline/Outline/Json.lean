import TestOutline.Grep
import TestOutline.Json.Basic

/-!
Outlines as JSON: an array of blocks. Members that mean nothing here are passed over when a block is
read; a record may also be the array of the values of all its fields, in the order of writing.
-/

namespace TestOutline

def idBound : Nat :=
  UInt64.size

namespace Position

def toJson (position : Position) : Json :=
  .record [("line", .natural position.line.toNat), ("character", .natural position.character.toNat)]

def fieldNames : List String :=
  ["line", "character"]

def coordinate? (value : Json) : Option UInt32 :=
  (value.natural? UInt32.size).map .ofNat

def ofMembers? (members : List (String × Json)) : Option Position := do
  return {
    line := ← Json.readMember? members "line" none coordinate?
    character := ← Json.readMember? members "character" none coordinate?
  }

end Position

namespace Json

/-- The members of a record, which is an object or the array of all its values. -/
def recordMembers? (fieldNames : List String) : Json → Option (List (String × Json))
  | .object members => namedMembers? members
  | .array items =>
    if items.length = fieldNames.length then some (fieldNames.zip items) else none
  | _ => none

/-- A kind by its name, which may also be the only key of an object, with nothing under it. -/
def kind? : Json → Option Kind
  | .string (some name) => Kind.ofName? name
  | .object [(some name, .null)] => Kind.ofName? name
  | _ => none

def position? (value : Json) : Option Position :=
  (recordMembers? Position.fieldNames value).bind Position.ofMembers?

end Json

namespace Block

def fieldNames : List String :=
  ["id", "kind", "label", "start", "qualified_name", "parent"]

def members (block : Block) : List (String × Json) :=
  [("id", .natural block.id), ("kind", .text block.kind.name), ("label", .text block.label),
    ("start", block.start.toJson), ("qualified_name", .text block.qualifiedName)] ++
  (block.parent.map fun parent => ("parent", Json.natural parent)).toList

def toJson (block : Block) : Json :=
  .record block.members

def toJsonWithPattern (block : Block) (pattern : String) : Json :=
  .record (block.members ++ [("pattern", .text pattern)])

def id? (value : Json) : Option Nat :=
  value.natural? idBound

def ofMembers? (members : List (String × Json)) : Option Block := do
  return {
    id := ← Json.readMember? members "id" none id?
    kind := ← Json.readMember? members "kind" none Json.kind?
    label := ← Json.readMember? members "label" none Json.text?
    start := ← Json.readMember? members "start" none Json.position?
    qualifiedName := ← Json.readMember? members "qualified_name" none Json.text?
    parent := ← Json.readMember? members "parent" (some none) (Json.nullable? id?)
  }

def ofJson? (value : Json) : Option Block :=
  (Json.recordMembers? fieldNames value).bind ofMembers?

end Block

namespace Outline

def toJson (outline : Outline) : Json :=
  .array (outline.toList.map Block.toJson)

def toJsonWithPatterns (outline : Outline) : Json :=
  .array (outline.toList.map fun block => block.toJsonWithPattern (outline.pattern block.id))

def ofJson? (value : Json) : Option Outline :=
  value.items?.bind fun items => (items.mapM Block.ofJson?).map fun blocks => ⟨blocks.toArray⟩

end Outline

end TestOutline
