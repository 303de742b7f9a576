import TestOutline.Json.Parser
import TestOutline.Json.Printer
import TestOutline.Settings.Basic

/-!
Settings as JSON. They are an object whose members may come in any order, may be missing and may
stand among members that mean nothing here, or an array with the values of the first fields in the
order of `fieldNames`. The root is not part of it.
-/

namespace TestOutline

namespace Environment

def toJson (environment : Environment) : Json :=
  .record (environment.entries.map fun entry => (entry.1, .text entry.2))

def assignment? (member : String × Json) : Option (String × String) :=
  member.2.text?.map (member.1, ·)

def ofJson? : Json → Option Environment
  | .object members =>
    (Json.namedMembers? members).bind fun named => (named.mapM assignment?).map ofList
  | _ => none

end Environment

namespace Settings

def fieldNames : List String :=
  ["mocha_path", "node_path", "mocha_args", "env", "debug_port", "test_file_patterns"]

def nodeMember (settings : Settings) : List (String × Json) :=
  (settings.nodePath.map fun path => ("node_path", Json.text path)).toList

def toJson (settings : Settings) : Json :=
  .record <|
    ("mocha_path", .text settings.mochaPath) :: settings.nodeMember ++
      [("mocha_args", .texts settings.mochaArgs),
        ("env", settings.env.toJson),
        ("debug_port", .natural settings.debugPort.toNat),
        ("test_file_patterns", .texts settings.testFilePatterns)]

def port? (value : Json) : Option UInt16 :=
  (value.natural? UInt16.size).map .ofNat

def ofMembers? (members : List (String × Json)) : Option Settings := do
  let defaults : Settings := {}
  return {
    mochaPath := ← Json.readMember? members "mocha_path" (some defaults.mochaPath) Json.text?
    nodePath :=
      ← Json.readMember? members "node_path" (some defaults.nodePath) (Json.nullable? Json.text?)
    mochaArgs := ← Json.readMember? members "mocha_args" (some defaults.mochaArgs) Json.texts?
    env := ← Json.readMember? members "env" (some defaults.env) Environment.ofJson?
    debugPort := ← Json.readMember? members "debug_port" (some defaults.debugPort) port?
    testFilePatterns :=
      ← Json.readMember? members "test_file_patterns" (some defaults.testFilePatterns) Json.texts?
  }

def ofJson? : Json → Option Settings
  | .object members => (Json.namedMembers? members).bind ofMembers?
  | .array items =>
    if items.length ≤ fieldNames.length then ofMembers? (fieldNames.zip items) else none
  | _ => none

def render (settings : Settings) : String :=
  settings.toJson.pretty

def parse? (text : String) : Option Settings :=
  (Json.parse? text).bind ofJson?

end Settings

end TestOutline
