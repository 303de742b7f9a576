import TestOutline.Outline.Basic

/-!
Search patterns. The pattern of a test case is a regular expression for exactly its qualified name,
the pattern of a suite one for every name that starts with its qualified name.
-/

namespace TestOutline.Grep

def metacharacters : List Char :=
  ['.', '*', '+', '?', '^', '$', '\x7b', '\x7d', '(', ')', '|', '[', ']', '\\']

def escape (text : List Char) : List Char :=
  text.flatMap fun c => if c ∈ metacharacters then ['\\', c] else [c]

def anchored (kind : Kind) (labels : List String) : String :=
  let name := " ".intercalate (labels.map fun label => .ofList (escape label.toList))
  match kind with
  | .suite => "^" ++ name
  | .testCase => "^" ++ name ++ "$"

end TestOutline.Grep

namespace TestOutline

/-- The pattern that selects the block at `id`; empty if there is none. -/
def Outline.pattern (outline : Outline) (id : Nat) : String :=
  match outline.get? id with
  | some block => Grep.anchored block.kind ((outline.lineage id).map (·.label))
  | none => ""

end TestOutline
