import TestOutline.Declaration

/-!
Blocks: the declarations of a file with their places in it and in each other.
-/

namespace TestOutline

structure Position where
  line : UInt32
  character : UInt32
deriving DecidableEq, Repr

/-- A declared suite or test case. `id` and `parent` are positions in the outline that holds the
block, and the qualified name is the label behind the labels of all ancestors, outermost first. -/
structure Block where
  id : Nat
  kind : Kind
  label : String
  start : Position
  qualifiedName : String
  parent : Option Nat
deriving DecidableEq, Repr

namespace Block

def isSuite (block : Block) : Bool :=
  block.kind = .suite

def isTestCase (block : Block) : Bool :=
  block.kind = .testCase

def qualify (parent : Option Block) (label : String) : String :=
  match parent with
  | some parent => parent.qualifiedName ++ " " ++ label
  | none => label

def ofDeclaration (id line : Nat) (parent : Option Block) (declaration : Declaration) : Block where
  id := id
  kind := declaration.kind
  label := declaration.label
  start := { line := .ofNat line, character := declaration.column }
  qualifiedName := qualify parent declaration.label
  parent := parent.map (·.id)

end Block

end TestOutline
