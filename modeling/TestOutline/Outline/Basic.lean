import TestOutline.Block

/-!
Outlines: the blocks of a file in the order of their declarations. A block names its parent by
position. In the outline of a file a parent comes before its children; an outline from elsewhere may
have its blocks in any order and may name parents that it does not hold, so a walk up to the
outermost ancestor takes as many steps as there are blocks and no more.
-/

namespace TestOutline

structure Outline where
  blocks : Array Block := #[]
deriving DecidableEq, Repr

namespace Outline

def size (outline : Outline) : Nat :=
  outline.blocks.size

def isEmpty (outline : Outline) : Bool :=
  outline.blocks.isEmpty

def toList (outline : Outline) : List Block :=
  outline.blocks.toList

def get? (outline : Outline) (id : Nat) : Option Block :=
  outline.blocks[id]?

def push (outline : Outline) (block : Block) : Outline :=
  ⟨outline.blocks.push block⟩

def parent? (outline : Outline) (block : Block) : Option Block :=
  block.parent.bind outline.get?

/-- At most `steps` blocks of the chain from the block at `id` to its outermost ancestor. -/
def chain (outline : Outline) : (steps : Nat) → (id : Nat) → List Block
  | 0, _ => []
  | steps + 1, id =>
    match outline.get? id with
    | none => []
    | some block =>
      block :: match block.parent with
        | none => []
        | some parent => chain outline steps parent

/-- The block at `id` behind all its ancestors, outermost first. -/
def lineage (outline : Outline) (id : Nat) : List Block :=
  (outline.chain outline.size id).reverse

def suites (outline : Outline) : List Block :=
  outline.toList.filter Block.isSuite

def testCases (outline : Outline) : List Block :=
  outline.toList.filter Block.isTestCase

def children (outline : Outline) (id : Nat) : List Block :=
  outline.toList.filter (·.parent = some id)

def startingOn (outline : Outline) (line : UInt32) : List Block :=
  outline.toList.filter (·.start.line = line)

/-- The innermost block around a position, as far as indentation tells: a block that starts on the
line, or else the last block that starts on an earlier line in a smaller column. -/
def innermost? (outline : Outline) (line column : UInt32) : Option Block :=
  (outline.startingOn line).head?.or
    (outline.toList.reverse.find? fun block =>
      block.start.line < line && block.start.character < column)

@[simp] theorem size_push (outline : Outline) (block : Block) :
    (outline.push block).size = outline.size + 1 := by
  simp [size, push]

@[simp] theorem toList_push (outline : Outline) (block : Block) :
    (outline.push block).toList = outline.toList ++ [block] := by
  simp [toList, push]

theorem get?_eq_getElem? (outline : Outline) (id : Nat) :
    outline.get? id = outline.toList[id]? := by
  simp [get?, toList]

@[simp] theorem get?_push_size (outline : Outline) (block : Block) :
    (outline.push block).get? outline.size = some block := by
  simp [get?, push, size]

theorem get?_push_of_lt (outline : Outline) (block : Block) {id : Nat} (h : id < outline.size) :
    (outline.push block).get? id = outline.get? id := by
  simp only [get?, push, size] at h ⊢
  exact Array.getElem?_push_lt h ▸ (Array.getElem?_eq_getElem h).symm

theorem length_toList (outline : Outline) : outline.toList.length = outline.size := by
  simp [toList, size]

theorem get?_eq_none_iff (outline : Outline) (id : Nat) :
    outline.get? id = none ↔ outline.size ≤ id := by
  simp [get?, size]

end Outline

end TestOutline
