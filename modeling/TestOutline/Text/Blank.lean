/-!
Blank characters and indentation. A character is blank when it has Unicode's `White_Space` property,
and a line is indented by as many columns as it has blanks in front: a tab is one column.
-/

namespace TestOutline.Text

/-- The code points with the property `White_Space`, as closed ranges in increasing order. -/
def blankRanges : List (Nat × Nat) :=
  [(0x09, 0x0D), (0x20, 0x20), (0x85, 0x85), (0xA0, 0xA0), (0x1680, 0x1680), (0x2000, 0x200A),
    (0x2028, 0x2029), (0x202F, 0x202F), (0x205F, 0x205F), (0x3000, 0x3000)]

def isBlank (c : Char) : Bool :=
  blankRanges.any fun range => range.1 ≤ c.toNat && c.toNat ≤ range.2

def isBlankLine (line : List Char) : Bool :=
  line.all isBlank

def dropBlanks (text : List Char) : List Char :=
  text.dropWhile isBlank

def indentation (line : List Char) : Nat :=
  (line.takeWhile isBlank).length

theorem indentation_le_length (line : List Char) : indentation line ≤ line.length :=
  (List.takeWhile_sublist isBlank).length_le

end TestOutline.Text
