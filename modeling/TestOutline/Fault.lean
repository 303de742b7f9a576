import TestOutline.FileTree

/-!
What can go wrong apart from the recognition of declarations, which never fails.
-/

namespace TestOutline

inductive Fault where
  | file (error : FileError)
  | settings (path : Path)
  | noBlock
deriving DecidableEq, Repr

namespace Fault

/-- What is said of unreadable settings ends with their path. The words of the JSON reader on what
is wrong and where, which a colon would join to it, are not a part of this text. -/
def message : Fault → String
  | file error => "IO error: " ++ error.message
  | settings path => "Configuration error: Failed to parse " ++ path.text
  | noBlock => "No test block found at the specified location"

def ofFile {α : Type} : Except FileError α → Except Fault α
  | .ok value => .ok value
  | .error error => .error (.file error)

@[simp] theorem ofFile_ok {α : Type} (value : α) : ofFile (.ok value) = .ok value := rfl

@[simp] theorem ofFile_error {α : Type} (error : FileError) :
    ofFile (.error error : Except FileError α) = .error (.file error) := rfl

end Fault

end TestOutline
