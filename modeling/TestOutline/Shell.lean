/-!
Words of a POSIX shell line. A word of harmless characters stands for itself. Any other word goes
between single quotes, where a single quote is written by closing the quotes, escaping it, and
opening them again.
-/

namespace TestOutline.Shell

def isPlain (c : Char) : Bool :=
  c.isAlphanum || c ∈ ['_', '-', '.', '/', '=', ':', '@', '%', '+', ',']

def quoteCharacter (c : Char) : List Char :=
  if c = '\'' then ['\'', '\\', '\'', '\''] else [c]

def quote (word : List Char) : List Char :=
  if !word.isEmpty && word.all isPlain then word
  else '\'' :: word.flatMap quoteCharacter ++ ['\'']

def word (text : String) : String :=
  .ofList (quote text.toList)

end TestOutline.Shell
