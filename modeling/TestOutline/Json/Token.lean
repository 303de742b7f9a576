import TestOutline.Json.Basic
import TestOutline.Json.Literal

/-!
Tokens of JSON text: punctuation, string literals, and words, which are the literal names and the
numbers. Only space, tab, line feed and carriage return may stand between tokens.
-/

namespace TestOutline.Json
open Text

inductive Token where
  | openArray
  | closeArray
  | openObject
  | closeObject
  | comma
  | colon
  | scalar (value : Json)
  | literal (text : Option String)
deriving Inhabited, Repr

namespace Token

def isSpace (c : Char) : Bool :=
  c = ' ' || c = '\t' || c = '\n' || c = '\r'

def punctuation? (c : Char) : Option Token :=
  if c = '[' then some .openArray
  else if c = ']' then some .closeArray
  else if c = '\x7b' then some .openObject
  else if c = '\x7d' then some .closeObject
  else if c = ',' then some .comma
  else if c = ':' then some .colon
  else none

def isDelimiter (c : Char) : Bool :=
  isSpace c || (punctuation? c).isSome || c = '"'

def isDigit (c : Char) : Bool :=
  '0' ≤ c && c ≤ '9'

def isDigits (word : List Char) : Bool :=
  !word.isEmpty && word.all isDigit

def isWhole (word : List Char) : Bool :=
  isDigits word && (word.head? ≠ some '0' || word.length = 1)

def isExponent : List Char → Bool
  | '+' :: digits => isDigits digits
  | '-' :: digits => isDigits digits
  | digits => isDigits digits

def isFraction (word : List Char) : Bool :=
  match word with
  | [] => true
  | '.' :: rest =>
    isDigits (rest.takeWhile isDigit) &&
      match rest.dropWhile isDigit with
      | [] => true
      | e :: digits => (e = 'e' || e = 'E') && isExponent digits
  | e :: digits => (e = 'e' || e = 'E') && isExponent digits

def isUnsigned (word : List Char) : Bool :=
  isWhole (word.takeWhile isDigit) && isFraction (word.dropWhile isDigit)

def isNumber (word : List Char) : Bool :=
  match word with
  | '-' :: rest => isUnsigned rest
  | _ => isUnsigned word

def scalar? (word : List Char) : Option Json :=
  if word = "null".toList then some .null
  else if word = "true".toList then some (.bool true)
  else if word = "false".toList then some (.bool false)
  else if isNumber word then some (.number (.ofList word))
  else none

/-- Where the reader stands in the text: between tokens, in a word, in a literal, or in a literal
right behind a backslash. What has been read of the token is kept in reverse. -/
inductive Mode where
  | between
  | word (read : List Char)
  | literal (read : List Char)
  | escaped (read : List Char)

def scan? : Mode → List Char → Option (List Token)
  | .between, [] => some []
  | .word read, [] => (scalar? read.reverse).map ([.scalar ·])
  | .literal _, [] => none
  | .escaped _, [] => none
  | .between, c :: text =>
    if isSpace c then scan? .between text
    else if c = '"' then scan? (.literal []) text
    else match punctuation? c with
      | some token => (scan? .between text).map (token :: ·)
      | none => scan? (.word [c]) text
  | .word read, c :: text =>
    if isDelimiter c then
      (scalar? read.reverse).bind fun value =>
        if isSpace c then (scan? .between text).map (.scalar value :: ·)
        else if c = '"' then (scan? (.literal []) text).map (.scalar value :: ·)
        else match punctuation? c with
          | some token => (scan? .between text).map fun rest => .scalar value :: token :: rest
          | none => none
    else scan? (.word (c :: read)) text
  | .literal read, c :: text =>
    if c = '"' then
      (unquote? read.reverse).bind fun value =>
        (scan? .between text).map (.literal value :: ·)
    else if c = '\\' then scan? (.escaped read) text
    else scan? (.literal (c :: read)) text
  | .escaped read, c :: text => scan? (.literal (c :: '\\' :: read)) text

def tokens? (text : List Char) : Option (List Token) :=
  scan? .between text

end Token

end TestOutline.Json
