import TestOutline.Label
import TestOutline.Text.Blank

/-!
Declarations of suites and test cases. A line declares one if it starts, behind its indentation,
with `describe` or `it`, perhaps `.only` or `.skip`, an opening parenthesis and a quoted label that
is the whole first argument: a comma or the closing parenthesis follows it.
-/

namespace TestOutline
open Text

inductive Kind where
  | suite
  | testCase
deriving DecidableEq, Repr

namespace Kind

def keyword : Kind → String
  | suite => "describe"
  | testCase => "it"

def name : Kind → String
  | suite => "suite"
  | testCase => "case"

def ofKeyword? (word : String) : Option Kind :=
  [suite, testCase].find? (·.keyword == word)

def ofName? (word : String) : Option Kind :=
  [suite, testCase].find? (·.name == word)

@[simp] theorem ofName?_name (kind : Kind) : ofName? kind.name = some kind := by
  cases kind <;> rfl

end Kind

structure Declaration where
  kind : Kind
  label : String
  column : UInt32
deriving DecidableEq, Repr

namespace Declaration

def isQuote (c : Char) : Bool :=
  c = '\'' || c = '"' || c = '\x60'

/-- Splits the text behind an opening quote at the first closing quote that no backslash escapes.
A backslash cannot escape a line feed. -/
def splitLiteral? (quote : Char) : List Char → Option (List Char × List Char)
  | [] => none
  | '\\' :: c :: text =>
    if c = '\n' then none
    else (splitLiteral? quote text).map fun (body, rest) => ('\\' :: c :: body, rest)
  | c :: text =>
    if c = quote then some ([], text)
    else if c = '\\' then none
    else (splitLiteral? quote text).map fun (body, rest) => (c :: body, rest)

def splitKeyword? (text : List Char) : Option (Kind × List Char) :=
  [Kind.suite, Kind.testCase].findSome? fun kind =>
    (kind.keyword.toList.isPrefixOf? text).map (kind, ·)

def dropModifier (text : List Char) : List Char :=
  ((".only".toList.isPrefixOf? text).or (".skip".toList.isPrefixOf? text)).getD text

/-- The body of the quoted label that is the first argument of the call in `text`, which starts
with its opening parenthesis. -/
def splitArgument? : List Char → Option (List Char)
  | '(' :: text =>
    match dropBlanks text with
    | quote :: text =>
      if isQuote quote then
        (splitLiteral? quote text).bind fun (body, rest) =>
          match dropBlanks rest with
          | ',' :: _ | ')' :: _ => some body
          | _ => none
      else none
    | [] => none
  | _ => none

def ofLine? (line : List Char) : Option Declaration :=
  (splitKeyword? (dropBlanks line)).bind fun (kind, text) =>
    (splitArgument? (dropModifier text)).map fun body =>
      { kind, label := .ofList (Label.decode body), column := .ofNat (indentation line) }

end Declaration

end TestOutline
