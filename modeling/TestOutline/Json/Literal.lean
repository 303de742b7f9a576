import TestOutline.Text.Numeral

/-!
String literals of JSON. Writing escapes quotes, backslashes and control characters and nothing
else. Reading admits every escape of the format; an escape may name half of a surrogate pair, so a
literal is first read as code points and then as characters.
-/

namespace TestOutline.Json
open Text

def shortEscapes : List (Char × Char) :=
  [('"', '"'), ('\\', '\\'), ('\x08', 'b'), ('\x09', 't'), ('\x0a', 'n'), ('\x0c', 'f'),
    ('\x0d', 'r')]

def isControl (c : Char) : Bool :=
  c.toNat < 0x20

def escapeCharacter (c : Char) : List Char :=
  match shortEscapes.lookup c with
  | some letter => ['\\', letter]
  | none =>
    if isControl c then
      ['\\', 'u', '0', '0', lowerHexDigit (c.toNat / 16), lowerHexDigit (c.toNat % 16)]
    else [c]

def quote (text : List Char) : List Char :=
  '"' :: text.flatMap escapeCharacter ++ ['"']

def shortEscape? (letter : Char) : Option Char :=
  if letter = '/' then some '/'
  else (shortEscapes.find? (·.2 = letter)).map (·.1)

def codePoints? : List Char → Option (List Nat)
  | [] => some []
  | '\\' :: 'u' :: a :: b :: c :: d :: rest =>
    (numeral? 16 [a, b, c, d]).bind fun n => (codePoints? rest).map (n :: ·)
  | '\\' :: letter :: rest =>
    (shortEscape? letter).bind fun c => (codePoints? rest).map (c.toNat :: ·)
  | c :: rest =>
    if c = '\\' || isControl c then none else (codePoints? rest).map (c.toNat :: ·)

def isLeading (n : Nat) : Bool :=
  0xD800 ≤ n && n < 0xDC00

def isTrailing (n : Nat) : Bool :=
  0xDC00 ≤ n && n < 0xE000

/-- The characters that code points stand for, a surrogate pair for one; `none` if a surrogate is
unpaired. -/
def characters? : List Nat → Option (List Char)
  | [] => some []
  | high :: low :: rest =>
    if isLeading high then
      if isTrailing low then
        (characters? rest).map
          (Char.ofNat (0x10000 + (high - 0xD800) * 0x400 + (low - 0xDC00)) :: ·)
      else none
    else if isTrailing high then none
    else (characters? (low :: rest)).map (Char.ofNat high :: ·)
  | [n] => if isLeading n || isTrailing n then none else some [Char.ofNat n]

/-- The value of the literal with this text between its quotes: `none` if it is malformed, `some
none` if it is well formed and no text. -/
def unquote? (body : List Char) : Option (Option String) :=
  (codePoints? body).map fun points => (characters? points).map .ofList

end TestOutline.Json
