import TestOutline.Text.Numeral

/-!
The value of a quoted label. A backslash starts an escape: a letter for a control character, the
code point of a character in hexadecimal digits, or any other character for itself. A code point
escape with wrong digits, or of no character, stands for its marker letter `x` or `u`, and reading
goes on right behind the letter.
-/

namespace TestOutline.Label
open Text

def character? (codePoint : Nat) : Option Char :=
  if codePoint.isValidChar then some (Char.ofNat codePoint) else none

/-- What stands behind the backslash of an escape: the character it denotes and the number of
characters it spans. -/
structure Escape where
  denotes : Char
  span : Nat
deriving DecidableEq, Repr

/-- An escape with a code point in `digits`, spanning `span` characters; the bare marker unless
`digits` is the numeral of a character. -/
def codePointEscape (marker : Char) (digits : List Char) (span : Nat) : Escape :=
  match (numeral? 16 digits).bind character? with
  | some c => ⟨c, span⟩
  | none => ⟨marker, 1⟩

def fixedEscape (marker : Char) (width : Nat) (text : List Char) : Escape :=
  if width ≤ text.length then codePointEscape marker (text.take width) (width + 1) else ⟨marker, 1⟩

def bracedEscape (text : List Char) : Escape :=
  if '\x7d' ∈ text then
    let digits := text.takeWhile (· ≠ '\x7d')
    codePointEscape 'u' digits (digits.length + 3)
  else ⟨'u', 1⟩

/-- The escape at the start of `text`, which stands behind a backslash; a backslash at the end of a
label stands for itself. -/
def escape : List Char → Escape
  | [] => ⟨'\\', 0⟩
  | 'x' :: text => fixedEscape 'x' 2 text
  | 'u' :: '\x7b' :: text => bracedEscape text
  | 'u' :: text => fixedEscape 'u' 4 text
  | 'n' :: _ => ⟨'\n', 1⟩
  | 't' :: _ => ⟨'\t', 1⟩
  | 'r' :: _ => ⟨'\r', 1⟩
  | 'b' :: _ => ⟨'\x08', 1⟩
  | 'f' :: _ => ⟨'\x0c', 1⟩
  | 'v' :: _ => ⟨'\x0b', 1⟩
  | '0' :: _ => ⟨'\x00', 1⟩
  | c :: _ => ⟨c, 1⟩

/-- The value of what is left of a label after its first `skipped` characters. -/
def decodeAfter : Nat → List Char → List Char
  | _, [] => []
  | skipped + 1, _ :: text => decodeAfter skipped text
  | 0, c :: text =>
    if c = '\\' then (escape text).denotes :: decodeAfter (escape text).span text
    else c :: decodeAfter 0 text

def decode (text : List Char) : List Char :=
  decodeAfter 0 text

@[simp] theorem decode_nil : decode [] = [] := rfl

theorem decodeAfter_eq_decode_drop (skipped : Nat) (text : List Char) :
    decodeAfter skipped text = decode (text.drop skipped) := by
  induction text generalizing skipped with
  | nil => cases skipped <;> rfl
  | cons c text ih =>
    cases skipped with
    | zero => rfl
    | succ skipped => exact ih skipped

theorem decode_backslash (text : List Char) :
    decode ('\\' :: text) = (escape text).denotes :: decode (text.drop (escape text).span) := by
  rw [← decodeAfter_eq_decode_drop]
  rfl

theorem decode_cons {c : Char} (h : c ≠ '\\') (text : List Char) :
    decode (c :: text) = c :: decode text := by
  simp [decode, decodeAfter, h]

end TestOutline.Label
