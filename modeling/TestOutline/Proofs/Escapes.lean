import Mathlib.Data.List.Basic
import Mathlib.Data.Nat.Digits.Defs
import TestOutline.Label

/-! Escapes with code points. A run of hexadecimal digits denotes a number in positional notation;
the escapes that hold one are read as the character with that code point, or only as their marker
letter if no character has it. -/

namespace TestOutline

namespace Text

def hexDigits : List Char :=
  "0123456789abcdefABCDEF".toList

def hexDigit (c : Char) : Nat :=
  "0123456789abcdef".toList.idxOf c.toLower

def hexValue (digits : List Char) : Nat :=
  Nat.ofDigits 16 (digits.reverse.map hexDigit)

structure IsHexadecimal (digits : List Char) : Prop where
  ne_nil : digits ≠ []
  mem : ∀ c ∈ digits, c ∈ hexDigits

instance (digits : List Char) : Decidable (IsHexadecimal digits) :=
  decidable_of_iff (digits ≠ [] ∧ digits.all (· ∈ hexDigits) = true)
    ⟨fun h => ⟨h.1, fun c hc => of_decide_eq_true (List.all_eq_true.1 h.2 c hc)⟩,
      fun h => ⟨h.ne_nil, List.all_eq_true.2 fun c hc => decide_eq_true (h.mem c hc)⟩⟩

theorem digit?_of_mem_hexDigits {c : Char} (h : c ∈ hexDigits) :
    digit? 16 c = some (hexDigit c) := by
  have hall : hexDigits.all (fun c => digit? 16 c = some (hexDigit c)) = true := by decide
  exact of_decide_eq_true (List.all_eq_true.1 hall c h)

theorem hexValue_cons (c : Char) (digits : List Char) :
    hexValue (c :: digits) = 16 ^ digits.length * hexDigit c + hexValue digits := by
  rw [hexValue, List.reverse_cons, List.map_append, Nat.ofDigits_append, List.length_map,
    List.length_reverse, List.map_singleton, Nat.ofDigits_singleton, Nat.add_comm]
  rfl

theorem readDigits?_of_mem_hexDigits {digits : List Char} (h : ∀ c ∈ digits, c ∈ hexDigits)
    (value : Nat) :
    readDigits? 16 value digits = some (16 ^ digits.length * value + hexValue digits) := by
  induction digits generalizing value with
  | nil => simp [readDigits?, hexValue]
  | cons c digits ih =>
    rw [readDigits?, digit?_of_mem_hexDigits (h c (List.mem_cons_self ..)), Option.bind_some,
      ih fun other hmem => h other (List.mem_cons_of_mem _ hmem), hexValue_cons, List.length_cons,
      Nat.pow_succ]
    ring_nf

theorem IsHexadecimal.not_mem {digits : List Char} (h : IsHexadecimal digits) {c : Char}
    (hc : c ∉ hexDigits) : c ∉ digits :=
  fun hmem => hc (h.mem c hmem)

theorem IsHexadecimal.numeral? {digits : List Char} (h : IsHexadecimal digits) :
    numeral? 16 digits = some (hexValue digits) := by
  rw [Text.numeral?, if_neg (by simpa using h.ne_nil), readDigits?_of_mem_hexDigits h.mem]
  simp

end Text

namespace Label
open Text

/-- The ways to write a code point behind a backslash: `digits` behind a marker, two or four of them
or any number in braces. -/
inductive WritesPoint (digits : List Char) : (marker : Char) → (behind : List Char) → Prop where
  | two (hlength : digits.length = 2) : WritesPoint digits 'x' digits
  | four (hlength : digits.length = 4) : WritesPoint digits 'u' digits
  | braced : WritesPoint digits 'u' ('\x7b' :: (digits ++ ['\x7d']))

theorem character?_toNat (c : Char) : character? c.toNat = some c := by
  have hvalid : c.toNat.isValidChar := c.valid
  rw [character?, if_pos hvalid, Char.ofNat_toNat]

theorem codePointEscape_of_toNat {digits : List Char} (h : IsHexadecimal digits) {c : Char}
    (hc : hexValue digits = c.toNat) (marker : Char) (span : Nat) :
    codePointEscape marker digits span = ⟨c, span⟩ := by
  rw [codePointEscape, h.numeral?, Option.bind_some, hc, character?_toNat]

theorem codePointEscape_of_not_valid {digits : List Char} (h : IsHexadecimal digits)
    (hvalue : ¬ (hexValue digits).isValidChar) (marker : Char) (span : Nat) :
    codePointEscape marker digits span = ⟨marker, 1⟩ := by
  rw [codePointEscape, h.numeral?, Option.bind_some, character?, if_neg hvalue]

theorem fixedEscape_append {digits : List Char} {width : Nat} (h : digits.length = width)
    (marker : Char) (rest : List Char) :
    fixedEscape marker width (digits ++ rest) = codePointEscape marker digits (width + 1) := by
  rw [fixedEscape, if_pos (by simp [← h]), ← h, List.take_left]

theorem bracedEscape_append {digits : List Char} (h : '\x7d' ∉ digits) (rest : List Char) :
    bracedEscape (digits ++ '\x7d' :: rest) = codePointEscape 'u' digits (digits.length + 3) := by
  have htake : (digits ++ '\x7d' :: rest).takeWhile (· ≠ '\x7d') = digits := by
    rw [List.takeWhile_append_of_pos, List.takeWhile_cons_of_neg (by simp), List.append_nil]
    intro c hc
    exact decide_eq_true fun heq => h (heq ▸ hc)
  rw [bracedEscape, if_pos (by simp), htake]

theorem escape_u {text : List Char} (h : text.head? ≠ some '\x7b') :
    escape ('u' :: text) = fixedEscape 'u' 4 text := by
  cases text with
  | nil => rfl
  | cons c text =>
    rw [escape]
    intro behind heq
    exact h (by rw [heq, List.head?_cons])

theorem WritesPoint.escape_append {digits behind : List Char} {marker : Char}
    (h : WritesPoint digits marker behind) (hdigits : IsHexadecimal digits) (rest : List Char) :
    escape (marker :: (behind ++ rest)) = codePointEscape marker digits (behind.length + 1) := by
  cases h with
  | two hlength =>
    rw [hlength]
    exact fixedEscape_append hlength 'x' rest
  | four hlength =>
    have hhead : (digits ++ rest).head? ≠ some '\x7b' := by
      intro heq
      rw [List.head?_append_of_ne_nil _ hdigits.ne_nil] at heq
      exact hdigits.not_mem (by decide) (List.mem_of_head? heq)
    rw [escape_u hhead, fixedEscape_append hlength, hlength]
  | braced =>
    have hbraces : '\x7b' :: (digits ++ ['\x7d']) ++ rest =
        '\x7b' :: (digits ++ '\x7d' :: rest) := by
      simp
    rw [hbraces, escape, bracedEscape_append (hdigits.not_mem (by decide))]
    simp

theorem WritesPoint.decode_append {digits behind : List Char} {marker c : Char}
    (h : WritesPoint digits marker behind) (hdigits : IsHexadecimal digits)
    (hc : hexValue digits = c.toNat) (rest : List Char) :
    decode ('\\' :: marker :: (behind ++ rest)) = c :: decode rest := by
  rw [decode_backslash, h.escape_append hdigits, codePointEscape_of_toNat hdigits hc]
  simp

theorem WritesPoint.mem_behind {digits behind : List Char} {marker : Char}
    (h : WritesPoint digits marker behind) (hdigits : IsHexadecimal digits) :
    ∀ c ∈ behind, c ∈ '\x7b' :: '\x7d' :: hexDigits := by
  have hmem : ∀ c ∈ digits, c ∈ '\x7b' :: '\x7d' :: hexDigits :=
    fun c hc => List.mem_cons_of_mem _ (List.mem_cons_of_mem _ (hdigits.mem c hc))
  cases h with
  | two => exact hmem
  | four => exact hmem
  | braced =>
    rw [List.forall_mem_cons, List.forall_mem_append]
    exact ⟨by simp, hmem, by simp⟩

theorem decode_append {text : List Char} (h : '\\' ∉ text) (rest : List Char) :
    decode (text ++ rest) = text ++ decode rest := by
  induction text with
  | nil => rfl
  | cons c text ih =>
    simp only [List.mem_cons, not_or] at h
    rw [List.cons_append, decode_cons (Ne.symm h.1), ih h.2, List.cons_append]

theorem WritesPoint.decode_append_of_not_valid {digits behind : List Char} {marker : Char}
    (h : WritesPoint digits marker behind) (hdigits : IsHexadecimal digits)
    (hvalue : ¬ (hexValue digits).isValidChar) (rest : List Char) :
    decode ('\\' :: marker :: (behind ++ rest)) = marker :: (behind ++ decode rest) := by
  have hplain : '\\' ∉ behind := fun hmem => absurd (h.mem_behind hdigits _ hmem) (by decide)
  rw [decode_backslash, h.escape_append hdigits, codePointEscape_of_not_valid hdigits hvalue,
    List.drop_one, List.tail_cons, Label.decode_append hplain]

end Label

end TestOutline
