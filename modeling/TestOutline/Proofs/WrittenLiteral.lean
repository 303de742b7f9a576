import Mathlib.Data.List.Forall2
import TestOutline.Proofs.Escapes
import TestOutline.Proofs.Literal

/-! String literals as JSON admits them. Between the quotes stand characters and escapes, each with
its code point; a character above U+FFFF may also be escaped by the two halves of its surrogate
pair. However the characters of a text are written, the reader gives the text back, and a literal
that writes none has no text. -/

namespace TestOutline.Json
open Text

def letterEscapes : List (Char × Char) :=
  [('"', '"'), ('\\', '\\'), ('/', '/'), ('b', '\x08'), ('f', '\x0c'), ('n', '\n'), ('r', '\r'),
    ('t', '\t')]

inductive WritesPoint : Nat → List Char → Prop where
  | itself {c : Char} (hquote : c ≠ '"') (hbackslash : c ≠ '\\') (hcontrol : 0x20 ≤ c.toNat) :
      WritesPoint c.toNat [c]
  | letter {letter c : Char} (hletter : (letter, c) ∈ letterEscapes) :
      WritesPoint c.toNat ['\\', letter]
  | codePoint {digits : List Char} (hdigits : IsHexadecimal digits) (hlength : digits.length = 4) :
      WritesPoint (hexValue digits) ('\\' :: 'u' :: digits)

inductive Spells (c : Char) : List Char → Prop where
  | point {text : List Char} (htext : WritesPoint c.toNat text) : Spells c text
  | pair {high low : Nat} {first second : List Char} (hhigh : 0xD800 ≤ high ∧ high < 0xDC00)
      (hlow : 0xDC00 ≤ low ∧ low < 0xE000)
      (hvalue : c.toNat = 0x10000 + (high - 0xD800) * 0x400 + (low - 0xDC00))
      (hfirst : WritesPoint high first) (hsecond : WritesPoint low second) :
      Spells c (first ++ second)

/-- The texts between the quotes of a literal. One that is well formed and writes no text holds an
unpaired surrogate. -/
inductive WritesLiteral : Option String → List Char → Prop where
  | text {text : String} {pieces : List (List Char)}
      (hpieces : List.Forall₂ Spells text.toList pieces) :
      WritesLiteral (some text) pieces.flatten
  | noText {points : List Nat} {pieces : List (List Char)}
      (hpieces : List.Forall₂ WritesPoint points pieces)
      (hnone : ∀ text others, List.Forall₂ Spells text others → others.flatten ≠ pieces.flatten) :
      WritesLiteral none pieces.flatten

theorem isControl_eq_false {c : Char} (h : 0x20 ≤ c.toNat) : isControl c = false := by
  simpa [isControl] using h

theorem codePoints?_codePoint {digits : List Char} (hdigits : IsHexadecimal digits)
    (hlength : digits.length = 4) (rest : List Char) :
    codePoints? ('\\' :: 'u' :: digits ++ rest) =
      (codePoints? rest).map (hexValue digits :: ·) := by
  match digits, hlength with
  | [a, b, c, d], _ =>
    have hvalue := hdigits.numeral?
    simp only [List.cons_append, List.nil_append]
    rw [codePoints?, hvalue, Option.bind_some]

theorem WritesPoint.codePoints?_append {point : Nat} {text : List Char} (h : WritesPoint point text)
    (rest : List Char) : codePoints? (text ++ rest) = (codePoints? rest).map (point :: ·) := by
  cases h with
  | itself hquote hbackslash hcontrol =>
    exact codePoints?_plain hbackslash (isControl_eq_false hcontrol) rest
  | letter hletter =>
    have hall : letterEscapes.all (fun entry => entry.1 ≠ 'u' ∧
        shortEscape? entry.1 = some entry.2) = true := by
      decide
    obtain ⟨hu, hread⟩ := of_decide_eq_true (List.all_eq_true.1 hall _ hletter)
    rw [List.cons_append, List.cons_append, List.nil_append, codePoints?_letter hu, hread,
      Option.bind_some]
  | codePoint hdigits hlength => exact codePoints?_codePoint hdigits hlength rest

theorem codePoints?_flatten {points : List Nat} {pieces : List (List Char)}
    (h : List.Forall₂ WritesPoint points pieces) : codePoints? pieces.flatten = some points := by
  induction h with
  | nil => rfl
  | cons hpoint _ ih => rw [List.flatten_cons, hpoint.codePoints?_append, ih, Option.map_some]

theorem isLeading_iff {n : Nat} : isLeading n = true ↔ 0xD800 ≤ n ∧ n < 0xDC00 := by
  rw [isLeading, Bool.and_eq_true, decide_eq_true_eq, decide_eq_true_eq]

theorem isTrailing_iff {n : Nat} : isTrailing n = true ↔ 0xDC00 ≤ n ∧ n < 0xE000 := by
  rw [isTrailing, Bool.and_eq_true, decide_eq_true_eq, decide_eq_true_eq]

theorem toNat_ofNat {n : Nat} (h : n.isValidChar) : (Char.ofNat n).toNat = n := by
  rw [Char.ofNat, dif_pos h]
  rfl

theorem hexValue_lt {digits : List Char} (h : IsHexadecimal digits) :
    hexValue digits < 16 ^ digits.length := by
  have hall : hexDigits.all (fun c => hexDigit c < 16) = true := by decide
  have hlt := @Nat.ofDigits_lt_base_pow_length 16 (digits.reverse.map hexDigit) (by decide)
  rw [List.length_map, List.length_reverse] at hlt
  apply hlt
  intro n hn
  obtain ⟨c, hc, rfl⟩ := List.mem_map.1 hn
  exact of_decide_eq_true (List.all_eq_true.1 hall c (h.mem c (List.mem_reverse.1 hc)))

theorem WritesPoint.isValidChar {point : Nat} {text : List Char} (h : WritesPoint point text)
    (hleading : isLeading point = false) (htrailing : isTrailing point = false) :
    point.isValidChar := by
  cases h with
  | @itself c => exact c.valid
  | @letter _ c => exact c.valid
  | codePoint hdigits hlength =>
    have hlt := hexValue_lt hdigits
    rw [hlength] at hlt
    rw [← Bool.not_eq_true, isLeading_iff] at hleading
    rw [← Bool.not_eq_true, isTrailing_iff] at htrailing
    rw [Nat.isValidChar]
    omega

theorem WritesPoint.spells {point : Nat} {text : List Char} (h : WritesPoint point text)
    (hleading : isLeading point = false) (htrailing : isTrailing point = false) :
    Spells (.ofNat point) text := by
  have hvalid := h.isValidChar hleading htrailing
  exact .point ((toNat_ofNat hvalid).symm ▸ h)

theorem Spells.exists_points {c : Char} {text : List Char} (h : Spells c text) :
    ∃ points pieces, List.Forall₂ WritesPoint points pieces ∧ pieces.flatten = text ∧
      ∀ rest, characters? (points ++ rest) = (characters? rest).map (c :: ·) := by
  cases h with
  | point htext =>
    exact ⟨[c.toNat], [text], .cons htext .nil, by simp, fun rest => characters?_cons c rest⟩
  | @pair high low first second hhigh hlow hvalue hfirst hsecond =>
    refine ⟨[high, low], [first, second], .cons hfirst (.cons hsecond .nil), by simp,
      fun rest => ?_⟩
    rw [List.cons_append, List.cons_append, List.nil_append, characters?,
      if_pos (isLeading_iff.2 hhigh), if_pos (isTrailing_iff.2 hlow), ← hvalue, Char.ofNat_toNat]

theorem exists_points_of_spells {text : List Char} {pieces : List (List Char)}
    (h : List.Forall₂ Spells text pieces) :
    ∃ points parts, List.Forall₂ WritesPoint points parts ∧ parts.flatten = pieces.flatten ∧
      characters? points = some text := by
  induction h with
  | nil => exact ⟨[], [], .nil, rfl, rfl⟩
  | cons hspells _ ih =>
    obtain ⟨points, parts, hparts, hflatten, hread⟩ := ih
    obtain ⟨front, frontParts, hfront, hfrontFlatten, hstep⟩ := hspells.exists_points
    refine ⟨front ++ points, frontParts ++ parts, List.rel_append hfront hparts, ?_, ?_⟩
    · rw [List.flatten_append, hfrontFlatten, hflatten, List.flatten_cons]
    · rw [hstep, hread, Option.map_some]

theorem exists_spells_of_characters? {points : List Nat} {pieces : List (List Char)}
    {text : List Char} (h : List.Forall₂ WritesPoint points pieces)
    (hread : characters? points = some text) :
    ∃ others, List.Forall₂ Spells text others ∧ others.flatten = pieces.flatten := by
  fun_induction characters? points generalizing pieces text with
  | case1 =>
    cases h
    cases hread
    exact ⟨[], .nil, rfl⟩
  | case2 high low rest hhigh hlow ih =>
    obtain ⟨first, others, hfirst, hothers, rfl⟩ := List.forall₂_cons_left_iff.1 h
    obtain ⟨second, behind, hsecond, hbehind, rfl⟩ := List.forall₂_cons_left_iff.1 hothers
    obtain ⟨chars, hchars, rfl⟩ := Option.map_eq_some_iff.1 hread
    obtain ⟨texts, htexts, hflatten⟩ := ih hbehind hchars
    have hleading := isLeading_iff.1 hhigh
    have htrailing := isTrailing_iff.1 hlow
    refine ⟨(first ++ second) :: texts, .cons (.pair hleading htrailing ?_ hfirst hsecond) htexts,
      by simp [hflatten]⟩
    exact toNat_ofNat (.inr (by omega))
  | case3 => simp at hread
  | case4 => simp at hread
  | case5 n low rest hleading htrailing ih =>
    obtain ⟨first, others, hfirst, hothers, rfl⟩ := List.forall₂_cons_left_iff.1 h
    obtain ⟨chars, hchars, rfl⟩ := Option.map_eq_some_iff.1 hread
    obtain ⟨texts, htexts, hflatten⟩ := ih hothers hchars
    have hspells := hfirst.spells (by simpa using hleading) (by simpa using htrailing)
    exact ⟨first :: texts, .cons hspells htexts, by simp [hflatten]⟩
  | case6 => simp at hread
  | case7 n hsurrogate =>
    obtain ⟨first, others, hfirst, hothers, rfl⟩ := List.forall₂_cons_left_iff.1 h
    cases hothers
    cases hread
    rw [Bool.or_eq_true, not_or, Bool.not_eq_true, Bool.not_eq_true] at hsurrogate
    exact ⟨[first], .cons (hfirst.spells hsurrogate.1 hsurrogate.2) .nil, rfl⟩

theorem WritesLiteral.exists_points {text : Option String} {body : List Char}
    (h : WritesLiteral text body) :
    ∃ points pieces, List.Forall₂ WritesPoint points pieces ∧ pieces.flatten = body := by
  cases h with
  | text hpieces =>
    obtain ⟨points, parts, hparts, hflatten, -⟩ := exists_points_of_spells hpieces
    exact ⟨points, parts, hparts, hflatten⟩
  | noText hpieces => exact ⟨_, _, hpieces, rfl⟩

theorem WritesLiteral.unquote? {text : Option String} {body : List Char}
    (h : WritesLiteral text body) : unquote? body = some text := by
  cases h with
  | text hpieces =>
    obtain ⟨points, parts, hparts, hflatten, hread⟩ := exists_points_of_spells hpieces
    rw [Json.unquote?, ← hflatten, codePoints?_flatten hparts, Option.map_some, hread,
      Option.map_some, String.ofList_toList]
  | noText hpieces hnone =>
    rw [Json.unquote?, codePoints?_flatten hpieces, Option.map_some]
    cases hread : characters? _ with
    | none => rfl
    | some text =>
      obtain ⟨others, hothers, hflatten⟩ := exists_spells_of_characters? hpieces hread
      exact absurd hflatten (hnone text others hothers)

theorem forall₂_spells_itself {text : List Char}
    (h : text.all (fun c => c ≠ '"' ∧ c ≠ '\\' ∧ 0x20 ≤ c.toNat) = true) :
    List.Forall₂ Spells text (text.map ([·])) := by
  induction text with
  | nil => exact .nil
  | cons c text ih =>
    rw [List.all_cons, Bool.and_eq_true, decide_eq_true_eq] at h
    obtain ⟨⟨hquote, hbackslash, hcontrol⟩, hrest⟩ := h
    exact .cons (.point (.itself hquote hbackslash hcontrol)) (ih hrest)

theorem WritesLiteral.none_of_characters? {points : List Nat} {pieces : List (List Char)}
    (h : List.Forall₂ WritesPoint points pieces) (hnone : characters? points = none) :
    WritesLiteral none pieces.flatten := by
  refine .noText h fun text others hothers hflatten => ?_
  obtain ⟨read, parts, hparts, hsame, hread⟩ := exists_points_of_spells hothers
  have hpoints := codePoints?_flatten hparts
  rw [hsame, hflatten, codePoints?_flatten h, Option.some.injEq] at hpoints
  simp [← hpoints, hnone] at hread

end TestOutline.Json
