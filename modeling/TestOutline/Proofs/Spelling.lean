import Mathlib.Data.List.Forall2
import TestOutline.Proofs.Escapes
import TestOutline.Proofs.Grammar

/-! Spellings of labels. A character of a label may be written by itself, behind a backslash, by the
letter of an escape or by its code point, each character in its own way; whatever is mixed, the
label comes back. The reader of escapes and the search for the closing quote go over a spelling in
steps of one character of the label. -/

namespace TestOutline

namespace Label
open Text

def letterEscapes : List (Char × Char) :=
  [('n', '\n'), ('t', '\t'), ('r', '\r'), ('b', '\x08'), ('f', '\x0c'), ('v', '\x0b'),
    ('0', '\x00')]

def markers : List Char :=
  ['n', 't', 'r', 'b', 'f', 'v', '0', 'x', 'u']

/-- The ways to write a character between quotes. -/
inductive Spells (quote c : Char) : List Char → Prop where
  | itself (hquote : c ≠ quote) (hbackslash : c ≠ '\\') (hfeed : c ≠ '\n') : Spells quote c [c]
  | escaped (hfeed : c ≠ '\n') (hmarker : c ∉ markers) : Spells quote c ['\\', c]
  | letter {letter : Char} (hletter : (letter, c) ∈ letterEscapes) : Spells quote c ['\\', letter]
  | codePoint {digits behind : List Char} {marker : Char} (hform : WritesPoint digits marker behind)
      (hdigits : IsHexadecimal digits) (hvalue : hexValue digits = c.toNat) :
      Spells quote c ('\\' :: marker :: behind)

theorem escape_of_not_mem {c : Char} (h : c ∉ markers) (rest : List Char) :
    escape (c :: rest) = ⟨c, 1⟩ := by
  simp only [markers, List.mem_cons, List.not_mem_nil, or_false, not_or] at h
  rw [escape.eq_def]
  split <;> simp_all

theorem escape_of_mem {letter c : Char} (h : (letter, c) ∈ letterEscapes) (rest : List Char) :
    escape (letter :: rest) = ⟨c, 1⟩ := by
  simp only [letterEscapes, List.mem_cons, List.not_mem_nil, or_false, Prod.mk.injEq] at h
  rcases h with ⟨rfl, rfl⟩ | ⟨rfl, rfl⟩ | ⟨rfl, rfl⟩ | ⟨rfl, rfl⟩ | ⟨rfl, rfl⟩ | ⟨rfl, rfl⟩ |
    ⟨rfl, rfl⟩
  all_goals rfl

theorem Spells.decode_append {quote c : Char} {text : List Char} (h : Spells quote c text)
    (rest : List Char) : decode (text ++ rest) = c :: decode rest := by
  cases h with
  | itself _ hbackslash _ => exact decode_cons hbackslash rest
  | escaped _ hmarker =>
    rw [List.cons_append, List.cons_append, List.nil_append, decode_backslash,
      escape_of_not_mem hmarker]
    rfl
  | letter hletter =>
    rw [List.cons_append, List.cons_append, List.nil_append, decode_backslash,
      escape_of_mem hletter]
    rfl
  | codePoint hform hdigits hvalue => exact hform.decode_append hdigits hvalue rest

theorem decode_flatten {quote : Char} {label : List Char} {texts : List (List Char)}
    (h : List.Forall₂ (Spells quote) label texts) : decode texts.flatten = label := by
  induction h with
  | nil => rfl
  | cons hspells _ ih => rw [List.flatten_cons, hspells.decode_append, ih]

end Label

namespace Declaration
open Label Text

theorem isBody_writesPoint {quote marker : Char} {digits behind body : List Char}
    (hquote : quote ∈ quotes) (h : WritesPoint digits marker behind)
    (hdigits : IsHexadecimal digits) (hbody : IsBody quote body) :
    IsBody quote ('\\' :: marker :: (behind ++ body)) := by
  have hnone : ('\x7b' :: '\x7d' :: hexDigits).all (fun c => c ∉ quotes ∧ c ≠ '\\') = true := by
    decide
  have hplain : ∀ c ∈ behind, c ≠ quote ∧ c ≠ '\\' := by
    intro c hc
    obtain ⟨hquotes, hbackslash⟩ :=
      of_decide_eq_true (List.all_eq_true.1 hnone c (h.mem_behind hdigits c hc))
    exact ⟨fun heq => hquotes (heq ▸ hquote), hbackslash⟩
  have hfeed : marker ≠ '\n' := by
    cases h <;> decide
  exact .escaped hfeed ((isBody_of_plain hplain).append hbody)

theorem isBody_append {quote c : Char} {text body : List Char} (hquote : quote ∈ quotes)
    (h : Spells quote c text) (hbody : IsBody quote body) : IsBody quote (text ++ body) := by
  cases h with
  | itself hne hbackslash _ => exact .plain hne hbackslash hbody
  | escaped hfeed _ => exact .escaped hfeed hbody
  | letter hletter =>
    have hfeed : letterEscapes.all (fun entry => entry.1 ≠ '\n') = true := by decide
    exact .escaped (of_decide_eq_true (List.all_eq_true.1 hfeed _ hletter)) hbody
  | codePoint hform hdigits _ => exact isBody_writesPoint hquote hform hdigits hbody

theorem isBody_flatten {quote : Char} (hquote : quote ∈ quotes) {label : List Char}
    {texts : List (List Char)} (h : List.Forall₂ (Spells quote) label texts) :
    IsBody quote texts.flatten := by
  induction h with
  | nil => exact .nil
  | cons hspells _ ih => exact isBody_append hquote hspells ih

/-- A declaration has the label that its literal spells, with each character in a way of its own,
whatever stands in front of the literal and behind it. -/
theorem ofLine?_spelled {quote : Char} (hquote : quote ∈ quotes) {label : List Char}
    {texts : List (List Char)} (h : List.Forall₂ (Spells quote) label texts) (opening : Opening)
    (closing : Closing) :
    ofLine? (opening.text ++ quote :: (texts.flatten ++ quote :: closing.text)) = some {
      kind := opening.kind
      label := .ofList label
      column := .ofNat opening.indent.length
    } := by
  let form : Form := ⟨opening, quote, texts.flatten, closing, hquote, isBody_flatten hquote h⟩
  have hline := form.ofLine?_line
  rw [Opening.declaration, decode_flatten h] at hline
  exact hline

def mixedSpellings : List (List Char) :=
  ['\\' :: 'u' :: '\x7b' :: (['0', '0', 'E', '9'] ++ ['\x7d']), ['4'], ['\\', '"'], ['\\', 'n']]

theorem ofLine?_mixedSpellings :
    List.Forall₂ (Spells '"') ['é', '4', '"', '\n'] mixedSpellings ∧
      ofLine? "describe(\"\\u\x7b00E9\x7d4\\\"\\n\")".toList =
        some ⟨.suite, "é4\"\n", 0⟩ := by
  have h : List.Forall₂ (Spells '"') ['é', '4', '"', '\n'] mixedSpellings :=
    .cons (.codePoint .braced (by decide) (by decide)) <|
      .cons (.itself (by decide) (by decide) (by decide)) <|
      .cons (.escaped (by decide) (by decide)) <| .cons (.letter (by decide)) .nil
  exact ⟨h, ofLine?_spelled (by simp [quotes]) h (.atMargin .suite) .atOnce⟩

end Declaration

end TestOutline
