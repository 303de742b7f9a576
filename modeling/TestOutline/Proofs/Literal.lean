import TestOutline.Json.Literal

/-! String literals of JSON, written and read back. Escaping goes character by character, and what
is written for a character is read as the code point of that character; so a text comes back from
its literal whatever characters are in it. -/

namespace TestOutline.Json
open Text

theorem mem_of_lookup_eq_some {c letter : Char} {escapes : List (Char × Char)}
    (h : escapes.lookup c = some letter) : (c, letter) ∈ escapes := by
  obtain ⟨before, behind, hsplit, -⟩ := List.lookup_eq_some_iff.1 h
  rw [hsplit]
  exact List.mem_append_right _ (List.mem_cons_self ..)

theorem escapeCharacter_cases (c : Char) :
    (∃ letter, (c, letter) ∈ shortEscapes ∧ escapeCharacter c = ['\\', letter]) ∨
      (c.toNat < 0x20 ∧ escapeCharacter c =
        ['\\', 'u', '0', '0', lowerHexDigit (c.toNat / 16), lowerHexDigit (c.toNat % 16)]) ∨
      (c ≠ '"' ∧ c ≠ '\\' ∧ isControl c = false ∧ escapeCharacter c = [c]) := by
  rw [escapeCharacter]
  cases hshort : shortEscapes.lookup c with
  | some letter => exact .inl ⟨letter, mem_of_lookup_eq_some hshort, rfl⟩
  | none =>
    by_cases hcontrol : isControl c = true
    · exact .inr (.inl ⟨of_decide_eq_true hcontrol, if_pos hcontrol⟩)
    · have hquote : c ≠ '"' := by
        rintro rfl
        exact absurd hshort (by decide)
      have hbackslash : c ≠ '\\' := by
        rintro rfl
        exact absurd hshort (by decide)
      exact .inr (.inr ⟨hquote, hbackslash, by simpa using hcontrol, if_neg hcontrol⟩)

theorem codePoints?_letter {letter : Char} (h : letter ≠ 'u') (rest : List Char) :
    codePoints? ('\\' :: letter :: rest) =
      (shortEscape? letter).bind fun c => (codePoints? rest).map (c.toNat :: ·) := by
  rw [codePoints?.eq_def]
  split
  · next heq => simp at heq
  · next heq =>
    simp only [List.cons.injEq, true_and] at heq
    exact absurd heq.1 h
  · next heq =>
    simp only [List.cons.injEq, true_and] at heq
    obtain ⟨rfl, rfl⟩ := heq
    rfl
  · next hshort heq =>
    obtain ⟨rfl, rfl⟩ := List.cons.inj heq
    exact absurd rfl (hshort letter rest rfl)

theorem codePoints?_plain {c : Char} (hbackslash : c ≠ '\\') (hcontrol : isControl c = false)
    (rest : List Char) : codePoints? (c :: rest) = (codePoints? rest).map (c.toNat :: ·) := by
  rw [codePoints?.eq_def]
  split
  · next heq => simp at heq
  · next heq => exact absurd (List.cons.inj heq).1 hbackslash
  · next heq => exact absurd (List.cons.inj heq).1 hbackslash
  · next heq =>
    obtain ⟨rfl, rfl⟩ := List.cons.inj heq
    simp [hbackslash, hcontrol]

theorem codePoints?_escapeCharacter (c : Char) (rest : List Char) :
    codePoints? (escapeCharacter c ++ rest) = (codePoints? rest).map (c.toNat :: ·) := by
  rcases escapeCharacter_cases c with
    ⟨letter, hmem, heq⟩ | ⟨hlt, heq⟩ | ⟨-, hbackslash, hcontrol, heq⟩
  · have hletters : ∀ pair ∈ shortEscapes, pair.2 ≠ 'u' ∧ shortEscape? pair.2 = some pair.1 := by
      decide
    obtain ⟨hu, hread⟩ := hletters _ hmem
    rw [heq, List.cons_append, List.cons_append, List.nil_append, codePoints?_letter hu, hread]
    rfl
  · have hdigits : ∀ n < 0x20, numeral? 16 ['0', '0', lowerHexDigit (n / 16),
        lowerHexDigit (n % 16)] = some n := by
      decide
    rw [heq, List.cons_append, List.cons_append, List.cons_append, List.cons_append,
      List.cons_append, List.cons_append, List.nil_append, codePoints?, hdigits _ hlt]
    rfl
  · rw [heq, List.singleton_append, codePoints?_plain hbackslash hcontrol]

theorem codePoints?_flatMap (text : List Char) :
    codePoints? (text.flatMap escapeCharacter) = some (text.map Char.toNat) := by
  induction text with
  | nil => rfl
  | cons c text ih =>
    rw [List.flatMap_cons, codePoints?_escapeCharacter, ih]
    rfl

theorem not_surrogate (c : Char) : isLeading c.toNat = false ∧ isTrailing c.toNat = false := by
  have hvalid : c.toNat < 0xD800 ∨ 0xDFFF < c.toNat ∧ c.toNat < 0x110000 := c.valid
  constructor
  · rw [isLeading, Bool.and_eq_false_iff, decide_eq_false_iff_not, decide_eq_false_iff_not]
    omega
  · rw [isTrailing, Bool.and_eq_false_iff, decide_eq_false_iff_not, decide_eq_false_iff_not]
    omega

theorem characters?_cons (c : Char) (points : List Nat) :
    characters? (c.toNat :: points) = (characters? points).map (c :: ·) := by
  obtain ⟨hleading, htrailing⟩ := not_surrogate c
  cases points with
  | nil => simp [characters?, hleading, htrailing]
  | cons low rest => simp [characters?, hleading, htrailing]

theorem characters?_map_toNat (text : List Char) :
    characters? (text.map Char.toNat) = some text := by
  induction text with
  | nil => rfl
  | cons c text ih =>
    rw [List.map_cons, characters?_cons, ih]
    rfl

theorem unquote?_flatMap (text : String) :
    unquote? (text.toList.flatMap escapeCharacter) = some (some text) := by
  rw [unquote?, codePoints?_flatMap, Option.map_some, characters?_map_toNat, Option.map_some,
    String.ofList_toList]

end TestOutline.Json
