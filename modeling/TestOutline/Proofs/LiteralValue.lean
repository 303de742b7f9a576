import TestOutline.Proofs.Spelling

/-! Labels and the values of string literals. The language of the tests gives a string literal a
sequence of UTF-16 code units as its value, and two escapes next to each other may spell the halves
of one character. A label is read character by character: it is the value of its literal exactly if
no escape in the literal spells half of a character and no line is continued in it. -/

namespace TestOutline

namespace StringLiteral
open Declaration Label Text

/-- The code units of a code point in UTF-16. Half of a surrogate pair stands for itself. -/
def codeUnits (point : Nat) : List Nat :=
  if point < 0x10000 then [point]
  else [0xD800 + (point - 0x10000) / 0x400, 0xDC00 + (point - 0x10000) % 0x400]

def encode (text : List Char) : List Nat :=
  text.flatMap fun c => codeUnits c.toNat

def singleEscapes : List (Char × Char) :=
  [('\'', '\''), ('"', '"'), ('\\', '\\'), ('b', '\x08'), ('f', '\x0c'), ('n', '\n'), ('r', '\r'),
    ('t', '\t'), ('v', '\x0b')]

def lineTerminators : List Char :=
  ['\n', '\r', '\u2028', '\u2029']

def decimalDigits : List Char :=
  "0123456789".toList

inductive Piece where
  | itself (c : Char)
  | single (letter c : Char)
  | other (c : Char)
  | null
  | codePoint (digits : List Char) (marker : Char) (behind : List Char)
  | continuation (terminator : Char)

namespace Piece

def text : Piece → List Char
  | itself c => [c]
  | single letter _ => ['\\', letter]
  | other c => ['\\', c]
  | null => ['\\', '0']
  | codePoint _ marker behind => '\\' :: marker :: behind
  | continuation terminator => ['\\', terminator]

def units : Piece → List Nat
  | itself c => codeUnits c.toNat
  | single _ c => codeUnits c.toNat
  | other c => codeUnits c.toNat
  | null => [0]
  | codePoint digits _ _ => codeUnits (hexValue digits)
  | continuation _ => []

/-- Whether a piece may stand between such quotes. Strict mode has no octal escapes, so no decimal
digit is escaped but the zero. -/
def Valid (quote : Char) : Piece → Prop
  | itself c => c ≠ quote ∧ c ≠ '\\' ∧ c ≠ '\n' ∧ c ≠ '\r'
  | single letter c => (letter, c) ∈ singleEscapes
  | other c => c ∉ singleEscapes.map (·.1) ∧ c ∉ decimalDigits ∧ c ∉ ['x', 'u'] ∧
      c ∉ lineTerminators
  | null => True
  | codePoint digits marker behind => WritesPoint digits marker behind ∧ IsHexadecimal digits ∧
      hexValue digits < 0x110000
  | continuation terminator => terminator ∈ lineTerminators

/-- Whether a piece denotes a character by itself: it does not continue the literal on another line,
and it is not an escape for half of a surrogate pair. -/
def DenotesCharacter : Piece → Prop
  | codePoint digits _ _ => hexValue digits < 0xD800 ∨ 0xDFFF < hexValue digits
  | continuation _ => False
  | _ => True

end Piece

def spelled (pieces : List Piece) : List Char :=
  pieces.flatMap Piece.text

def units (pieces : List Piece) : List Nat :=
  pieces.flatMap Piece.units

/-- The string literals of strict mode: no decimal digit follows an escaped zero. -/
def IsLiteral (quote : Char) : List Piece → Prop
  | [] => True
  | piece :: pieces => piece.Valid quote ∧
      (piece = .null → ∀ c ∈ (spelled pieces).head?, c ∉ decimalDigits) ∧ IsLiteral quote pieces

theorem codeUnits_of_lt {point : Nat} (h : point < 0x10000) : codeUnits point = [point] :=
  if_pos h

theorem codeUnits_of_le {point : Nat} (h : 0x10000 ≤ point) : codeUnits point =
    [0xD800 + (point - 0x10000) / 0x400, 0xDC00 + (point - 0x10000) % 0x400] :=
  if_neg (by omega)

@[simp] theorem encode_nil : encode [] = [] := rfl

theorem encode_cons (c : Char) (text : List Char) :
    encode (c :: text) = codeUnits c.toNat ++ encode text :=
  List.flatMap_cons

theorem encode_append (first second : List Char) :
    encode (first ++ second) = encode first ++ encode second :=
  List.flatMap_append

theorem length_codeUnits_pos (point : Nat) : 0 < (codeUnits point).length := by
  by_cases h : point < 0x10000
  · simp [codeUnits_of_lt h]
  · simp [codeUnits_of_le (Nat.not_lt.1 h)]

theorem length_le_length_encode (text : List Char) : text.length ≤ (encode text).length := by
  induction text with
  | nil => exact le_rfl
  | cons c text ih =>
    have hpos := length_codeUnits_pos c.toNat
    rw [encode_cons, List.length_append, List.length_cons]
    omega

theorem isValidChar_iff (n : Nat) :
    n.isValidChar ↔ n < 0x110000 ∧ (n < 0xD800 ∨ 0xDFFF < n) := by
  rw [Nat.isValidChar]
  omega

theorem codeUnits_append_inj {c d : Char} {first second : List Nat}
    (h : codeUnits c.toNat ++ first = codeUnits d.toNat ++ second) : c = d ∧ first = second := by
  obtain ⟨hc, hcPlain⟩ := (isValidChar_iff c.toNat).1 c.valid
  obtain ⟨hd, hdPlain⟩ := (isValidChar_iff d.toNat).1 d.valid
  by_cases hcPair : c.toNat < 0x10000
  · by_cases hdPair : d.toNat < 0x10000
    · rw [codeUnits_of_lt hcPair, codeUnits_of_lt hdPair] at h
      simpa [Char.toNat_inj] using h
    · rw [codeUnits_of_lt hcPair, codeUnits_of_le (Nat.not_lt.1 hdPair)] at h
      simp only [List.cons_append, List.cons.injEq] at h
      omega
  · by_cases hdPair : d.toNat < 0x10000
    · rw [codeUnits_of_lt hdPair, codeUnits_of_le (Nat.not_lt.1 hcPair)] at h
      simp only [List.cons_append, List.cons.injEq] at h
      omega
    · rw [codeUnits_of_le (Nat.not_lt.1 hcPair), codeUnits_of_le (Nat.not_lt.1 hdPair)] at h
      simp only [List.cons_append, List.nil_append, List.cons.injEq] at h
      obtain ⟨hhigh, hlow, hrest⟩ := h
      exact ⟨Char.toNat_inj.1 (by omega), hrest⟩

theorem encode_inj {first second : List Char} : encode first = encode second ↔ first = second := by
  constructor
  · intro h
    induction first generalizing second with
    | nil =>
      have hlength := length_le_length_encode second
      rw [← h] at hlength
      exact (List.length_eq_zero_iff.1 (Nat.le_zero.1 hlength)).symm
    | cons c first ih =>
      cases second with
      | nil =>
        have hlength := length_le_length_encode (c :: first)
        rw [h] at hlength
        simp at hlength
      | cons d second =>
        rw [encode_cons, encode_cons] at h
        obtain ⟨rfl, hrest⟩ := codeUnits_append_inj h
        rw [ih hrest]
  · exact congrArg encode

namespace Piece

theorem exists_spells {quote : Char} {piece : Piece} (h : piece.Valid quote)
    (hcharacter : piece.DenotesCharacter) :
    ∃ c, Spells quote c piece.text ∧ piece.units = codeUnits c.toNat := by
  cases piece with
  | itself c => exact ⟨c, .itself h.1 h.2.1 h.2.2.1, rfl⟩
  | single letter c =>
    have hall : singleEscapes.all (fun entry => entry ∈ letterEscapes ∨
        entry.1 = entry.2 ∧ entry.2 ∉ markers ∧ entry.2 ≠ '\n') = true := by
      decide
    have hentry := of_decide_eq_true (List.all_eq_true.1 hall _ h)
    rcases hentry with hletter | ⟨hsame, hmarker, hfeed⟩
    · exact ⟨c, .letter hletter, rfl⟩
    · obtain rfl : letter = c := hsame
      exact ⟨letter, .escaped hfeed hmarker, rfl⟩
  | other c =>
    obtain ⟨hsingle, hdecimal, hpoint, hterminator⟩ := h
    have hall : markers.all (fun marker => marker ∈ singleEscapes.map (·.1) ∨
        marker ∈ decimalDigits ∨ marker ∈ ['x', 'u']) = true := by
      decide
    have hmarker : c ∉ markers := by
      intro hmem
      have hc := of_decide_eq_true (List.all_eq_true.1 hall c hmem)
      exact hc.elim hsingle fun hc => hc.elim hdecimal hpoint
    have hfeed : c ≠ '\n' := by
      rintro rfl
      exact hterminator (by decide)
    exact ⟨c, .escaped hfeed hmarker, rfl⟩
  | null => exact ⟨'\x00', .letter (by decide), rfl⟩
  | codePoint digits marker behind =>
    obtain ⟨hform, hdigits, hbound⟩ := h
    have hvalid : (hexValue digits).isValidChar := (isValidChar_iff _).2 ⟨hbound, hcharacter⟩
    have hvalue : hexValue digits = (Char.ofNat (hexValue digits)).toNat := by
      rw [Char.ofNat, dif_pos hvalid]
      rfl
    exact ⟨_, .codePoint hform hdigits hvalue, congrArg codeUnits hvalue⟩
  | continuation terminator => exact hcharacter.elim

theorem exists_read {quote : Char} {piece : Piece} (h : piece.Valid quote)
    (hfeed : '\n' ∉ piece.text) :
    ∃ read, (∀ rest, decode (piece.text ++ rest) = read ++ decode rest) ∧
      piece.units.length ≤ (encode read).length ∧
      (encode read = piece.units ↔ piece.DenotesCharacter) := by
  by_cases hcharacter : piece.DenotesCharacter
  · obtain ⟨c, hspells, hunits⟩ := exists_spells h hcharacter
    have hencode : encode [c] = piece.units := by
      rw [hunits, encode_cons, encode_nil, List.append_nil]
    exact ⟨[c], hspells.decode_append, by rw [hencode], by simp [hencode, hcharacter]⟩
  · -- The other pieces are read as more code units than they add.
    suffices hread : ∃ read, (∀ rest, decode (piece.text ++ rest) = read ++ decode rest) ∧
        piece.units.length < read.length by
      obtain ⟨read, hdecode, hlt⟩ := hread
      have hlength := hlt.trans_le (length_le_length_encode read)
      refine ⟨read, hdecode, hlength.le, ?_⟩
      simp only [hcharacter, iff_false]
      exact fun heq => absurd (congrArg List.length heq) (by omega)
    cases piece with
    | codePoint digits marker behind =>
      obtain ⟨hform, hdigits, hbound⟩ := h
      have hvalue : ¬ (hexValue digits).isValidChar :=
        fun hvalid => hcharacter ((isValidChar_iff _).1 hvalid).2
      refine ⟨marker :: behind, hform.decode_append_of_not_valid hdigits hvalue, ?_⟩
      have hunits : (codePoint digits marker behind).units = [hexValue digits] :=
        codeUnits_of_lt (by simp only [DenotesCharacter] at hcharacter; omega)
      have hbehind : behind ≠ [] := by
        cases hform with
        | two => exact hdigits.ne_nil
        | four => exact hdigits.ne_nil
        | braced => simp
      have hpos := List.length_pos_of_ne_nil hbehind
      rw [hunits, List.length_singleton, List.length_cons]
      omega
    | continuation terminator =>
      have hmarker : lineTerminators.all (fun c => c ∉ markers) = true := by decide
      have hspells : Spells quote terminator ['\\', terminator] :=
        .escaped (fun heq => hfeed (by simp [text, heq]))
          (of_decide_eq_true (List.all_eq_true.1 hmarker terminator h))
      exact ⟨[terminator], hspells.decode_append, Nat.zero_lt_one⟩
    | _ => exact absurd trivial hcharacter

theorem isBody_append {quote : Char} {piece : Piece} (hquote : quote ∈ quotes)
    (h : piece.Valid quote) (hfeed : '\n' ∉ piece.text) {body : List Char}
    (hbody : IsBody quote body) : IsBody quote (piece.text ++ body) := by
  have hescaped (c : Char) (hc : '\n' ∉ ['\\', c]) : IsBody quote ('\\' :: c :: body) :=
    .escaped (fun heq => hc (by simp [heq])) hbody
  cases piece with
  | itself c => exact .plain h.1 h.2.1 hbody
  | single letter c => exact hescaped letter hfeed
  | other c => exact hescaped c hfeed
  | null => exact hescaped '0' hfeed
  | codePoint digits marker behind => exact isBody_writesPoint hquote h.1 h.2.1 hbody
  | continuation terminator => exact hescaped terminator hfeed

end Piece

theorem isBody_spelled {quote : Char} (hquote : quote ∈ quotes) {pieces : List Piece}
    (h : IsLiteral quote pieces) (hfeed : '\n' ∉ spelled pieces) :
    IsBody quote (spelled pieces) := by
  induction pieces with
  | nil => exact .nil
  | cons piece pieces ih =>
    simp only [spelled, List.flatMap_cons, List.mem_append, not_or] at hfeed ⊢
    exact Piece.isBody_append hquote h.1 hfeed.1 (ih h.2.2 hfeed.2)

theorem encode_decode_spelled {quote : Char} {pieces : List Piece} (h : IsLiteral quote pieces)
    (hfeed : '\n' ∉ spelled pieces) :
    (units pieces).length ≤ (encode (decode (spelled pieces))).length ∧
      (encode (decode (spelled pieces)) = units pieces ↔
        ∀ piece ∈ pieces, piece.DenotesCharacter) := by
  induction pieces with
  | nil => simp [spelled, units]
  | cons piece pieces ih =>
    simp only [spelled, List.flatMap_cons, List.mem_append, not_or] at hfeed
    obtain ⟨read, hdecode, hle, hiff⟩ := Piece.exists_read h.1 hfeed.1
    obtain ⟨hrestLe, hrest⟩ := ih h.2.2 hfeed.2
    have hencode : encode (decode (spelled (piece :: pieces))) =
        encode read ++ encode (decode (spelled pieces)) := by
      rw [spelled, List.flatMap_cons, hdecode, encode_append]
      rfl
    have hunits : units (piece :: pieces) = piece.units ++ units pieces := List.flatMap_cons
    rw [hencode, hunits, List.forall_mem_cons, ← hiff, ← hrest, List.length_append,
      List.length_append]
    refine ⟨by omega, ?_, ?_⟩
    · -- Neither part is shorter than it should be, so equal wholes are cut at the same place.
      intro heq
      have hlength := congrArg List.length heq
      rw [List.length_append, List.length_append] at hlength
      exact List.append_inj heq (by omega)
    · rintro ⟨hread, hdecoded⟩
      rw [hread, hdecoded]

/-- The label of a declaration is the value of its literal exactly if every piece of the literal
denotes a character by itself. -/
theorem label_eq_value_iff {quote : Char} (hquote : quote ∈ ['\'', '"']) {pieces : List Piece}
    (hliteral : IsLiteral quote pieces) (hline : '\n' ∉ spelled pieces) {value : String}
    (hvalue : encode value.toList = units pieces) {opening : Opening} {behind : List Char}
    {declaration : Declaration}
    (hdeclared : ofLine? (opening.text ++ quote :: (spelled pieces ++ quote :: behind)) =
      some declaration) :
    declaration.label = value ↔ ∀ piece ∈ pieces, piece.DenotesCharacter := by
  have hquotes : quote ∈ quotes := List.mem_append_left ['\x60'] hquote
  have hbody := isBody_spelled hquotes hliteral hline
  have hlabel : declaration.label = .ofList (decode (spelled pieces)) :=
    congrArg Declaration.label (Opening.eq_declaration_of_ofLine? hquotes hbody hdeclared)
  rw [hlabel, ← (encode_decode_spelled hliteral hline).2, ← hvalue, encode_inj,
    ← String.toList_inj, String.toList_ofList]

def facePieces : List Piece :=
  [.itself '😀', .codePoint "1F600".toList 'u' "\x7b1F600\x7d".toList, .single '\'' '\'']

theorem label_facePieces :
    IsLiteral '\'' facePieces ∧ encode "😀😀'".toList = units facePieces ∧
      ∃ declaration, ofLine? ((Opening.atMargin .testCase).text ++
          '\'' :: (spelled facePieces ++ "')".toList)) = some declaration ∧
        declaration.label = "😀😀'" := by
  have hliteral : IsLiteral '\'' facePieces :=
    ⟨⟨by decide, by decide, by decide, by decide⟩, nofun,
      ⟨.braced, by decide, by decide⟩, nofun, by simp [Piece.Valid, singleEscapes], nofun, trivial⟩
  have hvalue : encode "😀😀'".toList = units facePieces := by decide
  have hdeclared : ofLine? ((Opening.atMargin .testCase).text ++
      '\'' :: (spelled facePieces ++ "')".toList)) = some ⟨.testCase, "😀😀'", 0⟩ := by
    decide
  refine ⟨hliteral, hvalue, _, hdeclared, ?_⟩
  rw [label_eq_value_iff (by simp) hliteral (by decide) hvalue hdeclared]
  intro piece hpiece
  simp only [facePieces, List.mem_cons, List.not_mem_nil, or_false] at hpiece
  rcases hpiece with rfl | rfl | rfl
  · trivial
  · exact .inr (by decide)
  · trivial

def pairPieces : List Piece :=
  [.codePoint "D83D".toList 'u' "D83D".toList, .codePoint "DE00".toList 'u' "DE00".toList]

theorem exists_label_ne_value :
    ¬ ∀ quote ∈ ['\'', '"'], ∀ pieces, IsLiteral quote pieces → '\n' ∉ spelled pieces →
      ∀ value : String, encode value.toList = units pieces →
        ∀ (opening : Opening) (behind : List Char) (declaration : Declaration),
          ofLine? (opening.text ++ quote :: (spelled pieces ++ quote :: behind)) =
            some declaration → declaration.label = value := by
  intro hall
  have hliteral : IsLiteral '\'' pairPieces :=
    ⟨⟨.four rfl, by decide, by decide⟩, nofun, ⟨.four rfl, by decide, by decide⟩, nofun, trivial⟩
  have hdeclared : ofLine? ((Opening.atMargin .testCase).text ++
      '\'' :: (spelled pairPieces ++ "')".toList)) = some ⟨.testCase, "uD83DuDE00", 0⟩ := by
    decide
  have hlabel := hall '\'' (by simp) pairPieces hliteral (by decide) "😀" (by decide)
    (.atMargin .testCase) [')'] _ hdeclared
  exact absurd hlabel (by decide)

end StringLiteral

end TestOutline
