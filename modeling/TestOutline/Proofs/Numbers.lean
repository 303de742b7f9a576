import Mathlib.Data.List.TakeWhile
import Mathlib.Tactic.ByContra
import TestOutline.Json.Token

/-! Numbers as JSON spells them. The digits of a number are read back as the number, and they spell
it without a zero in front of other digits. No spelling of a number has a character in it that could
end a word, and none is one of the literal names, so a number is taken for itself. -/

namespace TestOutline

namespace Text

theorem digit?_of_isDigit {c : Char} (h : c.isDigit = true) :
    digit? 10 c = some (c.toNat - '0'.toNat) := by
  have hrange : '0' ≤ c ∧ c ≤ '9' := by
    simpa [Char.isDigit, Char.le_def] using h
  have hbound : c.toNat ≤ '9'.toNat := UInt32.le_iff_toNat_le.1 hrange.2
  have hlt : c.toNat - '0'.toNat < 10 := by
    simp only [Char.reduceToNat] at hbound ⊢
    omega
  rw [digit?, hexDigit?, if_pos hrange, Option.filter_some, if_pos (decide_eq_true hlt)]

theorem readDigits?_of_isDigit {digits : List Char} (h : ∀ c ∈ digits, c.isDigit = true)
    (value : Nat) : readDigits? 10 value digits = some (Nat.ofDigitChars 10 digits value) := by
  induction digits generalizing value with
  | nil => simp [readDigits?]
  | cons c digits ih =>
    rw [readDigits?, digit?_of_isDigit (h c (List.mem_cons_self ..)), Option.bind_some,
      ih fun other hmem => h other (List.mem_cons_of_mem _ hmem), Nat.ofDigitChars_cons,
      Nat.mul_comm]

theorem isDigit_of_digit? {c : Char} {value : Nat} (h : digit? 10 c = some value) :
    c.isDigit = true := by
  obtain ⟨hvalue, hlt⟩ := Option.filter_eq_some_iff.1 h
  rw [decide_eq_true_eq] at hlt
  rw [hexDigit?] at hvalue
  split at hvalue
  · next hrange => simpa [Char.isDigit, Char.le_def] using hrange
  · split at hvalue
    · have hten := Option.some.inj hvalue
      omega
    · split at hvalue
      · have hten := Option.some.inj hvalue
        omega
      · simp at hvalue

theorem isDigit_of_readDigits? {digits : List Char} {start value : Nat}
    (h : readDigits? 10 start digits = some value) : ∀ c ∈ digits, c.isDigit = true := by
  induction digits generalizing start with
  | nil => simp
  | cons c digits ih =>
    rw [readDigits?] at h
    obtain ⟨digit, hdigit, hrest⟩ := Option.bind_eq_some_iff.1 h
    exact List.forall_mem_cons.2 ⟨isDigit_of_digit? hdigit, ih hrest⟩

/-- Decimal digits that denote a number, with any number of zeros in front. -/
structure IsDecimal (digits : List Char) (number : Nat) : Prop where
  ne_nil : digits ≠ []
  isDigit : ∀ c ∈ digits, c.isDigit = true
  value : Nat.ofDigitChars 10 digits 0 = number

theorem numeral?_eq_some_iff {digits : List Char} {number : Nat} :
    numeral? 10 digits = some number ↔ IsDecimal digits number := by
  rw [numeral?]
  split
  · next hempty =>
    simp only [reduceCtorEq, false_iff]
    exact fun hdecimal => hdecimal.ne_nil (List.isEmpty_iff.1 hempty)
  · next hne =>
    constructor
    · intro h
      have hdigits := isDigit_of_readDigits? h
      rw [readDigits?_of_isDigit hdigits, Option.some.injEq] at h
      exact ⟨fun hnil => hne (List.isEmpty_iff.2 hnil), hdigits, h⟩
    · intro h
      rw [readDigits?_of_isDigit h.isDigit, h.value]

theorem isDigit_of_mem_toDigits {n : Nat} {c : Char} (h : c ∈ Nat.toDigits 10 n) :
    c.isDigit = true :=
  Nat.isDigit_of_mem_toDigits (by decide) (by decide) h

theorem isDecimal_toDigits (n : Nat) : IsDecimal (Nat.toDigits 10 n) n where
  ne_nil := Nat.toDigits_ne_nil
  isDigit _ hc := isDigit_of_mem_toDigits hc
  value := Nat.ofDigitChars_ten_toDigits

theorem numeral?_toDigits (n : Nat) : numeral? 10 (Nat.toDigits 10 n) = some n :=
  numeral?_eq_some_iff.2 (isDecimal_toDigits n)

theorem head?_toDigits_ne_zero {n : Nat} (h : 0 < n) :
    (Nat.toDigits 10 n).head? ≠ some '0' := by
  induction n using Nat.strong_induction_on with
  | _ n ih =>
    by_cases hlt : n < 10
    · have hdigit : ∀ n < 10, 0 < n → [Nat.digitChar n].head? ≠ some '0' := by decide
      rw [Nat.toDigits_of_lt_base hlt]
      exact hdigit n hlt h
    · rw [Nat.toDigits_of_base_le (by decide) (by omega), List.head?_append,
        Option.or_of_isSome (by simp [Nat.toDigits_ne_nil])]
      exact ih (n / 10) (by omega) (by omega)

end Text

namespace Json
open Text

theorem toList_toString (n : Nat) : (toString n).toList = Nat.toDigits 10 n := by
  rw [Nat.toString_eq_ofList_toDigits, String.toList_ofList]

theorem natural?_natural {n bound : Nat} (h : n < bound) :
    (natural n).natural? bound = some n := by
  rw [natural, natural?, toList_toString, numeral?_toDigits]
  simp [h]

namespace Token

theorem isDigit_of_mem_toDigits {n : Nat} {c : Char} (h : c ∈ Nat.toDigits 10 n) :
    isDigit c = true := by
  have hdigit := Text.isDigit_of_mem_toDigits h
  simpa [Char.isDigit, Char.le_def, isDigit] using hdigit

theorem isWhole_toDigits (n : Nat) : isWhole (Nat.toDigits 10 n) = true := by
  have hdigits : isDigits (Nat.toDigits 10 n) = true := by
    rw [isDigits, Bool.and_eq_true, List.all_eq_true]
    exact ⟨by simp [Nat.toDigits_ne_nil], fun _ hc => isDigit_of_mem_toDigits hc⟩
  rw [isWhole, hdigits, Bool.true_and, Bool.or_eq_true, decide_eq_true_eq, decide_eq_true_eq]
  by_cases hn : n < 10
  · exact .inr (by rw [Nat.toDigits_of_lt_base hn]; rfl)
  · exact .inl (head?_toDigits_ne_zero (by omega))

theorem isNumber_toDigits (n : Nat) : isNumber (Nat.toDigits 10 n) = true := by
  have hdigit : ∀ c ∈ Nat.toDigits 10 n, isDigit c = true := fun _ hc => isDigit_of_mem_toDigits hc
  have hunsigned : isUnsigned (Nat.toDigits 10 n) = true := by
    rw [isUnsigned, List.takeWhile_eq_self_iff.2 hdigit, List.dropWhile_eq_nil_iff.2 hdigit,
      isWhole_toDigits]
    rfl
  rw [isNumber.eq_def]
  split
  · next rest hword =>
    have hminus := hdigit '-' (hword ▸ List.mem_cons_self ..)
    exact absurd hminus (by decide)
  · exact hunsigned

theorem mem_of_isDelimiter {c : Char} (h : isDelimiter c = true) :
    c ∈ [' ', '\t', '\n', '\r', '[', ']', '\x7b', '\x7d', ',', ':', '"'] := by
  by_contra hnone
  simp only [List.mem_cons, List.not_mem_nil, or_false, not_or] at hnone
  simp [isDelimiter, isSpace, punctuation?, hnone] at h

def IsNumeric (c : Char) : Prop :=
  isDigit c = true ∨ c ∈ ['-', '+', '.', 'e', 'E']

theorem IsNumeric.not_isDelimiter {c : Char} (h : IsNumeric c) : isDelimiter c = false := by
  rw [← Bool.not_eq_true]
  intro hdelimiter
  have hmem := mem_of_isDelimiter hdelimiter
  rcases h with hdigit | hmark
  · have hnone : [' ', '\t', '\n', '\r', '[', ']', '\x7b', '\x7d', ',', ':', '"'].any isDigit =
        false := by
      decide
    exact List.any_eq_false.1 hnone c hmem hdigit
  · have hnone : ['-', '+', '.', 'e', 'E'].any isDelimiter = false := by decide
    exact List.any_eq_false.1 hnone c hmark hdelimiter

theorem isNumeric_of_isDigits {word : List Char} (h : isDigits word = true) :
    ∀ c ∈ word, IsNumeric c := by
  rw [isDigits, Bool.and_eq_true, List.all_eq_true] at h
  exact fun c hc => .inl (h.2 c hc)

theorem isNumeric_of_isExponent {word : List Char} (h : isExponent word = true) :
    ∀ c ∈ word, IsNumeric c := by
  rw [isExponent.eq_def] at h
  split at h
  · exact List.forall_mem_cons.2 ⟨.inr (by simp), isNumeric_of_isDigits h⟩
  · exact List.forall_mem_cons.2 ⟨.inr (by simp), isNumeric_of_isDigits h⟩
  · exact isNumeric_of_isDigits h

theorem isNumeric_of_exponent {e : Char} {digits : List Char}
    (h : ((e = 'e' || e = 'E') && isExponent digits) = true) :
    ∀ c ∈ e :: digits, IsNumeric c := by
  rw [Bool.and_eq_true, Bool.or_eq_true, decide_eq_true_eq, decide_eq_true_eq] at h
  refine List.forall_mem_cons.2 ⟨.inr ?_, isNumeric_of_isExponent h.2⟩
  rcases h.1 with rfl | rfl <;> simp

theorem isNumeric_of_isFraction {word : List Char} (h : isFraction word = true) :
    ∀ c ∈ word, IsNumeric c := by
  rw [isFraction.eq_def] at h
  split at h
  · simp
  · next rest =>
    rw [Bool.and_eq_true] at h
    refine List.forall_mem_cons.2 ⟨.inr (by simp), ?_⟩
    rw [← @List.takeWhile_append_dropWhile _ isDigit rest, List.forall_mem_append]
    refine ⟨isNumeric_of_isDigits h.1, ?_⟩
    have hrest := h.2
    split at hrest
    · next hnil => simp [hnil]
    · next hcons =>
      rw [hcons]
      exact isNumeric_of_exponent hrest
  · exact isNumeric_of_exponent h

theorem isNumeric_of_isUnsigned {word : List Char} (h : isUnsigned word = true) :
    ∀ c ∈ word, IsNumeric c := by
  rw [isUnsigned, isWhole, Bool.and_eq_true, Bool.and_eq_true] at h
  rw [← @List.takeWhile_append_dropWhile _ isDigit word, List.forall_mem_append]
  exact ⟨isNumeric_of_isDigits h.1.1, isNumeric_of_isFraction h.2⟩

theorem isNumeric_of_isNumber {word : List Char} (h : isNumber word = true) :
    ∀ c ∈ word, IsNumeric c := by
  rw [isNumber.eq_def] at h
  split at h
  · exact List.forall_mem_cons.2 ⟨.inr (by simp), isNumeric_of_isUnsigned h⟩
  · exact isNumeric_of_isUnsigned h

theorem scalar?_of_isNumber {word : List Char} (h : isNumber word = true) :
    scalar? word = some (.number (.ofList word)) := by
  have hname (name : List Char) (hname : isNumber name = false) : word ≠ name := by
    rintro rfl
    simp [hname] at h
  rw [scalar?, if_neg (hname _ (by decide)), if_neg (hname _ (by decide)),
    if_neg (hname _ (by decide)), if_pos h]

end Token

end Json

end TestOutline
