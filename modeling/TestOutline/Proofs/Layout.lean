import TestOutline.Json.Printer
import TestOutline.Proofs.Literal
import TestOutline.Proofs.Numbers
import TestOutline.Proofs.Tokens

/-! JSON text, written and read back. The scanner finds in the layout of a value the tokens of the
value, at any depth and whatever follows, as long as what follows a number ends it; so the text of a
value is read as the value. -/

namespace TestOutline.Json
open Text

namespace Token

/-- Nothing stands here that could go on a word. -/
def Ends (text : List Char) : Prop :=
  ∀ c ∈ text.head?, isDelimiter c = true

theorem Ends.nil : Ends [] := by
  simp [Ends]

theorem Ends.cons {c : Char} (h : isDelimiter c = true) (text : List Char) : Ends (c :: text) := by
  simpa [Ends] using h

theorem scan?_of_isSpace {c : Char} (h : isSpace c = true) (text : List Char) :
    scan? .between (c :: text) = scan? .between text := by
  rw [scan?, if_pos h]

theorem scan?_spaces {blanks : List Char} (h : ∀ c ∈ blanks, isSpace c = true)
    (text : List Char) : scan? .between (blanks ++ text) = scan? .between text := by
  induction blanks with
  | nil => rfl
  | cons c blanks ih =>
    rw [List.cons_append, scan?_of_isSpace (h c (List.mem_cons_self ..)),
      ih fun other hmem => h other (List.mem_cons_of_mem _ hmem)]

theorem scan?_lineBreak (depth : Nat) (text : List Char) :
    scan? .between (lineBreak depth ++ text) = scan? .between text := by
  apply scan?_spaces
  intro c hc
  rcases List.mem_cons.1 hc with rfl | hspace
  · rfl
  · rw [List.eq_of_mem_replicate hspace]
    rfl

theorem scan?_punctuation {c : Char} {token : Token} (h : punctuation? c = some token)
    (text : List Char) : scan? .between (c :: text) = (scan? .between text).map (token :: ·) := by
  have hspace : isSpace c = false := by
    rw [← Bool.not_eq_true]
    intro hspace
    simp only [isSpace, Bool.or_eq_true, decide_eq_true_eq] at hspace
    rcases hspace with ((rfl | rfl) | rfl) | rfl <;> simp [punctuation?] at h
  have hquote : c ≠ '"' := by
    rintro rfl
    simp [punctuation?] at h
  rw [scan?, hspace, if_neg Bool.false_ne_true, if_neg hquote, h]

theorem scan?_word_of_ends (read : List Char) {text : List Char} (h : Ends text) :
    scan? (.word read) text =
      (scalar? read.reverse).bind fun value => (scan? .between text).map (.scalar value :: ·) := by
  cases text with
  | nil => cases hvalue : scalar? read.reverse <;> simp [scan?, hvalue]
  | cons c text =>
    have hdelimiter : isDelimiter c = true := h c rfl
    conv => lhs; rw [scan?, if_pos hdelimiter]
    congr 1
    funext value
    by_cases hspace : isSpace c = true
    · rw [if_pos hspace, scan?_of_isSpace hspace]
    · rw [if_neg hspace]
      by_cases hquote : c = '"'
      · rw [if_pos hquote, scan?, if_neg hspace, if_pos hquote]
      · rw [if_neg hquote]
        cases hpunctuation : punctuation? c with
        | none => simp [isDelimiter, hspace, hquote, hpunctuation] at hdelimiter
        | some token => simp [scan?_punctuation hpunctuation, Function.comp_def]

theorem scan?_word_append {word : List Char} (h : word.any isDelimiter = false)
    (read text : List Char) :
    scan? (.word read) (word ++ text) = scan? (.word (word.reverse ++ read)) text := by
  induction word generalizing read with
  | nil => rfl
  | cons c word ih =>
    rw [List.any_cons, Bool.or_eq_false_iff] at h
    rw [List.cons_append, scan?, h.1, if_neg Bool.false_ne_true, ih h.2, List.reverse_cons,
      List.append_assoc, List.singleton_append]

theorem scan?_scalar {word : List Char} {value : Json} (hword : word.any isDelimiter = false)
    (hvalue : scalar? word = some value) {text : List Char} (h : Ends text) :
    scan? .between (word ++ text) = (scan? .between text).map (.scalar value :: ·) := by
  cases word with
  | nil => simp [scalar?, isNumber, isUnsigned, isWhole, isDigits] at hvalue
  | cons c word =>
    rw [List.any_cons, Bool.or_eq_false_iff] at hword
    obtain ⟨hfirst, hrest⟩ := hword
    simp only [isDelimiter, Bool.or_eq_false_iff, decide_eq_false_iff_not,
      Option.isSome_eq_false_iff, Option.isNone_iff_eq_none] at hfirst
    obtain ⟨⟨hspace, hpunctuation⟩, hquote⟩ := hfirst
    rw [List.cons_append, scan?, hspace, if_neg Bool.false_ne_true, if_neg hquote, hpunctuation]
    change scan? (.word [c]) (word ++ text) = _
    rw [scan?_word_append hrest, scan?_word_of_ends _ h]
    simp [hvalue]

theorem scan?_literal_append (text read behind : List Char) :
    scan? (.literal read) (text.flatMap escapeCharacter ++ '"' :: behind) =
      (unquote? (read.reverse ++ text.flatMap escapeCharacter)).bind fun value =>
        (scan? .between behind).map (.literal value :: ·) := by
  have hdigit : ∀ n < 16, lowerHexDigit n ≠ '"' ∧ lowerHexDigit n ≠ '\\' := by decide
  induction text generalizing read with
  | nil => simp [scan?]
  | cons c text ih =>
    rw [List.flatMap_cons, List.append_assoc]
    rcases escapeCharacter_cases c with ⟨letter, -, heq⟩ | ⟨hlt, heq⟩ | ⟨hquote, hbackslash, -, heq⟩
    · simp [heq, scan?, ih]
    · have hhigh := hdigit (c.toNat / 16) (by omega)
      have hlow := hdigit (c.toNat % 16) (by omega)
      simp [heq, scan?, ih, hhigh, hlow]
    · simp [heq, scan?, ih, hquote, hbackslash]

theorem scan?_quoteText (text : Option String) (behind : List Char) :
    scan? .between (quoteText text ++ behind) =
      (scan? .between behind).map (.literal text :: ·) := by
  have hopen (rest : List Char) : scan? .between ('"' :: rest) = scan? (.literal []) rest := rfl
  cases text with
  | none => rfl
  | some text =>
    rw [quoteText, quote, List.cons_append, List.cons_append, hopen, List.append_assoc,
      List.singleton_append, scan?_literal_append, List.reverse_nil, List.nil_append,
      unquote?_flatMap]
    rfl

theorem scan?_number {spelling : String} (h : isNumber spelling.toList = true) {behind : List Char}
    (hends : Ends behind) :
    scan? .between (spelling.toList ++ behind) =
      (scan? .between behind).map (.scalar (.number spelling) :: ·) := by
  have hvalue := scalar?_of_isNumber h
  rw [String.ofList_toList] at hvalue
  have hword : spelling.toList.any isDelimiter = false := by
    rw [List.any_eq_false]
    intro c hc
    simp [(isNumeric_of_isNumber h c hc).not_isDelimiter]
  exact scan?_scalar hword hvalue hends

end Token

mutual

/-- All numbers are spelled as JSON spells them. -/
def WellSpelled : Json → Prop
  | .number spelling => Token.isNumber spelling.toList = true
  | .array items => WellSpelledItems items
  | .object members => WellSpelledMembers members
  | _ => True

def WellSpelledItems : List Json → Prop
  | [] => True
  | item :: items => WellSpelled item ∧ WellSpelledItems items

def WellSpelledMembers : List (Option String × Json) → Prop
  | [] => True
  | (_, value) :: members => WellSpelled value ∧ WellSpelledMembers members

end

theorem ends_layOutItems (depth : Nat) (items : List Json) {behind : List Char}
    (h : Token.Ends behind) : Token.Ends (layOutItems depth items ++ behind) := by
  cases items with
  | nil => simpa [layOutItems] using h
  | cons item items => exact .cons rfl _

theorem ends_layOutMembers (depth : Nat) (members : List (Option String × Json))
    {behind : List Char} (h : Token.Ends behind) :
    Token.Ends (layOutMembers depth members ++ behind) := by
  cases members with
  | nil => simpa [layOutMembers] using h
  | cons member members => exact .cons rfl _

theorem scan?_colon (text : List Char) :
    Token.scan? .between (':' :: ' ' :: text) =
      (Token.scan? .between text).map (.colon :: ·) := by
  rw [Token.scan?_punctuation rfl, Token.scan?_of_isSpace rfl]

mutual

theorem scan?_layOut (depth : Nat) {value : Json} (h : value.WellSpelled) {behind : List Char}
    (hends : Token.Ends behind) :
    Token.scan? .between (layOut depth value ++ behind) =
      (Token.scan? .between behind).map (value.tokens ++ ·) := by
  match value with
  | .null =>
    rw [layOut]
    exact Token.scan?_scalar (by decide) rfl hends
  | .bool true =>
    rw [layOut]
    exact Token.scan?_scalar (by decide) rfl hends
  | .bool false =>
    rw [layOut]
    exact Token.scan?_scalar (by decide) rfl hends
  | .number spelling =>
    rw [WellSpelled] at h
    exact Token.scan?_number h hends
  | .string text => exact Token.scan?_quoteText text behind
  | .array [] =>
    rw [layOut, List.cons_append, Token.scan?_punctuation rfl, List.singleton_append,
      Token.scan?_punctuation rfl, Option.map_map]
    rfl
  | .array (item :: items) =>
    rw [WellSpelled, WellSpelledItems] at h
    have hclose : Token.Ends (lineBreak depth ++ ']' :: behind) := .cons rfl _
    have hitem := scan?_layOut (depth + 1) h.1 (ends_layOutItems (depth + 1) items hclose)
    have hitems := scan?_layOutItems (depth + 1) h.2 hclose
    simp only [layOut, List.cons_append, List.append_assoc, List.nil_append]
    rw [Token.scan?_punctuation rfl, Token.scan?_lineBreak, hitem, hitems, Token.scan?_lineBreak,
      Token.scan?_punctuation rfl]
    simp [tokens, Function.comp_def]
  | .object [] =>
    rw [layOut, List.cons_append, Token.scan?_punctuation rfl, List.singleton_append,
      Token.scan?_punctuation rfl, Option.map_map]
    rfl
  | .object ((key, value) :: members) =>
    rw [WellSpelled, WellSpelledMembers] at h
    have hclose : Token.Ends (lineBreak depth ++ '\x7d' :: behind) := .cons rfl _
    have hvalue := scan?_layOut (depth + 1) h.1 (ends_layOutMembers (depth + 1) members hclose)
    have hmembers := scan?_layOutMembers (depth + 1) h.2 hclose
    simp only [layOut, List.cons_append, List.append_assoc, List.nil_append]
    rw [Token.scan?_punctuation rfl, Token.scan?_lineBreak, Token.scan?_quoteText, scan?_colon,
      hvalue, hmembers, Token.scan?_lineBreak, Token.scan?_punctuation rfl]
    simp [tokens, Function.comp_def]

theorem scan?_layOutItems (depth : Nat) {items : List Json} (h : WellSpelledItems items)
    {behind : List Char} (hends : Token.Ends behind) :
    Token.scan? .between (layOutItems depth items ++ behind) =
      (Token.scan? .between behind).map (itemTokens items ++ ·) := by
  match items with
  | [] => simp [layOutItems, itemTokens]
  | item :: items =>
    rw [WellSpelledItems] at h
    have hitem := scan?_layOut depth h.1 (ends_layOutItems depth items hends)
    have hitems := scan?_layOutItems depth h.2 hends
    simp only [layOutItems, List.cons_append, List.append_assoc]
    rw [Token.scan?_punctuation rfl, Token.scan?_lineBreak, hitem, hitems]
    simp [itemTokens, Function.comp_def]

theorem scan?_layOutMembers (depth : Nat) {members : List (Option String × Json)}
    (h : WellSpelledMembers members) {behind : List Char} (hends : Token.Ends behind) :
    Token.scan? .between (layOutMembers depth members ++ behind) =
      (Token.scan? .between behind).map (memberTokens members ++ ·) := by
  match members with
  | [] => simp [layOutMembers, memberTokens]
  | (key, value) :: members =>
    rw [WellSpelledMembers] at h
    have hvalue := scan?_layOut depth h.1 (ends_layOutMembers depth members hends)
    have hmembers := scan?_layOutMembers depth h.2 hends
    simp only [layOutMembers, List.cons_append, List.append_assoc, List.nil_append]
    rw [Token.scan?_punctuation rfl, Token.scan?_lineBreak, Token.scan?_quoteText, scan?_colon,
      hvalue, hmembers]
    simp [memberTokens, Function.comp_def]

end

theorem parse?_pretty {value : Json} (h : value.WellSpelled) :
    parse? value.pretty = some value := by
  have hscan := scan?_layOut 0 h Token.Ends.nil
  rw [List.append_nil] at hscan
  rw [parse?, pretty, String.toList_ofList, Token.tokens?, hscan, Token.scan?, Option.map_some,
    List.append_nil, Option.bind_some, ofTokens?_tokens]

end TestOutline.Json
