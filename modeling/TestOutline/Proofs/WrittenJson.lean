import Mathlib.Data.List.Chain
import TestOutline.Proofs.Layout
import TestOutline.Proofs.WrittenLiteral

/-! JSON texts in general. A text writes a value if it consists of the tokens of the value, with any
blanks in front of them, between them and behind them; numbers and literals may be spelled in every
way that JSON has. The reader takes every such text for the value, however deep the value is. -/

namespace TestOutline.Json

namespace Token

inductive Whole : List Char → Prop where
  | zero : Whole ['0']
  | positive {first : Char} {digits : List Char} (hfirst : isDigit first = true)
      (hne : first ≠ '0') (hdigits : ∀ c ∈ digits, isDigit c = true) : Whole (first :: digits)

inductive Fraction : List Char → Prop where
  | none : Fraction []
  | digits {digits : List Char} (hne : digits ≠ []) (hdigits : ∀ c ∈ digits, isDigit c = true) :
      Fraction ('.' :: digits)

inductive Exponent : List Char → Prop where
  | none : Exponent []
  | digits {letter : Char} {sign digits : List Char} (hletter : letter ∈ ['e', 'E'])
      (hsign : sign ∈ [[], ['+'], ['-']]) (hne : digits ≠ [])
      (hdigits : ∀ c ∈ digits, isDigit c = true) : Exponent (letter :: (sign ++ digits))

inductive Number : List Char → Prop where
  | parts {sign whole fraction exponent : List Char} (hsign : sign ∈ [[], ['-']])
      (hwhole : Whole whole) (hfraction : Fraction fraction) (hexponent : Exponent exponent) :
      Number (sign ++ (whole ++ (fraction ++ exponent)))

theorem isDigits_of_forall {digits : List Char} (hne : digits ≠ [])
    (h : ∀ c ∈ digits, isDigit c = true) : isDigits digits = true := by
  rw [isDigits, Bool.and_eq_true, List.all_eq_true]
  exact ⟨by simpa using hne, h⟩

theorem Whole.isWhole {whole : List Char} (h : Whole whole) : isWhole whole = true := by
  cases h with
  | zero => rfl
  | positive hfirst hne hdigits =>
    rw [Token.isWhole, isDigits_of_forall (List.cons_ne_nil _ _)
      (List.forall_mem_cons.2 ⟨hfirst, hdigits⟩)]
    simp [hne]

theorem Whole.forall_isDigit {whole : List Char} (h : Whole whole) :
    ∀ c ∈ whole, isDigit c = true := by
  cases h with
  | zero => simp [isDigit]
  | positive hfirst _ hdigits => exact List.forall_mem_cons.2 ⟨hfirst, hdigits⟩

theorem isExponent_append {sign digits : List Char} (hsign : sign ∈ [[], ['+'], ['-']])
    (hne : digits ≠ []) (h : ∀ c ∈ digits, isDigit c = true) :
    isExponent (sign ++ digits) = true := by
  have hdigits := isDigits_of_forall hne h
  simp only [List.mem_cons, List.not_mem_nil, or_false] at hsign
  rcases hsign with rfl | rfl | rfl
  · rw [List.nil_append, isExponent.eq_def]
    split
    · exact absurd (h '+' (List.mem_cons_self ..)) (by decide)
    · exact absurd (h '-' (List.mem_cons_self ..)) (by decide)
    · exact hdigits
  · exact hdigits
  · exact hdigits

theorem Exponent.head?_not_isDigit {exponent : List Char} (h : Exponent exponent) :
    ∀ c ∈ exponent.head?, isDigit c = false := by
  cases h with
  | none => simp
  | digits hletter =>
    simp only [List.mem_cons, List.not_mem_nil, or_false] at hletter
    rcases hletter with rfl | rfl <;> simp [isDigit]

theorem Fraction.head?_append_not_isDigit {fraction exponent : List Char} (h : Fraction fraction)
    (hexponent : Exponent exponent) : ∀ c ∈ (fraction ++ exponent).head?, isDigit c = false := by
  cases h with
  | none => exact hexponent.head?_not_isDigit
  | digits => simp [isDigit]

theorem takeWhile_append_of_head? {p : Char → Bool} {front rest : List Char}
    (hfront : ∀ c ∈ front, p c = true) (hrest : ∀ c ∈ rest.head?, p c = false) :
    (front ++ rest).takeWhile p = front ∧ (front ++ rest).dropWhile p = rest := by
  rw [List.takeWhile_append_of_pos hfront, List.dropWhile_append_of_pos hfront]
  cases rest with
  | nil => simp
  | cons c rest =>
    have hc : p c = false := hrest c rfl
    simp [hc]

theorem isFraction_of_exponent {exponent : List Char} (h : Exponent exponent) :
    isFraction exponent = true := by
  cases h with
  | none => rfl
  | digits hletter hsign hne hdigits =>
    have hread := isExponent_append hsign hne hdigits
    simp only [List.mem_cons, List.not_mem_nil, or_false] at hletter
    rcases hletter with rfl | rfl <;> simp [isFraction, hread]

theorem isFraction_append {fraction exponent : List Char} (h : Fraction fraction)
    (hexponent : Exponent exponent) : isFraction (fraction ++ exponent) = true := by
  cases h with
  | none => exact isFraction_of_exponent hexponent
  | digits hne hdigits =>
    obtain ⟨htake, hdrop⟩ := takeWhile_append_of_head? hdigits hexponent.head?_not_isDigit
    rw [List.cons_append, isFraction, htake, hdrop, isDigits_of_forall hne hdigits]
    cases hexponent with
    | none => rfl
    | digits hletter hsign hne hdigits =>
      have hread := isExponent_append hsign hne hdigits
      simpa [hread] using hletter

theorem Number.isNumber {word : List Char} (h : Number word) : isNumber word = true := by
  obtain ⟨hsign, hwhole, hfraction, hexponent⟩ := h
  next sign whole fraction exponent =>
  obtain ⟨htake, hdrop⟩ := takeWhile_append_of_head? hwhole.forall_isDigit
    (hfraction.head?_append_not_isDigit hexponent)
  have hunsigned : isUnsigned (whole ++ (fraction ++ exponent)) = true := by
    rw [isUnsigned, htake, hdrop, hwhole.isWhole, isFraction_append hfraction hexponent]
    rfl
  simp only [List.mem_cons, List.not_mem_nil, or_false] at hsign
  rcases hsign with rfl | rfl
  · rw [List.nil_append, Token.isNumber.eq_def]
    split
    · next rest hword =>
      have hminus : isDigit '-' = true := by
        cases hwhole with
        | zero => simp at hword
        | positive hfirst =>
          rw [List.cons_append, List.cons.injEq] at hword
          exact hword.1 ▸ hfirst
      exact absurd hminus (by decide)
    · exact hunsigned
  · exact hunsigned

inductive Writes : Token → List Char → Prop where
  | openArray : Writes .openArray ['[']
  | closeArray : Writes .closeArray [']']
  | openObject : Writes .openObject ['\x7b']
  | closeObject : Writes .closeObject ['\x7d']
  | comma : Writes .comma [',']
  | colon : Writes .colon [':']
  | null : Writes (.scalar .null) "null".toList
  | bool (value : Bool) : Writes (.scalar (.bool value)) (toString value).toList
  | number {spelling : String} (hspelling : Number spelling.toList) :
      Writes (.scalar (.number spelling)) spelling.toList
  | literal {text : Option String} {body : List Char} (hbody : WritesLiteral text body) :
      Writes (.literal text) ('"' :: (body ++ ['"']))

/-- The texts of a sequence of tokens, with blanks anywhere between them. -/
inductive WritesAll : List Token → List Char → Prop where
  | nil {blanks : List Char} (hblanks : ∀ c ∈ blanks, isSpace c = true) : WritesAll [] blanks
  | cons {token : Token} {tokens : List Token} {blanks word text : List Char}
      (hblanks : ∀ c ∈ blanks, isSpace c = true) (hword : Writes token word)
      (htext : WritesAll tokens text) : WritesAll (token :: tokens) (blanks ++ (word ++ text))

def IsScalar : Token → Prop
  | scalar _ => True
  | _ => False

def IsPunctuation : Token → Prop
  | scalar _ => False
  | literal _ => False
  | _ => True

def Separate (token next : Token) : Prop :=
  token.IsScalar → next.IsPunctuation

theorem isChain_append {front rest : List Token} (hfront : front.IsChain Separate)
    (hrest : rest.IsChain Separate) (hhead : ∀ token ∈ rest.head?, token.IsPunctuation) :
    (front ++ rest).IsChain Separate :=
  List.isChain_append.2 ⟨hfront, hrest, fun _ _ next hnext _ => hhead next hnext⟩

theorem isChain_cons {token : Token} {rest : List Token} (htoken : ¬token.IsScalar)
    (hrest : rest.IsChain Separate) : (token :: rest).IsChain Separate :=
  List.isChain_cons.2 ⟨fun _ _ hscalar => absurd hscalar htoken, hrest⟩

end Token

section
open Token

theorem head?_itemTokens (items : List Json) :
    ∀ token ∈ (itemTokens items ++ [closeArray]).head?, token.IsPunctuation := by
  cases items <;> simp [itemTokens, IsPunctuation]

theorem head?_memberTokens (members : List (Option String × Json)) :
    ∀ token ∈ (memberTokens members ++ [closeObject]).head?, token.IsPunctuation := by
  cases members <;> simp [memberTokens, IsPunctuation]

mutual

theorem isChain_tokens (value : Json) : value.tokens.IsChain Separate := by
  match value with
  | .null | .bool _ | .number _ | .string _ => simp [tokens]
  | .array [] | .object [] => exact isChain_cons id (List.isChain_singleton _)
  | .array (item :: items) =>
    simp only [tokens, List.cons_append, List.append_assoc]
    exact isChain_cons id
      (isChain_append (isChain_tokens item) (isChain_itemTokens items) (head?_itemTokens items))
  | .object ((key, value) :: members) =>
    simp only [tokens, List.cons_append, List.append_assoc]
    exact isChain_cons id <| isChain_cons id <| isChain_cons id
      (isChain_append (isChain_tokens value) (isChain_memberTokens members)
        (head?_memberTokens members))

theorem isChain_itemTokens (items : List Json) :
    (itemTokens items ++ [closeArray]).IsChain Separate := by
  match items with
  | [] => simp [itemTokens]
  | item :: items =>
    simp only [itemTokens, List.cons_append, List.append_assoc]
    exact isChain_cons id
      (isChain_append (isChain_tokens item) (isChain_itemTokens items) (head?_itemTokens items))

theorem isChain_memberTokens (members : List (Option String × Json)) :
    (memberTokens members ++ [closeObject]).IsChain Separate := by
  match members with
  | [] => simp [memberTokens]
  | (key, value) :: members =>
    simp only [memberTokens, List.cons_append, List.append_assoc]
    exact isChain_cons id <| isChain_cons id <| isChain_cons id
      (isChain_append (isChain_tokens value) (isChain_memberTokens members)
        (head?_memberTokens members))

end

end

namespace Token

theorem scan?_literal_plain {plain : List Char} (h : ∀ c ∈ plain, c ≠ '"' ∧ c ≠ '\\')
    (read rest : List Char) :
    scan? (.literal read) (plain ++ rest) = scan? (.literal (plain.reverse ++ read)) rest := by
  induction plain generalizing read with
  | nil => rfl
  | cons c plain ih =>
    obtain ⟨hquote, hbackslash⟩ := h c (List.mem_cons_self ..)
    rw [List.cons_append, scan?, if_neg hquote, if_neg hbackslash,
      ih fun other hmem => h other (List.mem_cons_of_mem _ hmem), List.reverse_cons,
      List.append_assoc, List.singleton_append]

theorem scan?_literal_escape (letter : Char) (read rest : List Char) :
    scan? (.literal read) ('\\' :: letter :: rest) =
      scan? (.literal (letter :: '\\' :: read)) rest := by
  rw [scan?, if_neg (by decide), if_pos rfl, scan?]

theorem scan?_literal_point {point : Nat} {text : List Char} (h : WritesPoint point text)
    (read rest : List Char) :
    scan? (.literal read) (text ++ rest) = scan? (.literal (text.reverse ++ read)) rest := by
  cases h with
  | itself hquote hbackslash _ =>
    exact scan?_literal_plain (by simpa using ⟨hquote, hbackslash⟩) read rest
  | letter _ => exact scan?_literal_escape _ read rest
  | codePoint hdigits _ =>
    have hplain : Text.hexDigits.all (fun c => c ≠ '"' ∧ c ≠ '\\') = true := by decide
    rw [List.cons_append, List.cons_append, scan?_literal_escape, scan?_literal_plain
      fun c hc => of_decide_eq_true (List.all_eq_true.1 hplain c (hdigits.mem c hc))]
    simp

theorem scan?_literal_points {points : List Nat} {pieces : List (List Char)}
    (h : List.Forall₂ WritesPoint points pieces) (read rest : List Char) :
    scan? (.literal read) (pieces.flatten ++ rest) =
      scan? (.literal (pieces.flatten.reverse ++ read)) rest := by
  induction h generalizing read with
  | nil => rfl
  | cons hpoint _ ih =>
    rw [List.flatten_cons, List.append_assoc, scan?_literal_point hpoint, ih, List.reverse_append,
      List.append_assoc]

theorem scan?_literal {text : Option String} {body : List Char} (h : WritesLiteral text body)
    (rest : List Char) : scan? .between ('"' :: (body ++ '"' :: rest)) =
      (scan? .between rest).map (.literal text :: ·) := by
  have hopen (rest : List Char) : scan? .between ('"' :: rest) = scan? (.literal []) rest := rfl
  obtain ⟨points, pieces, hpieces, rfl⟩ := h.exists_points
  rw [hopen, scan?_literal_points hpieces, List.append_nil, scan?, if_pos rfl,
    List.reverse_reverse, h.unquote?, Option.bind_some]

theorem scan?_bool (value : Bool) {text : List Char} (h : Ends text) :
    scan? .between ((toString value).toList ++ text) =
      (scan? .between text).map (.scalar (.bool value) :: ·) := by
  cases value with
  | false => exact scan?_scalar (by decide) rfl h
  | true => exact scan?_scalar (by decide) rfl h

theorem Writes.scan?_append {token : Token} {word text : List Char} (h : Writes token word)
    (hends : token.IsScalar → Ends text) :
    scan? .between (word ++ text) = (scan? .between text).map (token :: ·) := by
  cases h with
  | openArray | closeArray | openObject | closeObject | comma | colon =>
    exact scan?_punctuation rfl text
  | null => exact scan?_scalar (by decide) rfl (hends trivial)
  | bool value => exact scan?_bool value (hends trivial)
  | number hspelling => exact scan?_number hspelling.isNumber (hends trivial)
  | literal hbody =>
    rw [List.cons_append, List.append_assoc]
    exact scan?_literal hbody text

theorem isDelimiter_of_isSpace {c : Char} (h : isSpace c = true) : isDelimiter c = true := by
  simp [isDelimiter, h]

theorem Writes.ends_append {token : Token} {word : List Char} (h : Writes token word)
    (htoken : token.IsPunctuation) (text : List Char) : Ends (word ++ text) := by
  cases h with
  | openArray | closeArray | openObject | closeObject | comma | colon => exact .cons rfl _
  | null | bool | number | literal => exact absurd htoken id

theorem WritesAll.ends {tokens : List Token} {text : List Char} (h : WritesAll tokens text)
    (hhead : ∀ token ∈ tokens.head?, token.IsPunctuation) : Ends text := by
  have hspaces {blanks rest : List Char} (hblanks : ∀ c ∈ blanks, isSpace c = true)
      (hrest : Ends rest) : Ends (blanks ++ rest) := by
    cases blanks with
    | nil => exact hrest
    | cons c blanks => exact .cons (isDelimiter_of_isSpace (hblanks c (List.mem_cons_self ..))) _
  cases h with
  | nil hblanks => simpa using hspaces hblanks .nil
  | cons hblanks hword _ => exact hspaces hblanks (hword.ends_append (hhead _ rfl) _)

theorem WritesAll.scan? {tokens : List Token} {text : List Char} (h : WritesAll tokens text)
    (hchain : tokens.IsChain Separate) : scan? .between text = some tokens := by
  induction h with
  | nil hblanks =>
    have hscan := scan?_spaces hblanks []
    rw [List.append_nil] at hscan
    exact hscan
  | cons hblanks hword htext ih =>
    obtain ⟨hnext, hrest⟩ := List.isChain_cons.1 hchain
    rw [scan?_spaces hblanks, hword.scan?_append fun hscalar =>
      htext.ends fun token htoken => hnext token htoken hscalar, ih hrest, Option.map_some]

end Token

/-- The texts of a value. -/
def Writes (value : Json) (text : String) : Prop :=
  Token.WritesAll value.tokens text.toList

theorem Writes.parse? {value : Json} {text : String} (h : value.Writes text) :
    parse? text = some value := by
  rw [Json.parse?, Token.tokens?, Token.WritesAll.scan? h (isChain_tokens value), Option.bind_some,
    ofTokens?_tokens]

end TestOutline.Json
