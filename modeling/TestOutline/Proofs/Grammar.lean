import Mathlib.Data.List.Basic
import TestOutline.Declaration

/-! The grammar of declarations. A line declares something if it can be cut into an opening, a
quoted label and a closing, and there is one way at most to do so: keyword, modifier and quotes are
told apart by the next character, and the label ends at its first quote that is not escaped. -/

namespace TestOutline.Declaration
open Text

/-- The texts that may stand between the quotes of a label: characters other than the quote and the
backslash, and pairs of a backslash and any character but a line feed. -/
inductive IsBody (quote : Char) : List Char → Prop where
  | nil : IsBody quote []
  | plain {c : Char} {body : List Char} (hquote : c ≠ quote) (hbackslash : c ≠ '\\')
      (hbody : IsBody quote body) : IsBody quote (c :: body)
  | escaped {c : Char} {body : List Char} (hfeed : c ≠ '\n') (hbody : IsBody quote body) :
      IsBody quote ('\\' :: c :: body)

theorem IsBody.append {quote : Char} {front behind : List Char} (h : IsBody quote front)
    (hbehind : IsBody quote behind) : IsBody quote (front ++ behind) := by
  induction h with
  | nil => exact hbehind
  | plain hquote hbackslash _ ih => exact .plain hquote hbackslash ih
  | escaped hfeed _ ih => exact .escaped hfeed ih

theorem isBody_of_plain {quote : Char} {text : List Char}
    (h : ∀ c ∈ text, c ≠ quote ∧ c ≠ '\\') : IsBody quote text := by
  induction text with
  | nil => exact .nil
  | cons c text ih =>
    obtain ⟨hquote, hbackslash⟩ := h c (List.mem_cons_self ..)
    exact .plain hquote hbackslash (ih fun other hmem => h other (List.mem_cons_of_mem _ hmem))

def quotes : List Char :=
  ['\'', '"', '\x60']

theorem doubleQuote_mem_quotes : '"' ∈ quotes := by
  simp [quotes]

def modifiers : List (List Char) :=
  ["", ".only", ".skip"].map String.toList

theorem only_mem_modifiers : ".only".toList ∈ modifiers := by
  simp [modifiers]

theorem skip_mem_modifiers : ".skip".toList ∈ modifiers := by
  simp [modifiers]

structure Opening where
  indent : List Char
  kind : Kind
  modifier : List Char
  gap : List Char
  indent_blank : ∀ c ∈ indent, isBlank c = true
  modifier_mem : modifier ∈ modifiers
  gap_blank : ∀ c ∈ gap, isBlank c = true

def Opening.text (opening : Opening) : List Char :=
  opening.indent ++ (opening.kind.keyword.toList ++ (opening.modifier ++ '(' :: opening.gap))

def Opening.atMargin (kind : Kind) : Opening where
  indent := []
  kind := kind
  modifier := []
  gap := []
  indent_blank := by simp
  modifier_mem := by simp [modifiers]
  gap_blank := by simp

structure Closing where
  gap : List Char
  stop : Char
  rest : List Char
  gap_blank : ∀ c ∈ gap, isBlank c = true
  stop_mem : stop ∈ [',', ')']

def Closing.text (closing : Closing) : List Char :=
  closing.gap ++ closing.stop :: closing.rest

def Closing.atOnce : Closing where
  gap := []
  stop := ')'
  rest := []
  gap_blank := by simp
  stop_mem := by simp

/-- A way to write a line with a declaration. -/
structure Form where
  opening : Opening
  quote : Char
  body : List Char
  closing : Closing
  quote_mem : quote ∈ quotes
  isBody : IsBody quote body

def Form.line (form : Form) : List Char :=
  form.opening.text ++ form.quote :: (form.body ++ form.quote :: form.closing.text)

theorem isQuote_iff {c : Char} : isQuote c = true ↔ c ∈ quotes := by
  simp [isQuote, quotes, or_assoc]

theorem ne_backslash_of_mem_quotes {quote : Char} (h : quote ∈ quotes) : quote ≠ '\\' := by
  rintro rfl
  simp [quotes] at h

theorem dropBlanks_append {blanks : List Char} (h : ∀ c ∈ blanks, isBlank c = true)
    {c : Char} (hc : isBlank c = false) (rest : List Char) :
    dropBlanks (blanks ++ c :: rest) = c :: rest := by
  rw [dropBlanks, List.dropWhile_append_of_pos h, List.dropWhile_cons_of_neg (by simp [hc])]

theorem indentation_append {blanks : List Char} (h : ∀ c ∈ blanks, isBlank c = true)
    {c : Char} (hc : isBlank c = false) (rest : List Char) :
    indentation (blanks ++ c :: rest) = blanks.length := by
  rw [indentation, List.takeWhile_append_of_pos h, List.takeWhile_cons_of_neg (by simp [hc]),
    List.append_nil]

theorem exists_blanks (text : List Char) :
    ∃ blanks, (∀ c ∈ blanks, isBlank c = true) ∧ text = blanks ++ dropBlanks text :=
  ⟨text.takeWhile isBlank, fun _ hc => List.all_eq_true.1 List.all_takeWhile _ hc,
    List.takeWhile_append_dropWhile.symm⟩

theorem splitLiteral?_plain {quote c : Char} (hbackslash : c ≠ '\\') (text : List Char) :
    splitLiteral? quote (c :: text) =
      if c = quote then some ([], text)
      else (splitLiteral? quote text).map fun (body, rest) => (c :: body, rest) := by
  rw [splitLiteral?.eq_def]
  split
  · next heq => simp at heq
  · next heq => exact absurd (List.cons.inj heq).1 hbackslash
  · next heq =>
    obtain ⟨rfl, rfl⟩ := List.cons.inj heq
    rw [if_neg hbackslash]

theorem splitLiteral?_append {quote : Char} (hquote : quote ≠ '\\') {body : List Char}
    (h : IsBody quote body) (rest : List Char) :
    splitLiteral? quote (body ++ quote :: rest) = some (body, rest) := by
  induction h with
  | nil => rw [List.nil_append, splitLiteral?_plain hquote, if_pos rfl]
  | plain hne hbackslash _ ih =>
    rw [List.cons_append, splitLiteral?_plain hbackslash, if_neg hne, ih]
    rfl
  | escaped hfeed _ ih =>
    rw [List.cons_append, List.cons_append, splitLiteral?, if_neg hfeed, ih]
    rfl

theorem isBody_of_splitLiteral? {quote : Char} {text body rest : List Char}
    (h : splitLiteral? quote text = some (body, rest)) :
    IsBody quote body ∧ text = body ++ quote :: rest := by
  fun_induction splitLiteral? quote text generalizing body with
  | case1 => simp at h
  | case2 text => simp at h
  | case3 c text hfeed ih =>
    obtain ⟨⟨inner, rest'⟩, hinner, heq⟩ := Option.map_eq_some_iff.1 h
    obtain ⟨rfl, rfl⟩ := Prod.mk.inj heq
    obtain ⟨hbody, rfl⟩ := ih hinner
    exact ⟨.escaped hfeed hbody, rfl⟩
  | case4 text =>
    obtain ⟨rfl, rfl⟩ := Prod.mk.inj (Option.some.inj h)
    exact ⟨.nil, rfl⟩
  | case5 => simp at h
  | case6 c text _ hquote hbackslash ih =>
    obtain ⟨⟨inner, rest'⟩, hinner, heq⟩ := Option.map_eq_some_iff.1 h
    obtain ⟨rfl, rfl⟩ := Prod.mk.inj heq
    obtain ⟨hbody, rfl⟩ := ih hinner
    exact ⟨.plain hquote hbackslash hbody, rfl⟩

theorem splitKeyword?_append (kind : Kind) (rest : List Char) :
    splitKeyword? (kind.keyword.toList ++ rest) = some (kind, rest) := by
  cases kind with
  | suite => rfl
  | testCase => rfl

theorem eq_of_splitKeyword? {text rest : List Char} {kind : Kind}
    (h : splitKeyword? text = some (kind, rest)) : text = kind.keyword.toList ++ rest := by
  obtain ⟨found, -, hfound⟩ := List.exists_of_findSome?_eq_some h
  obtain ⟨behind, hbehind, heq⟩ := Option.map_eq_some_iff.1 hfound
  obtain ⟨rfl, rfl⟩ := Prod.mk.inj heq
  exact (List.isPrefixOf?_eq_some_iff_append_eq.1 hbehind).symm

theorem dropModifier_append {modifier : List Char} (h : modifier ∈ modifiers) (rest : List Char) :
    dropModifier (modifier ++ '(' :: rest) = '(' :: rest := by
  simp only [modifiers, List.map_cons, List.map_nil, List.mem_cons, List.not_mem_nil, or_false] at h
  rcases h with rfl | rfl | rfl
  · rfl
  · rfl
  · rfl

theorem exists_modifier (text : List Char) :
    ∃ modifier ∈ modifiers, text = modifier ++ dropModifier text := by
  rw [dropModifier]
  cases honly : ".only".toList.isPrefixOf? text with
  | some behind =>
    exact ⟨_, by simp [modifiers], (List.isPrefixOf?_eq_some_iff_append_eq.1 honly).symm⟩
  | none =>
    cases hskip : ".skip".toList.isPrefixOf? text with
    | some behind =>
      exact ⟨_, by simp [modifiers], (List.isPrefixOf?_eq_some_iff_append_eq.1 hskip).symm⟩
    | none => exact ⟨[], by simp [modifiers], rfl⟩

theorem Closing.dropBlanks_text (closing : Closing) :
    dropBlanks closing.text = closing.stop :: closing.rest := by
  have hnone : [',', ')'].any isBlank = false := by decide
  have hstop := List.any_eq_false.1 hnone closing.stop closing.stop_mem
  exact dropBlanks_append closing.gap_blank (Bool.not_eq_true _ ▸ hstop) closing.rest

theorem exists_closing {text rest : List Char} {stop : Char} (hstop : stop ∈ [',', ')'])
    (h : dropBlanks text = stop :: rest) : ∃ closing : Closing, text = closing.text := by
  obtain ⟨gap, hgap, htext⟩ := exists_blanks text
  rw [h] at htext
  exact ⟨⟨gap, stop, rest, hgap, hstop⟩, htext⟩

theorem not_isBlank_of_mem_quotes {quote : Char} (h : quote ∈ quotes) : isBlank quote = false := by
  have hnone : quotes.any isBlank = false := by decide
  exact Bool.not_eq_true _ ▸ List.any_eq_false.1 hnone quote h

theorem splitArgument?_append {gap body : List Char} {quote : Char}
    (hgap : ∀ c ∈ gap, isBlank c = true) (hquote : quote ∈ quotes) (hbody : IsBody quote body)
    (closing : Closing) :
    splitArgument? ('(' :: (gap ++ quote :: (body ++ quote :: closing.text))) = some body := by
  have hdrop := dropBlanks_append hgap (not_isBlank_of_mem_quotes hquote)
  have hsplit := splitLiteral?_append (ne_backslash_of_mem_quotes hquote) hbody closing.text
  have hstop := closing.stop_mem
  simp only [List.mem_cons, List.not_mem_nil, or_false] at hstop
  rcases hstop with h | h
  · simp [splitArgument?, hdrop, isQuote_iff.2 hquote, hsplit, closing.dropBlanks_text, h]
  · simp [splitArgument?, hdrop, isQuote_iff.2 hquote, hsplit, closing.dropBlanks_text, h]

theorem eq_of_splitArgument? {gap body behind found : List Char} {quote : Char}
    (hgap : ∀ c ∈ gap, isBlank c = true) (hquote : quote ∈ quotes) (hbody : IsBody quote body)
    (h : splitArgument? ('(' :: (gap ++ quote :: (body ++ quote :: behind))) = some found) :
    found = body := by
  have hdrop := dropBlanks_append hgap (not_isBlank_of_mem_quotes hquote)
  have hsplit := splitLiteral?_append (ne_backslash_of_mem_quotes hquote) hbody behind
  simp only [splitArgument?, hdrop, if_pos (isQuote_iff.2 hquote), hsplit, Option.bind_some] at h
  split at h
  · exact (Option.some.inj h).symm
  · exact (Option.some.inj h).symm
  · simp at h

theorem exists_of_splitArgument? {text body : List Char} (h : splitArgument? text = some body) :
    ∃ gap quote, ∃ closing : Closing, (∀ c ∈ gap, isBlank c = true) ∧ quote ∈ quotes ∧
      IsBody quote body ∧ text = '(' :: (gap ++ quote :: (body ++ quote :: closing.text)) := by
  rw [splitArgument?.eq_def] at h
  split at h
  · next text =>
    split at h
    · next quote behind hbehind =>
      split at h
      · next hquote =>
        obtain ⟨⟨inner, rest⟩, hsplit, hstop⟩ := Option.bind_eq_some_iff.1 h
        obtain ⟨gap, hgap, htext⟩ := exists_blanks text
        obtain ⟨hbody, hinner⟩ := isBody_of_splitLiteral? hsplit
        obtain ⟨rfl, closing, hclosing⟩ :
            inner = body ∧ ∃ closing : Closing, rest = closing.text := by
          dsimp only at hstop
          split at hstop
          · next hdrop => exact ⟨Option.some.inj hstop, exists_closing (by simp) hdrop⟩
          · next hdrop => exact ⟨Option.some.inj hstop, exists_closing (by simp) hdrop⟩
          · simp at hstop
        refine ⟨gap, quote, closing, hgap, isQuote_iff.1 hquote, hbody, ?_⟩
        rw [htext, hbehind, hinner, hclosing]
      · simp at h
    · simp at h
  · simp at h

namespace Opening

theorem exists_keyword_cons (kind : Kind) :
    ∃ c letters, kind.keyword.toList = c :: letters ∧ isBlank c = false := by
  cases kind with
  | suite => exact ⟨_, _, rfl, by decide⟩
  | testCase => exact ⟨_, _, rfl, by decide⟩

theorem text_append (opening : Opening) (behind : List Char) :
    opening.text ++ behind = opening.indent ++ (opening.kind.keyword.toList ++
      (opening.modifier ++ '(' :: (opening.gap ++ behind))) := by
  simp [text]

theorem splitKeyword?_text (opening : Opening) (behind : List Char) :
    splitKeyword? (dropBlanks (opening.text ++ behind)) =
      some (opening.kind, opening.modifier ++ '(' :: (opening.gap ++ behind)) := by
  obtain ⟨c, letters, hkeyword, hc⟩ := exists_keyword_cons opening.kind
  rw [text_append, hkeyword, List.cons_append, dropBlanks_append opening.indent_blank hc,
    ← List.cons_append, ← hkeyword]
  exact splitKeyword?_append ..

theorem indentation_text (opening : Opening) (behind : List Char) :
    indentation (opening.text ++ behind) = opening.indent.length := by
  obtain ⟨c, letters, hkeyword, hc⟩ := exists_keyword_cons opening.kind
  rw [text_append, hkeyword]
  exact indentation_append opening.indent_blank hc _

def declaration (opening : Opening) (body : List Char) : Declaration where
  kind := opening.kind
  label := .ofList (Label.decode body)
  column := .ofNat opening.indent.length

theorem ofLine?_text (opening : Opening) (behind : List Char) :
    ofLine? (opening.text ++ behind) =
      (splitArgument? ('(' :: (opening.gap ++ behind))).map opening.declaration := by
  simp only [ofLine?, opening.splitKeyword?_text, opening.indentation_text, Option.bind_some,
    dropModifier_append opening.modifier_mem]
  rfl

theorem eq_declaration_of_ofLine? {opening : Opening} {quote : Char} (hquote : quote ∈ quotes)
    {body behind : List Char} (hbody : IsBody quote body) {declaration : Declaration}
    (h : ofLine? (opening.text ++ quote :: (body ++ quote :: behind)) = some declaration) :
    declaration = opening.declaration body := by
  rw [ofLine?_text, Option.map_eq_some_iff] at h
  obtain ⟨found, hfound, rfl⟩ := h
  rw [eq_of_splitArgument? opening.gap_blank hquote hbody hfound]

end Opening

namespace Form

theorem splitArgument?_call (form : Form) :
    splitArgument? ('(' :: (form.opening.gap ++
      form.quote :: (form.body ++ form.quote :: form.closing.text))) = some form.body :=
  splitArgument?_append form.opening.gap_blank form.quote_mem form.isBody form.closing

theorem ofLine?_line (form : Form) :
    ofLine? form.line = some (form.opening.declaration form.body) := by
  rw [line, form.opening.ofLine?_text, form.splitArgument?_call, Option.map_some]

theorem exists_of_ofLine? {line : List Char} {declaration : Declaration}
    (h : ofLine? line = some declaration) :
    ∃ form : Form, form.line = line ∧ form.opening.declaration form.body = declaration := by
  obtain ⟨⟨kind, behind⟩, hkeyword, hargument⟩ := Option.bind_eq_some_iff.1 h
  obtain ⟨body, hbody, -⟩ := Option.map_eq_some_iff.1 hargument
  obtain ⟨indent, hindent, hline⟩ := exists_blanks line
  obtain ⟨modifier, hmodifier, hbehind⟩ := exists_modifier behind
  obtain ⟨gap, quote, closing, hgap, hquote, hisBody, hcall⟩ := exists_of_splitArgument? hbody
  let form : Form := {
    opening := ⟨indent, kind, modifier, gap, hindent, hmodifier, hgap⟩
    quote, body, closing
    quote_mem := hquote
    isBody := hisBody
  }
  have hform : form.line = line := by
    rw [hline, eq_of_splitKeyword? hkeyword, hbehind, hcall]
    exact form.opening.text_append _
  refine ⟨form, hform, ?_⟩
  rw [← Option.some.injEq, ← form.ofLine?_line, hform, h]

theorem kind_eq_and_body_eq {first second : Form} (h : first.line = second.line) :
    first.opening.kind = second.opening.kind ∧ first.body = second.body := by
  have hsplit := first.opening.splitKeyword?_text
    (first.quote :: (first.body ++ first.quote :: first.closing.text))
  rw [← line, h, line, second.opening.splitKeyword?_text, Option.some.injEq, Prod.mk.injEq]
    at hsplit
  obtain ⟨hkind, hbehind⟩ := hsplit
  have hcall := congrArg (splitArgument? ∘ dropModifier) hbehind
  simp only [Function.comp_apply, dropModifier_append first.opening.modifier_mem,
    dropModifier_append second.opening.modifier_mem, splitArgument?_call] at hcall
  exact ⟨hkind.symm, (Option.some.inj hcall).symm⟩

end Form

/-- A line makes a declaration exactly if it can be written as one, and all ways to write it agree
on the keyword and the label. -/
theorem ofLine?_eq_some_iff {line : List Char} (h : line.length < UInt32.size) :
    (∀ declaration, ofLine? line = some declaration ↔ ∃ form : Form, form.line = line ∧
      declaration.kind = form.opening.kind ∧
      declaration.label = .ofList (Label.decode form.body) ∧
      declaration.column.toNat = form.opening.indent.length) ∧
    ∀ first second : Form, first.line = line → second.line = line →
      first.opening.kind = second.opening.kind ∧ first.body = second.body := by
  refine ⟨fun declaration => ⟨?_, ?_⟩, ?_⟩
  · intro hline
    obtain ⟨form, hform, rfl⟩ := Form.exists_of_ofLine? hline
    have hindent : form.opening.indent.length < UInt32.size := by
      rw [← form.opening.indentation_text, ← Form.line, hform]
      exact Nat.lt_of_le_of_lt (indentation_le_length line) h
    exact ⟨form, hform, rfl, rfl, Nat.mod_eq_of_lt hindent⟩
  · rintro ⟨form, rfl, hkind, hlabel, hcolumn⟩
    have hword : declaration.column = .ofNat form.opening.indent.length := by
      rw [← hcolumn, UInt32.ofNat_toNat]
    rw [form.ofLine?_line, Opening.declaration, ← hkind, ← hlabel, ← hword]
  · intro first second hfirst hsecond
    exact Form.kind_eq_and_body_eq (hfirst.trans hsecond.symm)

def spacedForm : Form where
  opening := {
    indent := ['\u3000', '\t']
    kind := .testCase
    modifier := ".only".toList
    gap := ['\n']
    indent_blank := List.all_eq_true.1 (by decide)
    modifier_mem := by simp [modifiers]
    gap_blank := List.all_eq_true.1 (by decide)
  }
  quote := '"'
  body := "a\\\"".toList
  closing := {
    gap := ['\u00a0']
    stop := ','
    rest := "\"b\")".toList
    gap_blank := List.all_eq_true.1 (by decide)
    stop_mem := by simp
  }
  quote_mem := by simp [quotes]
  isBody := .plain (by decide) (by decide) (.escaped (by decide) .nil)

theorem ofLine?_spacedForm :
    spacedForm.line.length < UInt32.size ∧
      spacedForm.line = "\u3000\tit.only(\n\"a\\\"\"\u00a0,\"b\")".toList ∧
      ofLine? spacedForm.line = some ⟨.testCase, "a\"", 2⟩ := by
  have h : spacedForm.line.length < UInt32.size := by decide
  exact ⟨h, by decide, ((ofLine?_eq_some_iff h).1 _).2 ⟨spacedForm, rfl, rfl, by decide, by decide⟩⟩

end TestOutline.Declaration
