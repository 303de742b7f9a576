import TestOutline.Proofs.Cursor
import TestOutline.Proofs.SelectedCases
import TestOutline.Proofs.Spelling

/-! Labels with substitutions. In a literal between backquotes, `$` and an opening brace start an
expression, whose value is only known when the tests run. A declaration takes these two characters
for any others: its label has them as they stand, and no pattern made from it selects a test that is
named by a value of the expression. -/

namespace TestOutline

namespace Label
open Text

theorem readDigits?_eq_none {base : Nat} {digits : List Char} {c : Char} (hc : digit? base c = none)
    (h : c ∈ digits) (value : Nat) : readDigits? base value digits = none := by
  induction digits generalizing value with
  | nil => simp at h
  | cons d digits ih =>
    rw [readDigits?]
    rcases List.mem_cons.1 h with rfl | hmem
    · rw [hc, Option.bind_none]
    · cases digit? base d with
      | none => rfl
      | some number => exact ih hmem _

theorem codePointEscape_of_mem {digits : List Char} {c : Char} (hc : digit? 16 c = none)
    (h : c ∈ digits) (marker : Char) (span : Nat) :
    codePointEscape marker digits span = ⟨marker, 1⟩ := by
  rw [codePointEscape, numeral?, if_neg (by simpa using List.ne_nil_of_mem h),
    readDigits?_eq_none hc h]
  rfl

/-- How far an escape goes that stands in front of `body`: not over a backslash. -/
def EndsIn (escape : Escape) (body : List Char) : Prop :=
  ∃ more ≤ body.length, escape.span = more + 1 ∧ '\\' ∉ body.take more

theorem endsIn_one (c : Char) (body : List Char) : EndsIn ⟨c, 1⟩ body :=
  ⟨0, Nat.zero_le _, rfl, by simp⟩

theorem endsIn_codePointEscape {digits body : List Char} {more : Nat} (hmore : more ≤ body.length)
    (hdigits : '\\' ∈ body.take more → '\\' ∈ digits) (marker : Char) :
    EndsIn (codePointEscape marker digits (more + 1)) body := by
  by_cases hbackslash : '\\' ∈ digits
  · rw [codePointEscape_of_mem (by decide) hbackslash]
    exact endsIn_one marker body
  · rw [codePointEscape]
    split
    · exact ⟨more, hmore, rfl, fun hmem => hbackslash (hdigits hmem)⟩
    · exact endsIn_one marker body

variable {c : Char} {body : List Char}

theorem fixedEscape_append_cons (hc : digit? 16 c = none) (marker : Char) (width : Nat)
    (rest : List Char) :
    fixedEscape marker width (body ++ c :: rest) = fixedEscape marker width body ∧
      EndsIn (fixedEscape marker width body) body := by
  by_cases hwidth : width ≤ body.length
  · rw [fixedEscape, fixedEscape, if_pos hwidth, if_pos (by simp; omega),
      List.take_append_of_le_length hwidth]
    exact ⟨rfl, endsIn_codePointEscape hwidth id marker⟩
  · rw [fixedEscape, fixedEscape, if_neg hwidth]
    refine ⟨?_, endsIn_one marker body⟩
    split
    · obtain ⟨more, hmore⟩ := Nat.exists_eq_add_of_lt (Nat.not_le.1 hwidth)
      have hmem : c ∈ (body ++ c :: rest).take width := by
        simp [hmore, List.take_append, Nat.add_assoc]
      exact codePointEscape_of_mem hc hmem ..
    · rfl

theorem bracedEscape_append_cons (hc : digit? 16 c = none) (hbrace : c ≠ '\x7d')
    (rest : List Char) :
    bracedEscape (body ++ c :: rest) = bracedEscape body ∧
      EndsIn (bracedEscape body) ('\x7b' :: body) := by
  by_cases hclosed : '\x7d' ∈ body
  · obtain ⟨digits, behind, rfl, hdigits⟩ := List.eq_append_cons_of_mem hclosed
    rw [List.append_assoc, List.cons_append, bracedEscape_append hdigits,
      bracedEscape_append hdigits]
    refine ⟨rfl, endsIn_codePointEscape (by simp) ?_ 'u'⟩
    have htake : ('\x7b' :: (digits ++ '\x7d' :: behind)).take (digits.length + 2) =
        '\x7b' :: (digits ++ ['\x7d']) := by
      simp [List.take_append, List.take_of_length_le]
    simp [htake]
  · rw [bracedEscape, bracedEscape, if_neg hclosed]
    refine ⟨?_, endsIn_one 'u' _⟩
    split
    · have hmem : c ∈ (body ++ c :: rest).takeWhile (· ≠ '\x7d') := by
        rw [List.takeWhile_append_of_pos, List.takeWhile_cons_of_pos (by simpa using hbrace)]
        · simp
        · exact fun d hd => decide_eq_true fun heq => hclosed (heq ▸ hd)
      exact codePointEscape_of_mem hc hmem ..
    · rfl

/-- What cannot be a part of an escape does not change how the text in front of it is read. -/
structure IsNeutral (c : Char) : Prop where
  ne_backslash : c ≠ '\\'
  digit? : digit? 16 c = none
  ne_open : c ≠ '\x7b'
  ne_close : c ≠ '\x7d'

theorem exists_escape {first : Char} (hx : first ≠ 'x') (hu : first ≠ 'u') :
    ∃ d, ∀ text, escape (first :: text) = ⟨d, 1⟩ := by
  by_cases hletter : first ∈ letterEscapes.map (·.1)
  · obtain ⟨⟨letter, d⟩, hentry, rfl⟩ := List.mem_map.1 hletter
    exact ⟨d, escape_of_mem hentry⟩
  · refine ⟨first, escape_of_not_mem ?_⟩
    have hall : markers.all (fun marker => marker ∈ letterEscapes.map (·.1) ∨ marker = 'x' ∨
        marker = 'u') = true := by
      decide
    intro hmarker
    have hkind := of_decide_eq_true (List.all_eq_true.1 hall first hmarker)
    exact hkind.elim hletter fun hpoint => hpoint.elim hx hu

theorem escape_append_cons (h : IsNeutral c) (first : Char) (rest : List Char) :
    escape (first :: (body ++ c :: rest)) = escape (first :: body) ∧
      EndsIn (escape (first :: body)) body := by
  by_cases hx : first = 'x'
  · subst hx
    exact fixedEscape_append_cons h.digit? 'x' 2 rest
  by_cases hu : first = 'u'
  · subst hu
    by_cases hopen : body.head? = some '\x7b'
    · obtain ⟨behind, rfl⟩ := List.head?_eq_some_iff.1 hopen
      exact bracedEscape_append_cons h.digit? h.ne_close rest
    · have hhead : (body ++ c :: rest).head? ≠ some '\x7b' := by
        cases body with
        | nil => simpa using h.ne_open
        | cons d body => simpa using hopen
      rw [escape_u hopen, escape_u hhead]
      exact fixedEscape_append_cons h.digit? 'u' 4 rest
  obtain ⟨d, hescape⟩ := exists_escape hx hu
  rw [hescape, hescape]
  exact ⟨rfl, endsIn_one d body⟩

end Label

namespace Declaration
open Label Text

variable {quote c : Char} {front : List Char}

theorem IsBody.of_cons {d : Char} (h : IsBody quote (d :: front)) (hd : d ≠ '\\') :
    IsBody quote front := by
  cases h with
  | plain _ _ hbody => exact hbody
  | escaped => exact absurd rfl hd

theorem IsBody.drop (h : IsBody quote front) {count : Nat} (hcount : '\\' ∉ front.take count) :
    IsBody quote (front.drop count) := by
  induction count generalizing front with
  | zero => exact h
  | succ count ih =>
    cases front with
    | nil => exact h
    | cons d front =>
      rw [List.take_succ_cons, List.mem_cons, not_or] at hcount
      exact ih (h.of_cons (Ne.symm hcount.1)) hcount.2

theorem decodeAfter_append_cons (hc : IsNeutral c) (rest : List Char) {skipped : Nat}
    (hskipped : skipped ≤ front.length) (h : IsBody quote (front.drop skipped)) :
    decodeAfter skipped (front ++ c :: rest) =
      decodeAfter skipped front ++ c :: decode rest := by
  induction front generalizing skipped with
  | nil =>
    obtain rfl : skipped = 0 := Nat.le_zero.1 hskipped
    exact decode_cons hc.ne_backslash rest
  | cons d front ih =>
    cases skipped with
    | succ skipped => exact ih (Nat.le_of_succ_le_succ hskipped) h
    | zero =>
      by_cases hd : d = '\\'
      · subst hd
        cases h with
        | plain _ hbackslash _ => exact absurd rfl hbackslash
        | @escaped first body hfeed hbody =>
          obtain ⟨hescape, more, hmore, hspan, hplain⟩ :=
            @escape_append_cons c body hc first rest
          simp only [List.cons_append, decodeAfter, hescape, if_pos]
          have hbehind := @ih (more + 1) (by simpa using hmore) (hbody.drop hplain)
          rw [hspan]
          exact congrArg _ hbehind
      · simp only [List.cons_append, decodeAfter, if_neg hd]
        exact congrArg _ (ih (Nat.zero_le _) (h.of_cons hd))

theorem decode_append_cons (hc : IsNeutral c) (h : IsBody quote front) (rest : List Char) :
    decode (front ++ c :: rest) = decode front ++ c :: decode rest :=
  decodeAfter_append_cons hc rest (Nat.zero_le _) h

theorem splitLiteral?_body_append (h : IsBody quote front) (rest : List Char) :
    splitLiteral? quote (front ++ rest) =
      (splitLiteral? quote rest).map fun (body, behind) => (front ++ body, behind) := by
  induction h with
  | nil => simp
  | plain hquote hbackslash _ ih =>
    rw [List.cons_append, splitLiteral?_plain hbackslash, if_neg hquote, ih, Option.map_map]
    rfl
  | escaped hfeed _ ih =>
    rw [List.cons_append, List.cons_append, splitLiteral?, if_neg hfeed, ih, Option.map_map]
    rfl

theorem splitArgument?_body_append (hquote : quote ∈ quotes) {gap : List Char}
    (hgap : ∀ c ∈ gap, isBlank c = true) (h : IsBody quote front) {rest body : List Char} :
    splitArgument? ('(' :: (gap ++ quote :: (front ++ rest))) = some body ↔
      ∃ tail, ∃ closing : Closing, IsBody quote tail ∧ rest = tail ++ quote :: closing.text ∧
        body = front ++ tail := by
  constructor
  · intro hargument
    obtain ⟨gap', quote', closing, hgap', hquote', hbody, hcall⟩ :=
      exists_of_splitArgument? hargument
    have hdrop := congrArg dropBlanks (List.cons.inj hcall).2
    rw [dropBlanks_append hgap (not_isBlank_of_mem_quotes hquote),
      dropBlanks_append hgap' (not_isBlank_of_mem_quotes hquote')] at hdrop
    obtain ⟨rfl, hliteral⟩ := List.cons.inj hdrop
    have hsplit := congrArg (splitLiteral? quote) hliteral
    rw [splitLiteral?_append (ne_backslash_of_mem_quotes hquote) hbody,
      splitLiteral?_body_append h, Option.map_eq_some_iff] at hsplit
    obtain ⟨⟨tail, behind⟩, htail, heq⟩ := hsplit
    obtain ⟨rfl, rfl⟩ := Prod.mk.inj heq
    obtain ⟨hisBody, hrest⟩ := isBody_of_splitLiteral? htail
    exact ⟨tail, closing, hisBody, hrest, rfl⟩
  · rintro ⟨tail, closing, htail, rfl, rfl⟩
    rw [← List.append_assoc]
    exact splitArgument?_append hgap hquote (h.append htail) closing

end Declaration

namespace Outline

theorem Nested.isPrefix_of_selects {outline : Outline} (h : outline.Nested) {block : Block}
    (hblock : block ∈ outline.toList) {name : String}
    (hselects : Grep.selects (outline.pattern block.id) name = true) :
    block.qualifiedName.toList <+: name.toList := by
  cases hkind : block.kind with
  | suite => exact (h.selects_pattern_suite hblock (decide_eq_true hkind) name).1 hselects
  | testCase =>
    have hname := (h.selects_pattern_testCase hblock (decide_eq_true hkind) name).1 hselects
    exact hname ▸ List.prefix_refl name.toList

theorem exists_toList_qualify (parent : Option Block) :
    ∃ before, ∀ label : String, (Block.qualify parent label).toList = before ++ label.toList := by
  cases parent with
  | none => exact ⟨[], fun label => rfl⟩
  | some outer =>
    exact ⟨outer.qualifiedName.toList ++ [' '], fun label => by simp [Block.qualify]⟩

end Outline

namespace Declaration
open Label Text Outline

/-- A line where the label of a declaration would be computed: a literal between backquotes holds an
expression. What stands in front of `${` is text, whatever else it holds. -/
structure ComputedLabel where
  opening : Opening
  front : List Char
  behind : List Char
  isBody : IsBody '\x60' front

namespace ComputedLabel

def line (computed : ComputedLabel) : List Char :=
  computed.opening.text ++ '\x60' :: (computed.front ++ '$' :: '\x7b' :: computed.behind)

/-- What follows goes on as a label would, to a backquote where the argument ends. -/
def GoesOn (computed : ComputedLabel) (tail : List Char) : Prop :=
  IsBody '\x60' tail ∧ ∃ closing : Closing, computed.behind = tail ++ '\x60' :: closing.text

def declaration (computed : ComputedLabel) (tail : List Char) : Declaration where
  kind := computed.opening.kind
  label := .ofList (decode computed.front ++ '$' :: '\x7b' :: decode tail)
  column := .ofNat computed.opening.indent.length

theorem isNeutral_dollar : IsNeutral '$' where
  ne_backslash := by decide
  digit? := by decide
  ne_open := by decide
  ne_close := by decide

theorem ofLine?_line (computed : ComputedLabel) {declaration : Declaration} :
    ofLine? computed.line = some declaration ↔
      ∃ tail, computed.GoesOn tail ∧ declaration = computed.declaration tail := by
  have hquote : '\x60' ∈ quotes := by simp [quotes]
  have hbody : IsBody '\x60' (computed.front ++ ['$', '\x7b']) :=
    computed.isBody.append (.plain (by decide) (by decide) (.plain (by decide) (by decide) .nil))
  have hline : computed.line = computed.opening.text ++
      '\x60' :: (computed.front ++ ['$', '\x7b'] ++ computed.behind) := by
    simp [line]
  have hlabel (tail : List Char) :
      computed.opening.declaration (computed.front ++ ['$', '\x7b'] ++ tail) =
        computed.declaration tail := by
    rw [List.append_assoc, Opening.declaration, List.cons_append, List.singleton_append,
      decode_append_cons isNeutral_dollar computed.isBody, decode_cons (by decide)]
    rfl
  rw [hline, computed.opening.ofLine?_text, Option.map_eq_some_iff]
  simp only [splitArgument?_body_append hquote computed.opening.gap_blank hbody]
  constructor
  · rintro ⟨body, ⟨tail, closing, htail, hbehind, rfl⟩, rfl⟩
    exact ⟨tail, ⟨htail, closing, hbehind⟩, hlabel tail⟩
  · rintro ⟨tail, ⟨htail, closing, hbehind⟩, rfl⟩
    exact ⟨_, ⟨tail, closing, htail, hbehind, rfl⟩, hlabel tail⟩

theorem isPrefix_of_selects {outline : Outline} (h : outline.Nested) {block : Block}
    (hblock : block ∈ outline.toList) {front tail value : List Char}
    (hlabel : block.label = .ofList (front ++ '$' :: '\x7b' :: tail))
    (hselects : Grep.selects (outline.pattern block.id)
      (Block.qualify (outline.parent? block) (.ofList (front ++ value))) = true) :
    ['$', '\x7b'] <+: value := by
  have hprefix := h.isPrefix_of_selects hblock hselects
  have hname : block.qualifiedName = Block.qualify (outline.parent? block) block.label :=
    h.qualifiedName block.id block (h.get?_id hblock)
  obtain ⟨before, hbefore⟩ := exists_toList_qualify (outline.parent? block)
  rw [hname, hlabel, hbefore, hbefore, String.toList_ofList, String.toList_ofList,
    List.prefix_append_right_inj, List.prefix_append_right_inj] at hprefix
  exact (List.prefix_append ['$', '\x7b'] tail).trans hprefix

/-- A line with a computed label is a declaration exactly if what stands behind `${` happens to end
like a label. Then a block of the outline has the expression itself in its label, and the pattern of
the block selects a test only if the expression gives a text that begins with `${` too. -/
theorem ofLine?_computed (computed : ComputedLabel) :
    (∀ declaration, ofLine? computed.line = some declaration ↔
      ∃ tail, computed.GoesOn tail ∧ declaration = computed.declaration tail) ∧
    ∀ (source : String) (index : Nat), Addressable (lines source.toList) →
      (lines source.toList)[index]? = some computed.line →
      ((∃ block ∈ (ofSource source).toList, block.line = index) ↔ ∃ tail, computed.GoesOn tail) ∧
      ∀ block ∈ (ofSource source).toList, block.line = index → ∀ value : List Char,
        Grep.selects ((ofSource source).pattern block.id)
          (Block.qualify ((ofSource source).parent? block)
            (.ofList (decode computed.front ++ value))) = true →
          ['$', '\x7b'] <+: value := by
  have hdeclared {source : String} {index : Nat} (h : Addressable (lines source.toList))
      (hline : (lines source.toList)[index]? = some computed.line) {block : Block}
      (hblock : block ∈ (ofSource source).toList) (hindex : block.line = index) :
      ∃ tail, computed.GoesOn tail ∧ block.label = (computed.declaration tail).label := by
    obtain ⟨code, declaration, hcode, hdeclaration, -, -, hlabel⟩ :=
      exists_declaration_of_mem h hblock
    rw [hindex, hline, Option.some.injEq] at hcode
    rw [← hcode, ofLine?_line] at hdeclaration
    obtain ⟨tail, htail, rfl⟩ := hdeclaration
    exact ⟨tail, htail, hlabel.symm⟩
  refine ⟨fun declaration => computed.ofLine?_line, fun source index h hline => ⟨⟨?_, ?_⟩, ?_⟩⟩
  · rintro ⟨block, hblock, hindex⟩
    obtain ⟨tail, htail, -⟩ := hdeclared h hline hblock hindex
    exact ⟨tail, htail⟩
  · rintro ⟨tail, htail⟩
    obtain ⟨block, hblock, hindex, -⟩ :=
      exists_mem_of_declaration h hline (computed.ofLine?_line.2 ⟨tail, htail, rfl⟩)
    exact ⟨block, hblock, hindex⟩
  · intro block hblock hindex value hselects
    obtain ⟨tail, -, hlabel⟩ := hdeclared h hline hblock hindex
    exact isPrefix_of_selects (nested_ofLines _) hblock hlabel hselects

def behindBackslash : ComputedLabel where
  opening := {
    indent := [' ', ' ']
    kind := .testCase
    modifier := ".skip".toList
    gap := [' ']
    indent_blank := List.all_eq_true.1 (by decide)
    modifier_mem := by simp [modifiers]
    gap_blank := List.all_eq_true.1 (by decide)
  }
  front := ['\\', '\\']
  behind := "n\x7ds\x60, f)".toList
  isBody := .escaped (by decide) .nil

theorem ofLine?_behindBackslash :
    behindBackslash.line = "  it.skip( \x60\\\\$\x7bn\x7ds\x60, f)".toList ∧
      ofLine? behindBackslash.line = some ⟨.testCase, "\\$\x7bn\x7ds", 2⟩ ∧
      ∃ source : String, Addressable (lines source.toList) ∧
        (lines source.toList)[1]? = some behindBackslash.line ∧
        ∃ block ∈ (ofSource source).toList, block.line = 1 ∧
          Grep.selects ((ofSource source).pattern block.id)
            (Block.qualify ((ofSource source).parent? block) "\\1s") = false := by
  have hgoesOn : behindBackslash.GoesOn "n\x7ds".toList :=
    ⟨.plain (by decide) (by decide) (.plain (by decide) (by decide)
      (.plain (by decide) (by decide) .nil)), ⟨[], ',', " f)".toList, by simp, by simp⟩, by decide⟩
  obtain ⟨hline, hsource⟩ := ofLine?_computed behindBackslash
  have h : Addressable (lines "describe('a')\n  it.skip( \x60\\\\$\x7bn\x7ds\x60, f)".toList) :=
    ⟨by decide, by decide⟩
  obtain ⟨hblock, hselects⟩ := hsource _ 1 h (by decide)
  obtain ⟨block, hmem, hindex⟩ := hblock.2 ⟨_, hgoesOn⟩
  refine ⟨by decide, (hline _).2 ⟨_, hgoesOn, by decide⟩, _, h, by decide, block, hmem, hindex, ?_⟩
  have hvalue : String.ofList (decode behindBackslash.front ++ "1s".toList) = "\\1s" := by decide
  rw [← hvalue, Bool.eq_false_iff]
  exact fun hselected => absurd (hselects block hmem hindex _ hselected) (by decide)

theorem exists_ofLine?_computed : ¬ ∀ computed : ComputedLabel, ofLine? computed.line = none := by
  intro hall
  have hline := hall ⟨.atMargin .testCase, "adds ".toList, "n\x7d\x60)".toList,
    .plain (by decide) (by decide) (.plain (by decide) (by decide) (.plain (by decide) (by decide)
      (.plain (by decide) (by decide) (.plain (by decide) (by decide) .nil))))⟩
  exact absurd hline (by decide)

end ComputedLabel

end Declaration

end TestOutline
