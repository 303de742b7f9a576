import Mathlib.Order.Monotone.Basic
import TestOutline.Proofs.Description
import TestOutline.Proofs.Grammar
import TestOutline.Proofs.SelectedCases

/-! What names depend on. Kinds, labels and the order of the columns of the declarations determine
who lies below whom, hence all names and patterns; no other line counts, nor how wide an indentation
is. So a file may be laid out and its declarations may be written in other ways. -/

namespace TestOutline

/-- Declarations of the same kinds and with the same labels, in columns of the same order. -/
structure Declaration.Alike (first second : List Declaration) : Prop where
  kinds : first.map (·.kind) = second.map (·.kind)
  labels : first.map (·.label) = second.map (·.label)
  columns : ∀ pair ∈ first.zip second, ∀ other ∈ first.zip second,
    (pair.1.column < other.1.column ↔ pair.2.column < other.2.column)

def Block.unplaced (block : Block) : Block :=
  { block with start := ⟨0, 0⟩ }

namespace Outline

/-- Two outlines that differ in the places of their blocks only. -/
structure SameNames (first second : Outline) : Prop where
  blocks : first.toList.map Block.unplaced = second.toList.map Block.unplaced
  pattern : ∀ id, first.pattern id = second.pattern id
  selectedCases : ∀ id, (first.selectedCases id).map Block.unplaced =
    (second.selectedCases id).map Block.unplaced

variable {first second : Outline}

theorem alike_of_declarations (h : Declaration.Alike (first.toList.map Block.declaration)
    (second.toList.map Block.declaration)) : Alike first second := by
  have hpair {id : Nat} {one other : Block} (hone : first.get? id = some one)
      (hother : second.get? id = some other) : (one.declaration, other.declaration) ∈
        (first.toList.map Block.declaration).zip (second.toList.map Block.declaration) := by
    rw [get?_eq_getElem?] at hone hother
    rw [List.mem_iff_getElem?]
    exact ⟨id, List.getElem?_zip_eq_some.2 ⟨by simp [hone], by simp [hother]⟩⟩
  have hkinds := h.kinds
  have hlabels := h.labels
  rw [List.map_map, List.map_map] at hkinds hlabels
  constructor
  · simpa [length_toList] using congrArg List.length hkinds
  · exact fun id one other hone hother => read_eq_of_map_eq hkinds hone hother
  · exact fun id one other hone hother => read_eq_of_map_eq hlabels hone hother
  · intro id later one other one' other' hone hone' hother hother'
    have horder := h.columns _ (hpair hone hother) _ (hpair hone' hother')
    rwa [UInt32.lt_iff_toNat_lt, UInt32.lt_iff_toNat_lt] at horder

namespace Alike

theorem unplaced_eq (h : Alike first second) (hfirst : first.Nested) (hsecond : second.Nested)
    {id : Nat} {one other : Block} (hone : first.get? id = some one)
    (hother : second.get? id = some other) : one.unplaced = other.unplaced := by
  rw [Block.unplaced, Block.unplaced, hfirst.id_eq id one hone, hsecond.id_eq id other hother,
    h.kind_eq id one other hone hother, h.label_eq id one other hone hother,
    h.parent_eq hfirst hsecond hone hother, h.qualifiedName_eq hfirst hsecond hone hother]

theorem map_unplaced_eq (h : Alike first second) (hfirst : first.Nested)
    (hsecond : second.Nested) :
    first.toList.map Block.unplaced = second.toList.map Block.unplaced := by
  apply List.ext_getElem?
  intro id
  rw [List.getElem?_map, List.getElem?_map, ← get?_eq_getElem?, ← get?_eq_getElem?]
  cases hone : first.get? id with
  | none =>
    rw [get?_eq_none_iff, h.size_eq, ← get?_eq_none_iff] at hone
    rw [hone]
  | some one =>
    obtain ⟨other, hother⟩ := h.exists_get? hone
    rw [hother, Option.map_some, Option.map_some, h.unplaced_eq hfirst hsecond hone hother]

theorem pattern_eq (h : Alike first second) (hfirst : first.Nested) (hsecond : second.Nested)
    (id : Nat) : first.pattern id = second.pattern id := by
  cases hone : first.get? id with
  | none =>
    have hother := hone
    rw [get?_eq_none_iff, h.size_eq, ← get?_eq_none_iff] at hother
    rw [pattern, hone, pattern, hother]
  | some one =>
    obtain ⟨other, hother⟩ := h.exists_get? hone
    rw [hfirst.pattern_eq hone, hsecond.pattern_eq hother, h.kind_eq id one other hone hother,
      h.qualifiedName_eq hfirst hsecond hone hother]

end Alike

theorem map_unplaced_selectedCases (outline : Outline) (id : Nat) :
    (outline.selectedCases id).map Block.unplaced =
      ((outline.toList.map Block.unplaced).filter Block.isTestCase).filter fun testCase =>
        Grep.selects (outline.pattern id) testCase.qualifiedName := by
  rw [List.filter_map, List.filter_map]
  rfl

theorem Alike.sameNames (h : Alike first second) (hfirst : first.Nested)
    (hsecond : second.Nested) : SameNames first second where
  blocks := h.map_unplaced_eq hfirst hsecond
  pattern := h.pattern_eq hfirst hsecond
  selectedCases id := by
    rw [map_unplaced_selectedCases, map_unplaced_selectedCases, h.map_unplaced_eq hfirst hsecond,
      h.pattern_eq hfirst hsecond]

end Outline

open Text

def declarations (source : String) : List Declaration :=
  (lines source.toList).filterMap Declaration.ofLine?

/-- Files that can be made from each other line by line: lines that declare nothing come and go, and
a declaration may be written in another way, with another modifier, other quotes and escapes, and
other code behind it. Each level of indentation has its own width in either file. -/
inductive Restyled (width width' : Nat → Nat) : List (List Char) → List (List Char) → Prop where
  | nil : Restyled width width' [] []
  | removed {line : List Char} {first second : List (List Char)}
      (hplain : Declaration.ofLine? line = none) (h : Restyled width width' first second) :
      Restyled width width' (line :: first) second
  | inserted {line : List Char} {first second : List (List Char)}
      (hplain : Declaration.ofLine? line = none) (h : Restyled width width' first second) :
      Restyled width width' first (line :: second)
  | rewritten {one another : Declaration.Form} {level : Nat} {first second : List (List Char)}
      (hkind : one.opening.kind = another.opening.kind)
      (hlabel : Label.decode one.body = Label.decode another.body)
      (hone : one.opening.indent.length = width level)
      (hanother : another.opening.indent.length = width' level)
      (h : Restyled width width' first second) :
      Restyled width width' (one.line :: first) (another.line :: second)

structure Declaration.SameButWidth (width width' : Nat → Nat) (one another : Declaration) :
    Prop where
  kind : one.kind = another.kind
  label : one.label = another.label
  level : ∃ level, one.column.toNat = width level ∧ another.column.toNat = width' level

theorem Declaration.Form.column_toNat (form : Form) (h : indentation form.line < UInt32.size) :
    (form.opening.declaration form.body).column.toNat = form.opening.indent.length := by
  rw [line, form.opening.indentation_text] at h
  exact Nat.mod_eq_of_lt h

namespace Restyled

variable {width width' : Nat → Nat} {first second : List (List Char)}

theorem forall₂ (h : Restyled width width' first second)
    (hfirst : ∀ line ∈ first, (Declaration.ofLine? line).isSome →
      indentation line < UInt32.size)
    (hsecond : ∀ line ∈ second, (Declaration.ofLine? line).isSome →
      indentation line < UInt32.size) :
    List.Forall₂ (Declaration.SameButWidth width width') (first.filterMap Declaration.ofLine?)
      (second.filterMap Declaration.ofLine?) := by
  induction h with
  | nil => exact .nil
  | removed hplain _ ih =>
    rw [List.filterMap_cons_none hplain]
    exact ih (fun line hline => hfirst line (List.mem_cons_of_mem _ hline)) hsecond
  | inserted hplain _ ih =>
    rw [List.filterMap_cons_none hplain]
    exact ih hfirst fun line hline => hsecond line (List.mem_cons_of_mem _ hline)
  | @rewritten one another level _ _ hkind hlabel hone hanother _ ih =>
    rw [List.filterMap_cons_some one.ofLine?_line, List.filterMap_cons_some another.ofLine?_line]
    refine .cons ⟨hkind, congrArg String.ofList hlabel, level, ?_, ?_⟩ (ih ?_ ?_)
    · have hbound := hfirst _ (List.mem_cons_self ..) (one.ofLine?_line ▸ rfl)
      rw [one.column_toNat hbound, hone]
    · have hbound := hsecond _ (List.mem_cons_self ..) (another.ofLine?_line ▸ rfl)
      rw [another.column_toNat hbound, hanother]
    · exact fun line hline => hfirst line (List.mem_cons_of_mem _ hline)
    · exact fun line hline => hsecond line (List.mem_cons_of_mem _ hline)

end Restyled

theorem Declaration.alike_of_forall₂ {width width' : Nat → Nat} (hwidth : StrictMono width)
    (hwidth' : StrictMono width') {first second : List Declaration}
    (h : List.Forall₂ (SameButWidth width width') first second) : Alike first second := by
  constructor
  · rw [← List.forall₂_eq_eq_eq, List.forall₂_map_left_iff, List.forall₂_map_right_iff]
    exact h.imp fun _ _ hsame => hsame.kind
  · rw [← List.forall₂_eq_eq_eq, List.forall₂_map_left_iff, List.forall₂_map_right_iff]
    exact h.imp fun _ _ hsame => hsame.label
  · rintro ⟨one, another⟩ hpair ⟨one', another'⟩ hpair'
    obtain ⟨-, hzip⟩ := List.forall₂_iff_zip.1 h
    obtain ⟨level, hone, hanother⟩ := (hzip hpair).level
    obtain ⟨level', hone', hanother'⟩ := (hzip hpair').level
    rw [UInt32.lt_iff_toNat_lt, UInt32.lt_iff_toNat_lt, hone, hone', hanother, hanother',
      hwidth.lt_iff_lt, hwidth'.lt_iff_lt]

namespace Outline

/-- Files with the same kinds and labels, in columns of the same order, have the same blocks but for
their places, and the same patterns. So it is for a file that is laid out anew. -/
theorem sameNames_of_alike {first second : String} :
    (Declaration.Alike (declarations first) (declarations second) →
      SameNames (ofSource first) (ofSource second)) ∧
    ∀ width width' : Nat → Nat, StrictMono width → StrictMono width' →
      (∀ line ∈ lines first.toList, (Declaration.ofLine? line).isSome →
        indentation line < UInt32.size) →
      (∀ line ∈ lines second.toList, (Declaration.ofLine? line).isSome →
        indentation line < UInt32.size) →
      Restyled width width' (lines first.toList) (lines second.toList) →
        SameNames (ofSource first) (ofSource second) := by
  have hnames (h : Declaration.Alike (declarations first) (declarations second)) :
      SameNames (ofSource first) (ofSource second) := by
    rw [declarations, ← map_declaration_ofLines, declarations, ← map_declaration_ofLines] at h
    exact (alike_of_declarations h).sameNames (nested_ofLines _) (nested_ofLines _)
  refine ⟨hnames, ?_⟩
  intro width width' hwidth hwidth' hfirst hsecond h
  exact hnames (Declaration.alike_of_forall₂ hwidth hwidth' (h.forall₂ hfirst hsecond))

def blankIndented : String :=
  "describe('a')\n    it('b')\n"

def tabIndented : String :=
  "// a\ndescribe.only(\"a\")\n\tit.skip(\"\\x62\");\n"

def suiteForm : Declaration.Form where
  opening := .atMargin .suite
  quote := '\''
  body := ['a']
  closing := .atOnce
  quote_mem := by simp [Declaration.quotes]
  isBody := .plain (by decide) (by decide) .nil

def onlySuiteForm : Declaration.Form where
  opening := { Declaration.Opening.atMargin .suite with
    modifier := ".only".toList
    modifier_mem := Declaration.only_mem_modifiers }
  quote := '"'
  body := ['a']
  closing := .atOnce
  quote_mem := Declaration.doubleQuote_mem_quotes
  isBody := .plain (by decide) (by decide) .nil

def testCaseForm : Declaration.Form where
  opening := { Declaration.Opening.atMargin .testCase with
    indent := "    ".toList
    indent_blank := List.all_eq_true.1 (by decide) }
  quote := '\''
  body := ['b']
  closing := .atOnce
  quote_mem := by simp [Declaration.quotes]
  isBody := .plain (by decide) (by decide) .nil

def skippedCaseForm : Declaration.Form where
  opening := { Declaration.Opening.atMargin .testCase with
    indent := ['\t']
    indent_blank := List.all_eq_true.1 (by decide)
    modifier := ".skip".toList
    modifier_mem := Declaration.skip_mem_modifiers }
  quote := '"'
  body := "\\x62".toList
  closing := { Declaration.Closing.atOnce with
    rest := [';'] }
  quote_mem := Declaration.doubleQuote_mem_quotes
  isBody := .escaped (by decide) (.plain (by decide) (by decide)
    (.plain (by decide) (by decide) .nil))

theorem restyled_tabIndented :
    Restyled (4 * ·) id (lines blankIndented.toList) (lines tabIndented.toList) := by
  have hblank : lines blankIndented.toList = [suiteForm.line, testCaseForm.line] := by decide
  have htab : lines tabIndented.toList =
      ["// a".toList, onlySuiteForm.line, skippedCaseForm.line] := by
    decide
  have hcase : Restyled (4 * ·) id [testCaseForm.line] [skippedCaseForm.line] :=
    @Restyled.rewritten _ _ testCaseForm skippedCaseForm 1 _ _ rfl (by decide) rfl rfl .nil
  have hsuite : Restyled (4 * ·) id [suiteForm.line, testCaseForm.line]
      [onlySuiteForm.line, skippedCaseForm.line] :=
    @Restyled.rewritten _ _ suiteForm onlySuiteForm 0 _ _ rfl rfl rfl rfl hcase
  rw [hblank, htab]
  exact .inserted (by decide) hsuite

theorem sameNames_tabIndented :
    Declaration.Alike (declarations blankIndented) (declarations tabIndented) ∧
      Restyled (4 * ·) id (lines blankIndented.toList) (lines tabIndented.toList) ∧
      SameNames (ofSource blankIndented) (ofSource tabIndented) ∧
      (ofSource tabIndented).pattern 1 = "^a b$" := by
  have h : Declaration.Alike (declarations blankIndented) (declarations tabIndented) :=
    ⟨by decide, by decide, by decide⟩
  have hsame := sameNames_of_alike.1 h
  have hlayout := sameNames_of_alike.2 (4 * ·) id
    (fun one another hlt => Nat.mul_lt_mul_of_pos_left hlt (by decide)) strictMono_id (by decide)
    (by decide) restyled_tabIndented
  exact ⟨h, restyled_tabIndented, hlayout, (hsame.pattern 1).symm.trans (by decide)⟩

end Outline

end TestOutline
