import Mathlib.Data.List.Nodup
import TestOutline.Proofs.Pattern
import TestOutline.Proofs.Walk

/-! Which test cases of a file a pattern selects. Among test cases with distinct names, the pattern
of a test case selects that one and nothing else. The pattern of a suite selects all test cases in
the suite, and with them every test case elsewhere whose name begins with the name of the suite. -/

namespace TestOutline

/-- Whether a test with this name runs under a pattern; nothing does if the pattern is malformed. -/
def Grep.selects (pattern name : String) : Bool :=
  match read? pattern.toList with
  | some expression => accepts expression name.toList
  | none => false

namespace Outline
open Grep

/-- The test cases that run under the pattern of the block at `id`. -/
def selectedCases (outline : Outline) (id : Nat) : List Block :=
  outline.testCases.filter fun testCase => selects (outline.pattern id) testCase.qualifiedName

/-- The test cases that are the block or lie below it. -/
def casesIn (outline : Outline) (block : Block) : List Block :=
  outline.testCases.filter fun testCase => block ∈ outline.lineage testCase.id

namespace Nested

variable {outline : Outline} {block : Block}

theorem selects_pattern (h : outline.Nested) (hblock : block ∈ outline.toList) (name : String) :
    selects (outline.pattern block.id) name =
      accepts (nameAtoms block.kind block.qualifiedName.toList) name.toList := by
  rw [selects, h.read?_pattern hblock]

theorem selects_pattern_suite (h : outline.Nested) (hblock : block ∈ outline.toList)
    (hkind : block.isSuite) (name : String) :
    selects (outline.pattern block.id) name = true ↔
      block.qualifiedName.toList <+: name.toList := by
  rw [h.selects_pattern hblock, show block.kind = .suite from of_decide_eq_true hkind,
    accepts_suite]

theorem selects_pattern_testCase (h : outline.Nested) (hblock : block ∈ outline.toList)
    (hkind : block.isTestCase) (name : String) :
    selects (outline.pattern block.id) name = true ↔ name = block.qualifiedName := by
  rw [h.selects_pattern hblock, show block.kind = .testCase from of_decide_eq_true hkind,
    accepts_testCase, String.toList_inj]

theorem mem_lineage_testCase (h : outline.Nested) (hblock : block ∈ outline.toList)
    (hkind : block.isTestCase) {other : Block} (hother : other ∈ outline.toList) :
    block ∈ outline.lineage other.id ↔ other = block := by
  have hget := h.get?_id hblock
  have hgetOther := h.get?_id hother
  constructor
  · intro hmember
    rcases (h.mem_lineage_iff hget hgetOther).1 hmember with hid | ⟨suite, hfound, -, hsuite, -⟩
    · exact ((h.eq_iff_id_eq hget hgetOther).2 hid).symm
    · rw [hget, Option.some.injEq] at hfound
      rw [← hfound, Block.isSuite, of_decide_eq_true hkind] at hsuite
      simp at hsuite
  · rintro rfl
    exact h.mem_lineage_self hget

theorem mem_selectedCases_of_mem_casesIn (h : outline.Nested) (hblock : block ∈ outline.toList)
    {other : Block} (hother : other ∈ outline.casesIn block) :
    other ∈ outline.selectedCases block.id := by
  obtain ⟨hcase, hmember⟩ := List.mem_filter.1 hother
  have hmem : other ∈ outline.toList := (List.mem_filter.1 hcase).1
  refine List.mem_filter.2 ⟨hcase, ?_⟩
  cases hkind : block.kind with
  | suite =>
    rw [h.selects_pattern_suite hblock (decide_eq_true hkind)]
    exact h.qualifiedName_isPrefix (h.get?_id hmem) (of_decide_eq_true hmember)
  | testCase =>
    have hsame := (h.mem_lineage_testCase hblock (decide_eq_true hkind) hmem).1
      (of_decide_eq_true hmember)
    rw [h.selects_pattern_testCase hblock (decide_eq_true hkind), hsame]

theorem casesIn_testCase (h : outline.Nested) (hblock : block ∈ outline.toList)
    (hkind : block.isTestCase) : outline.casesIn block = [block] := by
  have hnodup : outline.testCases.Nodup := by
    apply List.Nodup.filter
    apply List.Nodup.of_map (·.id)
    rw [h.map_id_toList]
    exact List.nodup_range
  have hcase : block ∈ outline.testCases := List.mem_filter.2 ⟨hblock, hkind⟩
  have hself : outline.casesIn block = outline.testCases.filter (· = block) := by
    apply List.filter_congr
    intro other hother
    exact decide_eq_decide.2 (h.mem_lineage_testCase hblock hkind (List.mem_filter.1 hother).1)
  rw [hself, List.filter_eq, List.count_eq_one_of_mem hnodup hcase]
  rfl

theorem selectedCases_testCase (h : outline.Nested)
    (hnames : (outline.testCases.map (·.qualifiedName)).Nodup) (hblock : block ∈ outline.toList)
    (hkind : block.isTestCase) : outline.selectedCases block.id = [block] := by
  have hcase : block ∈ outline.testCases := List.mem_filter.2 ⟨hblock, hkind⟩
  rw [← h.casesIn_testCase hblock hkind]
  apply List.filter_congr
  intro other hother
  rw [Bool.eq_iff_iff, decide_eq_true_eq, h.selects_pattern_testCase hblock hkind,
    h.mem_lineage_testCase hblock hkind (List.mem_filter.1 hother).1]
  constructor
  · exact fun hname => List.inj_on_of_nodup_map hnames hother hcase hname
  · exact congrArg Block.qualifiedName

theorem selectedCases_suite_iff (h : outline.Nested) (hblock : block ∈ outline.toList)
    (hkind : block.isSuite) :
    outline.selectedCases block.id = outline.casesIn block ↔ ∀ other ∈ outline.testCases,
      block.qualifiedName.toList <+: other.qualifiedName.toList →
        block ∈ outline.lineage other.id := by
  constructor
  · intro hexact other hother hname
    have hselected : other ∈ outline.selectedCases block.id :=
      List.mem_filter.2 ⟨hother, (h.selects_pattern_suite hblock hkind _).2 hname⟩
    rw [hexact] at hselected
    exact of_decide_eq_true (List.mem_filter.1 hselected).2
  · intro hnone
    apply List.filter_congr
    intro other hother
    rw [Bool.eq_iff_iff, decide_eq_true_eq, h.selects_pattern_suite hblock hkind]
    have hmem : other ∈ outline.toList := (List.mem_filter.1 hother).1
    exact ⟨hnone other hother, h.qualifiedName_isPrefix (h.get?_id hmem)⟩

end Nested

/-- Where test cases have distinct names, the pattern of a block selects all test cases in it. The
pattern of a test case selects no other; the pattern of a suite selects no other exactly if no test
case elsewhere has a name that begins with the name of the suite. -/
theorem selectedCases_exact {source : String}
    (hnames : ((ofSource source).testCases.map (·.qualifiedName)).Nodup) {block : Block}
    (hblock : block ∈ (ofSource source).toList) :
    (∀ other ∈ (ofSource source).casesIn block,
        other ∈ (ofSource source).selectedCases block.id) ∧
      (block.isTestCase → (ofSource source).selectedCases block.id = [block]) ∧
      (block.isSuite →
        ((ofSource source).selectedCases block.id = (ofSource source).casesIn block ↔
          ∀ other ∈ (ofSource source).testCases,
            block.qualifiedName.toList <+: other.qualifiedName.toList →
              block ∈ (ofSource source).lineage other.id)) := by
  have h : (ofSource source).Nested := nested_ofLines _
  refine ⟨?_, ?_, ?_⟩
  · exact fun other hother => h.mem_selectedCases_of_mem_casesIn hblock hother
  · exact fun hkind => h.selectedCases_testCase hnames hblock hkind
  · exact fun hkind => h.selectedCases_suite_iff hblock hkind

def extendedName : String :=
  "describe('user')\n  it('logs in')\ndescribe('username')\n  it('is unique')\n"

theorem selectedCases_extendedName :
    ((ofSource extendedName).testCases.map (·.qualifiedName)).Nodup ∧
      ∃ block ∈ (ofSource extendedName).toList, block.isSuite ∧ block.label = "username" ∧
        (ofSource extendedName).selectedCases block.id =
          (ofSource extendedName).casesIn block := by
  have hnames : ((ofSource extendedName).testCases.map (·.qualifiedName)).Nodup := by decide
  have hblock : (⟨2, .suite, "username", ⟨2, 0⟩, "username", none⟩ : Block) ∈
      (ofSource extendedName).toList := by
    decide
  obtain ⟨-, -, hexact⟩ := selectedCases_exact hnames hblock
  exact ⟨hnames, _, hblock, rfl, rfl, (hexact rfl).2 (by decide)⟩

theorem exists_selectedCases_ne_casesIn :
    ¬ ∀ source : String, ((ofSource source).testCases.map (·.qualifiedName)).Nodup →
      ∀ block ∈ (ofSource source).toList,
        (ofSource source).selectedCases block.id = (ofSource source).casesIn block := by
  intro hexact
  have hblock : (⟨0, .suite, "user", ⟨0, 0⟩, "user", none⟩ : Block) ∈
      (ofSource extendedName).toList := by
    decide
  have hsame := hexact extendedName (by decide) _ hblock
  have hmore : ((ofSource extendedName).selectedCases 0).map (·.label) =
      ["logs in", "is unique"] := by
    decide
  rw [hsame] at hmore
  exact absurd hmore (by decide)

end Outline

end TestOutline
