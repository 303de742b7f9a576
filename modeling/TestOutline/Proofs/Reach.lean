import Mathlib.Data.List.Nodup
import TestOutline.Proofs.Lenses

/-! How far a block reaches. A cursor behind a block is in it as long as the cursor is further right
than the block, and nothing is declared in between to the left of the cursor. Only declarations
count: a closing brace, or a function at the margin, ends no block. -/

namespace TestOutline

namespace Outline
open Text

theorem find?_reverse_eq_some_iff {α : Type} {rank : α → Nat} {found : α → Bool} {list : List α}
    (hlist : list.Pairwise fun before behind => rank before < rank behind) {last : α} :
    list.reverse.find? found = some last ↔ last ∈ list ∧ found last = true ∧
      ∀ other ∈ list, found other = true → rank other ≤ rank last := by
  constructor
  · intro hlast
    exact ⟨List.mem_reverse.1 (List.mem_of_find?_eq_some hlast), List.find?_some hlast,
      fun other hother hfound => rank_le_of_find?_reverse hlist hlast hother hfound⟩
  · rintro ⟨hmem, hfound, hhighest⟩
    have hsome : (list.reverse.find? found).isSome :=
      List.find?_isSome.2 ⟨last, List.mem_reverse.2 hmem, hfound⟩
    obtain ⟨other, hother⟩ := Option.isSome_iff_exists.1 hsome
    have hle := rank_le_of_find?_reverse hlist hother hmem hfound
    have hmemOther := List.mem_reverse.1 (List.mem_of_find?_eq_some hother)
    have hge := hhighest other hmemOther (List.find?_some hother)
    have hinj := List.inj_on_of_nodup_map
      (List.pairwise_map.2 (hlist.imp fun hlt => Nat.ne_of_lt hlt)) hmem hmemOther
    rw [hother, hinj (Nat.le_antisymm hle hge)]

variable {lines : List (List Char)} {line : UInt32} {code : List Char}

theorem startingOn_of_plain (h : Addressable lines) (hline : lines[line.toNat]? = some code)
    (hplain : Declaration.ofLine? code = none) : (ofLines lines).startingOn line = [] := by
  rw [startingOn, List.filter_eq_nil_iff]
  intro block hblock hstart
  obtain ⟨text, declaration, htext, hdeclaration, -⟩ := exists_declaration_of_mem h hblock
  have hnumber : block.line = line.toNat := congrArg UInt32.toNat (of_decide_eq_true hstart)
  rw [hnumber, hline, Option.some.injEq] at htext
  rw [← htext, hplain] at hdeclaration
  simp at hdeclaration

/-- Behind the line of a block, down to the cursor, everything declared is at or right of the
cursor's column. -/
def ClearBehind (lines : List (List Char)) (block : Block) (line column : Nat) : Prop :=
  ∀ index text, block.line < index → index < line → lines[index]? = some text →
    (Declaration.ofLine? text).isSome → column ≤ indentation text

theorem clearBehind_iff (h : Addressable lines) {block : Block} {last column : Nat} :
    ClearBehind lines block last column ↔ ∀ other ∈ (ofLines lines).toList,
      other.line < last ∧ other.column < column → other.line ≤ block.line := by
  constructor
  · rintro hclear other hother ⟨hbefore, hleft⟩
    obtain ⟨text, declaration, htext, hdeclaration, hcolumn, -⟩ :=
      exists_declaration_of_mem h hother
    by_contra hbehind
    have hle := hclear other.line text (by omega) hbefore htext (by simp [hdeclaration])
    omega
  · intro hlast index text hbehind hbefore htext hdeclared
    obtain ⟨declaration, hdeclaration⟩ := Option.isSome_iff_exists.1 hdeclared
    obtain ⟨other, hother, hindex, hcolumn, -⟩ := exists_mem_of_declaration h htext hdeclaration
    by_contra hlt
    have hle := hlast other hother ⟨by omega, by omega⟩
    omega

theorem atCursor?_eq_some_iff (h : Addressable lines) (hline : lines[line.toNat]? = some code)
    (hcode : isCode code = true) (hplain : Declaration.ofLine? code = none) {block : Block} :
    atCursor? lines line = some block ↔ block ∈ (ofLines lines).toList ∧
      block.line < line.toNat ∧ block.column < indentation code ∧
      ClearBehind lines block line.toNat (indentation code) := by
  have hcolumn : (cursorColumn lines line.toNat).toNat = indentation code := by
    rw [cursorColumn_of_isCode hline hcode]
    exact Nat.mod_eq_of_lt (h.indentation_lt code (List.mem_of_getElem? hline))
  have hleft (other : Block) : (decide (other.start.line < line) &&
      decide (other.start.character < cursorColumn lines line.toNat)) = true ↔
        other.line < line.toNat ∧ other.column < indentation code := by
    rw [Bool.and_eq_true, decide_eq_true_eq, decide_eq_true_eq, UInt32.lt_iff_toNat_lt,
      UInt32.lt_iff_toNat_lt, hcolumn]
    rfl
  rw [atCursor?, innermost?, startingOn_of_plain h hline hplain, List.head?_nil, Option.none_or,
    find?_reverse_eq_some_iff (pairwise_line_ofLines h.length_le), clearBehind_iff h]
  simp only [hleft, and_assoc]

/-- A cursor on a line of code that declares nothing is in a block if the line is deeper than the
block and nothing in between is declared to the left of the line. So all declarations between the
block and the line are deeper than the block; nothing is said of other lines. -/
theorem blockAt?_reaches {workspace : Workspace} {file : Path} {source : String}
    (hread : workspace.sourceLines file = .ok (Text.lines source.toList))
    (h : Addressable (Text.lines source.toList))
    (hline : (Text.lines source.toList)[line.toNat]? = some code) (hcode : isCode code = true)
    (hplain : Declaration.ofLine? code = none) :
    ∃ found, workspace.blockAt? file line = .ok found ∧
      (∀ block, found = some block ↔ block ∈ (ofSource source).toList ∧
        block.line < line.toNat ∧ block.column < indentation code ∧
        ClearBehind (Text.lines source.toList) block line.toNat (indentation code)) ∧
      ∀ block, found = some block → ∀ index text, block.line < index → index < line.toNat →
        (Text.lines source.toList)[index]? = some text → (Declaration.ofLine? text).isSome →
          block.column < indentation text := by
  refine ⟨_, Workspace.blockAt?_eq hread line, ?_, ?_⟩
  · exact fun block => atCursor?_eq_some_iff h hline hcode hplain
  · intro block hfound index text hbehind hbefore htext hdeclared
    obtain ⟨-, -, hdeeper, hclear⟩ := (atCursor?_eq_some_iff h hline hcode hplain).1 hfound
    exact Nat.lt_of_lt_of_le hdeeper (hclear index text hbehind hbefore htext hdeclared)

def closedSuite : String :=
  "describe('a')\n  it('b')\n\x7d)\nfunction f() \x7b\n  g()\n\x7d\n"

theorem blockAt?_closedSuite :
    (Workspace.onlyFile "a.js" closedSuite).sourceLines ⟨"a.js"⟩ =
        .ok (Text.lines closedSuite.toList) ∧
      Addressable (Text.lines closedSuite.toList) ∧
      (Text.lines closedSuite.toList)[(4 : UInt32).toNat]? = some "  g()".toList ∧
      isCode "  g()".toList = true ∧ Declaration.ofLine? "  g()".toList = none ∧
      ∃ block, (Workspace.onlyFile "a.js" closedSuite).blockAt? ⟨"a.js"⟩ 4 = .ok (some block) ∧
        block.label = "a" := by
  have hread : (Workspace.onlyFile "a.js" closedSuite).sourceLines ⟨"a.js"⟩ =
      .ok (Text.lines closedSuite.toList) := by
    rfl
  have h : Addressable (Text.lines closedSuite.toList) := ⟨by decide, by decide⟩
  have hline : (Text.lines closedSuite.toList)[(4 : UInt32).toNat]? = some "  g()".toList := by
    decide
  have hcode : isCode "  g()".toList = true := by decide
  have hplain : Declaration.ofLine? "  g()".toList = none := by decide
  obtain ⟨found, hfound, hiff, -⟩ := blockAt?_reaches hread h hline hcode hplain
  have hblock : (⟨0, .suite, "a", ⟨0, 0⟩, "a", none⟩ : Block) ∈ (ofSource closedSuite).toList := by
    decide
  have hclear : ∀ index < 4, 0 < index → ∀ text ∈ (Text.lines closedSuite.toList)[index]?,
      (Declaration.ofLine? text).isSome → 2 ≤ indentation text := by
    decide
  have hselected := (hiff _).2 ⟨hblock, by decide, by decide,
    fun index text hbehind hbefore htext => hclear index hbefore hbehind text htext⟩
  exact ⟨hread, h, hline, hcode, hplain, _, hselected ▸ hfound, rfl⟩

theorem exists_line_outside_block :
    ¬ ∀ (workspace : Workspace) (file : Path) (source : String) (line : UInt32)
      (code : List Char) (block : Block),
      workspace.sourceLines file = .ok (Text.lines source.toList) →
      Addressable (Text.lines source.toList) →
      (Text.lines source.toList)[line.toNat]? = some code → isCode code = true →
      Declaration.ofLine? code = none → workspace.blockAt? file line = .ok (some block) →
        ∀ index text, block.line < index → index < line.toNat →
          (Text.lines source.toList)[index]? = some text → isCode text = true →
            block.column < indentation text := by
  intro hall
  have hselected : (Workspace.onlyFile "a.js" closedSuite).blockAt? ⟨"a.js"⟩ 4 =
      .ok (some ⟨0, .suite, "a", ⟨0, 0⟩, "a", none⟩) := by
    rfl
  have hdeeper := hall (.onlyFile "a.js" closedSuite) ⟨"a.js"⟩ closedSuite 4 "  g()".toList _
    (by rfl) ⟨by decide, by decide⟩ (by decide) (by decide) (by decide) hselected 2 "\x7d)".toList
    (by decide) (by decide) (by decide) (by decide)
  exact absurd hdeeper (by decide)

end Outline

end TestOutline
