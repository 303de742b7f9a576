import TestOutline.Inspection
import TestOutline.Proofs.Description
import TestOutline.Proofs.Forest

/-! What a cursor is in. Every block stands on a line of code that is indented by its column, so
what holds of the indentation of lines holds of the columns of blocks; and a cursor selects no block
in front of one that it could select. -/

namespace TestOutline

def Workspace.onlyFile (name text : String) : Workspace where
  tree := FileTree.empty.update [name] (some (.file (some text)))
  here := []

namespace Outline
open Text

theorem ofLine?_eq_none_of_isBlankLine {line : List Char} (h : isBlankLine line = true) :
    Declaration.ofLine? line = none := by
  have hdrop : dropBlanks line = [] := by
    rw [dropBlanks, List.dropWhile_eq_nil_iff]
    exact List.all_eq_true.1 h
  rw [Declaration.ofLine?, hdrop]
  rfl

theorem isCode_of_declaration {line : List Char} {declaration : Declaration}
    (h : Declaration.ofLine? line = some declaration) : isCode line = true := by
  rw [isCode, Bool.not_eq_true']
  by_contra hblank
  rw [ofLine?_eq_none_of_isBlankLine (by simpa using hblank)] at h
  simp at h

theorem exists_declaration_of_mem {lines : List (List Char)} (h : Addressable lines) {block : Block}
    (hblock : block ∈ (ofLines lines).toList) :
    ∃ code declaration, lines[block.line]? = some code ∧
      Declaration.ofLine? code = some declaration ∧ indentation code = block.column ∧
      declaration.kind = block.kind ∧ declaration.label = block.label := by
  have hfinding : block.finding ∈ lines.zipIdx.filterMap Finding.ofLine? := by
    rw [← (describes_ofLines h).findings]
    exact List.mem_map_of_mem hblock
  obtain ⟨⟨code, index⟩, hmem, hfound⟩ := List.mem_filterMap.1 hfinding
  obtain ⟨declaration, hdeclaration, hvalue⟩ := Option.map_eq_some_iff.1 hfound
  have hline : index = block.line := congrArg Finding.line hvalue
  refine ⟨code, declaration, ?_, hdeclaration, congrArg Finding.column hvalue,
    congrArg Finding.kind hvalue, congrArg Finding.label hvalue⟩
  rw [← hline]
  exact List.mk_mem_zipIdx_iff_getElem?.1 hmem

theorem exists_mem_of_declaration {lines : List (List Char)} (h : Addressable lines) {index : Nat}
    {code : List Char} (hline : lines[index]? = some code) {declaration : Declaration}
    (hdeclaration : Declaration.ofLine? code = some declaration) :
    ∃ block ∈ (ofLines lines).toList, block.line = index ∧ block.column = indentation code ∧
      block.kind = declaration.kind ∧ block.label = declaration.label := by
  have hfound : Finding.ofLine? (code, index) =
      some ⟨index, indentation code, declaration.kind, declaration.label⟩ := by
    simp [Finding.ofLine?, hdeclaration]
  have hfinding := List.mem_filterMap.2 ⟨_, List.mk_mem_zipIdx_iff_getElem?.2 hline, hfound⟩
  rw [← (describes_ofLines h).findings] at hfinding
  obtain ⟨block, hblock, hvalue⟩ := List.mem_map.1 hfinding
  exact ⟨block, hblock, congrArg Finding.line hvalue, congrArg Finding.column hvalue,
    congrArg Finding.kind hvalue, congrArg Finding.label hvalue⟩

theorem exists_line_of_mem {lines : List (List Char)} (h : Addressable lines) {block : Block}
    (hblock : block ∈ (ofLines lines).toList) :
    ∃ code, lines[block.line]? = some code ∧ isCode code = true ∧
      indentation code = block.column := by
  obtain ⟨code, declaration, hline, hdeclaration, hcolumn, -⟩ := exists_declaration_of_mem h hblock
  exact ⟨code, hline, isCode_of_declaration hdeclaration, hcolumn⟩

theorem cursorColumn_of_isCode {lines : List (List Char)} {line : Nat} {code : List Char}
    (hline : lines[line]? = some code) (hcode : isCode code = true) :
    cursorColumn lines line = .ofNat (indentation code) := by
  obtain ⟨hlt, hget⟩ := List.getElem?_eq_some_iff.1 hline
  have hdecisive : decisiveLine? lines line = some code := by
    rw [decisiveLine?, List.drop_eq_getElem_cons hlt, hget, List.find?_cons_of_pos hcode]
    rfl
  rw [cursorColumn, hdecisive]

theorem rank_le_of_find?_reverse {α : Type} {rank : α → Nat} {found : α → Bool} {list : List α}
    (hlist : list.Pairwise fun before behind => rank before < rank behind) {last other : α}
    (hlast : list.reverse.find? found = some last) (hother : other ∈ list)
    (hfound : found other = true) : rank other ≤ rank last := by
  obtain ⟨-, later, earlier, hsplit, hskipped⟩ := List.find?_eq_some_iff_append.1 hlast
  have hrank : (later ++ last :: earlier).Pairwise fun behind before =>
      rank before < rank behind := by
    rw [← hsplit, List.pairwise_reverse]
    exact hlist
  have hmem : other ∈ later ++ last :: earlier := hsplit ▸ List.mem_reverse.2 hother
  rw [List.mem_append, List.mem_cons] at hmem
  rcases hmem with hlater | rfl | hearlier
  · simpa [hfound] using hskipped other hlater
  · exact le_rfl
  · rw [List.pairwise_append, List.pairwise_cons] at hrank
    exact (hrank.2.1.1 other hearlier).le

namespace Nested

variable {outline : Outline}

theorem pairwise_id (h : outline.Nested) :
    outline.toList.Pairwise fun before behind => before.id < behind.id := by
  rw [← List.pairwise_map, h.map_id_toList]
  exact List.pairwise_lt_range

theorem exists_innermost? (h : outline.Nested)
    (hline : outline.toList.Pairwise fun before behind => before.line < behind.line)
    {candidate : Block} (hcandidate : candidate ∈ outline.toList) {line column : UInt32}
    (hbefore : candidate.line < line.toNat) (hleft : candidate.column < column.toNat) :
    ∃ block ∈ outline.toList, outline.innermost? line column = some block ∧
      candidate.id ≤ block.id ∧ block.line ≤ line.toNat := by
  rw [innermost?]
  cases hstart : (outline.startingOn line).head? with
  | some block =>
    obtain ⟨hblock, hhere⟩ := List.mem_filter.1 (List.mem_of_mem_head? hstart)
    have hsame : block.line = line.toNat := congrArg UInt32.toNat (of_decide_eq_true hhere)
    refine ⟨block, hblock, rfl, ?_, hsame.le⟩
    by_contra hlt
    have hearlier := line_lt_of_lt hline (h.get?_id hblock) (h.get?_id hcandidate) (by omega)
    omega
  | none =>
    have hfound : (decide (candidate.start.line < line) &&
        decide (candidate.start.character < column)) = true := by
      rw [Bool.and_eq_true, decide_eq_true_eq, decide_eq_true_eq]
      exact ⟨UInt32.lt_iff_toNat_lt.2 hbefore, UInt32.lt_iff_toNat_lt.2 hleft⟩
    have hsome : (outline.toList.reverse.find? fun block =>
        block.start.line < line && block.start.character < column).isSome := by
      rw [List.find?_isSome]
      exact ⟨candidate, List.mem_reverse.2 hcandidate, hfound⟩
    obtain ⟨block, hblock⟩ := Option.isSome_iff_exists.1 hsome
    have hselected := List.find?_some hblock
    rw [Bool.and_eq_true, decide_eq_true_eq, UInt32.lt_iff_toNat_lt] at hselected
    refine ⟨block, List.mem_reverse.1 (List.mem_of_find?_eq_some hblock), ?_, ?_, hselected.1.le⟩
    · rw [hblock]
      rfl
    · exact rank_le_of_find?_reverse h.pairwise_id hblock hcandidate hfound

theorem mem_lineage_of_deeper (h : outline.Nested)
    (hline : outline.toList.Pairwise fun before behind => before.line < behind.line)
    {suite block : Block} (hsuite : suite ∈ outline.toList) (hkind : suite.isSuite)
    (hblock : block ∈ outline.toList) (hle : suite.id ≤ block.id)
    (hdeeper : ∀ other ∈ outline.toList, suite.line < other.line → other.line ≤ block.line →
      suite.column < other.column) :
    suite ∈ outline.lineage block.id := by
  have hget := h.get?_id hsuite
  have hgetBlock := h.get?_id hblock
  rw [h.mem_lineage_iff hget hgetBlock]
  by_cases hself : suite.id = block.id
  · exact .inl hself
  · have hlt : suite.id < block.id := by omega
    refine .inr ⟨suite, hget, hlt, hkind, ?_, ?_⟩
    · exact hdeeper block hblock (line_lt_of_lt hline hget hgetBlock hlt) le_rfl
    · intro later other hafter hbefore hother
      refine hdeeper other (mem_toList_iff.2 ⟨later, hother⟩) ?_ ?_
      · exact line_lt_of_lt hline hget hother hafter
      · exact (line_lt_of_lt hline hother hgetBlock hbefore).le

end Nested

/-- A cursor on a line of code selects something in a suite, or the suite, as long as all code from
the suite's line down to the cursor is indented deeper than the suite. -/
theorem blockAt?_inside {workspace : Workspace} {file : Path} {source : String} {suite : Block}
    {line : UInt32} (hread : workspace.sourceLines file = .ok (lines source.toList))
    (h : Addressable (lines source.toList)) (hsuite : suite ∈ (ofSource source).toList)
    (hkind : suite.isSuite) (hline : suite.line < line.toNat)
    (hcode : ∃ code, (lines source.toList)[line.toNat]? = some code ∧ isCode code = true)
    (hdeeper : ∀ index code, suite.line < index → index ≤ line.toNat →
      (lines source.toList)[index]? = some code → isCode code = true →
        suite.column < indentation code) :
    ∃ block ∈ (ofSource source).toList, workspace.blockAt? file line = .ok (some block) ∧
      suite ∈ (ofSource source).lineage block.id := by
  have hnested : (ofSource source).Nested := nested_ofLines _
  have hlines := pairwise_line_ofLines h.length_le
  obtain ⟨code, hget, hcode⟩ := hcode
  have hcolumn : (cursorColumn (lines source.toList) line.toNat).toNat = indentation code := by
    rw [cursorColumn_of_isCode hget hcode]
    exact Nat.mod_eq_of_lt (h.indentation_lt code (List.mem_of_getElem? hget))
  have hleft : suite.column < (cursorColumn (lines source.toList) line.toNat).toNat := by
    rw [hcolumn]
    exact hdeeper line.toNat code hline le_rfl hget hcode
  obtain ⟨block, hblock, hselected, hle, hbefore⟩ :=
    hnested.exists_innermost? hlines hsuite hline hleft
  refine ⟨block, hblock, ?_, ?_⟩
  · rw [Workspace.blockAt?, hread]
    exact congrArg Except.ok hselected
  · refine hnested.mem_lineage_of_deeper hlines hsuite hkind hblock hle ?_
    intro other hother hafter hlast
    obtain ⟨text, hline, htext, hindent⟩ := exists_line_of_mem h hother
    rw [← hindent]
    exact hdeeper other.line text hafter (hlast.trans hbefore) hline htext

def looseSuite : String :=
  "  describe('a')\n      describe('b')\n\n    it('c')\n     x\n"

theorem blockAt?_looseSuite :
    (Workspace.onlyFile "a.js" looseSuite).sourceLines ⟨"a.js"⟩ = .ok (lines looseSuite.toList) ∧
      Addressable (lines looseSuite.toList) ∧
      ∃ suite ∈ (ofSource looseSuite).toList, suite.isSuite ∧ suite.label = "a" ∧
        ∃ block, (Workspace.onlyFile "a.js" looseSuite).blockAt? ⟨"a.js"⟩ 4 = .ok (some block) ∧
          suite ∈ (ofSource looseSuite).lineage block.id := by
  have hread : (Workspace.onlyFile "a.js" looseSuite).sourceLines ⟨"a.js"⟩ =
      .ok (lines looseSuite.toList) := by
    rfl
  have h : Addressable (lines looseSuite.toList) := ⟨by decide, by decide⟩
  have hsuite : (⟨0, .suite, "a", ⟨0, 2⟩, "a", none⟩ : Block) ∈ (ofSource looseSuite).toList := by
    decide
  have hdeeper : ∀ index ≤ 4, 0 < index → ∀ code ∈ (lines looseSuite.toList)[index]?,
      isCode code = true → 2 < indentation code := by
    decide
  obtain ⟨block, -, hselected, hmember⟩ := blockAt?_inside hread h hsuite rfl
    (by decide : 0 < (4 : UInt32).toNat) ⟨"     x".toList, by decide, by decide⟩
    fun index code hafter hle hget hcode => hdeeper index hle hafter code hget hcode
  exact ⟨hread, h, _, hsuite, rfl, rfl, block, hselected, hmember⟩

end Outline

end TestOutline
