import TestOutline.CommandLine.Run
import TestOutline.Proofs.Scan
import TestOutline.Proofs.Walk

/-! The outline of a file is a forest, stored in the order of a depth-first walk. Blocks start on
later and later lines; a lineage leads from a root to its block, through suites further and further
right; and the listing of an outline shows each block as deep as its lineage is long, so that it
goes in by one step at most from a block to the next. -/

namespace TestOutline

def CommandLine.shownDepth (entry : String) : Nat :=
  (entry.toList.takeWhile (· = ' ')).length / 2

namespace Outline
open Text

/-- The members lead from a root to the block, each one right below the one before. -/
structure IsParentChain (outline : Outline) (block : Block) (members : List Block) : Prop where
  last : members.getLast? = some block
  root : ∀ root ∈ members.head?, root.parent = none
  parents : members.IsChain fun outer inner => inner.parent = some outer.id
  held : ∀ member ∈ members, outline.get? member.id = some member
  increasing : members.Pairwise fun outer inner =>
    outer.id < inner.id ∧ outer.line < inner.line ∧ outer.column < inner.column
  suites : ∀ outer ∈ members.dropLast, outer.isSuite

structure IsForest (outline : Outline) : Prop where
  line_lt : outline.toList.Pairwise fun before behind => before.line < behind.line
  lineage : ∀ block ∈ outline.toList, outline.IsParentChain block (outline.lineage block.id)
  labels : ∀ block ∈ outline.toList,
    " ".intercalate ((outline.lineage block.id).map (·.label)) = block.qualifiedName
  walk : ∀ visited, outline.Walk (outline.idsBelow none) visited ↔
    visited = List.range outline.size
  descendants : ∀ suite ∈ outline.toList, ∃ stop, ∀ block ∈ outline.toList,
    suite ∈ outline.lineage block.id ↔ suite.id ≤ block.id ∧ block.id < stop
  listing : (CommandLine.summaryOfAll outline).tail.map CommandLine.shownDepth =
    outline.toList.map fun block => (outline.lineage block.id).length
  depth : ((CommandLine.summaryOfAll outline).tail.map CommandLine.shownDepth).IsChain
    fun depth next => next ≤ depth + 1

theorem IsOpen.of_get? {outline : Outline} {count column id : Nat} {suite : Block}
    (h : outline.IsOpen count column id) (hget : outline.get? id = some suite) :
    id < count ∧ suite.isSuite ∧ suite.column < column := by
  obtain ⟨found, hfound, hlt, hsuite, hcolumn, -⟩ := h
  rw [hget, Option.some.injEq] at hfound
  exact ⟨hlt, hfound ▸ hsuite, hfound ▸ hcolumn⟩

theorem line_lt_of_lt {outline : Outline}
    (h : outline.toList.Pairwise fun before behind => before.line < behind.line)
    {id later : Nat} {before behind : Block} (hbefore : outline.get? id = some before)
    (hbehind : outline.get? later = some behind) (hlt : id < later) :
    before.line < behind.line := by
  rw [get?_eq_getElem?, List.getElem?_eq_some_iff] at hbefore hbehind
  obtain ⟨hid, rfl⟩ := hbefore
  obtain ⟨hlater, rfl⟩ := hbehind
  exact List.pairwise_iff_getElem.1 h id later hid hlater hlt

namespace Nested

variable {outline : Outline}

theorem isParentChain_lineage (h : outline.Nested)
    (hline : outline.toList.Pairwise fun before behind => before.line < behind.line)
    {block : Block} (hblock : block ∈ outline.toList) :
    outline.IsParentChain block (outline.lineage block.id) := by
  have hget := h.get?_id hblock
  have hlast := h.getLast?_lineage hget
  constructor
  · exact hlast
  · exact fun root hroot => h.parent_of_head?_lineage hget hroot
  · exact h.isChain_lineage hget
  · exact fun member hmember => h.get?_id_of_mem_lineage hget hmember
  · refine (h.pairwise_lineage hget).imp_of_mem ?_
    intro outer inner houter hinner hopen
    have houterGet := h.get?_id_of_mem_lineage hget houter
    have hinnerGet := h.get?_id_of_mem_lineage hget hinner
    obtain ⟨hlt, -, hcolumn⟩ := hopen.of_get? houterGet
    exact ⟨hlt, line_lt_of_lt hline houterGet hinnerGet hlt, hcolumn⟩
  · intro outer houter
    have hsplit := List.dropLast_append_getLast? block hlast
    have hpairwise := h.pairwise_lineage hget
    rw [← hsplit, List.pairwise_append] at hpairwise
    have hopen := hpairwise.2.2 outer houter block (List.mem_singleton_self block)
    have houterGet := h.get?_id_of_mem_lineage hget (List.dropLast_subset _ houter)
    exact (hopen.of_get? houterGet).2.1

theorem length_lineage_succ_le (h : outline.Nested) {id : Nat}
    (hid : id + 1 < outline.size) :
    (outline.lineage (id + 1)).length ≤ (outline.lineage id).length + 1 := by
  obtain ⟨block, hget⟩ := get?_eq_some_of_lt hid
  cases hparent : block.parent with
  | none => simp [lineage_of_root hget hparent]
  | some parent =>
    have hlt := h.parent_lt hget hparent
    obtain ⟨outer, houter⟩ := h.exists_parent hget hparent
    have hmem : outer ∈ outline.lineage (id + 1) := by
      rw [h.lineage_of_child hget hparent]
      exact List.mem_append_left _ (h.mem_lineage_self houter)
    have hbetween : outer ∈ outline.lineage id :=
      h.mem_lineage_of_between houter hmem (by omega) (by omega)
    obtain ⟨before, hbefore⟩ := get?_eq_some_of_lt (by omega : id < outline.size)
    have hprefix := h.lineage_isPrefix hbefore hbetween
    rw [h.id_eq parent outer houter] at hprefix
    rw [h.lineage_of_child hget hparent, List.length_append, List.length_singleton]
    exact Nat.add_le_add_right hprefix.length_le 1

end Nested

end Outline

namespace CommandLine

theorem toList_join_replicate (depth : Nat) :
    (String.join (List.replicate depth "  ")).toList = List.replicate (2 * depth) ' ' := by
  induction depth with
  | zero => rfl
  | succ depth ih =>
    rw [List.replicate_succ, String.join_cons, String.toList_append, ih]
    rfl

theorem toList_icon (kind : Kind) : ∃ c, (icon kind).toList = [c] ∧ c ≠ ' ' := by
  cases kind with
  | suite => exact ⟨'📦', rfl, by decide⟩
  | testCase => exact ⟨'🧪', rfl, by decide⟩

theorem shownDepth_describeBlock (block : Block) (depth : Nat) (pattern : String) :
    shownDepth (describeBlock block depth pattern) = depth := by
  obtain ⟨c, hicon, hc⟩ := toList_icon block.kind
  obtain ⟨rest, hrest⟩ : ∃ rest, (describeBlock block depth pattern).toList =
      List.replicate (2 * depth) ' ' ++ c :: rest := by
    simp only [describeBlock, String.toList_append, toList_join_replicate, hicon,
      List.append_assoc, List.singleton_append]
    exact ⟨_, rfl⟩
  have hblank : ∀ c ∈ List.replicate (2 * depth) ' ', decide (c = ' ') = true := by
    intro c hc
    simpa using List.eq_of_mem_replicate hc
  rw [shownDepth, hrest, List.takeWhile_append_of_pos hblank,
    List.takeWhile_cons_of_neg (by simpa using hc)]
  simp

theorem shownDepth_summaryOfAll (outline : Outline) :
    (summaryOfAll outline).tail.map shownDepth =
      outline.toList.map fun block => (outline.lineage block.id).length := by
  simp only [summaryOfAll, List.tail_cons, List.map_map, Function.comp_def,
    shownDepth_describeBlock]

end CommandLine

namespace Outline
open Text

theorem pairwise_line_ofLines {lines : List (List Char)} (h : lines.length ≤ UInt32.size) :
    (ofLines lines).toList.Pairwise fun before behind => before.line < behind.line := by
  have hlines : (ofLines lines).toList.map Block.line =
      lines.zipIdx.filterMap fun line => (Declaration.ofLine? line.1).map fun _ => line.2 := by
    apply map_toList_ofLines
    intro line hmem id parent
    have hindex : line.2 < UInt32.size :=
      (List.snd_lt_of_mem_zipIdx hmem).trans_le (by simpa using h)
    simp [Block.line, Block.ofDeclaration, Nat.mod_eq_of_lt hindex]
  have hindices : (lines.zipIdx.map Prod.snd).Pairwise (· < ·) := by
    rw [List.zipIdx_map_snd]
    exact List.pairwise_lt_range'
  rw [← List.pairwise_map, hlines, List.pairwise_filterMap]
  refine (List.pairwise_map.1 hindices).imp ?_
  intro line later hlt index hindex other hother
  simp only [Option.map_eq_some_iff] at hindex hother
  obtain ⟨-, -, rfl⟩ := hindex
  obtain ⟨-, -, rfl⟩ := hother
  exact hlt

theorem Nested.isForest {outline : Outline} (h : outline.Nested)
    (hline : outline.toList.Pairwise fun before behind => before.line < behind.line) :
    outline.IsForest where
  line_lt := hline
  lineage _ hblock := h.isParentChain_lineage hline hblock
  labels _ hblock := h.intercalate_labels (h.get?_id hblock)
  walk := h.walk_iff
  descendants suite hsuite := by
    obtain ⟨stop, hstop⟩ := h.exists_stop (h.get?_id hsuite)
    exact ⟨stop, fun block _ => hstop block.id⟩
  listing := CommandLine.shownDepth_summaryOfAll outline
  depth := by
    have hdepth : (outline.toList.map fun block => (outline.lineage block.id).length) =
        (List.range outline.size).map fun id => (outline.lineage id).length := by
      rw [← h.map_id_toList, List.map_map]
      rfl
    rw [CommandLine.shownDepth_summaryOfAll, hdepth, List.isChain_iff_getElem]
    intro id hid
    rw [List.length_map, List.length_range] at hid
    rw [List.getElem_map, List.getElem_map, List.getElem_range, List.getElem_range]
    exact h.length_lineage_succ_le hid

/-- Whatever the indentation of a file, its outline is a forest in the order of the file. -/
theorem isForest_ofSource {source : String} (h : (lines source.toList).length ≤ UInt32.size) :
    (ofSource source).IsForest :=
  (nested_ofLines _).isForest (pairwise_line_ofLines h)

def unevenColumns : String :=
  "  describe('a')\n\t\t\tdescribe('b')\n    it('c')\n   it('d')\nit('e')\n"

theorem isForest_unevenColumns :
    (lines unevenColumns.toList).length ≤ UInt32.size ∧
      (ofSource unevenColumns).toList.map Block.parent = [none, some 0, some 1, some 0, none] ∧
      (ofSource unevenColumns).IsForest :=
  ⟨by decide, by decide, isForest_ofSource (by decide)⟩

end Outline

end TestOutline
