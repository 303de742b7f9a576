import Mathlib.Data.List.Find
import TestOutline.Proofs.Description

/-! Selection by indentation and nesting agree. A cursor looks back for the last block further left;
the suite that this block is, or else lies in, is the innermost one that is open at the cursor. So a
declaration put where the cursor is goes below the block selected there. -/

namespace TestOutline

/-- The suite around the inside of a block: the block itself, or the one that a test case is in. -/
def Block.nearestSuite? (block : Block) : Option Nat :=
  if block.isSuite then some block.id else block.parent

namespace Outline
open Text

theorem Nested.isInnermost_find? {outline : Outline} (h : outline.Nested) {count : Nat}
    (hcount : count ≤ outline.size) (column : Nat) :
    outline.IsInnermost count column
      (((outline.toList.take count).reverse.find? (·.column < column)).bind
        Block.nearestSuite?) := by
  induction count generalizing column with
  | zero =>
    intro id hopen
    obtain ⟨suite, -, hlt, -⟩ := hopen
    omega
  | succ count ih =>
    obtain ⟨block, hget⟩ := get?_eq_some_of_lt hcount
    have hbefore := ih (by omega)
    have htake : (outline.toList.take (count + 1)).reverse =
        block :: (outline.toList.take count).reverse := by
      rw [get?_eq_getElem?] at hget
      rw [List.take_add_one, hget]
      simp
    rw [htake]
    by_cases hleft : block.column < column
    · rw [List.find?_cons_of_pos (by simpa using hleft), Option.bind_some, Block.nearestSuite?]
      have hmin : min column block.column = block.column := by omega
      have hopen := isInnermost_succ hget (hmin.symm ▸ h.parent count block hget)
      by_cases hsuite : block.isSuite = true
      · simpa [hsuite, hleft, h.id_eq count block hget] using hopen
      · simpa [hsuite] using hopen
    · rw [List.find?_cons_of_neg (by simpa using hleft)]
      have hmin : min column block.column = column := by omega
      have hopen := isInnermost_succ hget (by rw [hmin]; exact hbefore column)
      rwa [if_neg fun hnew => hleft hnew.2] at hopen

namespace Scan

def ofLines (lines : List (List Char)) : Scan :=
  lines.zipIdx.foldl step {}

theorem exists_added {low high : Nat} (hhigh : high ≤ UInt32.size)
    {numbered : List (List Char × Nat)} (h : ∀ line ∈ numbered, low ≤ line.2 ∧ line.2 < high)
    (scan : Scan) :
    ∃ blocks, (numbered.foldl step scan).outline.toList = scan.outline.toList ++ blocks ∧
      ∀ block ∈ blocks, low ≤ block.line ∧ block.line < high := by
  induction numbered generalizing scan with
  | nil => exact ⟨[], by simp⟩
  | cons line rest ih =>
    have hrest := ih fun other hmem => h other (List.mem_cons_of_mem _ hmem)
    cases hline : Declaration.ofLine? line.1 with
    | none =>
      rw [List.foldl_cons, step_of_none hline]
      exact hrest scan
    | some declaration =>
      have hstep : scan.step line = scan.declare line.2 declaration := by
        simp [step, hline]
      obtain ⟨blocks, hblocks, hbounds⟩ := hrest (scan.declare line.2 declaration)
      refine ⟨scan.added line.2 declaration :: blocks, ?_, ?_⟩
      · rw [List.foldl_cons, hstep, hblocks, outline_declare, toList_push]
        simp
      · intro block hblock
        cases List.mem_cons.1 hblock with
        | inl hnew =>
          have hindex := h line (List.mem_cons_self ..)
          have hnumber : (scan.added line.2 declaration).line = line.2 :=
            Nat.mod_eq_of_lt (hindex.2.trans_le hhigh)
          rw [hnew, hnumber]
          exact hindex
        | inr hold => exact hbounds block hold

theorem line_lt_ofLines {lines : List (List Char)} (h : lines.length ≤ UInt32.size) {block : Block}
    (hblock : block ∈ (ofLines lines).outline.toList) : block.line < lines.length := by
  have hnumbers : ∀ line ∈ lines.zipIdx, 0 ≤ line.2 ∧ line.2 < lines.length :=
    fun line hmem => ⟨Nat.zero_le _, by simpa using List.snd_lt_of_mem_zipIdx hmem⟩
  obtain ⟨blocks, hblocks, hbounds⟩ := exists_added h hnumbers {}
  rw [ofLines, hblocks] at hblock
  exact (hbounds block (by simpa [toList] using hblock)).2

end Scan

theorem exists_behind {before after : List (List Char)} (line : List Char)
    (h : before.length + 1 + after.length ≤ UInt32.size) :
    ∃ behind, (ofLines (before ++ line :: after)).toList =
        ((Scan.ofLines before).step (line, before.length)).outline.toList ++ behind ∧
      ∀ block ∈ behind, before.length < block.line := by
  have hnumbers : ∀ other ∈ after.zipIdx (before.length + 1),
      before.length + 1 ≤ other.2 ∧ other.2 < before.length + 1 + after.length :=
    fun other hmem => ⟨List.le_snd_of_mem_zipIdx hmem, List.snd_lt_add_of_mem_zipIdx hmem⟩
  obtain ⟨behind, hbehind, hbounds⟩ := Scan.exists_added h hnumbers
    ((Scan.ofLines before).step (line, before.length))
  refine ⟨behind, ?_, fun block hblock => (hbounds block hblock).1⟩
  rw [← hbehind, ofLines, List.zipIdx_append, List.foldl_append, List.zipIdx_cons, List.foldl_cons]
  simp [Scan.ofLines]

section Cut

variable {outline : Outline} {earlier here behind : List Block} {line : UInt32}

theorem startingOn_eq (h : outline.toList = earlier ++ (here ++ behind))
    (hearlier : ∀ block ∈ earlier, block.line < line.toNat)
    (hhere : ∀ block ∈ here, block.line = line.toNat)
    (hbehind : ∀ block ∈ behind, line.toNat < block.line) : outline.startingOn line = here := by
  have hline (block : Block) : block.start.line = line ↔ block.line = line.toNat :=
    UInt32.toNat_inj.symm
  have hbefore : earlier.filter (·.start.line = line) = [] := by
    rw [List.filter_eq_nil_iff]
    intro block hblock heq
    have hlt := hearlier block hblock
    have hnumber := (hline block).1 (of_decide_eq_true heq)
    omega
  have hafter : behind.filter (·.start.line = line) = [] := by
    rw [List.filter_eq_nil_iff]
    intro block hblock heq
    have hlt := hbehind block hblock
    have hnumber := (hline block).1 (of_decide_eq_true heq)
    omega
  have hkept : here.filter (·.start.line = line) = here := by
    rw [List.filter_eq_self]
    intro block hblock
    exact decide_eq_true ((hline block).2 (hhere block hblock))
  rw [startingOn, h, List.filter_append, List.filter_append, hbefore, hkept, hafter]
  simp

theorem filter_line_lt (h : outline.toList = earlier ++ behind)
    (hearlier : ∀ block ∈ earlier, block.line < line.toNat)
    (hbehind : ∀ block ∈ behind, line.toNat ≤ block.line) :
    outline.toList.filter (·.start.line < line) = earlier := by
  have hkept : earlier.filter (·.start.line < line) = earlier := by
    rw [List.filter_eq_self]
    intro block hblock
    exact decide_eq_true (UInt32.lt_iff_toNat_lt.2 (hearlier block hblock))
  have hdropped : behind.filter (·.start.line < line) = [] := by
    rw [List.filter_eq_nil_iff]
    intro block hblock hlt
    have hle := hbehind block hblock
    have hnumber : block.line < line.toNat := UInt32.lt_iff_toNat_lt.1 (of_decide_eq_true hlt)
    omega
  rw [h, List.filter_append, hkept, hdropped, List.append_nil]

theorem innermost?_eq_find? (h : outline.toList = earlier ++ behind)
    (hearlier : ∀ block ∈ earlier, block.line < line.toNat)
    (hbehind : ∀ block ∈ behind, line.toNat < block.line) (column : UInt32) :
    outline.innermost? line column = earlier.reverse.find? (·.column < column.toNat) := by
  have hstart : outline.startingOn line = [] := by
    rw [← List.nil_append behind] at h
    exact startingOn_eq h hearlier (by simp) hbehind
  have hafter : behind.reverse.find? (fun block =>
      decide (block.start.line < line) && decide (block.start.character < column)) = none := by
    rw [List.find?_eq_none]
    intro block hblock hfound
    have hlt := hbehind block (List.mem_reverse.1 hblock)
    have hnumber : block.line < line.toNat := by
      simp only [Bool.and_eq_true, decide_eq_true_eq] at hfound
      exact UInt32.lt_iff_toNat_lt.1 hfound.1
    omega
  rw [innermost?, hstart, h, List.reverse_append, List.find?_append, hafter, List.head?_nil,
    Option.none_or, Option.none_or]
  apply List.find?_congr
  intro block hblock
  have hlt : block.start.line < line :=
    UInt32.lt_iff_toNat_lt.2 (hearlier block (List.mem_reverse.1 hblock))
  rw [decide_eq_true hlt, Bool.true_and]
  exact decide_eq_decide.2 UInt32.lt_iff_toNat_lt

end Cut

theorem toList_ofLines_of_plain {before after : List (List Char)} {old : List Char}
    (h : before.length + 1 + after.length ≤ UInt32.size) (hplain : Declaration.ofLine? old = none) :
    ∃ behind, (ofLines (before ++ old :: after)).toList = (ofLines before).toList ++ behind ∧
      ∀ block ∈ behind, before.length < block.line := by
  obtain ⟨behind, hbehind, hbounds⟩ := exists_behind old h
  rw [Scan.step_of_none hplain] at hbehind
  exact ⟨behind, hbehind, hbounds⟩

theorem toList_ofLines_of_declaration {before after : List (List Char)} {new : List Char}
    (h : before.length + 1 + after.length ≤ UInt32.size) {declaration : Declaration}
    (hnew : Declaration.ofLine? new = some declaration) :
    ∃ block behind, (ofLines (before ++ new :: after)).toList =
        (ofLines before).toList ++ ([block] ++ behind) ∧
      block.line = before.length ∧ (∀ other ∈ behind, before.length < other.line) ∧
      block.parent = ((ofLines before).toList.reverse.find?
        (·.column < declaration.column.toNat)).bind Block.nearestSuite? := by
  obtain ⟨behind, hbehind, hbounds⟩ := exists_behind new h
  have hstep : (Scan.ofLines before).step (new, before.length) =
      (Scan.ofLines before).declare before.length declaration := by
    simp [Scan.step, hnew]
  rw [hstep, Scan.outline_declare, toList_push, List.append_assoc] at hbehind
  refine ⟨(Scan.ofLines before).added before.length declaration, behind, hbehind, ?_, hbounds, ?_⟩
  · exact Nat.mod_eq_of_lt (Nat.lt_of_lt_of_le (by omega) h)
  · have hsound : (Scan.ofLines before).Sound := Scan.sound_empty.foldl before.zipIdx
    have hstack := hsound.innermost declaration.column.toNat
    have hscan := hsound.nested.isInnermost_find? le_rfl declaration.column.toNat
    rw [← length_toList, List.take_length] at hscan
    rw [← Scan.head?_stillOpen, ← length_toList] at hstack
    exact hstack.unique hscan

/-- A declaration in the place of a line without one lies below the suite around the inside of the
block that was selected there; what comes before the line stays as it was. -/
theorem parent_of_replaced_line {source replaced : String} {line column : UInt32}
    {old new : List Char} (hlength : (lines source.toList).length ≤ UInt32.size)
    (hold : (lines source.toList)[line.toNat]? = some old)
    (hplain : Declaration.ofLine? old = none) (hnew : (Declaration.ofLine? new).isSome)
    (hcolumn : indentation new = column.toNat)
    (hreplaced : lines replaced.toList = (lines source.toList).set line.toNat new) :
    (∃ block, (ofSource replaced).startingOn line = [block] ∧
      block.parent = ((ofSource source).innermost? line column).bind Block.nearestSuite?) ∧
    (ofSource replaced).toList.filter (·.start.line < line) =
      (ofSource source).toList.filter (·.start.line < line) := by
  obtain ⟨hindex, hget⟩ := List.getElem?_eq_some_iff.1 hold
  have hbefore : ((lines source.toList).take line.toNat).length = line.toNat :=
    List.length_take_of_le hindex.le
  have hsplit : lines source.toList = (lines source.toList).take line.toNat ++
      old :: (lines source.toList).drop (line.toNat + 1) := by
    rw [← hget, ← List.drop_eq_getElem_cons hindex, List.take_append_drop]
  have hset : lines replaced.toList = (lines source.toList).take line.toNat ++
      new :: (lines source.toList).drop (line.toNat + 1) := by
    rw [hreplaced, List.set_eq_take_append_cons_drop, if_pos hindex]
  generalize (lines source.toList).take line.toNat = before at hbefore hsplit hset
  generalize (lines source.toList).drop (line.toNat + 1) = after at hsplit hset
  obtain ⟨declaration, hdeclaration⟩ := Option.isSome_iff_exists.1 hnew
  have hsize : before.length + 1 + after.length ≤ UInt32.size := by
    rw [hsplit] at hlength
    simp at hlength
    omega
  obtain ⟨behind, hsource, hbehind⟩ := toList_ofLines_of_plain hsize hplain
  obtain ⟨block, behind', hput, hline, hbehind', hparent⟩ :=
    toList_ofLines_of_declaration hsize hdeclaration
  rw [ofSource, ofSource, hsplit, hset]
  rw [hbefore] at hbehind hline hbehind'
  have hearlier : ∀ block ∈ (ofLines before).toList, block.line < line.toNat := by
    intro block hblock
    have hlt := Scan.line_lt_ofLines (by omega) hblock
    omega
  have hword : declaration.column = column := by
    rw [column_of_ofLine? hdeclaration, hcolumn, UInt32.ofNat_toNat]
  refine ⟨⟨block, ?_, ?_⟩, ?_⟩
  · refine startingOn_eq hput hearlier ?_ hbehind'
    intro other hother
    rw [List.mem_singleton.1 hother, hline]
  · rw [innermost?_eq_find? hsource hearlier hbehind, hparent, hword]
  · rw [filter_line_lt hsource hearlier fun other hother => (hbehind other hother).le]
    refine filter_line_lt hput hearlier ?_
    intro other hother
    cases List.mem_append.1 hother with
    | inl hhere => rw [List.mem_singleton.1 hhere, hline]
    | inr hlater => exact (hbehind' other hlater).le

def betweenCases (line : String) : String :=
  "describe('a')\n    it('b')\n" ++ line ++ "\n  it('c')\n"

theorem parent_betweenCases :
    (lines (betweenCases "      x").toList)[2]? = some "      x".toList ∧
      lines (betweenCases "     it('d')").toList =
        (lines (betweenCases "      x").toList).set 2 "     it('d')".toList ∧
      ((ofSource (betweenCases "      x")).innermost? 2 5).map Block.label = some "b" ∧
      ∃ block, (ofSource (betweenCases "     it('d')")).startingOn 2 = [block] ∧
        block.parent = some 0 := by
  refine ⟨by decide, by decide, by decide, ?_⟩
  obtain ⟨⟨block, hblock, hparent⟩, -⟩ :=
    @parent_of_replaced_line (betweenCases "      x") (betweenCases "     it('d')") 2 5
      "      x".toList "     it('d')".toList (by decide) (by decide) (by decide) (by decide)
      (by decide) (by decide)
  exact ⟨block, hblock, hparent.trans (by decide)⟩

end Outline

end TestOutline
