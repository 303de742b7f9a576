import TestOutline.Proofs.Lenses

/-! Blank lines. A cursor on a blank line stands as if it were on the next line of code, but behind
nothing that is declared there; with no code left it stands as if it were on the last line of code,
and behind everything. So all blank lines in a row select alike, and agree with their neighbours
wherever these declare nothing. -/

namespace TestOutline.Outline
open Text

variable {before gap after : List (List Char)} {code : List Char}

theorem ofLine?_eq_none_of_mem (h : gap.all isBlankLine = true) {text : List Char}
    (htext : text ∈ gap) : Declaration.ofLine? text = none :=
  ofLine?_eq_none_of_isBlankLine (List.all_eq_true.1 h text htext)

theorem find?_isCode_eq_none (h : gap.all isBlankLine = true) : gap.find? isCode = none := by
  rw [List.find?_eq_none]
  intro text htext
  rw [isCode, List.all_eq_true.1 h text htext]
  simp

theorem find?_isCode_reverse_append_gap (h : gap.all isBlankLine = true) :
    (before ++ gap).reverse.find? isCode = before.reverse.find? isCode := by
  have hreverse : gap.reverse.all isBlankLine = true := by
    rw [List.all_reverse, h]
  rw [List.reverse_append, List.find?_append, find?_isCode_eq_none hreverse, Option.none_or]

theorem ofLines_append_gap (h : gap.all isBlankLine = true) :
    ofLines (before ++ gap) = ofLines before :=
  ofLines_append_of_plain fun _ htext => ofLine?_eq_none_of_mem h htext

theorem exists_behind_append (h : before.length + after.length ≤ UInt32.size) :
    ∃ behind, (ofLines (before ++ after)).toList = (ofLines before).toList ++ behind ∧
      ∀ block ∈ behind, before.length ≤ block.line := by
  have hnumbers : ∀ line ∈ after.zipIdx before.length,
      before.length ≤ line.2 ∧ line.2 < before.length + after.length :=
    fun line hmem => ⟨List.le_snd_of_mem_zipIdx hmem, List.snd_lt_add_of_mem_zipIdx hmem⟩
  obtain ⟨behind, hbehind, hbounds⟩ := Scan.exists_added h hnumbers (Scan.ofLines before)
  refine ⟨behind, ?_, fun block hblock => (hbounds block hblock).1⟩
  rw [ofLines, List.zipIdx_append, List.foldl_append, Nat.zero_add]
  exact hbehind

/-- The last block of some lines that starts left of a column. -/
def lastLeftOf? (lines : List (List Char)) (column : UInt32) : Option Block :=
  (ofLines lines).toList.reverse.find? (·.column < column.toNat)

theorem lastLeftOf?_append_of_plain {plain : List (List Char)}
    (h : ∀ text ∈ plain, Declaration.ofLine? text = none) (column : UInt32) :
    lastLeftOf? (before ++ plain) column = lastLeftOf? before column := by
  rw [lastLeftOf?, ofLines_append_of_plain h, lastLeftOf?]

theorem atCursor?_eq_lastLeftOf? {lines : List (List Char)} {behind : List Block} {line : UInt32}
    (hline : before.length ≤ line.toNat)
    (hlines : (ofLines lines).toList = (ofLines before).toList ++ behind)
    (hbehind : ∀ block ∈ behind, line.toNat < block.line) :
    atCursor? lines line = lastLeftOf? before (cursorColumn lines line.toNat) := by
  have hlength : before.length ≤ UInt32.size := hline.trans line.toNat_lt.le
  refine innermost?_eq_find? hlines (fun block hblock => ?_) hbehind _
  exact (Scan.line_lt_ofLines hlength hblock).trans_le hline

theorem cursorColumn_gap (hgap : gap.all isBlankLine = true) (hcode : isCode code = true) :
    cursorColumn (before ++ (gap ++ code :: after)) before.length =
      .ofNat (indentation code) := by
  have hdecisive : decisiveLine? (before ++ (gap ++ code :: after)) before.length = some code := by
    rw [decisiveLine?, List.drop_left, List.find?_append, find?_isCode_eq_none hgap,
      List.find?_cons_of_pos hcode]
    rfl
  rw [cursorColumn, hdecisive]

theorem atCursor?_of_plain {line : UInt32}
    (hlength : before.length + 1 + after.length ≤ UInt32.size) (hline : line.toNat = before.length)
    (hcode : isCode code = true) (hplain : Declaration.ofLine? code = none) :
    atCursor? (before ++ code :: after) line =
      lastLeftOf? before (.ofNat (indentation code)) := by
  obtain ⟨behind, hlines, hbehind⟩ := toList_ofLines_of_plain hlength hplain
  rw [← hline] at hbehind
  rw [atCursor?_eq_lastLeftOf? hline.ge hlines hbehind, hline,
    cursorColumn_of_isCode (by simp) hcode]

theorem atCursor?_of_gap {line : UInt32}
    (hlength : (before ++ gap).length + 1 + after.length ≤ UInt32.size)
    (hline : line.toNat = before.length) (hgap : gap.all isBlankLine = true) (hne : gap ≠ [])
    (hcode : isCode code = true) :
    atCursor? (before ++ (gap ++ code :: after)) line =
      lastLeftOf? before (.ofNat (indentation code)) := by
  have hrest : (before ++ gap).length + (code :: after).length ≤ UInt32.size := by
    rw [List.length_cons]
    omega
  obtain ⟨behind, hlines, hbehind⟩ := exists_behind_append hrest
  rw [ofLines_append_gap hgap, List.append_assoc] at hlines
  have hpositive := List.length_pos_of_ne_nil hne
  have hlater : ∀ block ∈ behind, line.toNat < block.line := by
    intro block hblock
    have hle := hbehind block hblock
    rw [List.length_append] at hle
    omega
  rw [atCursor?_eq_lastLeftOf? hline.ge hlines hlater, hline, cursorColumn_gap hgap hcode]

theorem decisiveLine?_of_drop {lines : List (List Char)} {line : Nat}
    (h : (lines.drop line).all isBlankLine = true) :
    decisiveLine? lines line = lines.reverse.find? isCode := by
  conv_rhs => rw [← List.take_append_drop line lines, find?_isCode_reverse_append_gap h]
  rw [decisiveLine?, find?_isCode_eq_none h, Option.none_or]

theorem cursorColumn_end (hgap : gap.all isBlankLine = true) (hcode : isCode code = true) :
    cursorColumn (before ++ code :: gap) (before ++ code :: gap).length =
      .ofNat (indentation code) := by
  have hlast : (before ++ code :: gap).reverse.find? isCode = some code := by
    rw [List.append_cons, find?_isCode_reverse_append_gap hgap, List.reverse_concat,
      List.find?_cons_of_pos hcode]
  rw [cursorColumn, decisiveLine?_of_drop (by simp), hlast]

theorem atCursor?_of_drop {lines : List (List Char)} {line : UInt32}
    (h : (lines.drop line.toNat).all isBlankLine = true) :
    atCursor? lines line = lastLeftOf? lines (cursorColumn lines lines.length) := by
  have hlines : ofLines lines = ofLines (lines.take line.toNat) := by
    conv_lhs => rw [← List.take_append_drop line.toNat lines, ofLines_append_gap h]
  have hcolumn : cursorColumn lines line.toNat = cursorColumn lines lines.length := by
    rw [cursorColumn, cursorColumn, decisiveLine?_of_drop h, decisiveLine?_of_drop (by simp)]
  rw [atCursor?_eq_lastLeftOf? (List.length_take_le ..) (by rw [hlines, List.append_nil]) (by simp),
    hcolumn, lastLeftOf?, lastLeftOf?, hlines]

theorem exists_startingOn_of_declaration {next : UInt32} {declaration : Declaration}
    (hlength : before.length + 1 + after.length ≤ UInt32.size) (hnext : next.toNat = before.length)
    (hdeclaration : Declaration.ofLine? code = some declaration) :
    ∃ block, (ofLines (before ++ code :: after)).startingOn next = [block] ∧
      block.parent = (lastLeftOf? before (.ofNat (indentation code))).bind Block.nearestSuite? := by
  obtain ⟨block, behind, hlines, hline, hbehind, hparent⟩ :=
    toList_ofLines_of_declaration hlength hdeclaration
  rw [← hnext] at hline hbehind
  rw [column_of_ofLine? hdeclaration] at hparent
  refine ⟨block, startingOn_eq hlines ?_ ?_ hbehind, hparent⟩
  · intro other hother
    rw [hnext]
    exact Scan.line_lt_ofLines (by omega) hother
  · intro other hother
    rw [List.mem_singleton.1 hother, hline]

theorem exists_cut {lines : List (List Char)} {line next : Nat} (hle : line ≤ next)
    (hget : lines[next]? = some code) :
    ∃ before after, lines = before ++ (lines.extract line next ++ code :: after) ∧
      before.length = line ∧ (before ++ lines.extract line next).length = next := by
  obtain ⟨hlt, hcode⟩ := List.getElem?_eq_some_iff.1 hget
  refine ⟨lines.take line, lines.drop (next + 1), ?_, ?_, ?_⟩
  · have hrest : (lines.drop line).drop (next - line) = code :: lines.drop (next + 1) := by
      rw [List.drop_drop, Nat.add_sub_cancel' hle, List.drop_eq_getElem_cons hlt, hcode]
    rw [← hrest, List.extract_eq_take_drop, List.take_append_drop, List.take_append_drop]
  · exact List.length_take_of_le (by omega)
  · rw [List.length_append, List.extract_eq_take_drop, List.length_take, List.length_take,
      List.length_drop]
    omega

section File

variable {lines : List (List Char)} {line next : UInt32}

theorem atCursor?_of_extract (hlength : lines.length ≤ UInt32.size) (hlt : line < next)
    (hget : lines[next.toNat]? = some code) (hcode : isCode code = true)
    (hgap : (lines.extract line.toNat next.toNat).all isBlankLine = true) :
    (Declaration.ofLine? code = none → atCursor? lines line = atCursor? lines next) ∧
    ((Declaration.ofLine? code).isSome → ∃ block, (ofLines lines).startingOn next = [block] ∧
      (atCursor? lines line).bind Block.nearestSuite? = block.parent) := by
  rw [UInt32.lt_iff_toNat_lt] at hlt
  obtain ⟨before, after, hlines, hline, hnext⟩ := exists_cut hlt.le hget
  generalize lines.extract line.toNat next.toNat = gap at hlines hgap hnext
  have hne : gap ≠ [] := by
    rintro rfl
    rw [List.append_nil] at hnext
    omega
  have hsize : (before ++ gap).length + 1 + after.length ≤ UInt32.size := by
    rw [hlines] at hlength
    simp only [List.length_append, List.length_cons] at hlength ⊢
    omega
  have hselected := atCursor?_of_gap hsize hline.symm hgap hne hcode
  have hbefore (column : UInt32) : lastLeftOf? (before ++ gap) column =
      lastLeftOf? before column :=
    lastLeftOf?_append_of_plain (fun _ htext => ofLine?_eq_none_of_mem hgap htext) column
  have hcut : lines = (before ++ gap) ++ code :: after := by
    rw [hlines, List.append_assoc]
  rw [← hlines] at hselected
  rw [hselected]
  constructor
  · intro hplain
    rw [hcut, atCursor?_of_plain hsize hnext.symm hcode hplain, hbefore]
  · intro hdeclared
    obtain ⟨declaration, hdeclaration⟩ := Option.isSome_iff_exists.1 hdeclared
    obtain ⟨block, hstart, hparent⟩ :=
      exists_startingOn_of_declaration hsize hnext.symm hdeclaration
    rw [hbefore] at hparent
    exact ⟨block, hcut ▸ hstart, hparent.symm⟩

theorem atCursor?_of_last {last : UInt32} (hlength : lines.length ≤ UInt32.size)
    (hget : lines[last.toNat]? = some code) (hcode : isCode code = true)
    (hplain : Declaration.ofLine? code = none)
    (hrest : (lines.drop (last.toNat + 1)).all isBlankLine = true) (hlt : last < line) :
    atCursor? lines line = atCursor? lines last := by
  rw [UInt32.lt_iff_toNat_lt] at hlt
  obtain ⟨before, rest, hlines, hlast, -⟩ := exists_cut le_rfl hget
  rw [List.extract_eq_take_drop, Nat.sub_self, List.take_zero, List.nil_append] at hlines
  have hdrop : lines.drop (last.toNat + 1) = rest := by
    rw [hlines, ← hlast]
    simp
  rw [hdrop] at hrest
  have hblank : (lines.drop line.toNat).all isBlankLine = true := by
    obtain ⟨more, hmore⟩ := Nat.exists_eq_add_of_le hlt
    rw [hmore, ← List.drop_drop, hdrop, List.all_eq_true]
    exact fun text htext => List.all_eq_true.1 hrest text (List.mem_of_mem_drop htext)
  have hnone : ∀ text ∈ code :: rest, Declaration.ofLine? text = none :=
    List.forall_mem_cons.2 ⟨hplain, fun _ htext => ofLine?_eq_none_of_mem hrest htext⟩
  have hsize : before.length + 1 + rest.length ≤ UInt32.size := by
    rw [hlines, List.length_append, List.length_cons] at hlength
    omega
  rw [atCursor?_of_drop hblank, hlines, cursorColumn_end hrest hcode,
    lastLeftOf?_append_of_plain hnone, atCursor?_of_plain hsize hlast.symm hcode hplain]

end File

/-- A blank line selects what the next line of code selects, or, where that line declares something,
a block in the same suite as the declaration. Behind the last line of code all lines select the
same, in the file and past its end: what that line selects, unless it declares something itself. -/
theorem blockAt?_of_blank {workspace : Workspace} {file : Path} {source : String}
    (hread : workspace.sourceLines file = .ok (lines source.toList))
    (hlength : (lines source.toList).length ≤ UInt32.size) :
    ∃ selected : UInt32 → Option Block,
      (∀ line, workspace.blockAt? file line = .ok (selected line)) ∧
      (∀ line next code, line < next → (lines source.toList)[next.toNat]? = some code →
        isCode code = true →
        ((lines source.toList).extract line.toNat next.toNat).all isBlankLine = true →
          (Declaration.ofLine? code = none → selected line = selected next) ∧
          ((Declaration.ofLine? code).isSome →
            ∃ block, (ofSource source).startingOn next = [block] ∧
              (selected line).bind Block.nearestSuite? = block.parent)) ∧
      (∀ line other, ((lines source.toList).drop line.toNat).all isBlankLine = true →
        ((lines source.toList).drop other.toNat).all isBlankLine = true →
          selected line = selected other) ∧
      ∀ last line code, (lines source.toList)[last.toNat]? = some code → isCode code = true →
        Declaration.ofLine? code = none →
        ((lines source.toList).drop (last.toNat + 1)).all isBlankLine = true → last < line →
          selected line = selected last := by
  refine ⟨_, Workspace.blockAt?_eq hread, ?_, ?_, ?_⟩
  · intro line next code hlt hget hcode hgap
    exact atCursor?_of_extract hlength hlt hget hcode hgap
  · intro line other hline hother
    rw [atCursor?_of_drop hline, atCursor?_of_drop hother]
  · intro last line code hget hcode hplain hrest hlt
    exact atCursor?_of_last hlength hget hcode hplain hrest hlt

def spacedSuite : String :=
  "describe('a')\n  it('b')\n\n    x\n\n  it('c')\n\n"

theorem blockAt?_spacedSuite :
    (Workspace.onlyFile "a.js" spacedSuite).sourceLines ⟨"a.js"⟩ =
        .ok (lines spacedSuite.toList) ∧
      (lines spacedSuite.toList).length ≤ UInt32.size ∧
      (Workspace.onlyFile "a.js" spacedSuite).blockAt? ⟨"a.js"⟩ 2 =
        (Workspace.onlyFile "a.js" spacedSuite).blockAt? ⟨"a.js"⟩ 3 ∧
      (∃ selected block, (Workspace.onlyFile "a.js" spacedSuite).blockAt? ⟨"a.js"⟩ 4 =
        .ok selected ∧ (ofSource spacedSuite).startingOn 5 = [block] ∧
          selected.bind Block.nearestSuite? = block.parent) ∧
      (Workspace.onlyFile "a.js" spacedSuite).blockAt? ⟨"a.js"⟩ 6 =
        (Workspace.onlyFile "a.js" spacedSuite).blockAt? ⟨"a.js"⟩ 4294967295 := by
  have hread : (Workspace.onlyFile "a.js" spacedSuite).sourceLines ⟨"a.js"⟩ =
      .ok (lines spacedSuite.toList) := by
    rfl
  have hlength : (lines spacedSuite.toList).length ≤ UInt32.size := by decide
  obtain ⟨selected, hselected, hbefore, hend, -⟩ := blockAt?_of_blank hread hlength
  have hcode := (hbefore 2 3 "    x".toList (by decide) (by decide) (by decide) (by decide)).1
    (by decide)
  obtain ⟨block, hstart, hparent⟩ := (hbefore 4 5 "  it('c')".toList (by decide) (by decide)
    (by decide) (by decide)).2 (by decide)
  refine ⟨hread, hlength, ?_, ⟨_, block, hselected 4, hstart, hparent⟩, ?_⟩
  · rw [hselected, hselected, hcode]
  · rw [hselected, hselected, hend 6 4294967295 (by decide) (by decide)]

end TestOutline.Outline
