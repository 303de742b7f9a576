import TestOutline.Proofs.LineEndings
import TestOutline.Proofs.Pattern

/-! Two files one behind the other. Where the second starts no further right than any suite of the
first, its first declaration closes all of them, and from there on the scan goes as if it had just
begun, with other numbers: the outline of the whole is that of the first file and, behind it, that
of the second, moved. -/

namespace TestOutline

namespace Text

theorem pieces_append (separator : Char) (first second : List Char) :
    pieces separator (first ++ separator :: second) =
      pieces separator first ++ pieces separator second := by
  induction first with
  | nil => rw [List.nil_append, pieces_cons, if_pos rfl, pieces_nil, List.singleton_append]
  | cons c first ih =>
    rw [List.cons_append, pieces_cons, ih, pieces_cons]
    obtain ⟨line, rest, hpieces⟩ := List.exists_cons_of_ne_nil (pieces_ne_nil separator first)
    split
    · rfl
    · rw [hpieces]
      rfl

theorem linesOfPieces_append (texts : List (List Char)) {rest : List (List Char)} (h : rest ≠ []) :
    linesOfPieces (texts ++ rest) = texts.map dropReturn ++ linesOfPieces rest := by
  induction texts with
  | nil => rfl
  | cons text texts ih =>
    rw [List.cons_append, linesOfPieces_cons text (List.append_ne_nil_of_right_ne_nil texts h), ih,
      List.map_cons, List.cons_append]

theorem lines_append_feed (text : List Char) :
    lines (text ++ ['\n']) = (pieces '\n' text).map dropReturn := by
  rw [lines, pieces_append, linesOfPieces_append _ (pieces_ne_nil _ _)]
  simp [linesOfPieces]

theorem lines_append (first second : List Char) :
    lines (first ++ '\n' :: second) = lines (first ++ ['\n']) ++ lines second := by
  rw [lines_append_feed, lines, pieces_append, linesOfPieces_append _ (pieces_ne_nil _ _), lines]

end Text

def Block.moved (ids lines : Nat) (block : Block) : Block where
  id := block.id + ids
  kind := block.kind
  label := block.label
  start := { line := .ofNat (block.line + lines), character := block.start.character }
  qualifiedName := block.qualifiedName
  parent := block.parent.map (· + ids)

namespace Outline
open Text

/-- The blocks of an outline and, behind them, those of another one, which starts `lines` lines
further down. -/
def followedBy (first : Outline) (lines : Nat) (second : Outline) : Outline where
  blocks := first.blocks ++ second.blocks.map (.moved first.size lines)

variable {first second : Outline} {lines : Nat}

theorem toList_followedBy (first : Outline) (lines : Nat) (second : Outline) :
    (first.followedBy lines second).toList =
      first.toList ++ second.toList.map (.moved first.size lines) := by
  simp [toList, followedBy]

@[simp] theorem size_followedBy (first : Outline) (lines : Nat) (second : Outline) :
    (first.followedBy lines second).size = first.size + second.size := by
  simp [size, followedBy]

@[simp] theorem followedBy_empty (first : Outline) (lines : Nat) :
    first.followedBy lines {} = first := by
  simp [followedBy]

theorem get?_followedBy_of_lt {id : Nat} (h : id < first.size) :
    (first.followedBy lines second).get? id = first.get? id := by
  rw [get?_eq_getElem?, toList_followedBy, List.getElem?_append_left (by rwa [length_toList]),
    get?_eq_getElem?]

theorem get?_followedBy_add (first : Outline) (lines : Nat) (second : Outline) (id : Nat) :
    (first.followedBy lines second).get? (id + first.size) =
      (second.get? id).map (.moved first.size lines) := by
  rw [get?_eq_getElem?, toList_followedBy, List.getElem?_append_right (by simp [length_toList]),
    length_toList, Nat.add_sub_cancel, List.getElem?_map, get?_eq_getElem?]

theorem Nested.pattern_followedBy_of_lt (h : (first.followedBy lines second).Nested)
    (hfirst : first.Nested) {id : Nat} (hid : id < first.size) :
    (first.followedBy lines second).pattern id = first.pattern id := by
  obtain ⟨block, hget⟩ := get?_eq_some_of_lt hid
  rw [h.pattern_eq ((get?_followedBy_of_lt hid).trans hget), hfirst.pattern_eq hget]

theorem Nested.pattern_followedBy_add (h : (first.followedBy lines second).Nested)
    (hsecond : second.Nested) {block : Block} (hblock : block ∈ second.toList) :
    (first.followedBy lines second).pattern (block.id + first.size) =
      second.pattern block.id := by
  have hget := hsecond.get?_id hblock
  have hmoved := get?_followedBy_add first lines second block.id
  rw [hget, Option.map_some] at hmoved
  rw [h.pattern_eq hmoved, hsecond.pattern_eq hget]
  rfl

theorem followedBy_push (first : Outline) (lines : Nat) (second : Outline) (block : Block) :
    first.followedBy lines (second.push block) =
      (first.followedBy lines second).push (block.moved first.size lines) := by
  simp [followedBy, push]

namespace Scan

def behind (first : Outline) (lines : Nat) (scan : Scan) : Scan where
  outline := first.followedBy lines scan.outline
  openSuites := scan.openSuites.map (.moved first.size lines)

theorem stillOpen_behind (first : Outline) (lines : Nat) (scan : Scan) (column : UInt32) :
    (scan.behind first lines).stillOpen column =
      (scan.stillOpen column).map (.moved first.size lines) := by
  rw [stillOpen, behind, List.dropWhile_map, stillOpen]
  rfl

theorem ofDeclaration_moved (ids lines id line : Nat) (parent : Option Block)
    (declaration : Declaration) :
    Block.ofDeclaration (ids + id) (line + lines) (parent.map (.moved ids lines)) declaration =
      (Block.ofDeclaration id line parent declaration).moved ids lines := by
  have hline : UInt32.ofNat (line + lines) = .ofNat ((UInt32.ofNat line).toNat + lines) := by
    rw [← UInt32.toNat_inj]
    simp
  have hname : Block.qualify (parent.map (.moved ids lines)) declaration.label =
      Block.qualify parent declaration.label := by
    cases parent <;> rfl
  rw [Block.ofDeclaration, hline, hname, Nat.add_comm ids id, Option.map_map]
  simp only [Block.ofDeclaration, Block.moved, Block.line, Option.map_map, Function.comp_def]

theorem declare_behind (first : Outline) (lines : Nat) (scan : Scan) (line : Nat)
    (declaration : Declaration) :
    (scan.behind first lines).declare (line + lines) declaration =
      (scan.declare line declaration).behind first lines := by
  have hadded : (scan.behind first lines).added (line + lines) declaration =
      (scan.added line declaration).moved first.size lines := by
    rw [added, stillOpen_behind, List.head?_map, added, ← ofDeclaration_moved, behind,
      size_followedBy]
  have houtline : ((scan.behind first lines).declare (line + lines) declaration).outline =
      ((scan.declare line declaration).behind first lines).outline := by
    rw [outline_declare, hadded, behind, behind, outline_declare, followedBy_push]
  have hsuite : ((scan.added line declaration).moved first.size lines).isSuite =
      (scan.added line declaration).isSuite := rfl
  have hopen : ((scan.behind first lines).declare (line + lines) declaration).openSuites =
      ((scan.declare line declaration).behind first lines).openSuites := by
    rw [openSuites_declare, hadded, stillOpen_behind, hsuite, behind, openSuites_declare,
      apply_ite (List.map (Block.moved first.size lines)), List.map_cons]
  exact congrArg₂ Scan.mk houtline hopen

theorem step_behind (first : Outline) (lines : Nat) (scan : Scan) (line : List Char) (index : Nat) :
    (scan.behind first lines).step (line, index + lines) =
      (scan.step (line, index)).behind first lines := by
  cases hline : Declaration.ofLine? line with
  | none => rw [step_of_none hline, step_of_none hline]
  | some declaration =>
    have h := declare_behind first lines scan index declaration
    simpa [step, hline] using h

theorem foldl_behind (first : Outline) (lines : Nat) (texts : List (List Char)) (scan : Scan)
    (start : Nat) :
    (texts.zipIdx (start + lines)).foldl step (scan.behind first lines) =
      ((texts.zipIdx start).foldl step scan).behind first lines := by
  induction texts generalizing scan start with
  | nil => rfl
  | cons text texts ih =>
    rw [List.zipIdx_cons, List.foldl_cons, step_behind, Nat.add_right_comm, ih, List.zipIdx_cons,
      List.foldl_cons]

theorem declare_of_stillOpen_eq_nil {scan : Scan} {declaration : Declaration}
    (h : scan.stillOpen declaration.column = []) (lines line : Nat) :
    scan.declare (line + lines) declaration =
      (({} : Scan).declare line declaration).behind scan.outline lines := by
  have hbehind : ({} : Scan).behind scan.outline lines = { outline := scan.outline } := by
    rw [behind, followedBy_empty]
    rfl
  rw [← declare_behind, hbehind, declare, h, declare]
  rfl

theorem outline_foldl_of_closed {scan : Scan} {texts : List (List Char)}
    (h : ∀ declaration ∈ (texts.filterMap Declaration.ofLine?).head?,
      scan.stillOpen declaration.column = []) (start lines : Nat) :
    ((texts.zipIdx (start + lines)).foldl step scan).outline =
      scan.outline.followedBy lines ((texts.zipIdx start).foldl step {}).outline := by
  induction texts generalizing start with
  | nil => simp
  | cons text texts ih =>
    rw [List.zipIdx_cons, List.foldl_cons, List.zipIdx_cons, List.foldl_cons, Nat.add_right_comm]
    cases hline : Declaration.ofLine? text with
    | none =>
      rw [List.filterMap_cons_none hline] at h
      rw [step_of_none hline, step_of_none hline, ih h]
    | some declaration =>
      have hopen : scan.stillOpen declaration.column = [] := by
        apply h
        rw [List.filterMap_cons_some hline]
        rfl
      have hstep : scan.step (text, start + lines) =
          (({} : Scan).step (text, start)).behind scan.outline lines := by
        simpa only [step, hline] using declare_of_stillOpen_eq_nil hopen lines start
      rw [hstep, foldl_behind]
      rfl

theorem Sound.stillOpen_eq_nil {scan : Scan} (h : scan.Sound) {column : UInt32}
    (hleft : ∀ suite ∈ scan.outline.suites, column.toNat ≤ suite.column) :
    scan.stillOpen column = [] := by
  rw [← List.head?_eq_none_iff, head?_stillOpen]
  have hinnermost := h.innermost column.toNat
  cases hfound : scan.openSuites.find? (·.column < column.toNat) with
  | none => rfl
  | some last =>
    rw [hfound] at hinnermost
    obtain ⟨suite, hget, -, hsuite, hcolumn, -⟩ := hinnermost.1
    have hle := hleft suite (List.mem_filter.2 ⟨mem_toList_iff.2 ⟨_, hget⟩, hsuite⟩)
    omega

end Scan

theorem ofLines_append {before after : List (List Char)}
    (h : ∀ block ∈ (ofLines after).toList.head?, ∀ suite ∈ (ofLines before).suites,
      block.column ≤ suite.column) :
    ofLines (before ++ after) = (ofLines before).followedBy before.length (ofLines after) := by
  have hsound : (Scan.ofLines before).Sound := Scan.sound_empty.foldl before.zipIdx
  rw [ofLines, List.zipIdx_append, List.foldl_append]
  apply Scan.outline_foldl_of_closed
  intro declaration hdeclaration
  rw [← map_declaration_ofLines, List.head?_map, Option.mem_def, Option.map_eq_some_iff]
    at hdeclaration
  obtain ⟨block, hblock, rfl⟩ := hdeclaration
  exact hsound.stillOpen_eq_nil (h block hblock)

theorem ofLines_lines_append_feed (text : List Char) :
    ofLines (Text.lines (text ++ ['\n'])) = ofLines (Text.lines text) := by
  obtain ⟨front, last, hpieces⟩ :=
    (pieces '\n' text).eq_nil_or_concat'.resolve_left (pieces_ne_nil _ _)
  have hlines : Text.lines text = front.map dropReturn ++ linesOfPieces [last] := by
    rw [Text.lines, hpieces, linesOfPieces_append front (List.cons_ne_nil last [])]
  rw [lines_append_feed, hpieces, hlines, List.map_append]
  by_cases hlast : last = []
  · subst hlast
    exact (ofLines_append_of_plain (by decide)).trans (by simp [linesOfPieces])
  · have hkept : linesOfPieces [last] = [last] := by
      rw [linesOfPieces, if_neg (by simpa using hlast)]
    apply ofLines_congr
    rw [hkept, List.map_append, List.map_append, List.map_singleton, List.map_singleton,
      List.map_singleton, Declaration.ofLine?_dropReturn]

/-- The outline of two files, joined by a line feed, where the second begins no further right than
any suite of the first. The blocks of the second file come behind those of the first with their
numbers moved on, and all other things about them stay as they are. -/
theorem ofSource_append {first second : String}
    (hlength : (Text.lines (first ++ "\n" ++ second).toList).length ≤ UInt32.size)
    (hdedent : ∀ block ∈ (ofSource second).toList.head?, ∀ suite ∈ (ofSource first).suites,
      block.column ≤ suite.column) :
    ofSource (first ++ "\n" ++ second) = (ofSource first).followedBy
        (Text.lines (first ++ "\n").toList).length (ofSource second) ∧
      (∀ id < (ofSource first).size,
        (ofSource (first ++ "\n" ++ second)).pattern id = (ofSource first).pattern id) ∧
      ∀ block ∈ (ofSource second).toList,
        (block.moved (ofSource first).size (Text.lines (first ++ "\n").toList).length).line =
          block.line + (Text.lines (first ++ "\n").toList).length ∧
        (ofSource (first ++ "\n" ++ second)).pattern (block.id + (ofSource first).size) =
          (ofSource second).pattern block.id := by
  have hlines : Text.lines (first ++ "\n" ++ second).toList =
      Text.lines (first ++ "\n").toList ++ Text.lines second.toList := by
    rw [String.toList_append, String.toList_append, List.append_assoc]
    exact Text.lines_append first.toList second.toList
  have hfirst : ofLines (Text.lines (first ++ "\n").toList) = ofSource first := by
    rw [String.toList_append]
    exact ofLines_lines_append_feed first.toList
  have hjoined : ofSource (first ++ "\n" ++ second) = (ofSource first).followedBy
      (Text.lines (first ++ "\n").toList).length (ofSource second) := by
    rw [ofSource, hlines, ofLines_append (hfirst ▸ hdedent), hfirst, ofSource, ofSource]
  have hnested : ((ofSource first).followedBy (Text.lines (first ++ "\n").toList).length
      (ofSource second)).Nested := hjoined ▸ nested_ofLines _
  refine ⟨hjoined, ?_, ?_⟩
  · intro id hid
    rw [hjoined, hnested.pattern_followedBy_of_lt (nested_ofLines _) hid]
  · intro block hblock
    constructor
    · rw [hlines, List.length_append] at hlength
      have hline : block.line < (Text.lines second.toList).length :=
        Scan.line_lt_ofLines (by omega) hblock
      exact Nat.mod_eq_of_lt (Nat.lt_of_lt_of_le (by omega) hlength)
    · rw [hjoined, hnested.pattern_followedBy_add (nested_ofLines _) hblock]

def indentedFile : String :=
  "  describe('a')\n    it('b')\r"

def outdentedFile : String :=
  " it('c')\n    describe('d')\n      it('e')\n"

theorem ofSource_append_outdented :
    (Text.lines (indentedFile ++ "\n" ++ outdentedFile).toList).length ≤ UInt32.size ∧
      (∀ block ∈ (ofSource outdentedFile).toList.head?, ∀ suite ∈ (ofSource indentedFile).suites,
        block.column ≤ suite.column) ∧
      ofSource (indentedFile ++ "\n" ++ outdentedFile) =
        (ofSource indentedFile).followedBy 2 (ofSource outdentedFile) ∧
      (ofSource (indentedFile ++ "\n" ++ outdentedFile)).pattern 4 = "^d e$" := by
  have hlength : (Text.lines (indentedFile ++ "\n" ++ outdentedFile).toList).length ≤
      UInt32.size := by
    decide
  have hdedent : ∀ block ∈ (ofSource outdentedFile).toList.head?,
      ∀ suite ∈ (ofSource indentedFile).suites, block.column ≤ suite.column := by
    decide
  obtain ⟨hjoined, -, hpattern⟩ := ofSource_append hlength hdedent
  have hblock : (⟨2, .testCase, "e", ⟨2, 6⟩, "d e", some 1⟩ : Block) ∈
      (ofSource outdentedFile).toList := by
    decide
  exact ⟨hlength, hdedent, hjoined, (hpattern _ hblock).2.trans (by decide)⟩

end Outline

end TestOutline
