import Mathlib.Data.List.TakeWhile
import TestOutline.Outline.Extract
import TestOutline.Proofs.Nesting

/-! What the scan of a file keeps. The stack of open suites is cut back at every declaration; at any
time its topmost suite left of a column is the innermost one that is open there, so the outline that
the scan builds is nested. What a block says of its own declaration is read off line by line. -/

namespace TestOutline

def Block.declaration (block : Block) : Declaration where
  kind := block.kind
  label := block.label
  column := block.start.character

namespace Outline
open Text

namespace Scan

/-- What the scan keeps: its outline is nested, and the topmost suite on its stack that starts left
of a column is the innermost one open there. -/
structure Sound (scan : Scan) : Prop where
  nested : scan.outline.Nested
  innermost : ∀ column, scan.outline.IsInnermost scan.outline.size column
    ((scan.openSuites.find? (·.column < column)).map (·.id))
  get?_id : ∀ suite ∈ scan.openSuites, scan.outline.get? suite.id = some suite

theorem sound_empty : Sound {} where
  nested := nested_empty
  innermost column := by
    rintro id ⟨suite, hget, -⟩
    simp [get?] at hget
  get?_id := by simp

theorem mem_openSuites_of_mem_stillOpen {scan : Scan} {column : UInt32} {suite : Block}
    (h : suite ∈ scan.stillOpen column) : suite ∈ scan.openSuites :=
  (List.dropWhile_sublist _).subset h

theorem le_character_iff {block : Block} {column : UInt32} :
    column ≤ block.start.character ↔ ¬ block.column < column.toNat := by
  rw [UInt32.le_iff_toNat_le, Nat.not_lt]
  rfl

theorem find?_stillOpen (scan : Scan) (first : UInt32) (second : Nat) :
    (scan.stillOpen first).find? (·.column < second) =
      scan.openSuites.find? (·.column < min second first.toNat) := by
  rw [stillOpen]
  induction scan.openSuites with
  | nil => rfl
  | cons suite suites ih =>
    by_cases hfirst : suite.column < first.toNat
    · rw [List.dropWhile_cons_of_neg (by simpa [le_character_iff] using hfirst)]
      by_cases hsecond : suite.column < second
      · rw [List.find?_cons_of_pos (by simpa using hsecond),
          List.find?_cons_of_pos (by simp; omega)]
      · rw [show min second first.toNat = second by omega]
    · rw [List.dropWhile_cons_of_pos (by simpa [le_character_iff] using hfirst), ih,
        List.find?_cons_of_neg (by simp; omega)]

theorem head?_stillOpen (scan : Scan) (column : UInt32) :
    (scan.stillOpen column).head? = scan.openSuites.find? (·.column < column.toNat) := by
  rw [stillOpen, ← List.find?_not_eq_head?_dropWhile]
  simp only [le_character_iff, decide_not, Bool.not_not]

def added (scan : Scan) (line : Nat) (declaration : Declaration) : Block :=
  .ofDeclaration scan.outline.size line (scan.stillOpen declaration.column).head? declaration

theorem outline_declare (scan : Scan) (line : Nat) (declaration : Declaration) :
    (scan.declare line declaration).outline = scan.outline.push (scan.added line declaration) := rfl

theorem openSuites_declare (scan : Scan) (line : Nat) (declaration : Declaration) :
    (scan.declare line declaration).openSuites =
      if (scan.added line declaration).isSuite then
        scan.added line declaration :: scan.stillOpen declaration.column
      else scan.stillOpen declaration.column := rfl

theorem find?_openSuites_declare (scan : Scan) (line : Nat) (declaration : Declaration)
    (column : Nat) :
    (scan.declare line declaration).openSuites.find? (·.column < column) =
      if (scan.added line declaration).isSuite ∧ (scan.added line declaration).column < column then
        some (scan.added line declaration)
      else scan.openSuites.find? (·.column < min column declaration.column.toNat) := by
  rw [openSuites_declare, ← find?_stillOpen]
  by_cases hsuite : (scan.added line declaration).isSuite
  · by_cases hcolumn : (scan.added line declaration).column < column
    · simp [hsuite, hcolumn]
    · simp [hsuite, hcolumn]
  · simp [hsuite]

theorem Sound.declare {scan : Scan} (h : scan.Sound) (line : Nat) (declaration : Declaration) :
    (scan.declare line declaration).Sound := by
  have hhead : ∀ suite ∈ (scan.stillOpen declaration.column).head?,
      scan.outline.get? suite.id = some suite := by
    intro suite hsuite
    exact h.get?_id suite (mem_openSuites_of_mem_stillOpen (List.mem_of_mem_head? hsuite))
  constructor
  · rw [outline_declare]
    refine h.nested.push rfl ?_ ?_
    · have hinnermost := h.innermost declaration.column.toNat
      rwa [← head?_stillOpen] at hinnermost
    · cases htop : (scan.stillOpen declaration.column).head? with
      | none => simp [added, Block.ofDeclaration, parent?, htop]
      | some suite =>
        have hget := hhead suite htop
        simp [added, Block.ofDeclaration, parent?, htop, hget]
  · intro column
    have hold : scan.outline.IsInnermost scan.outline.size
        (min column (scan.added line declaration).column)
        ((scan.openSuites.find? (·.column < min column declaration.column.toNat)).map (·.id)) :=
      h.innermost (min column declaration.column.toNat)
    rw [find?_openSuites_declare, outline_declare, size_push,
      apply_ite (Option.map fun block : Block => block.id)]
    exact isInnermost_succ (get?_push_size ..) ((isInnermost_push le_rfl).2 hold)
  · intro suite hsuite
    rw [outline_declare]
    have hold (old : Block) (hmem : old ∈ scan.stillOpen declaration.column) :
        (scan.outline.push (scan.added line declaration)).get? old.id = some old := by
      have hget := h.get?_id old (mem_openSuites_of_mem_stillOpen hmem)
      rw [get?_push_of_lt _ _ (lt_size_of_get? hget), hget]
    rw [openSuites_declare] at hsuite
    split at hsuite
    · rcases List.mem_cons.1 hsuite with rfl | hmem
      · exact get?_push_size ..
      · exact hold suite hmem
    · exact hold suite hsuite

theorem Sound.step {scan : Scan} (h : scan.Sound) (line : List Char × Nat) :
    (scan.step line).Sound := by
  rw [Scan.step]
  split
  · exact h.declare ..
  · exact h

theorem Sound.foldl {scan : Scan} (h : scan.Sound) (numbered : List (List Char × Nat)) :
    (numbered.foldl Scan.step scan).Sound := by
  induction numbered generalizing scan with
  | nil => exact h
  | cons line rest ih => exact ih (h.step line)

theorem map_toList_foldl {α : Type} (read : Block → α) (find : List Char × Nat → Option α)
    {numbered : List (List Char × Nat)}
    (h : ∀ line ∈ numbered, ∀ id parent, find line =
      (Declaration.ofLine? line.1).map (read <| .ofDeclaration id line.2 parent ·))
    (scan : Scan) :
    (numbered.foldl Scan.step scan).outline.toList.map read =
      scan.outline.toList.map read ++ numbered.filterMap find := by
  induction numbered generalizing scan with
  | nil => simp
  | cons line rest ih =>
    rw [List.foldl_cons, ih fun other hmem => h other (List.mem_cons_of_mem _ hmem)]
    cases hline : Declaration.ofLine? line.1 with
    | none =>
      have hfind : find line = none := by
        rw [h line (List.mem_cons_self ..) 0 none, hline]
        rfl
      rw [step_of_none hline, List.filterMap_cons_none hfind]
    | some declaration =>
      have hfind : find line = some (read (scan.added line.2 declaration)) := by
        rw [h line (List.mem_cons_self ..), hline]
        rfl
      have hstep : scan.step line = scan.declare line.2 declaration := by
        simp [step, hline]
      rw [hstep, outline_declare, toList_push, List.filterMap_cons_some hfind]
      simp

end Scan

theorem Scan.foldl_step_of_plain {numbered : List (List Char × Nat)}
    (h : ∀ line ∈ numbered, Declaration.ofLine? line.1 = none) (scan : Scan) :
    numbered.foldl step scan = scan := by
  induction numbered with
  | nil => rfl
  | cons line rest ih =>
    rw [List.foldl_cons, step_of_none (h line (List.mem_cons_self ..)),
      ih fun other hmem => h other (List.mem_cons_of_mem _ hmem)]

theorem Scan.foldl_zipIdx_congr {lines others : List (List Char)}
    (h : lines.map Declaration.ofLine? = others.map Declaration.ofLine?) (scan : Scan)
    (start : Nat) :
    (lines.zipIdx start).foldl step scan = (others.zipIdx start).foldl step scan := by
  induction lines generalizing others scan start with
  | nil =>
    cases others with
    | nil => rfl
    | cons other others => simp at h
  | cons line lines ih =>
    cases others with
    | nil => simp at h
    | cons other others =>
      rw [List.map_cons, List.map_cons, List.cons.injEq] at h
      have hstep : scan.step (line, start) = scan.step (other, start) := by
        simp only [step, h.1]
      rw [List.zipIdx_cons, List.zipIdx_cons, List.foldl_cons, List.foldl_cons, hstep, ih h.2]

theorem ofLines_congr {lines others : List (List Char)}
    (h : lines.map Declaration.ofLine? = others.map Declaration.ofLine?) :
    ofLines lines = ofLines others :=
  congrArg Scan.outline (Scan.foldl_zipIdx_congr h {} 0)

theorem ofLines_append_of_plain {lines plain : List (List Char)}
    (h : ∀ line ∈ plain, Declaration.ofLine? line = none) :
    ofLines (lines ++ plain) = ofLines lines := by
  rw [ofLines, List.zipIdx_append, List.foldl_append, Scan.foldl_step_of_plain]
  · rfl
  · exact fun line hmem => h line.1 (List.fst_mem_of_mem_zipIdx hmem)

theorem nested_ofLines (lines : List (List Char)) : (ofLines lines).Nested :=
  (Scan.sound_empty.foldl lines.zipIdx).nested

theorem map_toList_ofLines {α : Type} (read : Block → α) (find : List Char × Nat → Option α)
    {lines : List (List Char)}
    (h : ∀ line ∈ lines.zipIdx, ∀ id parent, find line =
      (Declaration.ofLine? line.1).map (read <| .ofDeclaration id line.2 parent ·)) :
    (ofLines lines).toList.map read = lines.zipIdx.filterMap find :=
  Scan.map_toList_foldl read find h {}

theorem map_declaration_ofLines (lines : List (List Char)) :
    (ofLines lines).toList.map Block.declaration = lines.filterMap Declaration.ofLine? := by
  have hblocks : (ofLines lines).toList.map Block.declaration =
      lines.zipIdx.filterMap (Declaration.ofLine? ∘ Prod.fst) :=
    map_toList_ofLines _ _ (by simp [Block.declaration, Block.ofDeclaration])
  rw [hblocks, ← List.filterMap_map, List.zipIdx_map_fst]

end Outline

end TestOutline
