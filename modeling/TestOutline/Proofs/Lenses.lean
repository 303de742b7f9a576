import TestOutline.Proofs.Cursor
import TestOutline.Proofs.Selection

/-! What an editor is told about a line. The actions offered at a block, the block and the pattern
at a line, and the invocation for a line are found in different ways, and agree: no two blocks start
on one line, and the block that starts on a line is the one selected there. -/

namespace TestOutline

namespace Outline

variable {outline : Outline}

theorem startingOn_start (hline : outline.toList.Pairwise fun before behind =>
    before.line < behind.line) {block : Block} (hblock : block ∈ outline.toList) :
    outline.startingOn block.start.line = [block] := by
  obtain ⟨earlier, behind, hsplit⟩ := List.append_of_mem hblock
  have hcut : outline.toList = earlier ++ ([block] ++ behind) := hsplit
  rw [hsplit, List.pairwise_append, List.pairwise_cons] at hline
  obtain ⟨-, ⟨hbehind, -⟩, hearlier⟩ := hline
  refine startingOn_eq hcut ?_ ?_ hbehind
  · exact fun other hother => hearlier other hother block (List.mem_cons_self ..)
  · exact fun other hother => congrArg Block.line (List.mem_singleton.1 hother)

theorem innermost?_start (hline : outline.toList.Pairwise fun before behind =>
    before.line < behind.line) {block : Block} (hblock : block ∈ outline.toList)
    (column : UInt32) : outline.innermost? block.start.line column = some block := by
  rw [innermost?, startingOn_start hline hblock]
  rfl

theorem mem_of_innermost? {line column : UInt32} {block : Block}
    (h : outline.innermost? line column = some block) : block ∈ outline.toList := by
  rcases Option.or_eq_some_iff.1 h with hstart | ⟨-, hearlier⟩
  · exact (List.mem_filter.1 (List.mem_of_head? hstart)).1
  · exact List.mem_reverse.1 (List.mem_of_find?_eq_some hearlier)

end Outline

/-- What is said about the cursor on a line: the block there with its pattern, and the invocation,
which is that of the file, narrowed to the pattern if there is one. -/
structure Settings.AnswersAt (settings : Settings) (workspace : Workspace) (file : Path)
    (outline : Outline) (line : UInt32) : Prop where
  answered : ∃ answer, workspace.patternAt? file line = .ok answer
  block : ∀ pattern, workspace.patternAt? file line = .ok (some pattern) →
    ∃ block ∈ outline.toList, workspace.blockAt? file line = .ok (some block) ∧
      outline.pattern block.id = pattern
  narrowed : ∀ pattern mode, workspace.patternAt? file line = .ok (some pattern) →
    settings.launch workspace file (some line) mode = .ok { settings.launchFile file mode with
      args := (settings.launchFile file mode).args ++ ["--grep", pattern]
      grep := some pattern }
  no_block : workspace.patternAt? file line = .ok none → workspace.blockAt? file line = .ok none
  whole : ∀ mode, workspace.patternAt? file line = .ok none →
    settings.launch workspace file (some line) mode = .ok (settings.launchFile file mode) ∧
      settings.launch workspace file none mode = .ok (settings.launchFile file mode)

section

variable {settings : Settings} {workspace : Workspace} {file : Path} {lines : List (List Char)}

theorem Workspace.sourceLines_eq {text : String} (hread : workspace.read file = .ok text) :
    workspace.sourceLines file = .ok (Text.lines (dropByteOrderMark text.toList)) := by
  rw [sourceLines, hread]
  rfl

theorem Workspace.outline_eq (hread : workspace.sourceLines file = .ok lines) :
    workspace.outline file = .ok (.ofLines lines) := by
  rw [outline, hread]
  rfl

theorem Workspace.patternAt?_eq (hread : workspace.sourceLines file = .ok lines) (line : UInt32) :
    workspace.patternAt? file line =
      .ok ((Outline.atCursor? lines line).map ((Outline.ofLines lines).pattern ·.id)) := by
  rw [patternAt?, hread]
  rfl

theorem Workspace.blockAt?_eq (hread : workspace.sourceLines file = .ok lines) (line : UInt32) :
    workspace.blockAt? file line = .ok (Outline.atCursor? lines line) := by
  rw [blockAt?, hread]
  rfl

theorem Settings.launch_eq (hread : workspace.sourceLines file = .ok lines) (line : UInt32)
    (mode : Mode) : settings.launch workspace file (some line) mode =
      match Outline.atCursor? lines line with
      | some block => settings.launchBlock file (.ofLines lines) block.id mode
      | none => .ok (settings.launchFile file mode) := by
  rw [launch, hread]
  rfl

theorem Settings.launchBlock_of_mem {outline : Outline} (h : outline.Nested) {block : Block}
    (hblock : block ∈ outline.toList) (mode : Mode) :
    settings.launchBlock file outline block.id mode =
      .ok ((settings.launchFile file mode).narrow (outline.pattern block.id)) := by
  rw [launchBlock, h.get?_id hblock]

theorem Settings.answersAt (hread : workspace.sourceLines file = .ok lines) (line : UInt32) :
    settings.AnswersAt workspace file (.ofLines lines) line where
  answered := ⟨_, Workspace.patternAt?_eq hread line⟩
  block pattern h := by
    rw [Workspace.patternAt?_eq hread, Except.ok.injEq, Option.map_eq_some_iff] at h
    obtain ⟨block, hcursor, hpattern⟩ := h
    refine ⟨block, Outline.mem_of_innermost? hcursor, ?_, hpattern⟩
    rw [Workspace.blockAt?_eq hread, hcursor]
  narrowed pattern mode h := by
    rw [Workspace.patternAt?_eq hread, Except.ok.injEq, Option.map_eq_some_iff] at h
    obtain ⟨block, hcursor, rfl⟩ := h
    rw [launch_eq hread, hcursor]
    exact launchBlock_of_mem (Outline.nested_ofLines lines) (Outline.mem_of_innermost? hcursor) mode
  no_block h := by
    rw [Workspace.patternAt?_eq hread, Except.ok.injEq, Option.map_eq_none_iff] at h
    rw [Workspace.blockAt?_eq hread, h]
  whole mode h := by
    rw [Workspace.patternAt?_eq hread, Except.ok.injEq, Option.map_eq_none_iff] at h
    refine ⟨?_, rfl⟩
    rw [launch_eq hread, h]

theorem Workspace.lenses_eq (hread : workspace.sourceLines file = .ok lines) :
    workspace.lenses file = .ok (Outline.ofLines lines).lenses := by
  rw [lenses, outline, hread]
  rfl

theorem Workspace.patternAt?_lens (hread : workspace.sourceLines file = .ok lines)
    (hlength : lines.length ≤ UInt32.size) {lens : Lens}
    (hlens : lens ∈ (Outline.ofLines lines).lenses) :
    workspace.patternAt? file lens.position.line = .ok (some lens.pattern) := by
  obtain ⟨block, hblock, hmem⟩ := List.mem_flatMap.1 hlens
  have hcursor : Outline.atCursor? lines block.start.line = some block :=
    Outline.innermost?_start (Outline.pairwise_line_ofLines hlength) hblock _
  simp only [List.mem_cons, List.not_mem_nil, or_false] at hmem
  rw [patternAt?_eq hread]
  rcases hmem with rfl | rfl
  · simp only [Lens.ofBlock, hcursor, Option.map_some]
  · simp only [Lens.ofBlock, hcursor, Option.map_some]

/-- Every block is offered to be run and to be debugged, by the pattern that is found on its line
and that the invocation for its line is narrowed to; and on every line of the file, the block, the
pattern and the invocation agree. -/
theorem lenses_agree {text : String} (hread : workspace.read file = .ok text)
    (hlength : (Text.lines (dropByteOrderMark text.toList)).length ≤ UInt32.size) :
    ∃ outline lenses, workspace.outline file = .ok outline ∧
      workspace.lenses file = .ok lenses ∧
      lenses.map (fun lens => (lens.position, lens.mode, lens.pattern)) =
        outline.toList.flatMap (fun block => [Mode.run, Mode.debug].map fun mode =>
          (block.start, mode, outline.pattern block.id)) ∧
      (∀ lens ∈ lenses,
        workspace.patternAt? file lens.position.line = .ok (some lens.pattern) ∧
        ∃ invocation,
          settings.launch workspace file (some lens.position.line) lens.mode = .ok invocation ∧
          invocation.grep = some lens.pattern) ∧
      ∀ line, settings.AnswersAt workspace file outline line := by
  have hlines : workspace.sourceLines file = .ok (Text.lines (dropByteOrderMark text.toList)) := by
    rw [Workspace.sourceLines, hread]
    rfl
  refine ⟨_, _, ?_, Workspace.lenses_eq hlines, ?_, ?_, Settings.answersAt hlines⟩
  · rw [Workspace.outline, hlines]
    rfl
  · rw [Outline.lenses, List.map_flatMap]
    rfl
  · intro lens hlens
    have hpattern := Workspace.patternAt?_lens hlines hlength hlens
    refine ⟨hpattern, _, (settings.answersAt hlines _).narrowed _ _ hpattern, rfl⟩

end

def markedFile : String :=
  "\uFEFFdescribe('a')\n\n  it('b')\n"

theorem lenses_markedFile :
    (Workspace.onlyFile "a.js" markedFile).read ⟨"a.js"⟩ = .ok markedFile ∧
      (Text.lines (dropByteOrderMark markedFile.toList)).length ≤ UInt32.size ∧
      ∃ lenses, (Workspace.onlyFile "a.js" markedFile).lenses ⟨"a.js"⟩ = .ok lenses ∧
        lenses.map (·.title) = ["Run suite", "Debug suite", "Run test", "Debug test"] ∧
        ∀ lens ∈ lenses, (Workspace.onlyFile "a.js" markedFile).patternAt? ⟨"a.js"⟩
          lens.position.line = .ok (some lens.pattern) := by
  have hread : (Workspace.onlyFile "a.js" markedFile).read ⟨"a.js"⟩ = .ok markedFile := by rfl
  have hlength : (Text.lines (dropByteOrderMark markedFile.toList)).length ≤ UInt32.size := by
    decide
  obtain ⟨outline, lenses, houtline, hlenses, -, hagree, -⟩ :=
    @lenses_agree {} _ _ _ hread hlength
  refine ⟨hread, hlength, lenses, hlenses, ?_, fun lens hlens => (hagree lens hlens).1⟩
  have htitles : ((Workspace.onlyFile "a.js" markedFile).lenses ⟨"a.js"⟩).map
      (·.map (·.title)) = .ok ["Run suite", "Debug suite", "Run test", "Debug test"] := by
    rfl
  rw [hlenses] at htitles
  exact Except.ok.inj htitles

end TestOutline
