import TestOutline.Proofs.Launching

/-! What is printed about a file that can be opened. The summary of a line starts like every other
summary and goes on with the block at the line, or says that there is none. -/

namespace TestOutline

theorem Outline.isEmpty_of_mem {outline : Outline} {block : Block}
    (h : block ∈ outline.toList) : outline.isEmpty = false := by
  rw [isEmpty, ← Array.isEmpty_toList, List.isEmpty_eq_false_iff]
  exact List.ne_nil_of_mem h

theorem Workspace.blockAt?_eq_ok_iff {workspace : Workspace} {file : Path} {line : UInt32}
    {selected : Option Block} : workspace.blockAt? file line = .ok selected ↔
      ∃ lines, workspace.sourceLines file = .ok lines ∧
        Outline.atCursor? lines line = selected := by
  rw [blockAt?, bind_eq_ok_iff]
  simp only [Except.ok.injEq]

namespace CommandLine

variable {workspace : Workspace} {argument : String} {file : Path} {settings : Settings}
  {target : Target} {line : UInt32} {lines : List (List Char)} {block : Block}

/-- The file that an argument names is there, and these are the settings for it. -/
structure Opens (workspace : Workspace) (argument : String) (file : Path) (settings : Settings) :
    Prop where
  resolved : resolve workspace (Target.ofArgument argument).path = .ok file
  nearest : Settings.nearest workspace file = .ok settings

def Outcome.Prints (outcome : Outcome) (line : String) : Prop :=
  ∃ before behind, outcome.output = before ++ (line ++ "\n") ++ behind

theorem prints_of_mem {line : String} {lines : List String} (h : line ∈ lines) :
    (Outcome.print lines).Prints line := by
  obtain ⟨before, behind, rfl⟩ := List.append_of_mem h
  refine ⟨(Outcome.print before).output, (Outcome.print behind).output, ?_⟩
  simp [Outcome.print, String.append_assoc]

theorem prints_of_mem_of_failure {line : String} {lines : List String} (h : line ∈ lines)
    (failure : Failure) : (Outcome.printThenFail lines failure).Prints line :=
  prints_of_mem h

theorem prints_summaryHeader {line : String} (h : line ∈ summaryHeader settings file target) :
    (summary settings workspace file target).Prints line := by
  unfold summary
  split
  · exact prints_of_mem (List.mem_append_left _ h)
  · exact prints_of_mem_of_failure h _

theorem summary_eq_print {body : List String}
    (h : summaryBody settings workspace file target = .ok body) :
    summary settings workspace file target =
      .print (summaryHeader settings file target ++ body) := by
  unfold summary
  simp only [h]

def blockLines (settings : Settings) (file : Path) (outline : Outline) (line : UInt32)
    (block : Block) : List String :=
  ["\n🎯 Block at line " ++ shownLine line ++ ":",
    describeBlock block 1 (outline.pattern block.id), "\n🚀 Command:"] ++
  breakdown ((settings.launchFile file .run).narrow (outline.pattern block.id))

theorem summaryBody_of_block (hread : workspace.sourceLines file = .ok lines)
    (hline : target.line = some line) (hcursor : Outline.atCursor? lines line = some block) :
    summaryBody settings workspace file target =
      .ok (blockLines settings file (.ofLines lines) line block) := by
  have hblock := Outline.mem_of_innermost? hcursor
  have hne := Outline.isEmpty_of_mem hblock
  have hlaunch (mode : Mode) : settings.launch workspace file (some line) mode =
      .ok ((settings.launchFile file mode).narrow ((Outline.ofLines lines).pattern block.id)) := by
    rw [Settings.launch_eq hread, hcursor]
    exact Settings.launchBlock_of_mem (Outline.nested_ofLines lines) hblock mode
  have hsummary : summaryAt settings workspace file (.ofLines lines) line =
      .ok (blockLines settings file (.ofLines lines) line block) := by
    rw [summaryAt, Workspace.blockAt?_eq hread, hcursor]
    simp only [hlaunch, blockLines, bind, Except.bind]
  rw [summaryBody, Workspace.outline_eq hread]
  simp only [bind, Except.bind, hne, hline, hsummary, Bool.false_eq_true, if_false]

theorem summaryBody_of_no_block (hread : workspace.sourceLines file = .ok lines)
    (hne : (Outline.ofLines lines).isEmpty = false) (hline : target.line = some line)
    (hcursor : Outline.atCursor? lines line = none) :
    summaryBody settings workspace file target =
      .ok ["\n❌ No block at line " ++ shownLine line] := by
  have hsummary : summaryAt settings workspace file (.ofLines lines) line =
      .ok ["\n❌ No block at line " ++ shownLine line] := by
    rw [summaryAt, Workspace.blockAt?_eq hread, hcursor]
    rfl
  rw [summaryBody, Workspace.outline_eq hread]
  simp only [bind, Except.bind, hne, hline, hsummary, Bool.false_eq_true, if_false]

namespace Opens

theorem analyze_eq_summary (h : Opens workspace argument file settings) :
    analyze workspace argument false =
      summary settings workspace file (.ofArgument argument) := by
  simp only [analyze, h.resolved, h.nearest, bind, Except.bind, lift, Except.mapError]
  rfl

theorem analyze_eq_json (h : Opens workspace argument file settings) {analysis : Analysis}
    (hanalysis : settings.analyse workspace file = .ok analysis) :
    analyze workspace argument true = .print [analysis.toJson.pretty] := by
  simp only [analyze, h.resolved, h.nearest, hanalysis, bind, Except.bind, lift, Except.mapError]
  rfl

theorem pattern_of_no_block (h : Opens workspace argument file settings)
    (hline : (Target.ofArgument argument).line = some line)
    (hnone : workspace.patternAt? file line = .ok none) :
    pattern workspace argument = { failure := some ⟨"No describe/it block at " ++
      (Target.ofArgument argument).path ++ ":" ++ shownLine line, []⟩ } := by
  simp only [pattern, h.resolved, h.nearest, hline, hnone, bind, Except.bind, lift, Except.mapError]
  rfl

end Opens

end CommandLine

end TestOutline
