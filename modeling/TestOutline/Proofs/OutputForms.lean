import Mathlib.Data.List.Nodup
import TestOutline.Proofs.ReadBack
import TestOutline.Proofs.Summary

/-! The two forms of an analysis. As a text, the analysis of a line is about the block at the line.
As JSON it is about all blocks of the file, whatever the line, so the forms agree on what they
report only for files with a single block. -/

namespace TestOutline

theorem Settings.analyse_eq {settings : Settings} {workspace : Workspace} {file : Path}
    {outline : Outline} (h : workspace.outline file = .ok outline) :
    settings.analyse workspace file = .ok ⟨file, .ofPath file, settings.isTestFile file, outline,
      settings.launchFile file .run⟩ := by
  rw [analyse, h]
  rfl

theorem Outline.Nested.forall_mem_iff {outline : Outline} (h : outline.Nested) {block : Block}
    (hblock : block ∈ outline.toList) :
    (∀ other, other ∈ outline.toList ↔ other = block) ↔ outline.size = 1 := by
  have hnodup : outline.toList.Nodup := by
    apply List.Nodup.of_map Block.id
    rw [h.map_id_toList]
    exact List.nodup_range
  constructor
  · intro hall
    have hreplicate : outline.toList = List.replicate outline.size block :=
      List.eq_replicate_iff.2 ⟨outline.length_toList, fun other hother => (hall other).1 hother⟩
    have hle : outline.size ≤ 1 := by
      rw [hreplicate] at hnodup
      exact List.nodup_replicate.1 hnodup
    have hpos : 0 < outline.size := by
      rw [← outline.length_toList]
      exact List.length_pos_of_mem hblock
    omega
  · intro hsize other
    rw [← outline.length_toList] at hsize
    obtain ⟨only, hlist⟩ := List.length_eq_one_iff.1 hsize
    rw [hlist, List.mem_singleton] at hblock ⊢
    rw [hblock]

namespace CommandLine

variable {workspace : Workspace} {argument : String} {file : Path} {settings : Settings}
  {text : String} {line : UInt32} {block : Block}

/-- The blocks that the JSON form of an analysis tells of. -/
def reportedBlocks? (outcome : Outcome) : Option (List Block) :=
  (((Json.parse? outcome.output).bind (Json.member? "blocks")).bind Outline.ofJson?).map
    Outline.toList

theorem analyze_json_congr {other : String}
    (h : (Target.ofArgument other).path = (Target.ofArgument argument).path) :
    analyze workspace other true = analyze workspace argument true := by
  simp only [analyze, h, if_true]

theorem reportedBlocks?_analyze (hopens : Opens workspace argument file settings)
    (hread : workspace.read file = .ok text) (hbytes : text.utf8ByteSize < UInt64.size) :
    ∃ outline, workspace.outline file = .ok outline ∧ outline.Nested ∧
      reportedBlocks? (analyze workspace argument true) = some outline.toList := by
  obtain ⟨outline, houtline, hnested, hsize⟩ := Workspace.exists_outline hread hbytes
  refine ⟨outline, houtline, hnested, ?_⟩
  have hanalysis := settings.analyse_eq houtline
  have houtput : (analyze workspace argument true).output =
      (Analysis.mk file (.ofPath file) (settings.isTestFile file) outline
        (settings.launchFile file .run)).toJson.pretty ++ "\n" := by
    rw [hopens.analyze_eq_json hanalysis]
    simp [Outcome.print, String.join]
  rw [reportedBlocks?, houtput, Json.parse?_line (Analysis.wellSpelled_toJson _),
    Option.bind_some, (Analysis.tellsOf_toJson hnested hsize).blocks, Option.map_some]

/-- The text about a line is about the block at the line alone. The JSON about it is the JSON about
the file and tells of every block of it: of that block alone exactly if the file has no other. -/
theorem analyze_narrows_iff (hopens : Opens workspace argument file settings)
    (hread : workspace.read file = .ok text) (hbytes : text.utf8ByteSize < UInt64.size)
    (hline : (Target.ofArgument argument).line = some line)
    (hblock : workspace.blockAt? file line = .ok (some block)) :
    ∃ outline, workspace.outline file = .ok outline ∧
      analyze workspace argument false = .print (summaryHeader settings file
        (.ofArgument argument) ++ blockLines settings file outline line block) ∧
      reportedBlocks? (analyze workspace argument true) = some outline.toList ∧
      ((∀ other, other ∈ outline.toList ↔ other = block) ↔ outline.size = 1) ∧
      ∀ other, (Target.ofArgument other).path = (Target.ofArgument argument).path →
        analyze workspace other true = analyze workspace argument true := by
  obtain ⟨lines, hlines, hcursor⟩ := Workspace.blockAt?_eq_ok_iff.1 hblock
  obtain ⟨outline, houtline, hnested, hreported⟩ := reportedBlocks?_analyze hopens hread hbytes
  have heq : Outline.ofLines lines = outline := by
    rw [Workspace.outline_eq hlines] at houtline
    exact Except.ok.inj houtline
  have hmem : block ∈ outline.toList := heq ▸ Outline.mem_of_innermost? hcursor
  refine ⟨outline, houtline, ?_, hreported, hnested.forall_mem_iff hmem,
    fun other hpath => analyze_json_congr hpath⟩
  rw [hopens.analyze_eq_summary, summary_eq_print (summaryBody_of_block hlines hline hcursor), heq]

theorem analyze_narrows_onlyBlock :
    ∃ settings block,
      Opens (.project ["w"]) "test/a.js:1" ⟨"/w/test/a.js"⟩ settings ∧
      (Workspace.project ["w"]).read ⟨"/w/test/a.js"⟩ = .ok "it('a')\n" ∧
      "it('a')\n".utf8ByteSize < UInt64.size ∧
      (Target.ofArgument "test/a.js:1").line = some 0 ∧
      (Workspace.project ["w"]).blockAt? ⟨"/w/test/a.js"⟩ 0 = .ok (some block) ∧
      ∃ blocks, reportedBlocks? (analyze (.project ["w"]) "test/a.js:1" true) = some blocks ∧
        ∀ other, other ∈ blocks ↔ other = block := by
  obtain ⟨settings, hopens⟩ : ∃ settings,
      Opens (.project ["w"]) "test/a.js:1" ⟨"/w/test/a.js"⟩ settings :=
    ⟨_, by rfl, by rfl⟩
  have hread : (Workspace.project ["w"]).read ⟨"/w/test/a.js"⟩ = .ok "it('a')\n" := by rfl
  have hbytes : "it('a')\n".utf8ByteSize < UInt64.size := by decide
  have hline : (Target.ofArgument "test/a.js:1").line = some 0 := by decide
  obtain ⟨block, hblock⟩ : ∃ block,
      (Workspace.project ["w"]).blockAt? ⟨"/w/test/a.js"⟩ 0 = .ok (some block) :=
    ⟨_, by rfl⟩
  obtain ⟨outline, houtline, -, hblocks, hnarrows, -⟩ :=
    analyze_narrows_iff hopens hread hbytes hline hblock
  have hsize : (Workspace.project ["w"]).outline ⟨"/w/test/a.js"⟩ =
      .ok (.ofSource "it('a')\n") := by
    rfl
  rw [hsize, Except.ok.injEq] at houtline
  exact ⟨settings, block, hopens, hread, hbytes, hline, hblock, outline.toList, hblocks,
    hnarrows.2 (houtline ▸ by decide)⟩

def nestedFile : String :=
  "describe('a')\n  it('b')\n"

theorem exists_reportedBlocks_ne :
    ∃ workspace argument file settings line block blocks,
      Opens workspace argument file settings ∧
      (Target.ofArgument argument).line = some line ∧
      workspace.blockAt? file line = .ok (some block) ∧
      reportedBlocks? (analyze workspace argument true) = some blocks ∧
      ¬∀ other, other ∈ blocks ↔ other = block := by
  obtain ⟨settings, hopens⟩ : ∃ settings,
      Opens (.onlyFile "a.js" nestedFile) "a.js:2" ⟨"/a.js"⟩ settings :=
    ⟨_, by rfl, by rfl⟩
  have hread : (Workspace.onlyFile "a.js" nestedFile).read ⟨"/a.js"⟩ = .ok nestedFile := by rfl
  obtain ⟨block, hblock⟩ : ∃ block,
      (Workspace.onlyFile "a.js" nestedFile).blockAt? ⟨"/a.js"⟩ 1 = .ok (some block) :=
    ⟨_, by rfl⟩
  obtain ⟨outline, houtline, hnested, hreported⟩ :=
    reportedBlocks?_analyze hopens hread (by decide)
  have hfile : (Workspace.onlyFile "a.js" nestedFile).outline ⟨"/a.js"⟩ =
      .ok (.ofSource nestedFile) := by
    rfl
  rw [hfile, Except.ok.injEq] at houtline
  have hsize : outline.size = 2 := houtline ▸ by decide
  refine ⟨_, _, _, settings, 1, block, _, hopens, by decide, hblock, hreported, fun hall => ?_⟩
  have hone := (hnested.forall_mem_iff ((hall block).2 rfl)).1 hall
  omega

end CommandLine

end TestOutline
