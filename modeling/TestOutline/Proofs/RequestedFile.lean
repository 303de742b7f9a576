import TestOutline.Proofs.Launching
import TestOutline.Proofs.Ways

/-! The file that an invocation opens. The file is named by what is left of its path below the
working directory, or else by its path as it was given. In the first case the process finds the file
from its working directory; in the second only if the path is absolute or the process is where the
path was given. -/

namespace TestOutline

theorem FileTree.eq_of_walk_of_not_isUp {tree : FileTree} {here place : Location}
    {segments : List (List Char)} (hup : ∀ segment ∈ segments, Path.isUp segment = false)
    (h : tree.walk here segments = .ok place) :
    place = (Path.namesOf segments).reverse ++ here := by
  induction segments generalizing here with
  | nil => exact (Except.ok.inj h).symm
  | cons segment segments ih =>
    obtain ⟨between, hstep, hwalk⟩ := walk_cons_eq_ok_iff.1 h
    have hrest := ih (fun other hmem => hup other (List.mem_cons_of_mem _ hmem)) hwalk
    obtain ⟨-, ⟨hfiller, rfl⟩ | ⟨-, hsegment, -⟩ | ⟨hname, -, -, -, rfl⟩⟩ := step_eq_ok_iff.1 hstep
    · rw [hrest, Path.namesOf, Path.namesOf, List.filter_cons_of_neg (by simp [hfiller])]
    · simp [hup segment (List.mem_cons_self ..)] at hsegment
    · rw [hrest, Path.namesOf, Path.namesOf, List.filter_cons_of_pos (by simp [hname]),
        List.map_cons, List.reverse_cons, List.append_assoc, List.singleton_append]

theorem Path.isUp_eq_false_of_mem_segments {path : Path} (h : ".." ∉ path.names) :
    ∀ segment ∈ path.segments, isUp segment = false := by
  intro segment hsegment
  by_contra hup
  have heq : segment = ['.', '.'] := by simpa [isUp] using hup
  refine h (List.mem_map.2 ⟨segment, List.mem_filter.2 ⟨hsegment, ?_⟩, ?_⟩)
  · simp [heq, isFiller]
  · rw [heq]

namespace Workspace

variable {workspace : Workspace} {path : Path} {place : Location}

theorem enter_of_locate (h : workspace.locate path = .ok place)
    (hplace : workspace.tree.lookup place = some .directory) :
    workspace.enter path = .ok { workspace with here := place } := by
  simp [enter, h, hplace, bind, Except.bind]

theorem exists_locate_of_read {text : String} (h : workspace.read path = .ok text) :
    ∃ place, workspace.locate path = .ok place ∧
      workspace.tree.lookup place = some (.file (some text)) := by
  rw [read, bind_eq_ok_iff] at h
  obtain ⟨place, hplace, h⟩ := h
  refine ⟨place, hplace, ?_⟩
  split at h
  · next found hfound => rw [hfound, Except.ok.inj h]
  · simp at h
  · simp at h
  · simp at h

end Workspace

/-- The workspace that the process of an invocation starts in. -/
def Invocation.startedIn (invocation : Invocation) (workspace : Workspace) :
    Except FileError Workspace :=
  match invocation.workingDirectory with
  | some directory => workspace.enter ⟨directory⟩
  | none => .ok workspace

/-- The process still finds `file`: its path is absolute, or it starts where the process does, or it
goes on from the working directory. -/
def Invocation.KeepsFile (invocation : Invocation) (workspace process : Workspace) (file : Path) :
    Prop :=
  file.isAbsolute = true ∨ process.here = workspace.here ∨
    ∃ directory rest, invocation.workingDirectory = some directory ∧
      file.relativeTo? ⟨directory⟩ = some rest

namespace Settings

variable {workspace process : Workspace} {start file directory : Path} {settings : Settings}
  {line : Option UInt32} {mode : Mode} {invocation : Invocation} {place : Location}

theorem exists_locate_of_nearest (h : nearest workspace start = .ok settings) :
    settings.root = none ∨
      ∃ path place, workspace.locate path = .ok place ∧ settings.root = path.parent? := by
  rw [nearest] at h
  split at h
  · next path hpath =>
    obtain ⟨⟨text, htext⟩, hroot⟩ := of_load h
    obtain ⟨place, hplace, -⟩ := Workspace.exists_locate_of_read htext
    exact .inr ⟨path, place, hplace, hroot⟩
  · rw [← Except.ok.inj h]
    exact .inl rfl

theorem exists_of_workingDirectory (hsettings : nearest workspace start = .ok settings)
    (hfile : workspace.locate file = .ok place)
    (h : settings.workingDirectory file = some directory) :
    ∃ below, workspace.tree.locate workspace.here directory = .ok below ∧
      workspace.tree.lookup below = some .directory := by
  obtain ⟨hbase, hne⟩ := Option.filter_eq_some_iff.1 h
  have htext : directory.text ≠ "" := by simpa using hne
  rcases exists_locate_of_nearest hsettings with hroot | ⟨path, found, hfound, hroot⟩
  · rw [hroot, Option.none_or] at hbase
    exact FileTree.exists_locate_parent? hfile hbase htext
  · rw [hroot] at hbase
    rcases Option.or_eq_some_iff.1 hbase with hparent | ⟨-, hparent⟩
    · exact FileTree.exists_locate_parent? hfound hparent htext
    · exact FileTree.exists_locate_parent? hfile hparent htext

theorem exists_startedIn (hsettings : nearest workspace start = .ok settings)
    (hfile : workspace.locate file = .ok place)
    (hlaunch : settings.launch workspace file line mode = .ok invocation) :
    ∃ process, invocation.startedIn workspace = .ok process ∧
      process.tree = workspace.tree ∧
      (settings.workingDirectory file = none → process.here = workspace.here) ∧
      ∀ directory, settings.workingDirectory file = some directory →
        workspace.tree.locate workspace.here directory = .ok process.here ∧
          workspace.tree.lookup process.here = some .directory := by
  have hdirectory := workingDirectory_of_launch hlaunch
  cases hbase : settings.workingDirectory file with
  | none =>
    rw [hbase, Option.map_none] at hdirectory
    refine ⟨workspace, ?_, rfl, fun _ => rfl, by simp⟩
    rw [Invocation.startedIn, hdirectory]
  | some base =>
    rw [hbase, Option.map_some] at hdirectory
    obtain ⟨below, hbelow, hentry⟩ := exists_of_workingDirectory hsettings hfile hbase
    refine ⟨{ workspace with here := below }, ?_, rfl, by simp, ?_⟩
    · rw [Invocation.startedIn, hdirectory]
      exact Workspace.enter_of_locate hbelow hentry
    · intro directory h
      rw [Option.some.injEq] at h
      exact h ▸ ⟨hbelow, hentry⟩

theorem locate_of_relativeTo? {rest : Path} (htree : process.tree = workspace.tree)
    (hfile : workspace.locate file = .ok place)
    (hplace : workspace.tree.lookup place ≠ some .directory)
    (hdirectory : workspace.tree.locate workspace.here directory = .ok process.here)
    (hentry : workspace.tree.lookup process.here = some .directory)
    (hrest : file.relativeTo? directory = some rest) :
    process.locate rest = workspace.locate file := by
  rw [hfile, Workspace.locate, htree]
  exact FileTree.locate_relativeTo? hfile hplace hdirectory hentry hrest

theorem locate_eq_iff (htree : process.tree = workspace.tree)
    (hfile : workspace.locate file = .ok place) :
    (file.isAbsolute = true ∨ process.here = workspace.here →
      process.locate file = workspace.locate file) ∧
    (".." ∉ file.names → process.locate file = workspace.locate file →
      file.isAbsolute = true ∨ process.here = workspace.here) := by
  constructor
  · rintro (habsolute | hhere)
    · rw [Workspace.locate, Workspace.locate, htree, FileTree.locate, FileTree.locate,
        FileTree.start, FileTree.start, if_pos habsolute, if_pos habsolute]
    · rw [Workspace.locate, Workspace.locate, htree, hhere]
  · intro hup hsame
    by_cases habsolute : file.isAbsolute = true
    · exact .inl habsolute
    · have hprocess := hsame.trans hfile
      rw [Workspace.locate, FileTree.locate_eq_ok_iff, FileTree.start, if_neg habsolute]
        at hprocess hfile
      have hsegments := Path.isUp_eq_false_of_mem_segments hup
      have heq := FileTree.eq_of_walk_of_not_isUp hsegments hfile.2
      rw [FileTree.eq_of_walk_of_not_isUp hsegments hprocess.2] at heq
      exact .inr (List.append_cancel_left heq)

theorem keepsFile_of_root_eq_none (hroot : settings.root = none)
    (hhere : settings.workingDirectory file = none → process.here = workspace.here)
    (hlaunch : settings.launch workspace file line mode = .ok invocation) :
    invocation.KeepsFile workspace process file := by
  cases hdirectory : settings.workingDirectory file with
  | none => exact .inr (.inl (hhere hdirectory))
  | some directory =>
    have hworking := workingDirectory_of_launch hlaunch
    rw [hdirectory, Option.map_some] at hworking
    obtain ⟨hparent, hne⟩ := Option.filter_eq_some_iff.1 hdirectory
    rw [hroot, Option.none_or] at hparent
    obtain ⟨rest, hrest⟩ := Path.exists_relativeTo?_parent? hparent (by simpa using hne)
    exact .inr (.inr ⟨_, rest, hworking, hrest⟩)

/-- What an invocation opens: the file that was asked for if the process still finds it, which it
always does without settings; and another file, or none, if the process does not find it and the
path of the file does not go up. -/
theorem launch_opens_file (hsettings : nearest workspace start = .ok settings)
    (hfile : workspace.isFile file = true)
    (hlaunch : settings.launch workspace file line mode = .ok invocation) :
    ∃ process argument behind, invocation.startedIn workspace = .ok process ∧
      process.tree = workspace.tree ∧
      invocation.program :: invocation.args =
        settings.wordsBefore mode settings.runnerPath ++ argument :: behind ∧
      (settings.root = none → invocation.KeepsFile workspace process file) ∧
      (invocation.KeepsFile workspace process file →
        process.locate ⟨argument⟩ = workspace.locate file) ∧
      (".." ∉ file.names → process.locate ⟨argument⟩ = workspace.locate file →
        invocation.KeepsFile workspace process file) := by
  obtain ⟨place, text, hlocate, hplace⟩ := Workspace.exists_of_isFile hfile
  obtain ⟨process, hprocess, htree, hnone, hsome⟩ := exists_startedIn hsettings hlocate hlaunch
  obtain ⟨behind, -, hwords⟩ := words_of_launch hlaunch
  refine ⟨process, (settings.fileArgument file).text, behind, hprocess, htree, hwords,
    fun hroot => keepsFile_of_root_eq_none hroot hnone hlaunch, ?_⟩
  have hworking := workingDirectory_of_launch hlaunch
  cases hrest : (settings.workingDirectory file).bind file.relativeTo? with
  | some rest =>
    obtain ⟨directory, hdirectory, hbelow⟩ := Option.bind_eq_some_iff.1 hrest
    obtain ⟨hstart, hentry⟩ := hsome directory hdirectory
    rw [hdirectory, Option.map_some] at hworking
    rw [fileArgument, hrest, Option.getD_some]
    exact ⟨fun _ => locate_of_relativeTo? htree hlocate (by simp [hplace]) hstart hentry hbelow,
      fun _ _ => .inr (.inr ⟨_, rest, hworking, hbelow⟩)⟩
  | none =>
    have hkeeps : invocation.KeepsFile workspace process file ↔
        file.isAbsolute = true ∨ process.here = workspace.here := by
      refine or_congr_right (or_iff_left ?_)
      rintro ⟨directory, rest, hdirectory, hbelow⟩
      rw [hworking] at hdirectory
      obtain ⟨base, hbase, rfl⟩ := Option.map_eq_some_iff.1 hdirectory
      rw [hbase, Option.bind_some] at hrest
      simp [hrest] at hbelow
    rw [fileArgument, hrest, Option.getD_none, hkeeps]
    exact locate_eq_iff htree hlocate

theorem launch_opens_projectFile :
    nearest (.project ["test", "w"]) ⟨"/w/test"⟩ = .ok { root := some ⟨"/w"⟩ } ∧
      (Workspace.project ["test", "w"]).isFile ⟨"/w/test/a.js"⟩ = true ∧
      ∃ invocation process argument behind,
        launch { root := some ⟨"/w"⟩ } (.project ["test", "w"]) ⟨"/w/test/a.js"⟩ none .run =
          .ok invocation ∧
        invocation.startedIn (.project ["test", "w"]) = .ok process ∧
        invocation.args = argument :: behind ∧
        process.locate ⟨argument⟩ = (Workspace.project ["test", "w"]).locate ⟨"/w/test/a.js"⟩ := by
  have hsettings : nearest (.project ["test", "w"]) ⟨"/w/test"⟩ = .ok { root := some ⟨"/w"⟩ } := by
    rfl
  have hfile : (Workspace.project ["test", "w"]).isFile ⟨"/w/test/a.js"⟩ = true := by rfl
  obtain ⟨invocation, hlaunch⟩ := @exists_launch { root := some ⟨"/w"⟩ } (.project ["test", "w"])
    ⟨"/w/test/a.js"⟩ none .run (.inl rfl)
  obtain ⟨process, argument, behind, hprocess, -, hwords, -, hopens, -⟩ :=
    launch_opens_file hsettings hfile hlaunch
  exact ⟨hsettings, hfile, invocation, process, argument, behind, hlaunch, hprocess,
    (List.cons.inj hwords).2, hopens (.inl (by rfl))⟩

theorem exists_launch_of_lost_file :
    ∃ settings invocation process argument,
      nearest (.project ["test", "w"]) (Location.path ["test", "w"]) = .ok settings ∧
      (Workspace.project ["test", "w"]).isFile ⟨"a.js"⟩ = true ∧
      settings.launch (.project ["test", "w"]) ⟨"a.js"⟩ none .run = .ok invocation ∧
      invocation.startedIn (.project ["test", "w"]) = .ok process ∧
      invocation.program :: invocation.args =
        settings.wordsBefore .run settings.runnerPath ++ [argument] ∧
      process.locate ⟨argument⟩ ≠ (Workspace.project ["test", "w"]).locate ⟨"a.js"⟩ := by
  refine ⟨{ root := some ⟨"/w"⟩ }, _, .project ["w"], "a.js", by rfl, by rfl, rfl, by rfl, by rfl,
    ?_⟩
  have hlost : (Workspace.project ["w"]).locate ⟨"a.js"⟩ = .error .notFound := by rfl
  have hfound : (Workspace.project ["test", "w"]).locate ⟨"a.js"⟩ = .ok ["a.js", "test", "w"] := by
    rfl
  rw [hlost, hfound]
  exact nofun

end Settings

end TestOutline
