import TestOutline.Proofs.Ancestors
import TestOutline.Proofs.Launching
import TestOutline.Proofs.Ways

/-! The file that a command launches. The project directory of a file is the nearest directory above
it with a settings file, or else its own directory. The invocation that is printed for a file runs
there, and names the file by the rest of its path, so that the two make up the path again. -/

namespace TestOutline

namespace Settings

/-- The directory holds a regular file under one of the names of settings files. -/
def HeldIn (workspace : Workspace) (directory : Path) : Prop :=
  ∃ name ∈ fileNames, workspace.isFile (directory.join ⟨name⟩) = true

/-- The settings file of a directory that holds one: the hidden one if it is there. -/
def heldFile (workspace : Workspace) (directory : Path) : Path :=
  if workspace.isFile (directory.join ⟨".mocha-lens.json"⟩) then
    directory.join ⟨".mocha-lens.json"⟩
  else directory.join ⟨"mocha-lens.json"⟩

/-- The project directory of a file: the nearest directory above it that holds settings, or the
directory of the file itself if there is none. -/
def IsProjectOf (workspace : Workspace) (file directory : Path) : Prop :=
  file.NearestAbove (HeldIn workspace) directory ∨
    (∀ other, ¬file.NearestAbove (HeldIn workspace) other) ∧ file.parent? = some directory

/-- The settings that count in a project directory: those of its settings file, which can be loaded,
or the defaults if it has none. -/
def ApplyIn (settings : Settings) (workspace : Workspace) (directory : Path) : Prop :=
  HeldIn workspace directory ∧ load workspace (heldFile workspace directory) = .ok settings ∨
    ¬HeldIn workspace directory ∧ settings = {}

section

variable {workspace : Workspace} {file directory : Path}

theorem fileIn?_of_heldIn (h : HeldIn workspace directory) :
    fileIn? workspace directory = some (heldFile workspace directory) := by
  by_cases hhidden : workspace.isFile (directory.join ⟨".mocha-lens.json"⟩) = true
  · simp [fileIn?, heldFile, fileNames, hhidden]
  · have hplain : workspace.isFile (directory.join ⟨"mocha-lens.json"⟩) = true := by
      simpa [HeldIn, fileNames, hhidden] using h
    simp [fileIn?, heldFile, fileNames, hhidden, hplain]

theorem fileIn?_of_not_heldIn (h : ¬HeldIn workspace directory) :
    fileIn? workspace directory = none := by
  rw [fileIn?, List.find?_eq_none]
  intro path hpath hfile
  obtain ⟨name, hname, rfl⟩ := List.mem_map.1 hpath
  exact h ⟨name, hname, hfile⟩

theorem findFile?_of_nearestAbove (hfile : workspace.isFile file = true)
    (h : file.NearestAbove (HeldIn workspace) directory) :
    findFile? workspace file = some (heldFile workspace directory) := by
  rw [findFile?, searchPath, if_pos hfile]
  exact Path.findSome?_ancestors (fun _ => fileIn?_of_not_heldIn) h (fileIn?_of_heldIn h.holds)

theorem findFile?_of_not_nearestAbove (hfile : workspace.isFile file = true)
    (h : ∀ other, ¬file.NearestAbove (HeldIn workspace) other) :
    findFile? workspace file = none := by
  rw [findFile?, searchPath, if_pos hfile, List.findSome?_eq_none_iff]
  intro up hup
  refine fileIn?_of_not_heldIn fun hheld => ?_
  obtain ⟨nearest, hnearest⟩ := Path.exists_nearestAbove hup hheld
  exact h nearest hnearest

theorem IsProjectOf.mem_ancestors (h : IsProjectOf workspace file directory) :
    directory ∈ file.ancestors := by
  rcases h with hnearest | ⟨-, hparent⟩
  · exact hnearest.mem_ancestors
  · rw [Path.ancestors_of_parent? hparent]
    exact List.mem_cons_self ..

theorem nearest_of_heldIn (hfile : workspace.isFile file = true)
    (h : IsProjectOf workspace file directory) (hheld : HeldIn workspace directory) :
    nearest workspace file = load workspace (heldFile workspace directory) := by
  rcases h with hnearest | ⟨hnone, hparent⟩
  · rw [nearest, findFile?_of_nearestAbove hfile hnearest]
  · exact absurd (.parent hparent hheld) (hnone directory)

theorem nearest_of_not_heldIn (hfile : workspace.isFile file = true)
    (h : IsProjectOf workspace file directory) (hheld : ¬HeldIn workspace directory) :
    nearest workspace file = .ok {} := by
  rcases h with hnearest | ⟨hnone, -⟩
  · exact absurd hnearest.holds hheld
  · rw [nearest, findFile?_of_not_nearestAbove hfile hnone]

theorem nearest_of_applyIn {settings : Settings} (hfile : workspace.isFile file = true)
    (h : IsProjectOf workspace file directory) (hsettings : settings.ApplyIn workspace directory) :
    nearest workspace file = .ok settings := by
  rcases hsettings with ⟨hheld, hload⟩ | ⟨hheld, rfl⟩
  · rw [nearest_of_heldIn hfile h hheld, hload]
  · exact nearest_of_not_heldIn hfile h hheld

theorem parent?_heldFile {path : Path} (habsolute : path.isAbsolute = true)
    (hmem : directory ∈ path.ancestors) :
    (heldFile workspace directory).parent? = some directory := by
  obtain ⟨-, ⟨segments, hsegments, htrimmed, rfl⟩, -⟩ :=
    Path.exists_of_mem_ancestors habsolute hmem
  rw [heldFile]
  split
  · exact Path.parent?_join_name hsegments htrimmed (by decide) (by decide)
  · exact Path.parent?_join_name hsegments htrimmed (by decide) (by decide)

theorem workingDirectory_of_applyIn {settings : Settings} (habsolute : file.isAbsolute = true)
    (h : IsProjectOf workspace file directory) (hsettings : settings.ApplyIn workspace directory) :
    settings.workingDirectory file = some directory := by
  obtain ⟨hdirectory, -⟩ := Path.exists_of_mem_ancestors habsolute h.mem_ancestors
  have htext : directory.text ≠ "" := by
    intro hempty
    simp [Path.isAbsolute_iff, hempty] at hdirectory
  have hbase : settings.root.or file.parent? = some directory := by
    rcases hsettings with ⟨hheld, hload⟩ | ⟨hheld, rfl⟩
    · rw [(of_load hload).2, parent?_heldFile habsolute h.mem_ancestors, Option.some_or]
    · rcases h with hnearest | ⟨-, hparent⟩
      · exact absurd hnearest.holds hheld
      · rw [Option.none_or, hparent]
  rw [workingDirectory, hbase, Option.filter_some, if_pos (by simpa using htext)]

theorem exists_parent?_of_isFile (habsolute : file.isAbsolute = true)
    (hfile : workspace.isFile file = true) : ∃ up, file.parent? = some up := by
  apply Path.exists_parent?_of_names
  intro hnames
  obtain ⟨place, text, hlocate, hplace⟩ := Workspace.exists_of_isFile hfile
  obtain ⟨-, hwalk⟩ := FileTree.locate_eq_ok_iff.1 hlocate
  obtain ⟨rfl, hsegments | hdirectory⟩ :=
    FileTree.walk_fillers (Path.namesOf_eq_nil_iff.1 hnames) hwalk
  · have hroot : file.anchor = .root := of_decide_eq_true habsolute
    exact absurd hsegments (Path.segments_ne_nil_of_root hroot)
  · simp [hdirectory] at hplace

theorem exists_isProjectOf (habsolute : file.isAbsolute = true)
    (hfile : workspace.isFile file = true) :
    ∃ directory, IsProjectOf workspace file directory := by
  by_cases hnearest : ∃ directory, file.NearestAbove (HeldIn workspace) directory
  · obtain ⟨directory, hdirectory⟩ := hnearest
    exact ⟨directory, .inl hdirectory⟩
  · obtain ⟨up, hup⟩ := exists_parent?_of_isFile habsolute hfile
    exact ⟨up, .inr ⟨fun other hother => hnearest ⟨other, hother⟩, hup⟩⟩

theorem runnerPath_of_applyIn {settings : Settings} (habsolute : file.isAbsolute = true)
    (h : IsProjectOf workspace file directory) (hsettings : settings.ApplyIn workspace directory)
    (hheld : HeldIn workspace directory)
    (hrelative : (Path.mk settings.mochaPath).isAbsolute = false)
    (hslash : '/' ∈ settings.mochaPath.toList) :
    settings.runnerPath = (directory.join ⟨settings.mochaPath⟩).text := by
  rcases hsettings with ⟨-, hload⟩ | ⟨hnot, -⟩
  · rw [runnerPath, (of_load hload).2, parent?_heldFile habsolute h.mem_ancestors]
    simp [hrelative, hslash]
  · exact absurd hheld hnot

/-- An invocation that starts the test runner in `directory` on what is left there of the path of
`file`. -/
structure LaunchesIn (settings : Settings) (workspace : Workspace) (mode : Mode)
    (directory file : Path) (invocation : Invocation) : Prop where
  workingDirectory : invocation.workingDirectory = some directory.text
  words : ∃ runner argument behind,
    invocation.program :: invocation.args =
      settings.wordsBefore mode runner ++ argument :: behind ∧
    argument ≠ "" ∧ (Path.mk argument).isAbsolute = false ∧
    (directory.join ⟨argument⟩).sameWay file = true ∧
    (HeldIn workspace directory → (Path.mk settings.mochaPath).isAbsolute = false →
      '/' ∈ settings.mochaPath.toList → runner = (directory.join ⟨settings.mochaPath⟩).text)

theorem launchesIn_of_applyIn {settings : Settings} {line : Option UInt32} {mode : Mode}
    {invocation : Invocation} (habsolute : file.isAbsolute = true)
    (h : IsProjectOf workspace file directory) (hsettings : settings.ApplyIn workspace directory)
    (hlaunch : settings.launch workspace file line mode = .ok invocation) :
    settings.LaunchesIn workspace mode directory file invocation := by
  have hdirectory := workingDirectory_of_applyIn habsolute h hsettings
  obtain ⟨rest, hrest, hne, hrelative, hsame⟩ :=
    Path.exists_relativeTo?_of_mem_ancestors habsolute h.mem_ancestors
  have hargument : settings.fileArgument file = rest := by
    rw [fileArgument, hdirectory, Option.bind_some, hrest, Option.getD_some]
  obtain ⟨behind, -, hwords⟩ := words_of_launch hlaunch
  constructor
  · rw [workingDirectory_of_launch hlaunch, hdirectory, Option.map_some]
  · refine ⟨settings.runnerPath, rest.text, behind, ?_, hne, hrelative, hsame, ?_⟩
    · rw [hwords, hargument]
    · exact runnerPath_of_applyIn habsolute h hsettings

end

end Settings

namespace CommandLine
open Settings

variable {workspace : Workspace} {argument : String} {file : Path}

/-- The command line launches the file that it is given, from the project directory of the file and
by what is left of its path there. Settings that cannot be loaded make it fail; otherwise it only
fails if a line was given and the file is not a text. -/
theorem command_launches_file
    (hpath : workspace.absolute ⟨(Target.ofArgument argument).path⟩ = file)
    (hfile : workspace.isFile file = true) (debug json : Bool) :
    (∃ directory, IsProjectOf workspace file directory) ∧
    ∀ directory, IsProjectOf workspace file directory →
      (HeldIn workspace directory →
        (∀ settings, load workspace (heldFile workspace directory) ≠ .ok settings) →
        (run workspace (.command argument debug json)).1.exitCode = 1 ∧
        (run workspace (.command argument debug json)).1.output = "") ∧
      ∀ settings : Settings, settings.ApplyIn workspace directory →
        ((Target.ofArgument argument).line = none ∨ (∃ text, workspace.read file = .ok text) →
          (run workspace (.command argument debug json)).1.exitCode = 0) ∧
        ((run workspace (.command argument debug json)).1.exitCode = 0 →
          ∃ invocation : Invocation,
            settings.launch workspace file (Target.ofArgument argument).line (modeOf debug) =
              .ok invocation ∧
            (run workspace (.command argument debug json)).1 =
              .print (if json then [invocation.toJson.pretty]
                else [invocation.shellLine, "Working directory: " ++ directory.text]) ∧
            settings.LaunchesIn workspace (modeOf debug) directory file invocation) := by
  have habsolute : file.isAbsolute = true := by
    rw [← hpath]
    exact Path.isAbsolute_join (by simp [Path.isAbsolute_iff, Location.path, Path.ofSegments]) _
  have hresolve : resolve workspace (Target.ofArgument argument).path = .ok file :=
    resolve_eq_ok_iff.2 ⟨hpath, Workspace.contains_of_isFile hfile⟩
  rw [run_command]
  refine ⟨exists_isProjectOf habsolute hfile, fun directory hproject => ⟨?_, ?_⟩⟩
  · intro hheld hload
    have hnearest := nearest_of_heldIn hfile hproject hheld
    cases hfault : load workspace (heldFile workspace directory) with
    | ok settings => exact absurd hfault (hload settings)
    | error fault => exact command_of_fault hresolve (hnearest.trans hfault)
  · intro settings hsettings
    have hnearest := nearest_of_applyIn hfile hproject hsettings
    constructor
    · intro hline
      obtain ⟨invocation, hlaunch⟩ := exists_launch hline
      rw [command_eq_print hresolve hnearest hlaunch]
      rfl
    · intro hexit
      obtain ⟨found, others, invocation, hfound, hothers, hlaunch⟩ :=
        exists_of_exitCode_command hexit
      obtain rfl := Except.ok.inj (hresolve.symm.trans hfound)
      obtain rfl := Except.ok.inj (hnearest.symm.trans hothers)
      have hlaunches := launchesIn_of_applyIn habsolute hproject hsettings hlaunch
      refine ⟨invocation, hlaunch, ?_, hlaunches⟩
      rw [command_eq_print hresolve hnearest hlaunch, invocationLines,
        hlaunches.workingDirectory]
      rfl

theorem command_launches_projectFile :
    (Workspace.project ["w"]).absolute ⟨(Target.ofArgument "test/a.js:1").path⟩ =
        ⟨"/w/test/a.js"⟩ ∧
      (Workspace.project ["w"]).isFile ⟨"/w/test/a.js"⟩ = true ∧
      IsProjectOf (.project ["w"]) ⟨"/w/test/a.js"⟩ ⟨"/w"⟩ ∧
      ∃ invocation : Invocation,
        Settings.launch { root := some ⟨"/w"⟩ } (.project ["w"]) ⟨"/w/test/a.js"⟩
          (Target.ofArgument "test/a.js:1").line .debug = .ok invocation ∧
        (run (.project ["w"]) (.command "test/a.js:1" true false)).1 =
          .print [invocation.shellLine, "Working directory: /w"] ∧
        LaunchesIn { root := some ⟨"/w"⟩ } (.project ["w"]) .debug ⟨"/w"⟩
          ⟨"/w/test/a.js"⟩ invocation := by
  have hpath : (Workspace.project ["w"]).absolute
      ⟨(Target.ofArgument "test/a.js:1").path⟩ = ⟨"/w/test/a.js"⟩ := by
    rfl
  have hfile : (Workspace.project ["w"]).isFile ⟨"/w/test/a.js"⟩ = true := by rfl
  have hheld : HeldIn (.project ["w"]) ⟨"/w"⟩ :=
    ⟨".mocha-lens.json", by simp [fileNames], by rfl⟩
  have hbelow : ¬HeldIn (.project ["w"]) ⟨"/w/test"⟩ := by
    simp only [HeldIn, fileNames, List.exists_mem_cons_iff, List.not_mem_nil, false_and,
      exists_false, or_false, not_or]
    exact ⟨by decide, by decide⟩
  have hproject : IsProjectOf (.project ["w"]) ⟨"/w/test/a.js"⟩ ⟨"/w"⟩ :=
    .inl (.beyond (by rfl) hbelow (.parent (by rfl) hheld))
  obtain ⟨hbuilt, hlaunches⟩ := ((command_launches_file hpath hfile true false).2 _ hproject).2
    { root := some ⟨"/w"⟩ } (.inl ⟨hheld, by rfl⟩)
  obtain ⟨invocation, hlaunch, hprinted, hinvocation⟩ :=
    hlaunches (hbuilt (.inr ⟨"it('a')\n", by rfl⟩))
  exact ⟨hpath, hfile, hproject, invocation, hlaunch, hprinted, hinvocation⟩

end CommandLine

end TestOutline
