import TestOutline.Proofs.Following
import TestOutline.Proofs.RequestedFile

/-! The test runner that an invocation starts. A relative program with a slash is written behind the
root of the settings, and the invocation also runs in the root. So the root is gone through twice,
and the word leads to the program only if the root leads from the process to the process itself. -/

namespace TestOutline

/-- What stands somewhere below the root stands in a directory. -/
def FileTree.IsRooted (tree : FileTree) : Prop :=
  ∀ name directory, (tree.lookup (name :: directory)).isSome = true →
    tree.lookup directory = some .directory

theorem FileTree.IsRooted.exists_name {tree : FileTree} (h : tree.IsRooted)
    {directory place : Location} {segment : List Char}
    (hstep : tree.step directory segment = .ok place)
    (hplace : tree.lookup place ≠ some .directory) : ∃ name, place = name :: directory := by
  obtain ⟨hdirectory, ⟨-, rfl⟩ | ⟨-, -, rfl⟩ | ⟨-, -, -, -, rfl⟩⟩ := step_eq_ok_iff.1 hstep
  · exact absurd hdirectory hplace
  · -- Above a directory there is none but directories.
    cases directory with
    | nil => exact absurd hdirectory hplace
    | cons name outer => exact absurd (h name outer (by simp [hdirectory])) hplace
  · exact ⟨_, rfl⟩

namespace Workspace
open FileTree

variable {workspace : Workspace} {path root : Path} {directory place : Location}

/-- The path leads back to where it is followed from. -/
def LeadsBack (workspace : Workspace) (path : Path) : Prop :=
  workspace.follow path = .ok workspace.here

theorem exists_parent?_of_file (hrooted : workspace.tree.IsRooted)
    (hhere : workspace.tree.lookup workspace.here = some .directory)
    (hlocate : workspace.locate path = .ok place)
    (hplace : workspace.tree.lookup place ≠ some .directory) :
    ∃ root last name directory, path.parent? = some root ∧ path.names = root.names ++ [last] ∧
      root.isAbsolute = path.isAbsolute ∧ place = name :: directory ∧
      workspace.tree.lookup directory = some .directory ∧ workspace.follow root = .ok directory ∧
      (root.text ≠ "" → workspace.locate root = .ok directory) := by
  obtain ⟨hcheck, hfollow⟩ := Workspace.locate_eq_ok_iff.1 hlocate
  have hnames : path.names ≠ [] := fun hnames =>
    hplace (isDirectory_of_names_eq_nil hhere hfollow hnames)
  obtain ⟨root, hroot⟩ := Path.exists_parent?_of_names hnames
  obtain ⟨directory, last, hlast, -, htext, hwalk, hstep⟩ :=
    exists_walk_parent? hfollow hroot hnames
  obtain ⟨name, hname⟩ := hrooted.exists_name hstep hplace
  obtain ⟨hanchor, -⟩ := Path.names_parent? hroot hnames
  refine ⟨root, last, name, directory, hroot, hlast, ?_, hname, (step_eq_ok_iff.1 hstep).1, hwalk,
    fun hne => Workspace.locate_eq_ok_iff.2 ⟨checkPath_of_isInfix hcheck hne htext.isInfix, hwalk⟩⟩
  rw [Path.isAbsolute, Path.isAbsolute, hanchor]

theorem leadsBack_of_follow (hfollow : workspace.follow root = .ok directory)
    (hdirectory : workspace.tree.lookup directory = some .directory) :
    (root.isAbsolute = true ∨ root.names = [] → (workspace.movedTo directory).LeadsBack root) ∧
    (".." ∉ root.names → (workspace.movedTo directory).LeadsBack root →
      root.isAbsolute = true ∨ root.names = []) := by
  cases habsolute : root.isAbsolute with
  | true =>
    have hback := (follow_of_isAbsolute habsolute directory).trans hfollow
    exact ⟨fun _ => hback, fun _ _ => .inl rfl⟩
  | false =>
    rw [LeadsBack, follow, start, if_neg (by simp [habsolute])]
    constructor
    · intro hnames
      have hfillers := Path.namesOf_eq_nil_iff.1 (hnames.resolve_left (by simp))
      have hwalk := walk_fillers_append hfillers hdirectory []
      rwa [List.append_nil] at hwalk
    · intro hup hback
      have heq := eq_of_walk_of_not_isUp (Path.isUp_eq_false_of_mem_segments hup) hback
      exact .inr (List.reverse_eq_nil_iff.1 (List.self_eq_append_left.1 heq))

theorem leadsBack_of_follow_join {program : Path} (hfollow : workspace.follow root = .ok directory)
    (hdirectory : workspace.tree.lookup directory = some .directory)
    (hrelative : program.isAbsolute = false) (hup : ".." ∉ program.names)
    (hprogram : (workspace.movedTo directory).follow program = .ok place)
    (hjoin : (workspace.movedTo directory).follow (root.join program) = .ok place) :
    (workspace.movedTo directory).LeadsBack root := by
  by_cases habsolute : root.isAbsolute = true
  · exact (leadsBack_of_follow hfollow hdirectory).1 (.inl habsolute)
  · have hstart : workspace.tree.lookup (start directory root) = some .directory := by
      rw [start, if_neg habsolute, hdirectory]
    obtain ⟨between, hbetween, -, hbehind⟩ := exists_of_follow_join hstart hrelative hjoin
    have hsegments := Path.isUp_eq_false_of_mem_segments hup
    rw [follow, start, if_neg (by simp [hrelative])] at hprogram hbehind
    have heq := eq_of_walk_of_not_isUp hsegments hprogram
    rw [eq_of_walk_of_not_isUp hsegments hbehind] at heq
    have hsame : between = directory := List.append_cancel_left heq
    rw [LeadsBack, hbetween, hsame]
    rfl

end Workspace

namespace Settings
open FileTree

variable {workspace : Workspace} {settings : Settings} {path root file : Path}
  {directory place : Location} {mode : Mode} {invocation : Invocation}

theorem startedIn_root (hroot : settings.root = some root)
    (hworking : invocation.workingDirectory = (settings.workingDirectory file).map (·.text))
    (hdirectory : workspace.tree.lookup directory = some .directory)
    (hfollow : workspace.follow root = .ok directory)
    (hlocate : root.text ≠ "" → workspace.locate root = .ok directory) :
    invocation.startedIn workspace = .ok (workspace.movedTo directory) := by
  rw [Invocation.startedIn, hworking, Settings.workingDirectory, hroot, Option.some_or]
  by_cases htext : root.text = ""
  · obtain rfl : root = ⟨""⟩ := by rw [← htext]
    obtain rfl : directory = workspace.here := Workspace.eq_start_of_names_eq_nil hfollow rfl
    rfl
  · rw [Option.filter_some, if_pos (by simpa using htext)]
    exact Workspace.enter_of_locate (hlocate htext) hdirectory

/-- The program that starts the test runner is the one that the settings name, relative to their
directory, if the root of the settings leads back. It does so for the absolute path of a settings
file and for one in the current directory, and without `..` in the path for no other. -/
theorem runner_of_load (hrooted : workspace.tree.IsRooted)
    (hhere : workspace.tree.lookup workspace.here = some .directory)
    (hload : load workspace path = .ok settings)
    (hrelative : Path.isAbsolute ⟨settings.mochaPath⟩ = false)
    (hslash : '/' ∈ settings.mochaPath.toList)
    (hbuilt : invocation = settings.launchFile file mode ∨
      ∃ outline id, settings.launchBlock file outline id mode = .ok invocation) :
    ∃ process root runner behind, invocation.startedIn workspace = .ok process ∧
      process.tree = workspace.tree ∧
      (∃ name, workspace.locate path = .ok (name :: process.here)) ∧
      settings.root = some root ∧
      invocation.program :: invocation.args = settings.wordsBefore mode runner ++ behind ∧
      (process.LeadsBack root → process.follow ⟨runner⟩ = process.follow ⟨settings.mochaPath⟩) ∧
      (".." ∉ Path.names ⟨settings.mochaPath⟩ →
        ∀ place, process.follow ⟨settings.mochaPath⟩ = .ok place →
          process.follow ⟨runner⟩ = .ok place → process.LeadsBack root) ∧
      (path.isAbsolute = true ∨ path.names.length = 1 → process.LeadsBack root) ∧
      (".." ∉ path.names → process.LeadsBack root →
        path.isAbsolute = true ∨ path.names.length = 1) := by
  obtain ⟨⟨text, htext⟩, hparent⟩ := of_load hload
  obtain ⟨place, hplace, hfile⟩ := Workspace.exists_locate_of_read htext
  obtain ⟨root, last, name, directory, hroot, hnames, habsolute, rfl, hdirectory, hfollow,
    hlocate⟩ := Workspace.exists_parent?_of_file hrooted hhere hplace (by simp [hfile])
  have hnarrow : invocation = settings.launchFile file mode ∨
      ∃ pattern, invocation = (settings.launchFile file mode).narrow pattern :=
    hbuilt.imp id fun ⟨_, _, hblock⟩ => ⟨_, narrow_of_launchBlock hblock⟩
  obtain ⟨behind, -, hwords⟩ := words_of_launchFile_or_narrow hnarrow
  have hworking := workingDirectory_of_launchFile_or_narrow hnarrow
  rw [hroot] at hparent
  have hrunner : settings.runnerPath = (root.join ⟨settings.mochaPath⟩).text := by
    rw [runnerPath, hparent]
    simp [hrelative, hslash]
  have hlength : path.names.length = 1 ↔ root.names = [] := by
    rw [hnames, List.length_append, List.length_singleton, Nat.add_eq_right,
      List.length_eq_zero_iff]
  have hup (h : ".." ∉ path.names) : ".." ∉ root.names := fun hmem =>
    h (hnames ▸ List.mem_append_left [last] hmem)
  obtain ⟨hback, hnot⟩ := Workspace.leadsBack_of_follow hfollow hdirectory
  refine ⟨workspace.movedTo directory, root, settings.runnerPath, _,
    startedIn_root hparent hworking hdirectory hfollow hlocate, rfl, ⟨name, hplace⟩, hparent,
    hwords, ?_⟩
  rw [hrunner, ← habsolute, hlength]
  exact ⟨fun hback => Workspace.follow_join_of_ok hback hdirectory hrelative,
    fun hup place => Workspace.leadsBack_of_follow_join hfollow hdirectory hrelative hup, hback,
    fun hpath => hnot (hup hpath)⟩

def ownRunner : Settings where
  mochaPath := "test/a.js"

theorem isRooted_project (here : Location) (text : String) :
    (Workspace.project here text).tree.IsRooted := by
  intro name directory h
  obtain ⟨entry, hmem, hplace⟩ := List.lookup_isSome_iff.1 h
  have hkey : name :: directory = entry.1 := eq_of_beq hplace
  simp only [List.mem_cons, List.not_mem_nil, or_false] at hmem
  rcases hmem with rfl | rfl | rfl | rfl | rfl
  · simp at hkey
  · obtain ⟨-, rfl⟩ := List.cons.inj hkey
    rfl
  · obtain ⟨-, rfl⟩ := List.cons.inj hkey
    rfl
  · obtain ⟨-, rfl⟩ := List.cons.inj hkey
    rfl
  · obtain ⟨-, rfl⟩ := List.cons.inj hkey
    rfl

theorem runner_of_load_here :
    load (.project ["w"] "\x7b\"mocha_path\": \"test/a.js\"\x7d") ⟨"./.mocha-lens.json"⟩ =
        .ok { ownRunner with root := some ⟨"."⟩ } ∧
      ∃ process runner behind,
        (launchFile { ownRunner with root := some ⟨"."⟩ } ⟨"test/a.js"⟩ .debug).args =
          ["--inspect-brk=9229", runner, "--no-timeouts"] ++ behind ∧
        (launchFile { ownRunner with root := some ⟨"."⟩ } ⟨"test/a.js"⟩ .debug).startedIn
          (.project ["w"] "\x7b\"mocha_path\": \"test/a.js\"\x7d") = .ok process ∧
        process.follow ⟨runner⟩ = process.follow ⟨"test/a.js"⟩ := by
  have hload : load (.project ["w"] "\x7b\"mocha_path\": \"test/a.js\"\x7d")
      ⟨"./.mocha-lens.json"⟩ = .ok { ownRunner with root := some ⟨"."⟩ } := by rfl
  obtain ⟨process, root, runner, behind, hprocess, -, -, -, hwords, hsame, -, hback, -⟩ :=
    runner_of_load (isRooted_project _ _) (by rfl) hload (by decide) (by decide)
      (.inl (Eq.refl (launchFile _ ⟨"test/a.js"⟩ .debug)))
  exact ⟨hload, process, runner, behind, (List.cons.inj hwords).2, hprocess,
    hsame (hback (.inr (by decide)))⟩

theorem exists_runner_not_found :
    ∃ settings process,
      load (.project [] "\x7b\"mocha_path\": \"test/a.js\"\x7d") ⟨"w/.mocha-lens.json"⟩ =
        .ok settings ∧
      (settings.launchFile ⟨"w/test/a.js"⟩ .run).startedIn
        (.project [] "\x7b\"mocha_path\": \"test/a.js\"\x7d") = .ok process ∧
      process.follow ⟨settings.mochaPath⟩ = .ok ["a.js", "test", "w"] ∧
      process.follow ⟨(settings.launchFile ⟨"w/test/a.js"⟩ .run).program⟩ = .error .notFound :=
  ⟨{ ownRunner with root := some ⟨"w"⟩ },
    .project ["w"] "\x7b\"mocha_path\": \"test/a.js\"\x7d", by rfl, by rfl, by rfl, by rfl⟩

end Settings

end TestOutline
