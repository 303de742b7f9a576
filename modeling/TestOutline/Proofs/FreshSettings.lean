import TestOutline.Proofs.CanonicalPath
import TestOutline.Proofs.Launching
import TestOutline.Proofs.SavedSettings

/-! Settings made by the command line. They are written to one file of one directory, so a run that
does not write leaves the files as they are, and one that does is read back: the new file holds the
defaults and is the one that a search from its directory finds, and the next run keeps it. -/

namespace TestOutline

namespace Settings

def newFile (directory : Path) : Path :=
  directory.join ⟨newFileName⟩

theorem isName_newFileName : Path.IsName newFileName := by decide

theorem newFile_path {root : Location} (h : root.IsProper) :
    newFile root.path = Location.path (newFileName :: root) :=
  h.join_name isName_newFileName

theorem parent?_newFile {root : Location} (h : root.IsProper) :
    (newFile root.path).parent? = some root.path :=
  h.parent?_join_name isName_newFileName

theorem findFile?_newFile {workspace : Workspace} {directory : Path}
    (hdirectory : workspace.isFile directory = false)
    (hfile : workspace.isFile (newFile directory) = true) :
    findFile? workspace directory = some (newFile directory) := by
  have hhere : fileIn? workspace directory = some (newFile directory) := by
    rw [fileIn?, fileNames, List.map_cons]
    exact List.find?_cons_of_pos hfile
  rw [findFile?, searchPath, hdirectory, if_neg Bool.false_ne_true, List.findSome?_cons, hhere]

end Settings

namespace CommandLine
open Settings

variable {workspace after : Workspace} {directory : Option String} {force : Bool}
  {outcome : Outcome} {root : Location} {code : Nat}

def chosenDirectory (workspace : Workspace) (directory : Option String) : Path :=
  (directory.map Path.mk).getD workspace.here.path

/-- The exit code of `init` and the files after it: there is no such directory, a file is kept,
nothing can be written, or the new file is written. A file that is there already is only written
anew by force. -/
inductive Initialization (workspace : Workspace) (directory : Option String) (force : Bool) :
    (code : Nat) → (after : Workspace) → Prop where
  | lost {error : FileError}
      (hroot : workspace.canonical (chosenDirectory workspace directory) = .error error) :
      Initialization workspace directory force 1 workspace
  | kept {root : Path}
      (hroot : workspace.canonical (chosenDirectory workspace directory) = .ok root)
      (hthere : workspace.contains (newFile root) = true) (hforce : force = false) :
      Initialization workspace directory force 0 workspace
  | refused {root : Path}
      (hroot : workspace.canonical (chosenDirectory workspace directory) = .ok root)
      (hfree : workspace.contains (newFile root) = true → force = true) :
      Initialization workspace directory force 1 workspace
  | written {root : Path} {after : Workspace}
      (hroot : workspace.canonical (chosenDirectory workspace directory) = .ok root)
      (hfree : workspace.contains (newFile root) = true → force = true)
      (hwrite : workspace.write (newFile root) (some ({} : Settings).render) = .ok after) :
      Initialization workspace directory force 0 after

theorem run_init (workspace : Workspace) (directory : Option String) (force : Bool) :
    run workspace (.init directory force) = init workspace directory force := by
  simp only [run]

theorem initialization_init (workspace : Workspace) (directory : Option String) (force : Bool) :
    Initialization workspace directory force (init workspace directory force).1.exitCode
      (init workspace directory force).2 := by
  rw [init]
  split
  · next error hroot => exact .lost hroot
  · next root hroot =>
    dsimp only
    split
    · next hthere =>
      rw [Bool.and_eq_true, Bool.not_eq_true'] at hthere
      exact .kept hroot hthere.1 hthere.2
    · next hfree =>
      simp only [Bool.and_eq_true, Bool.not_eq_true', not_and, Bool.not_eq_false] at hfree
      split
      · exact .refused hroot hfree
      · next after hsave => exact .written hroot hfree (Fault.ofFile_eq_ok_iff.1 hsave)

theorem Initialization.eq_of_contains {path : Path}
    (h : Initialization workspace directory false code after)
    (hchosen : workspace.canonical (chosenDirectory workspace directory) = .ok path)
    (hthere : workspace.contains (newFile path) = true) : code = 0 ∧ after = workspace := by
  cases h with
  | lost hroot => simp [hroot] at hchosen
  | kept => exact ⟨rfl, rfl⟩
  | refused hroot hfree =>
    obtain rfl := Except.ok.inj (hroot.symm.trans hchosen)
    exact absurd (hfree hthere) Bool.false_ne_true
  | written hroot hfree =>
    obtain rfl := Except.ok.inj (hroot.symm.trans hchosen)
    exact absurd (hfree hthere) Bool.false_ne_true

theorem isSome_of_contains_newFile (hroot : root.IsProper)
    (h : workspace.contains (newFile root.path) = true) :
    (workspace.tree.lookup (newFileName :: root)).isSome = true := by
  rw [Workspace.contains, Workspace.lookup] at h
  split at h
  · next place hplace =>
    rw [newFile_path hroot] at hplace
    rwa [FileTree.eq_of_locate_path (hroot.cons isName_newFileName) hplace] at h
  · simp at h

theorem of_write_newFile {content : Option String} (hroot : root.IsProper)
    (h : workspace.write (newFile root.path) content = .ok after) :
    after = { workspace with
        tree := workspace.tree.update (newFileName :: root) (some (.file content)) } ∧
      workspace.tree.lookup root = some .directory ∧
      ((workspace.tree.lookup (newFileName :: root)).isSome = true →
        workspace.contains (newFile root.path) = true) := by
  obtain ⟨place, hplace, rfl⟩ := Workspace.write_eq_ok_iff.1 h
  rw [newFile_path hroot] at hplace ⊢
  obtain ⟨rfl, hdirectory, -, hlocate⟩ :=
    FileTree.destination_path (hroot.cons isName_newFileName) hplace
  refine ⟨rfl, hdirectory, fun hthere => ?_⟩
  rw [Workspace.contains, Workspace.lookup, Workspace.locate, hlocate hthere]
  exact hthere

/-- The new settings file of a directory holds the defaults, a search from the directory finds it,
and asking for settings there once more changes nothing. -/
structure HasFreshSettings (workspace : Workspace) (directory : Option String) (root : Location) :
    Prop where
  load : load workspace (newFile root.path) = .ok { root := some root.path }
  findFile? : findFile? workspace root.path = some (newFile root.path)
  again : ∃ outcome, run workspace (.init directory false) = (outcome, workspace) ∧
    outcome.exitCode = 0

theorem hasFreshSettings_of_write (hroot : root.IsProper)
    (hchosen : workspace.canonical (chosenDirectory workspace directory) = .ok root.path)
    (hwrite : workspace.write (newFile root.path) (some ({} : Settings).render) = .ok after) :
    HasFreshSettings after directory root := by
  have hfile := Workspace.isFile_of_write hwrite
  have hcanonical := Workspace.canonical_of_write hwrite hchosen
  have hread := Workspace.read_of_write hwrite
  obtain ⟨rfl, hdirectory, -⟩ := of_write_newFile hroot hwrite
  constructor
  · rw [load_of_parse? hread (parse?_render {}), parent?_newFile hroot]
  · refine findFile?_newFile (Workspace.isFile_path hroot ?_) hfile
    rw [FileTree.lookup_update_of_ne _ _ (List.cons_ne_self _ _).symm]
    exact hdirectory
  · obtain ⟨hcode, hafter⟩ := (initialization_init _ directory false).eq_of_contains hcanonical
      (Workspace.contains_of_isFile hfile)
    rw [run_init]
    exact ⟨_, Prod.ext rfl hafter, hcode⟩

/-- Asking for settings changes nothing but the new settings file of the directory, and nothing at
all if it fails or if something is there already and force is not given. Otherwise the directory has
fresh settings then. -/
theorem init_touches_one_file (hhere : workspace.here.IsProper)
    (hrun : run workspace (.init directory force) = (outcome, after)) :
    after.here = workspace.here ∧ (outcome.exitCode ≠ 0 → after = workspace) ∧
      ((∃ error, workspace.canonical (chosenDirectory workspace directory) = .error error) ∧
          outcome.exitCode ≠ 0 ∨
        ∃ root : Location, root.IsProper ∧
          workspace.canonical (chosenDirectory workspace directory) = .ok root.path ∧
          newFile root.path = Location.path (newFileName :: root) ∧
          (∀ place, place ≠ newFileName :: root →
            after.tree.lookup place = workspace.tree.lookup place) ∧
          ((workspace.tree.lookup (newFileName :: root)).isSome = true → force = false →
            after = workspace) ∧
          (outcome.exitCode = 0 →
            ((workspace.tree.lookup (newFileName :: root)).isSome = true → force = true) →
            HasFreshSettings after directory root)) := by
  have hinit := initialization_init workspace directory force
  rw [← run_init, hrun] at hinit
  generalize outcome.exitCode = code at hinit ⊢
  cases hinit with
  | lost hroot => exact ⟨rfl, fun _ => rfl, .inl ⟨⟨_, hroot⟩, Nat.one_ne_zero⟩⟩
  | kept hroot hthere hforce =>
    obtain ⟨root, hproper, rfl⟩ := Workspace.exists_of_canonical hhere hroot
    refine ⟨rfl, fun _ => rfl, .inr ⟨root, hproper, hroot, newFile_path hproper, fun _ _ => rfl,
      fun _ _ => rfl, fun _ hfree => ?_⟩⟩
    rw [hfree (isSome_of_contains_newFile hproper hthere)] at hforce
    simp at hforce
  | refused hroot =>
    obtain ⟨root, hproper, rfl⟩ := Workspace.exists_of_canonical hhere hroot
    exact ⟨rfl, fun _ => rfl, .inr ⟨root, hproper, hroot, newFile_path hproper, fun _ _ => rfl,
      fun _ _ => rfl, fun hcode => absurd hcode Nat.one_ne_zero⟩⟩
  | written hroot hfree hwrite =>
    obtain ⟨root, hproper, rfl⟩ := Workspace.exists_of_canonical hhere hroot
    have hfresh := hasFreshSettings_of_write hproper hroot hwrite
    obtain ⟨rfl, -, hseen⟩ := of_write_newFile hproper hwrite
    refine ⟨rfl, fun hcode => absurd rfl hcode, .inr ⟨root, hproper, hroot, newFile_path hproper,
      fun _ hne => FileTree.lookup_update_of_ne _ _ hne, fun hthere hforce => ?_,
      fun _ _ => hfresh⟩⟩
    rw [hfree (hseen hthere)] at hforce
    simp at hforce

theorem init_touches_testDirectory :
    Location.IsProper ["test", "w"] ∧
      ∃ outcome after, run (.project ["test", "w"]) (.init (some "../test/.") false) =
        (outcome, after) ∧ outcome.exitCode = 0 ∧
        HasFreshSettings after (some "../test/.") ["test", "w"] := by
  have hhere : Location.IsProper ["test", "w"] := by decide
  obtain ⟨outcome, after, hrun, hcode⟩ : ∃ outcome after,
      run (.project ["test", "w"]) (.init (some "../test/.") false) = (outcome, after) ∧
        outcome.exitCode = 0 :=
    ⟨_, _, rfl, by rfl⟩
  refine ⟨hhere, outcome, after, hrun, hcode, ?_⟩
  obtain ⟨-, -, ⟨-, hfailed⟩ | ⟨root, hproper, hroot, -, -, -, hfresh⟩⟩ :=
    @init_touches_one_file (.project ["test", "w"]) after (some "../test/.") false outcome
      hhere hrun
  · exact absurd hcode hfailed
  · have hpath : root.path = Location.path ["test", "w"] :=
      Except.ok.inj (hroot.symm.trans (by rfl))
    have hnames : root.reverse = ["test", "w"].reverse := by
      rw [← hproper.names_path, hpath, hhere.names_path]
    obtain rfl := List.reverse_injective hnames
    refine hfresh hcode fun hthere => ?_
    have hfree : (Workspace.project ["test", "w"]).tree.lookup (newFileName :: ["test", "w"]) =
        none := by rfl
    rw [hfree] at hthere
    simp at hthere

end CommandLine

end TestOutline
