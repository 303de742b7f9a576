import TestOutline.Proofs.FreshSettings
import TestOutline.Proofs.NearestSettings
import TestOutline.Proofs.Siblings

/-! New settings beside old ones. A search looks for the settings files of a directory in the order
of their names, so a file under the first name hides one under the second. New settings are written
under the first name, and only what is there is asked about. Where a search had found the file under
the second name of the directory it finds the new one, and everywhere else it finds what it had
found. -/

namespace TestOutline

namespace FileTree

variable {tree : FileTree} {here place next : Location} {path : Path} {content : Option String}

theorem walk_of_update {segments : List (List Char)}
    (h : (tree.update place (some (.file content))).walk here segments = .ok next)
    (hne : next ≠ place) : tree.walk here segments = .ok next := by
  induction segments generalizing here with
  | nil => exact h
  | cons segment segments ih =>
    obtain ⟨between, hstep, hwalk⟩ := walk_cons_eq_ok_iff.1 h
    refine walk_cons_eq_ok_iff.2 ⟨between, ?_, ih hwalk⟩
    have hbetween : between ≠ place := by
      rintro rfl
      cases segments with
      | nil => exact hne (Except.ok.inj hwalk).symm
      | cons other segments =>
        obtain ⟨_, hother, -⟩ := walk_cons_eq_ok_iff.1 hwalk
        simpa using (step_eq_ok_iff.1 hother).1
    obtain ⟨hhere, hnext⟩ := step_eq_ok_iff.1 hstep
    have hstart : here ≠ place := by
      rintro rfl
      simp at hhere
    rw [lookup_update_of_ne tree _ hstart] at hhere
    refine step_eq_ok_iff.2 ⟨hhere, hnext.imp_right (Or.imp_right ?_)⟩
    rintro ⟨hfiller, hup, hlimit, hthere, rfl⟩
    rw [lookup_update_of_ne tree _ hbetween] at hthere
    exact ⟨hfiller, hup, hlimit, hthere, rfl⟩

theorem locate_update_iff (hplace : tree.lookup place = none) (hne : next ≠ place) :
    (tree.update place (some (.file content))).locate here path = .ok next ↔
      tree.locate here path = .ok next := by
  rw [locate_eq_ok_iff, locate_eq_ok_iff]
  exact and_congr_right fun _ =>
    ⟨fun hwalk => walk_of_update hwalk hne, walk_update (by simp [hplace]) content⟩

end FileTree

namespace Settings
open FileTree TestOutline.Path

def laterFileName : String :=
  "mocha-lens.json"

theorem fileNames_eq : fileNames = [newFileName, laterFileName] := rfl

theorem isName_laterFileName : IsName laterFileName := by decide

/-- The path is that of the later settings file of a directory, and the operating system takes it
with one more character. -/
def IsCovered (workspace : Workspace) (root : Location) (path : Path) : Prop :=
  workspace.locate path = .ok (laterFileName :: root) ∧ path.text.utf8ByteSize < pathLimit

/-- What a search finds before and after a new settings file is written into a directory: the same,
or the new file where it had found the later one. -/
inductive Covers (workspace : Workspace) (root : Location) : (before after : Option Path) → Prop
  | kept {found : Option Path} (h : ∀ path ∈ found, ¬IsCovered workspace root path) :
      Covers workspace root found found
  | covered {directory : Path} (h : IsCovered workspace root (directory.join ⟨laterFileName⟩)) :
      Covers workspace root (some (directory.join ⟨laterFileName⟩)) (some (newFile directory))

theorem fileIn?_eq (workspace : Workspace) (directory : Path) : fileIn? workspace directory =
    if workspace.isFile (newFile directory) then some (newFile directory)
    else if workspace.isFile (directory.join ⟨laterFileName⟩) then
      some (directory.join ⟨laterFileName⟩)
    else none := by
  rw [fileIn?, fileNames_eq, List.map_cons, List.map_cons, List.map_nil, newFile]
  cases hnew : workspace.isFile (directory.join ⟨newFileName⟩) with
  | true => rw [List.find?_cons_of_pos hnew, if_pos rfl]
  | false =>
    rw [List.find?_cons_of_neg (by simp [hnew]), if_neg Bool.false_ne_true]
    cases hlater : workspace.isFile (directory.join ⟨laterFileName⟩) with
    | true => rw [List.find?_cons_of_pos hlater, if_pos rfl]
    | false =>
      rw [List.find?_cons_of_neg (by simp [hlater]), if_neg Bool.false_ne_true, List.find?_nil]

variable {workspace : Workspace} {root : Location} {path start : Path} {place : Location}
  {content : Option String}

theorem Covers.or {before after farBefore farAfter : Option Path}
    (h : Covers workspace root before after) (hfar : Covers workspace root farBefore farAfter) :
    Covers workspace root (before.or farBefore) (after.or farAfter) := by
  cases h with
  | covered h => exact .covered h
  | kept h =>
    cases before with
    | none => exact hfar
    | some path => exact .kept h

def withFile (workspace : Workspace) (place : Location) (content : Option String) : Workspace :=
  { workspace with tree := workspace.tree.update place (some (.file content)) }

theorem locate_withFile_iff {next : Location} (hfree : workspace.tree.lookup place = none)
    (hne : next ≠ place) :
    (withFile workspace place content).locate path = .ok next ↔ workspace.locate path = .ok next :=
  locate_update_iff hfree hne

theorem lookup_withFile {next : Location} (hne : next ≠ place) :
    (withFile workspace place content).tree.lookup next = workspace.tree.lookup next :=
  lookup_update_of_ne _ _ hne

theorem isFile_eq_true_iff : workspace.isFile path = true ↔ ∃ place text,
    workspace.locate path = .ok place ∧ workspace.tree.lookup place = some (.file text) := by
  refine ⟨Workspace.exists_of_isFile, ?_⟩
  rintro ⟨place, text, hlocate, hplace⟩
  simp [Workspace.isFile, Workspace.lookup, hlocate, hplace]

theorem isFile_withFile (hfree : workspace.tree.lookup place = none)
    (hapart : (withFile workspace place content).locate path ≠ .ok place) :
    (withFile workspace place content).isFile path = workspace.isFile path := by
  rw [Bool.eq_iff_iff, isFile_eq_true_iff, isFile_eq_true_iff]
  constructor
  · rintro ⟨found, text, hlocate, hfound⟩
    have hne : found ≠ place := fun heq => hapart (heq ▸ hlocate)
    exact ⟨found, text, (locate_withFile_iff hfree hne).1 hlocate, lookup_withFile hne ▸ hfound⟩
  · rintro ⟨found, text, hlocate, hfound⟩
    have hne : found ≠ place := by
      rintro rfl
      simp [hfree] at hfound
    exact ⟨found, text, (locate_withFile_iff hfree hne).2 hlocate,
      (lookup_withFile hne).trans hfound⟩

theorem isFile_of_locate_withFile (hfree : workspace.tree.lookup place = none)
    (hlocate : (withFile workspace place content).locate path = .ok place) :
    (withFile workspace place content).isFile path = true ∧ workspace.isFile path = false := by
  constructor
  · exact isFile_eq_true_iff.2 ⟨place, content, hlocate, lookup_update_self ..⟩
  · rw [← Bool.not_eq_true, isFile_eq_true_iff]
    rintro ⟨found, text, hbefore, hfound⟩
    have hne : found ≠ place := by
      rintro rfl
      simp [hfree] at hfound
    exact hne (Except.ok.inj (((locate_withFile_iff hfree hne).2 hbefore).symm.trans hlocate))

theorem isName_of_mem {name : String} (h : name ∈ fileNames) : IsName name := by
  simp only [fileNames_eq, List.mem_cons, List.not_mem_nil, or_false] at h
  rcases h with rfl | rfl
  · exact isName_newFileName
  · exact isName_laterFileName

theorem fileIn?_of_locate_withFile (hfree : workspace.tree.lookup place = none)
    (h : (withFile workspace place content).locate start = .ok place) :
    fileIn? workspace start = none := by
  rw [fileIn?, List.find?_eq_none]
  intro path hpath hfile
  obtain ⟨name, hname, rfl⟩ := List.mem_map.1 hpath
  obtain ⟨found, -, hlocate, -⟩ := Workspace.exists_of_isFile hfile
  obtain ⟨directory, hfollow, hdirectory⟩ :=
    Workspace.exists_follow_of_locate_join (isName_of_mem hname) hlocate
  have hafter : (withFile workspace place content).follow start = .ok directory :=
    walk_update (by simp [hfree]) content hfollow
  obtain rfl := Except.ok.inj (hafter.symm.trans (Workspace.locate_eq_ok_iff.1 h).2)
  simp [hfree] at hdirectory

theorem isFile_of_findFile? (h : findFile? workspace start = some path) :
    workspace.isFile path = true := by
  obtain ⟨directory, -, hfound⟩ := List.exists_of_findSome?_eq_some h
  exact List.find?_some hfound

theorem load_withFile (hfree : workspace.tree.lookup place = none)
    (h : workspace.isFile path = true) :
    load (withFile workspace place content) path = load workspace path := by
  obtain ⟨found, text, hlocate, hfound⟩ := Workspace.exists_of_isFile h
  have hne : found ≠ place := by
    rintro rfl
    simp [hfree] at hfound
  have hread : (withFile workspace place content).read path = workspace.read path := by
    rw [Workspace.read, Workspace.read, hlocate, (locate_withFile_iff hfree hne).2 hlocate]
    simp only [bind, Except.bind, lookup_withFile hne]
  rw [load, load, hread]

theorem read_of_locate_withFile {text : String}
    (h : (withFile workspace place (some text)).locate path = .ok place) :
    (withFile workspace place (some text)).read path = .ok text := by
  rw [Workspace.read, bind_eq_ok_iff]
  exact ⟨place, h, by simp [withFile]⟩

theorem isFileAt_laterFileName (hfree : workspace.tree.lookup (newFileName :: root) = none)
    (hheld : (heldAt? workspace.tree root).isSome = true) :
    workspace.tree.isFileAt (laterFileName :: root) = true := by
  obtain ⟨found, hfound⟩ := Option.isSome_iff_exists.1 hheld
  have hfile := List.find?_some hfound
  have hmem := List.mem_of_find?_eq_some hfound
  simp only [fileNames_eq, List.map_cons, List.map_nil, List.mem_cons, List.not_mem_nil,
    or_false] at hmem
  rcases hmem with rfl | rfl
  · simp [isFileAt, hfree] at hfile
  · exact hfile

section

variable (hfree : workspace.tree.lookup (newFileName :: root) = none)

theorem laterFileName_cons_ne : laterFileName :: root ≠ newFileName :: root := by
  simp [laterFileName, newFileName]

theorem utf8ByteSize_newFile (directory : Path) : (newFile directory).text.utf8ByteSize =
    (directory.join ⟨laterFileName⟩).text.utf8ByteSize + 1 := by
  have hsize := @utf8ByteSize_join_add directory _ _ isName_newFileName isName_laterFileName
  have hnew : newFileName.utf8ByteSize = laterFileName.utf8ByteSize + 1 := by decide
  rw [newFile]
  omega

include hfree

theorem locate_newFile_of_isCovered {directory : Path}
    (h : IsCovered workspace root (directory.join ⟨laterFileName⟩)) :
    (withFile workspace (newFileName :: root) content).locate (newFile directory) =
      .ok (newFileName :: root) := by
  obtain ⟨hlater, hroom⟩ := h
  have hcheck := (Workspace.locate_eq_ok_iff.1 hlater).1
  rw [← locate_withFile_iff hfree laterFileName_cons_ne] at hlater
  obtain ⟨found, hfound, hlocate⟩ :=
    locate_join_other isName_laterFileName isName_newFileName hlater
  obtain rfl := (List.cons.inj hfound).2
  have hsize := utf8ByteSize_newFile directory
  rw [newFile] at hsize
  exact hlocate (checkPath_join_other isName_laterFileName isName_newFileName (by decide)
    (by omega) hcheck) (by decide) (by simp [withFile])

theorem isCovered_of_locate_newFile (hheld : workspace.tree.isFileAt (laterFileName :: root) = true)
    {directory : Path} (h : (withFile workspace (newFileName :: root) content).locate
      (newFile directory) = .ok (newFileName :: root)) :
    IsCovered workspace root (directory.join ⟨laterFileName⟩) := by
  have hcheck := (Workspace.locate_eq_ok_iff.1 h).1
  have hlimit := (checkPath_eq_ok_iff.1 hcheck).2.2
  rw [utf8ByteSize_newFile] at hlimit
  obtain ⟨found, hfound, hlocate⟩ := locate_join_other isName_newFileName isName_laterFileName h
  obtain rfl := (List.cons.inj hfound).2
  refine ⟨(locate_withFile_iff hfree laterFileName_cons_ne).1 (hlocate ?_ (by decide) ?_), hlimit⟩
  · exact checkPath_join_other isName_newFileName isName_laterFileName (by decide) (by omega) hcheck
  · rw [lookup_withFile laterFileName_cons_ne]
    exact isSome_of_isFileAt hheld

theorem covers_fileIn? (hheld : workspace.tree.isFileAt (laterFileName :: root) = true)
    (directory : Path) : Covers workspace root (fileIn? workspace directory)
    (fileIn? (withFile workspace (newFileName :: root) content) directory) := by
  have hlater : (withFile workspace (newFileName :: root) content).locate
      (directory.join ⟨laterFileName⟩) ≠ .ok (newFileName :: root) := by
    intro hlocate
    obtain ⟨found, hfound, -⟩ := locate_join_other isName_laterFileName isName_newFileName hlocate
    simp [newFileName, laterFileName] at hfound
  by_cases hnew : (withFile workspace (newFileName :: root) content).locate (newFile directory) =
      .ok (newFileName :: root)
  · have hcovered := isCovered_of_locate_newFile hfree hheld hnew
    obtain ⟨hafter, hbefore⟩ := isFile_of_locate_withFile hfree hnew
    have hfile : workspace.isFile (directory.join ⟨laterFileName⟩) = true := by
      rw [isFile_of_locate hcovered.1, hheld]
    rw [fileIn?_eq, fileIn?_eq, hafter, hbefore, hfile]
    exact .covered hcovered
  · have hsame : fileIn? (withFile workspace (newFileName :: root) content) directory =
        fileIn? workspace directory := by
      rw [fileIn?_eq, fileIn?_eq, isFile_withFile hfree hnew, isFile_withFile hfree hlater]
    rw [hsame]
    refine .kept fun path hpath hcovered => ?_
    rw [fileIn?_eq] at hpath
    split at hpath
    · obtain rfl := Option.some.inj hpath
      obtain ⟨found, hfound, -⟩ :=
        locate_join_other isName_newFileName isName_laterFileName hcovered.1
      simp [newFileName, laterFileName] at hfound
    · split at hpath
      · obtain rfl := Option.some.inj hpath
        exact hnew (locate_newFile_of_isCovered hfree hcovered)
      · simp at hpath

theorem covers_findSome? (hheld : workspace.tree.isFileAt (laterFileName :: root) = true)
    (directories : List Path) : Covers workspace root
      (directories.findSome? (fileIn? workspace))
      (directories.findSome? (fileIn? (withFile workspace (newFileName :: root) content))) := by
  induction directories with
  | nil => exact .kept (by simp)
  | cons directory directories ih =>
    rw [findSome?_cons_eq_or, findSome?_cons_eq_or]
    exact (covers_fileIn? hfree hheld directory).or ih

theorem covers_findFile? (hheld : workspace.tree.isFileAt (laterFileName :: root) = true)
    (start : Path) : Covers workspace root (findFile? workspace start)
      (findFile? (withFile workspace (newFileName :: root) content) start) := by
  rw [findFile?, findFile?, searchPath, searchPath]
  by_cases hstart : (withFile workspace (newFileName :: root) content).locate start =
      .ok (newFileName :: root)
  · obtain ⟨hafter, hbefore⟩ := isFile_of_locate_withFile hfree hstart
    rw [hafter, hbefore, if_pos rfl, if_neg Bool.false_ne_true, findSome?_cons_eq_or,
      fileIn?_of_locate_withFile hfree hstart, Option.none_or]
    exact covers_findSome? hfree hheld start.ancestors
  · rw [isFile_withFile hfree hstart]
    split
    · exact covers_findSome? hfree hheld start.ancestors
    · exact covers_findSome? hfree hheld (start :: start.ancestors)

theorem nearest_withFile (hheld : workspace.tree.isFileAt (laterFileName :: root) = true)
    (start : Path) :
    ((∀ found, findFile? workspace start = some found → ¬IsCovered workspace root found) →
      nearest (withFile workspace (newFileName :: root) (some ({} : Settings).render)) start =
        nearest workspace start) ∧
    ∀ found, findFile? workspace start = some found → IsCovered workspace root found →
      nearest (withFile workspace (newFileName :: root) (some ({} : Settings).render)) start =
        .ok { root := found.parent? } := by
  have hcovers := @covers_findFile? workspace root (some ({} : Settings).render) hfree hheld start
  have hfile := @isFile_of_findFile? workspace
  rw [nearest, nearest]
  replace hfile {found : Path} (h : findFile? workspace start = some found) := hfile h
  generalize findFile? workspace start = before at hcovers hfile ⊢
  generalize findFile? (withFile workspace (newFileName :: root) (some ({} : Settings).render))
    start = after at hcovers ⊢
  cases hcovers with
  | kept h =>
    refine ⟨fun _ => ?_, fun found hfound hcovered => absurd hcovered (h found hfound)⟩
    cases before with
    | none => rfl
    | some found => exact load_withFile hfree (hfile rfl)
  | covered h =>
    refine ⟨fun hnone => absurd h (hnone _ rfl), fun found hfound _ => ?_⟩
    obtain rfl := Option.some.inj hfound
    rw [parent?_join_eq isName_laterFileName isName_newFileName]
    exact load_of_parse? (read_of_locate_withFile (locate_newFile_of_isCovered hfree h))
      (parse?_render {})

end

end Settings

namespace CommandLine
open Settings

variable {workspace after : Workspace} {directory : Option String} {outcome : Outcome}
  {root : Location}

/-- Settings that are asked for where some are held already change no answer of a search, unless a
search had found them under the later name: then it finds the defaults. -/
theorem nearest_after_init (hroot : root.IsProper)
    (hchosen : workspace.canonical (chosenDirectory workspace directory) = .ok root.path)
    (hheld : (heldAt? workspace.tree root).isSome = true)
    (hrun : run workspace (.init directory false) = (outcome, after)) :
    ((workspace.tree.lookup (newFileName :: root)).isSome = true ∨ outcome.exitCode ≠ 0 →
      ∀ start, nearest after start = nearest workspace start) ∧
    (workspace.tree.lookup (newFileName :: root) = none → outcome.exitCode = 0 → ∀ start,
      ((∀ found, findFile? workspace start = some found → ¬IsCovered workspace root found) →
        nearest after start = nearest workspace start) ∧
      ∀ found, findFile? workspace start = some found → IsCovered workspace root found →
        nearest after start = .ok { root := found.parent? }) := by
  have hinit := initialization_init workspace directory false
  rw [← run_init, hrun] at hinit
  generalize outcome.exitCode = code at hinit ⊢
  cases hinit with
  | lost hlost => simp [hlost] at hchosen
  | kept hkept hthere =>
    obtain rfl := Except.ok.inj (hkept.symm.trans hchosen)
    refine ⟨fun _ _ => rfl, fun hfree => absurd (isSome_of_contains_newFile hroot hthere) ?_⟩
    simpa using hfree
  | refused => exact ⟨fun _ _ => rfl, fun _ hcode => absurd hcode Nat.one_ne_zero⟩
  | written hwritten hnew hwrite =>
    obtain rfl := Except.ok.inj (hwritten.symm.trans hchosen)
    obtain ⟨rfl, -, hseen⟩ := of_write_newFile hroot hwrite
    have hfree : ¬(workspace.tree.lookup (newFileName :: root)).isSome = true :=
      fun hthere => Bool.false_ne_true (hnew (hseen hthere))
    refine ⟨fun h => absurd rfl (h.resolve_left hfree), fun hnone _ => ?_⟩
    exact nearest_withFile hnone (isFileAt_laterFileName hnone hheld)

def laterSettings : Workspace where
  tree := ⟨fun place => List.lookup place
    [([], .directory), (["w"], .directory),
      ([laterFileName, "w"], .file (some "\x7b\"debug_port\": 1\x7d"))]⟩
  here := ["w"]

theorem nearest_laterSettings :
    laterSettings.canonical (chosenDirectory laterSettings none) = .ok (Location.path ["w"]) ∧
      (heldAt? laterSettings.tree ["w"]).isSome = true ∧
      ∃ outcome after, run laterSettings (.init none false) = (outcome, after) ∧
        outcome.exitCode = 0 ∧ nearest after ⟨"/w/test"⟩ = .ok { root := some ⟨"/w"⟩ } ∧
        nearest after ⟨"/"⟩ = nearest laterSettings ⟨"/"⟩ := by
  have hchosen : laterSettings.canonical (chosenDirectory laterSettings none) =
      .ok (Location.path ["w"]) := by rfl
  have hheld : (heldAt? laterSettings.tree ["w"]).isSome = true := by rfl
  obtain ⟨outcome, after, hrun, hcode⟩ : ∃ outcome after,
      run laterSettings (.init none false) = (outcome, after) ∧ outcome.exitCode = 0 :=
    ⟨_, _, rfl, by rfl⟩
  obtain ⟨-, hwritten⟩ := nearest_after_init (by decide) hchosen hheld hrun
  have hfound : findFile? laterSettings ⟨"/w/test"⟩ = some ⟨"/w/mocha-lens.json"⟩ := by rfl
  have hnone : findFile? laterSettings ⟨"/"⟩ = none := by rfl
  refine ⟨hchosen, hheld, outcome, after, hrun, hcode, ?_, ?_⟩
  · exact (hwritten (by rfl) hcode _).2 _ hfound ⟨by rfl, by decide⟩
  · exact (hwritten (by rfl) hcode _).1 (by simp [hnone])

theorem exists_nearest_ne_after_init :
    (heldAt? laterSettings.tree ["w"]).isSome = true ∧
      laterSettings.canonical (chosenDirectory laterSettings none) = .ok (Location.path ["w"]) ∧
      nearest (run laterSettings (.init none false)).2 ⟨"/w"⟩ ≠ nearest laterSettings ⟨"/w"⟩ := by
  refine ⟨by rfl, by rfl, ?_⟩
  have hbefore : nearest laterSettings ⟨"/w"⟩ =
      .ok { debugPort := 1, root := some ⟨"/w"⟩ } := by rfl
  have hafter : nearest (run laterSettings (.init none false)).2 ⟨"/w"⟩ =
      .ok { root := some ⟨"/w"⟩ } :=
    (@nearest_withFile laterSettings ["w"] (by rfl) (by rfl) ⟨"/w"⟩).2 ⟨"/w/mocha-lens.json"⟩
      (by rfl) ⟨by rfl, by decide⟩
  rw [hbefore, hafter]
  simp

end CommandLine

end TestOutline
