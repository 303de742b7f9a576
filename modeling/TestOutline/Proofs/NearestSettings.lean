import Mathlib.Data.List.Infix
import TestOutline.Proofs.Ancestors
import TestOutline.Proofs.Following
import TestOutline.Proofs.RequestedFile

/-! The settings file that a search finds. The search takes the last name of a path away again and
again and looks where the rest leads. Without `..` in the path these places are the directories that
the target lies in, but for a relative path only up to the current directory. -/

namespace TestOutline

namespace FileTree
open TestOutline.Path

def isFileAt (tree : FileTree) (place : Location) : Bool :=
  match tree.lookup place with
  | some (.file _) => true
  | _ => false

/-- The directories that a place lies in, from the inside out; a directory lies in itself. -/
def directoriesOf (tree : FileTree) (place : Location) : List Location :=
  if tree.lookup place = some .directory then place.tails else place.tail.tails

/-- The places that the beginnings of a list of names lead to, from the longest one back. -/
def trail (tree : FileTree) (origin : Location) (names : List String) : List Location :=
  names.inits.reverse.filterMap fun front => (tree.walk origin (front.map String.toList)).toOption

variable {tree : FileTree} {origin place directory : Location} {names : List String}

theorem isSome_of_isFileAt (h : tree.isFileAt place = true) :
    (tree.lookup place).isSome = true := by
  rw [isFileAt] at h
  split at h
  · next hentry => rw [hentry, Option.isSome_some]
  · simp at h

theorem trail_nil : tree.trail origin [] = [origin] := rfl

theorem trail_concat {last : String}
    (h : tree.walk origin ((names ++ [last]).map String.toList) = .ok place) :
    tree.trail origin (names ++ [last]) = place :: tree.trail origin names := by
  have hinits : (names ++ [last]).inits.reverse = (names ++ [last]) :: names.inits.reverse := by
    simp [List.inits_append]
  rw [trail, hinits, List.filterMap_cons, h]
  rfl

theorem walk_of_isPrefix (hname : ∀ name ∈ names, isFiller name.toList = false)
    (hup : ".." ∉ names) (h : tree.walk origin (names.map String.toList) = .ok place)
    {front : List String} (hfront : front <+: names) :
    tree.walk origin (front.map String.toList) = .ok (front.reverse ++ origin) := by
  obtain ⟨behind, rfl⟩ := hfront
  rw [List.map_append, walk_append_eq_ok_iff] at h
  obtain ⟨between, hwalk, -⟩ := h
  have hsegments : ∀ segment ∈ front.map String.toList, isUp segment = false := by
    intro segment hsegment
    obtain ⟨name, hmem, rfl⟩ := List.mem_map.1 hsegment
    by_contra hdots
    have hdots : name = ".." := by
      rw [← String.toList_inj]
      simpa [isUp] using hdots
    exact hup (hdots ▸ List.mem_append_left behind hmem)
  rw [hwalk, eq_of_walk_of_not_isUp hsegments hwalk,
    namesOf_map_toList fun name hmem => hname name (List.mem_append_left behind hmem)]

theorem trail_of_not_isUp (hname : ∀ name ∈ names, isFiller name.toList = false)
    (hup : ".." ∉ names) (h : tree.walk origin (names.map String.toList) = .ok place) :
    place = names.reverse ++ origin ∧
      tree.trail origin names = names.reverse.tails.map (· ++ origin) := by
  have hwhole := walk_of_isPrefix hname hup h (List.prefix_refl names)
  refine ⟨Except.ok.inj (h.symm.trans hwhole), ?_⟩
  have hfound : ∀ front ∈ names.inits.reverse,
      (tree.walk origin (front.map String.toList)).toOption = some (front.reverse ++ origin) := by
    intro front hfront
    rw [List.mem_reverse, List.mem_inits] at hfront
    rw [walk_of_isPrefix hname hup h hfront]
    rfl
  rw [trail, List.filterMap_congr hfound, List.tails_reverse]
  simp

end FileTree

namespace Settings
open FileTree TestOutline.Path

/-- The settings file that a directory holds: of the names of settings files the first one that a
regular file has there. -/
def heldAt? (tree : FileTree) (directory : Location) : Option Location :=
  (fileNames.map (· :: directory)).find? tree.isFileAt

/-- The search finds what the nearest of the directories holds that the target lies in. -/
def FindsNearest (workspace : Workspace) (start : Path) (place : Location) : Prop :=
  (findFile? workspace start).map workspace.locate =
    ((workspace.tree.directoriesOf place).findSome? (heldAt? workspace.tree)).map .ok

def directoryNames (workspace : Workspace) (start : Path) : List String :=
  if workspace.isFile start then start.names.dropLast else start.names

structure IsFileName (name : String) : Prop where
  not_nul : '\x00' ∉ name.toList
  segments : Path.segments ⟨name⟩ = [name.toList]
  relative : isAbsolute ⟨name⟩ = false
  not_filler : isFiller name.toList = false
  not_up : isUp name.toList = false
  size_pos : 0 < name.utf8ByteSize
  size_le : name.utf8ByteSize ≤ newFileName.utf8ByteSize

theorem isFileName_of_mem {name : String} (h : name ∈ fileNames) : IsFileName name := by
  simp only [fileNames, List.mem_cons, List.not_mem_nil, or_false] at h
  rcases h with rfl | rfl
  · constructor <;> decide
  · constructor <;> decide

/-- The operating system takes the path of a settings file behind this one. -/
structure HasRoom (path : Path) : Prop where
  not_nul : '\x00' ∉ path.text.toList
  room : path.text.utf8ByteSize + newFileName.utf8ByteSize < pathLimit

/-- A path of a directory behind which the names of settings files can be looked up. -/
structure LeadsInto (workspace : Workspace) (path : Path) (directory : Location) : Prop where
  hasRoom : HasRoom path
  follow : workspace.follow path = .ok directory
  isDirectory : workspace.tree.lookup directory = some .directory

variable {workspace : Workspace} {path up : Path} {directory place : Location} {name : String}

theorem HasRoom.of_isPrefix {front : Path} (h : HasRoom path)
    (hfront : front.text.toList <+: path.text.toList) : HasRoom front where
  not_nul hnul := h.not_nul (hfront.subset hnul)
  room := by
    have hsize := utf8ByteSize_le_of_isInfix hfront.isInfix
    have hroom := h.room
    omega

theorem HasRoom.checkPath_join (h : HasRoom path) (hname : IsFileName name) :
    checkPath (path.join ⟨name⟩) = .ok () := by
  have hroom := h.room
  have hsize := hname.size_le
  have hne : name ≠ "" := by
    rintro rfl
    exact absurd hname.size_pos (by decide)
  rw [checkPath_eq_ok_iff, join, if_neg (by simp [hname.relative])]
  dsimp only
  split
  · refine ⟨by simp [h.not_nul, hname.not_nul], by simp [hne], ?_⟩
    rw [String.utf8ByteSize_append]
    omega
  · refine ⟨by simp [h.not_nul, hname.not_nul], by simp [hne], ?_⟩
    rw [String.utf8ByteSize_append, String.utf8ByteSize_append]
    have hslash : "/".utf8ByteSize = 1 := by decide
    omega

theorem LeadsInto.locate_join (h : LeadsInto workspace path directory) (hname : IsFileName name) :
    workspace.locate (path.join ⟨name⟩) =
      if (workspace.tree.lookup (name :: directory)).isSome then .ok (name :: directory)
      else .error .notFound := by
  have hfollow : workspace.follow (path.join ⟨name⟩) =
      workspace.tree.step directory name.toList := by
    rw [Workspace.follow_join_of_ok h.follow h.isDirectory hname.relative, Workspace.follow, start,
      if_neg (by simp [hname.relative]), hname.segments, walk_cons]
    exact bind_pure _
  have hlimit : ¬nameLimit < name.utf8ByteSize := by
    have hsize : newFileName.utf8ByteSize ≤ nameLimit := by decide
    have hname := hname.size_le
    omega
  rw [step_name h.isDirectory hname.not_filler hname.not_up, String.ofList_toList, if_neg hlimit]
    at hfollow
  rw [Workspace.locate, locate, h.hasRoom.checkPath_join hname]
  exact hfollow

theorem LeadsInto.isFile_join (h : LeadsInto workspace path directory) (hname : IsFileName name) :
    workspace.isFile (path.join ⟨name⟩) = workspace.tree.isFileAt (name :: directory) := by
  rw [Workspace.isFile, Workspace.lookup, h.locate_join hname, isFileAt]
  cases hentry : workspace.tree.lookup (name :: directory) with
  | none => simp
  | some entry => cases entry <;> simp [hentry]

theorem map_find?_map {α β γ : Type} {names : List α} {p : β → Bool} {q : γ → Bool} {f : α → β}
    {g : α → γ} {locate : β → Except FileError γ} (hpq : ∀ name ∈ names, p (f name) = q (g name))
    (hfg : ∀ name ∈ names, q (g name) = true → locate (f name) = .ok (g name)) :
    ((names.map f).find? p).map locate = ((names.map g).find? q).map .ok := by
  induction names with
  | nil => rfl
  | cons name names ih =>
    have hrest := ih (fun other hmem => hpq other (List.mem_cons_of_mem _ hmem))
      fun other hmem => hfg other (List.mem_cons_of_mem _ hmem)
    rw [List.map_cons, List.map_cons, List.find?_cons, List.find?_cons,
      hpq name (List.mem_cons_self ..)]
    cases hq : q (g name) with
    | true => exact congrArg some (hfg name (List.mem_cons_self ..) hq)
    | false => exact hrest

theorem LeadsInto.map_fileIn? (h : LeadsInto workspace path directory) :
    (fileIn? workspace path).map workspace.locate = (heldAt? workspace.tree directory).map .ok := by
  apply map_find?_map
  · exact fun name hname => h.isFile_join (isFileName_of_mem hname)
  · intro name hname hfile
    rw [h.locate_join (isFileName_of_mem hname), if_pos (isSome_of_isFileAt hfile)]

def trailOf (workspace : Workspace) (path : Path) : List Location :=
  workspace.tree.trail (start workspace.here path) path.names

theorem findSome?_cons_eq_or {α β : Type} (f : α → Option β) (a : α) (l : List α) :
    (a :: l).findSome? f = (f a).or (l.findSome? f) := by
  rw [List.findSome?_cons]
  cases f a <;> rfl

theorem exists_leadsInto_parent? (hroom : HasRoom path)
    (hfollow : workspace.follow path = .ok place) (hup : path.parent? = some up)
    (hne : path.names ≠ []) :
    ∃ directory last, path.names = up.names ++ [last] ∧ start workspace.here up =
      start workspace.here path ∧ LeadsInto workspace up directory ∧
      trailOf workspace path = place :: trailOf workspace up := by
  obtain ⟨directory, last, hnames, hstart, htext, hwalk, hstep⟩ :=
    exists_walk_parent? hfollow hup hne
  refine ⟨directory, last, hnames, hstart,
    ⟨hroom.of_isPrefix htext, hwalk, (step_eq_ok_iff.1 hstep).1⟩, ?_⟩
  have hplace := walk_names_of_walk hfollow
  rw [hnames] at hplace
  rw [trailOf, trailOf, hnames, hstart, trail_concat hplace]

theorem LeadsInto.parent? (h : LeadsInto workspace path directory) (hup : path.parent? = some up) :
    ∃ outer, LeadsInto workspace up outer ∧ ∀ search : Location → Option Location,
      (trailOf workspace path).findSome? search =
        (search directory).or ((trailOf workspace up).findSome? search) := by
  by_cases hnames : path.names = []
  · have hdirectory := Workspace.eq_start_of_names_eq_nil h.follow hnames
    obtain ⟨-, hanchor, rfl⟩ | ⟨front, last, behind, hsegments, hlast, -⟩ := exists_of_parent? hup
    · have hhere : directory = workspace.here := by
        rw [hdirectory, start, if_neg (by simp [isAbsolute, hanchor])]
      subst hhere
      refine ⟨workspace.here, ⟨h.hasRoom.of_isPrefix (by simp), ?_, h.isDirectory⟩, ?_⟩
      · exact walk_cons_eq_ok_iff.2 ⟨_, step_filler (by rfl) h.isDirectory, rfl⟩
      · intro search
        have htrail : trailOf workspace ⟨""⟩ = [workspace.here] := rfl
        rw [trailOf, hnames, trail_nil, ← hdirectory, htrail, findSome?_cons_eq_or,
          ← Option.or_assoc, Option.or_self]
    · simp [names_eq_namesOf, hsegments, namesOf, hlast] at hnames
  · obtain ⟨outer, -, -, -, houter, htrail⟩ :=
      exists_leadsInto_parent? h.hasRoom h.follow hup hnames
    exact ⟨outer, houter, fun search => by rw [htrail, findSome?_cons_eq_or]⟩

theorem LeadsInto.map_findSome? (h : LeadsInto workspace path directory) :
    ((path :: path.ancestors).findSome? (fileIn? workspace)).map workspace.locate =
      ((trailOf workspace path).findSome? (heldAt? workspace.tree)).map .ok := by
  generalize habove : path.ancestors = above
  induction above generalizing path directory with
  | nil =>
    have hparent : path.parent? = none := by rw [← head?_ancestors, habove, List.head?_nil]
    have hnames : path.names = [] := namesOf_eq_nil_iff.2 (isFiller_of_parent?_eq_none hparent)
    rw [trailOf, hnames, trail_nil, ← Workspace.eq_start_of_names_eq_nil h.follow hnames,
      findSome?_cons_eq_or, findSome?_cons_eq_or, List.findSome?_nil, List.findSome?_nil,
      Option.or_none, Option.or_none, h.map_fileIn?]
  | cons up rest ih =>
    obtain ⟨hup, hrest⟩ := parent?_of_ancestors_eq_cons habove
    obtain ⟨outer, houter, htrail⟩ := h.parent? hup
    rw [findSome?_cons_eq_or, Option.map_or, h.map_fileIn?, ih houter hrest, htrail, Option.map_or]

theorem isFile_of_locate (h : workspace.locate path = .ok place) :
    workspace.isFile path = workspace.tree.isFileAt place := by
  cases hentry : workspace.tree.lookup place with
  | none => simp [Workspace.isFile, Workspace.lookup, h, isFileAt, hentry]
  | some entry => cases entry <;> simp [Workspace.isFile, Workspace.lookup, h, isFileAt, hentry]

theorem isFileAt_eq_false_iff {tree : FileTree} (h : (tree.lookup place).isSome = true) :
    tree.isFileAt place = false ↔ tree.lookup place = some .directory := by
  obtain ⟨entry, hentry⟩ := Option.isSome_iff_exists.1 h
  cases entry <;> simp [isFileAt, hentry]

theorem isDirectory_or_isFile (hhere : workspace.tree.lookup workspace.here = some .directory)
    (hlocate : workspace.locate path = .ok place)
    (hplace : (workspace.tree.lookup place).isSome = true) :
    workspace.isFile path = false ∧ workspace.tree.lookup place = some .directory ∨
      workspace.isFile path = true ∧ workspace.tree.lookup place ≠ some .directory ∧
        path.names ≠ [] := by
  have hfollow := (Workspace.locate_eq_ok_iff.1 hlocate).2
  rw [isFile_of_locate hlocate]
  cases hentry : workspace.tree.isFileAt place with
  | false => exact .inl ⟨rfl, (isFileAt_eq_false_iff hplace).1 hentry⟩
  | true =>
    have hdirectory : workspace.tree.lookup place ≠ some .directory := by
      rw [Ne, ← isFileAt_eq_false_iff hplace, hentry]
      simp
    exact .inr ⟨rfl, hdirectory, fun hnames =>
      hdirectory (Workspace.isDirectory_of_names_eq_nil hhere hfollow hnames)⟩

theorem map_findFile? (hhere : workspace.tree.lookup workspace.here = some .directory)
    (hlocate : workspace.locate path = .ok place)
    (hplace : (workspace.tree.lookup place).isSome = true) (hroom : HasRoom path) :
    (findFile? workspace path).map workspace.locate =
      ((workspace.tree.trail (start workspace.here path) (directoryNames workspace path)).findSome?
        (heldAt? workspace.tree)).map .ok := by
  have hfollow := (Workspace.locate_eq_ok_iff.1 hlocate).2
  rw [findFile?, searchPath, directoryNames]
  rcases isDirectory_or_isFile hhere hlocate hplace with
    ⟨hfile, hdirectory⟩ | ⟨hfile, -, hnames⟩
  · rw [hfile]
    exact LeadsInto.map_findSome? ⟨hroom, hfollow, hdirectory⟩
  · rw [if_pos hfile, if_pos hfile]
    obtain ⟨up, hup⟩ := exists_parent?_of_names hnames
    obtain ⟨directory, last, hlast, hstart, hinto, -⟩ :=
      exists_leadsInto_parent? hroom hfollow hup hnames
    rw [ancestors_of_parent? hup, hinto.map_findSome?, trailOf, hstart, hlast, List.dropLast_concat]

theorem directoriesOf_eq (hhere : workspace.tree.lookup workspace.here = some .directory)
    (hlocate : workspace.locate path = .ok place)
    (hplace : (workspace.tree.lookup place).isSome = true) (hup : ".." ∉ path.names) :
    ∃ names : List String,
      workspace.tree.trail (start workspace.here path) (directoryNames workspace path) =
        names.tails.map (· ++ start workspace.here path) ∧
      workspace.tree.directoriesOf place = (names ++ start workspace.here path).tails := by
  have hwalk := walk_names_of_walk (Workspace.locate_eq_ok_iff.1 hlocate).2
  have hname : ∀ name ∈ path.names, isFiller name.toList = false :=
    fun name => isFiller_of_mem_names
  obtain ⟨hend, htrail⟩ := trail_of_not_isUp hname hup hwalk
  rw [directoryNames, directoriesOf]
  rcases isDirectory_or_isFile hhere hlocate hplace with
    ⟨hfile, hdirectory⟩ | ⟨hfile, hdirectory, hnames⟩
  · rw [hfile, if_pos hdirectory, hend]
    exact ⟨path.names.reverse, htrail, rfl⟩
  · obtain ⟨front, last, hlast⟩ := (List.eq_nil_or_concat path.names).resolve_left hnames
    rw [List.concat_eq_append] at hlast
    rw [hlast] at hname hup hwalk hend ⊢
    rw [List.map_append, walk_append_eq_ok_iff] at hwalk
    obtain ⟨between, hbetween, -⟩ := hwalk
    obtain ⟨-, hfront⟩ := trail_of_not_isUp
      (fun name hmem => hname name (List.mem_append_left [last] hmem))
      (fun hmem => hup (List.mem_append_left [last] hmem)) hbetween
    rw [if_pos hfile, if_neg hdirectory, List.dropLast_concat, hend, List.reverse_append]
    exact ⟨front.reverse, hfront, rfl⟩

section

variable {near far : List Location}

theorem findsNearest_iff (hsearch : (findFile? workspace path).map workspace.locate =
      (near.findSome? (heldAt? workspace.tree)).map .ok)
    (hdirectories : workspace.tree.directoriesOf place = near ++ far) :
    FindsNearest workspace path place ↔
      (∃ directory ∈ near, (heldAt? workspace.tree directory).isSome = true) ∨
        ∀ directory ∈ far, heldAt? workspace.tree directory = none := by
  rw [FindsNearest, hsearch, hdirectories, List.findSome?_append, ← List.findSome?_isSome_iff,
    ← List.findSome?_eq_none_iff]
  cases near.findSome? (heldAt? workspace.tree) with
  | none => cases far.findSome? (heldAt? workspace.tree) <;> simp
  | some found => simp

theorem exists_near_or_none_iff {origin : Location} {held : Location → Option Location}
    (hnear : ∀ directory ∈ near, origin <:+ directory)
    (hfar : ∀ directory ∈ far, ¬origin <:+ directory) :
    ((∃ directory ∈ near, (held directory).isSome = true) ∨
        ∀ directory ∈ far, held directory = none) ↔
      (∃ directory ∈ near ++ far, origin <:+ directory ∧ (held directory).isSome = true) ∨
        ∀ directory ∈ near ++ far, held directory = none := by
  constructor
  · intro h
    by_cases hheld : ∃ directory ∈ near, (held directory).isSome = true
    · obtain ⟨directory, hmem, hheld⟩ := hheld
      exact .inl ⟨directory, List.mem_append_left far hmem, hnear directory hmem, hheld⟩
    · refine .inr fun directory hmem => ?_
      rcases List.mem_append.1 hmem with hmem | hmem
      · exact Option.not_isSome_iff_eq_none.1 fun hsome => hheld ⟨directory, hmem, hsome⟩
      · exact h.resolve_left hheld directory hmem
  · rintro (⟨directory, hmem, hsuffix, hheld⟩ | hnone)
    · rcases List.mem_append.1 hmem with hmem | hmem
      · exact .inl ⟨directory, hmem, hheld⟩
      · exact absurd hsuffix (hfar directory hmem)
    · exact .inr fun directory hmem => hnone directory (List.mem_append_right near hmem)

theorem isSuffix_of_mem_map_tails {names : List String} {origin : Location}
    (h : directory ∈ names.tails.map (· ++ origin)) : origin <:+ directory := by
  obtain ⟨front, -, rfl⟩ := List.mem_map.1 h
  exact List.suffix_append front origin

theorem not_isSuffix_of_mem_tail_tails {origin : Location} (h : directory ∈ origin.tails.tail) :
    ¬origin <:+ directory := by
  cases origin with
  | nil => simp at h
  | cons name outer =>
    have hsuffix : directory <:+ outer := by simpa using h
    intro hlong
    have hlength := (hlong.trans hsuffix).length_le
    rw [List.length_cons] at hlength
    omega

end

/-- What a search finds is what the places on the way of the path hold, the nearest first. Without
`..` in the path this is the nearest settings file of the target, unless the path is relative and
only directories above the current one hold any; then nothing is found. -/
theorem findFile?_along_path (hhere : workspace.tree.lookup workspace.here = some .directory)
    (hlocate : workspace.locate path = .ok place)
    (hplace : (workspace.tree.lookup place).isSome = true)
    (hroom : path.text.utf8ByteSize + newFileName.utf8ByteSize < pathLimit) :
    (findFile? workspace path).map workspace.locate =
      ((workspace.tree.trail (start workspace.here path) (directoryNames workspace path)).findSome?
        (heldAt? workspace.tree)).map .ok ∧
    (".." ∉ path.names →
      (FindsNearest workspace path place ↔ path.isAbsolute = true ∨
        (∃ directory ∈ workspace.tree.directoriesOf place, workspace.here <:+ directory ∧
          (heldAt? workspace.tree directory).isSome = true) ∨
        ∀ directory ∈ workspace.tree.directoriesOf place,
          heldAt? workspace.tree directory = none) ∧
      ((findFile? workspace path).isSome = true → FindsNearest workspace path place)) := by
  have hnul := (checkPath_eq_ok_iff.1 (Workspace.locate_eq_ok_iff.1 hlocate).1).1
  have hsearch := map_findFile? hhere hlocate hplace ⟨hnul, hroom⟩
  refine ⟨hsearch, fun hup => ?_⟩
  obtain ⟨names, htrail, hdirectories⟩ := directoriesOf_eq hhere hlocate hplace hup
  rw [htrail] at hsearch
  rw [List.tails_append] at hdirectories
  have hiff := findsNearest_iff hsearch hdirectories
  constructor
  · rw [hiff, hdirectories]
    by_cases habsolute : path.isAbsolute = true
    · exact iff_of_true (.inr (by simp [start, habsolute])) (.inl habsolute)
    · rw [start, if_neg habsolute, or_iff_right habsolute]
      exact exists_near_or_none_iff (fun _ => isSuffix_of_mem_map_tails)
        fun _ => not_isSuffix_of_mem_tail_tails
  · intro hfound
    have hsome := congrArg Option.isSome hsearch
    rw [Option.isSome_map, Option.isSome_map, hfound] at hsome
    exact hiff.2 (.inl (List.findSome?_isSome_iff.1 hsome.symm))

theorem findFile?_along_projectPath :
    (Workspace.project ["w"]).tree.lookup ["w"] = some .directory ∧
      (Workspace.project ["w"]).locate ⟨"test/./a.js"⟩ = .ok ["a.js", "test", "w"] ∧
      ".." ∉ names ⟨"test/./a.js"⟩ ∧ (findFile? (.project ["w"]) ⟨"test/./a.js"⟩).isSome = true ∧
      FindsNearest (.project ["w"]) ⟨"test/./a.js"⟩ ["a.js", "test", "w"] := by
  have hhere : (Workspace.project ["w"]).tree.lookup ["w"] = some .directory := by rfl
  have hlocate : (Workspace.project ["w"]).locate ⟨"test/./a.js"⟩ = .ok ["a.js", "test", "w"] := by
    rfl
  have hup : ".." ∉ names ⟨"test/./a.js"⟩ := by decide
  have hfound : (findFile? (.project ["w"]) ⟨"test/./a.js"⟩).isSome = true := by rfl
  obtain ⟨-, hnearest⟩ := findFile?_along_path hhere hlocate (by rfl) (by decide)
  exact ⟨hhere, hlocate, hup, hfound, (hnearest hup).2 hfound⟩

theorem exists_not_findsNearest :
    ((Workspace.project ["w"]).locate ⟨"/w/.."⟩ = .ok [] ∧
      ¬FindsNearest (.project ["w"]) ⟨"/w/.."⟩ []) ∧
    (Workspace.project ["test", "w"]).locate ⟨"a.js"⟩ = .ok ["a.js", "test", "w"] ∧
      ¬FindsNearest (.project ["test", "w"]) ⟨"a.js"⟩ ["a.js", "test", "w"] := by
  have hbelow : findFile? (.project ["w"]) ⟨"/w/.."⟩ = some ⟨"/w/.mocha-lens.json"⟩ := by rfl
  have hroot : ((Workspace.project ["w"]).tree.directoriesOf []).findSome?
      (heldAt? (Workspace.project ["w"]).tree) = none := by rfl
  have hlost : findFile? (.project ["test", "w"]) ⟨"a.js"⟩ = none := by rfl
  have habove : ((Workspace.project ["test", "w"]).tree.directoriesOf
      ["a.js", "test", "w"]).findSome? (heldAt? (Workspace.project ["test", "w"]).tree) =
        some [".mocha-lens.json", "w"] := by rfl
  refine ⟨⟨by rfl, ?_⟩, by rfl, ?_⟩
  · simp [FindsNearest, hbelow, hroot]
  · simp [FindsNearest, hlost, habove]

end Settings

end TestOutline
