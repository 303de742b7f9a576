import TestOutline.Proofs.Ways

/-! Following paths. A path is followed from the place where it starts, segment by segment, however
long its text is. Joined paths are followed one after the other: the second one starts where the
first one leads. -/

namespace TestOutline

namespace Path
open Text

theorem exists_fillers (path : Path) : ∃ fillers, (∀ segment ∈ fillers, isFiller segment = true) ∧
    pieces '/' path.text.toList = fillers ++ path.segments := by
  rw [segments.eq_def]
  split
  · next h => exact ⟨[[]], by simp [isFiller], by simp [h, pieces_cons]⟩
  · next h => exact ⟨[['.']], by simp [isFiller], by simp [h, pieces_cons]⟩
  · next h => exact ⟨[['.']], by simp [isFiller], by simp [h, pieces_cons]⟩
  · exact ⟨[], by simp, rfl⟩

theorem isAbsolute_join_relative (path : Path) {other : Path} (h : other.isAbsolute = false) :
    (path.join other).isAbsolute = path.isAbsolute := by
  rw [Bool.eq_iff_iff]
  constructor
  · intro hjoin
    rw [join, if_neg (by simp [h])] at hjoin
    rw [isAbsolute_iff] at hjoin ⊢
    cases htext : path.text.toList with
    | nil =>
      have hempty : path.text = "" := String.toList_eq_nil_iff.1 htext
      have hother : other.isAbsolute = true := by
        rw [isAbsolute_iff]
        simpa [hempty] using hjoin
      simp [h] at hother
    | cons c text =>
      split at hjoin
      · simpa [htext] using hjoin
      · simpa [htext] using hjoin
  · exact fun habsolute => isAbsolute_join habsolute other

theorem pieces_join (path : Path) {other : Path} (h : other.isAbsolute = false) :
    ∃ front, (pieces '/' path.text.toList = front ∨ pieces '/' path.text.toList = front ++ [[]]) ∧
      pieces '/' (path.join other).text.toList = front ++ pieces '/' other.text.toList := by
  rw [join, if_neg (by simp [h])]
  split
  · next hend =>
    rw [Bool.or_eq_true, decide_eq_true_iff, String.isEmpty_iff] at hend
    rcases hend with hempty | hslash
    · exact ⟨[], .inr (by simp [hempty]), by simp [hempty]⟩
    · obtain ⟨init, hinit⟩ := List.getLast?_eq_some_iff.1 hslash
      refine ⟨pieces '/' init, .inr ?_, ?_⟩
      · rw [hinit, pieces_append_cons, pieces_nil]
      · simp [hinit, pieces_append_cons]
  · exact ⟨_, .inl rfl, by simp [pieces_append_cons]⟩

theorem map_toList_names (path : Path) :
    path.names.map String.toList = path.segments.filter (!isFiller ·) := by
  rw [names, List.map_map]
  simp

theorem isFiller_of_mem_names {path : Path} {name : String} (h : name ∈ path.names) :
    isFiller name.toList = false := by
  obtain ⟨segment, hsegment, rfl⟩ := List.mem_map.1 h
  simpa using (List.mem_filter.1 hsegment).2

theorem namesOf_map_toList {names : List String}
    (hname : ∀ name ∈ names, isFiller name.toList = false) :
    namesOf (names.map String.toList) = names := by
  have hfilter : (names.map String.toList).filter (!isFiller ·) = names.map String.toList := by
    rw [List.filter_eq_self]
    simpa using hname
  rw [namesOf, hfilter, List.map_map]
  simp

end Path

namespace FileTree
open TestOutline.Path

variable {tree : FileTree} {here place : Location}

theorem walk_cons (segment : List Char) (segments : List (List Char)) :
    tree.walk here (segment :: segments) = tree.step here segment >>= (tree.walk · segments) := by
  rw [walk, List.foldlM_cons]
  rfl

theorem step_filler {segment : List Char} (h : isFiller segment = true)
    (hhere : tree.lookup here = some .directory) : tree.step here segment = .ok here :=
  (step_of_isFiller h).2 ⟨hhere, rfl⟩

theorem walk_fillers_append {fillers : List (List Char)}
    (h : ∀ segment ∈ fillers, isFiller segment = true)
    (hhere : tree.lookup here = some .directory) (rest : List (List Char)) :
    tree.walk here (fillers ++ rest) = tree.walk here rest := by
  induction fillers with
  | nil => rfl
  | cons segment fillers ih =>
    rw [List.cons_append, walk_cons, step_filler (h segment (List.mem_cons_self ..)) hhere]
    exact ih fun other hmem => h other (List.mem_cons_of_mem _ hmem)

theorem walk_empty_cons {rest : List (List Char)} (h : rest ≠ []) :
    tree.walk here ([] :: rest) = tree.walk here rest := by
  by_cases hhere : tree.lookup here = some .directory
  · exact @walk_fillers_append tree here [[]] (by simp [isFiller]) hhere rest
  · obtain ⟨segment, rest, rfl⟩ := List.exists_cons_of_ne_nil h
    rw [walk_cons, walk_cons, step, step]
    split
    · rfl
    · rfl
    · next hdirectory => exact absurd hdirectory hhere

theorem walk_pieces (path : Path) (hhere : tree.lookup here = some .directory) :
    tree.walk here (Text.pieces '/' path.text.toList) = tree.walk here path.segments := by
  obtain ⟨fillers, hfillers, hpieces⟩ := path.exists_fillers
  rw [hpieces, walk_fillers_append hfillers hhere]

theorem walk_names_of_walk {path : Path} (h : tree.walk here path.segments = .ok place) :
    tree.walk here (path.names.map String.toList) = .ok place := by
  rw [map_toList_names]
  exact walk_names h

end FileTree

namespace Workspace
open FileTree

variable {workspace : Workspace} {path other : Path} {place directory : Location}

/-- The place that a path leads to, however long its text is. -/
def follow (workspace : Workspace) (path : Path) : Except FileError Location :=
  workspace.tree.walk (start workspace.here path) path.segments

def movedTo (workspace : Workspace) (directory : Location) : Workspace :=
  { workspace with here := directory }

theorem locate_eq_ok_iff : workspace.locate path = .ok place ↔
    checkPath path = .ok () ∧ workspace.follow path = .ok place :=
  FileTree.locate_eq_ok_iff

theorem follow_of_isAbsolute (h : path.isAbsolute = true) (directory : Location) :
    (workspace.movedTo directory).follow path = workspace.follow path := by
  rw [follow, follow, start, start, if_pos h, if_pos h, movedTo]

theorem follow_join (hstart : workspace.tree.lookup (start workspace.here path) = some .directory)
    (h : other.isAbsolute = false) : workspace.follow (path.join other) =
      workspace.follow path >>= (workspace.tree.walk · (Text.pieces '/' other.text.toList)) := by
  obtain ⟨front, hfront, hpieces⟩ := path.pieces_join h
  have hjoin : start workspace.here (path.join other) = start workspace.here path := by
    rw [start, start, Path.isAbsolute_join_relative path h]
  rw [follow, follow, hjoin, ← walk_pieces _ hstart, ← walk_pieces _ hstart, hpieces, walk_append]
  rcases hfront with hfront | hfront
  · rw [hfront]
  · rw [hfront, walk_append]
    cases workspace.tree.walk (start workspace.here path) front with
    | error error => rfl
    | ok between =>
      have hempty := @walk_empty_cons workspace.tree between _
        (Text.pieces_ne_nil '/' other.text.toList)
      rw [← List.singleton_append, walk_append] at hempty
      exact hempty.symm

theorem follow_join_of_ok (hpath : workspace.follow path = .ok directory)
    (hdirectory : workspace.tree.lookup directory = some .directory)
    (h : other.isAbsolute = false) :
    workspace.follow (path.join other) = (workspace.movedTo directory).follow other := by
  rw [follow_join (lookup_of_walk hpath hdirectory) h, hpath]
  change workspace.tree.walk directory _ = _
  rw [walk_pieces _ hdirectory, follow, start, if_neg (by simp [h])]
  rfl

theorem exists_of_follow_join
    (hstart : workspace.tree.lookup (start workspace.here path) = some .directory)
    (h : other.isAbsolute = false) (hjoin : workspace.follow (path.join other) = .ok place) :
    ∃ directory, workspace.follow path = .ok directory ∧
      workspace.tree.lookup directory = some .directory ∧
      (workspace.movedTo directory).follow other = .ok place := by
  have hbind := hjoin
  rw [follow_join hstart h, bind_eq_ok_iff] at hbind
  obtain ⟨directory, hpath, hwalk⟩ := hbind
  obtain ⟨segment, rest, hpieces⟩ :=
    List.exists_cons_of_ne_nil (Text.pieces_ne_nil '/' other.text.toList)
  rw [hpieces] at hwalk
  obtain ⟨between, hstep, -⟩ := walk_cons_eq_ok_iff.1 hwalk
  have hdirectory := (step_eq_ok_iff.1 hstep).1
  exact ⟨directory, hpath, hdirectory, by rw [← follow_join_of_ok hpath hdirectory h, hjoin]⟩

theorem eq_start_of_names_eq_nil (hfollow : workspace.follow path = .ok place)
    (hnames : path.names = []) : place = start workspace.here path := by
  have hwalk := walk_names_of_walk hfollow
  rw [hnames] at hwalk
  exact (Except.ok.inj hwalk).symm

theorem isDirectory_of_names_eq_nil (hhere : workspace.tree.lookup workspace.here = some .directory)
    (hfollow : workspace.follow path = .ok place) (hnames : path.names = []) :
    workspace.tree.lookup place = some .directory := by
  rw [eq_start_of_names_eq_nil hfollow hnames]
  by_cases habsolute : path.isAbsolute = true
  · have hroot : path.anchor = .root := of_decide_eq_true habsolute
    obtain ⟨-, hdirectory⟩ := walk_fillers (Path.namesOf_eq_nil_iff.1 hnames) hfollow
    exact hdirectory.resolve_left (Path.segments_ne_nil_of_root hroot)
  · rw [start, if_neg habsolute, hhere]

end Workspace

end TestOutline
