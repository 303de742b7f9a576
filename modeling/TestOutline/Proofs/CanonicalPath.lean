import TestOutline.Proofs.Following
import TestOutline.Proofs.RequestedFile

/-! Canonical paths. The canonical form of a path is the absolute path of the place that the path
leads to. It has the names of the place and no others, so it leads to that place or nowhere; and a
name behind it is written, found and read in that place. -/

namespace TestOutline

structure Path.IsName (name : String) : Prop where
  no_slash : '/' ∉ name.toList
  not_filler : isFiller name.toList = false
  not_up : isUp name.toList = false

instance (name : String) : Decidable (Path.IsName name) :=
  decidable_of_iff
    ('/' ∉ name.toList ∧ Path.isFiller name.toList = false ∧ Path.isUp name.toList = false)
    ⟨fun h => ⟨h.1, h.2.1, h.2.2⟩, fun h => ⟨h.no_slash, h.not_filler, h.not_up⟩⟩

namespace Location
open TestOutline.Path

def IsProper (place : Location) : Prop :=
  ∀ name ∈ place, IsName name

instance (place : Location) : Decidable place.IsProper :=
  inferInstanceAs (Decidable (∀ name ∈ place, IsName name))

def segments (place : Location) : List (List Char) :=
  place.reverse.map String.toList

variable {place : Location} {name : String}

theorem path_eq (place : Location) : place.path = ofSegments .root place.segments := rfl

theorem IsProper.tail (h : place.IsProper) : Location.IsProper place.tail :=
  fun name hname => h name (List.mem_of_mem_tail hname)

theorem IsProper.cons (h : place.IsProper) (hname : IsName name) :
    Location.IsProper (name :: place) :=
  List.forall_mem_cons.2 ⟨hname, h⟩

theorem exists_name_of_mem_segments {segment : List Char} (h : segment ∈ place.segments) :
    ∃ name ∈ place, name.toList = segment := by
  obtain ⟨name, hname, rfl⟩ := List.mem_map.1 h
  exact ⟨name, List.mem_reverse.1 hname, rfl⟩

theorem IsProper.admissible (h : place.IsProper) : Admissible .root place.segments where
  no_slash segment hsegment := by
    obtain ⟨name, hname, rfl⟩ := exists_name_of_mem_segments hsegment
    exact (h name hname).no_slash
  first := by simp

theorem IsProper.trimEnd_segments (h : place.IsProper) :
    trimEnd place.segments = place.segments := by
  cases place with
  | nil => rfl
  | cons name outer =>
    have hname := (h name (List.mem_cons_self ..)).not_filler
    simp [trimEnd, segments, hname]

theorem IsProper.namesOf_segments (h : place.IsProper) :
    namesOf place.segments = place.reverse :=
  namesOf_map_toList fun name hname => (h name (List.mem_reverse.1 hname)).not_filler

theorem IsProper.names_path (h : place.IsProper) : place.path.names = place.reverse := by
  rw [path_eq, names_ofSegments h.admissible, h.namesOf_segments]

theorem segments_cons (name : String) (place : Location) :
    Location.segments (name :: place) = place.segments ++ [name.toList] := by
  simp [segments]

theorem IsProper.segments_path_cons (h : Location.IsProper (name :: place)) :
    (Location.path (name :: place)).segments = place.segments ++ [name.toList] := by
  rw [path_eq, segments_ofSegments h.admissible (by simp [segments_cons]), segments_cons]

theorem IsProper.join_name (h : place.IsProper) (hname : IsName name) :
    place.path.join ⟨name⟩ = Location.path (name :: place) := by
  rw [path_eq, Path.join_name h.admissible h.trimEnd_segments hname.no_slash hname.not_filler,
    path_eq, segments_cons]

theorem IsProper.parent?_join_name (h : place.IsProper) (hname : IsName name) :
    (place.path.join ⟨name⟩).parent? = some place.path :=
  Path.parent?_join_name h.admissible h.trimEnd_segments hname.no_slash hname.not_filler

theorem isAbsolute_path (place : Location) : place.path.isAbsolute = true := by
  simp [path_eq, ofSegments, isAbsolute, anchor]

end Location

namespace FileTree
open TestOutline.Path

variable {tree : FileTree} {here place next : Location} {name : String}

theorem isProper_of_step {segment : List Char} (hhere : here.IsProper) (hslash : '/' ∉ segment)
    (h : tree.step here segment = .ok next) : next.IsProper := by
  obtain ⟨-, ⟨-, rfl⟩ | ⟨-, -, rfl⟩ | ⟨hfiller, hup, -, -, rfl⟩⟩ := step_eq_ok_iff.1 h
  · exact hhere
  · exact hhere.tail
  · exact hhere.cons ⟨by simpa using hslash, by simpa using hfiller, by simpa using hup⟩

theorem isProper_of_walk {segments : List (List Char)} (hhere : here.IsProper)
    (hslash : ∀ segment ∈ segments, '/' ∉ segment) (h : tree.walk here segments = .ok next) :
    next.IsProper := by
  induction segments generalizing here with
  | nil => exact Except.ok.inj h ▸ hhere
  | cons segment segments ih =>
    obtain ⟨between, hstep, hwalk⟩ := walk_cons_eq_ok_iff.1 h
    exact ih (isProper_of_step hhere (hslash segment (List.mem_cons_self ..)) hstep)
      (fun other hmem => hslash other (List.mem_cons_of_mem _ hmem)) hwalk

theorem eq_of_walk_segments (hplace : place.IsProper)
    (h : tree.walk [] place.segments = .ok next) : next = place := by
  have hup : ∀ segment ∈ place.segments, isUp segment = false := by
    intro segment hsegment
    obtain ⟨name, hname, rfl⟩ := Location.exists_name_of_mem_segments hsegment
    exact (hplace name hname).not_up
  rw [eq_of_walk_of_not_isUp hup h, hplace.namesOf_segments, List.reverse_reverse, List.append_nil]

theorem start_path (here place : Location) : start here place.path = [] := by
  rw [start, if_pos place.isAbsolute_path]

theorem eq_of_locate_path (hplace : place.IsProper)
    (h : tree.locate here place.path = .ok next) : next = place := by
  have hwalk := (locate_eq_ok_iff.1 h).2
  rw [start_path] at hwalk
  cases place with
  | nil => exact (walk_fillers (by decide) hwalk).1
  | cons name place =>
    rw [hplace.segments_path_cons, ← Location.segments_cons] at hwalk
    exact eq_of_walk_segments hplace hwalk

theorem destination_path (hplace : Location.IsProper (name :: place))
    (h : tree.destination here (Location.path (name :: place)) = .ok next) :
    next = name :: place ∧ tree.lookup place = some .directory ∧
      tree.lookup (name :: place) ≠ some .directory ∧
      ((tree.lookup (name :: place)).isSome = true →
        tree.locate here (Location.path (name :: place)) = .ok (name :: place)) := by
  obtain ⟨hcheck, hfile, before, last, directory, hsegments, hwalk, hdirectory, hfiller, hup,
    hlength, rfl⟩ := exists_of_destination h
  rw [hplace.segments_path_cons] at hsegments
  obtain ⟨rfl, hlast⟩ := List.append_inj' hsegments rfl
  obtain rfl : name.toList = last := List.cons.inj hlast |>.1
  rw [start_path] at hwalk
  obtain rfl := eq_of_walk_segments (fun other hother => hplace other (by simp [hother])) hwalk
  rw [String.ofList_toList] at hfile hlength ⊢
  refine ⟨rfl, hdirectory, hfile, fun hthere => locate_eq_ok_iff.2 ⟨hcheck, ?_⟩⟩
  rw [start_path, hplace.segments_path_cons, walk_append_eq_ok_iff]
  refine ⟨_, hwalk, walk_cons_eq_ok_iff.2 ⟨_, step_eq_ok_iff.2 ⟨hdirectory, ?_⟩, rfl⟩⟩
  rw [String.ofList_toList]
  exact .inr (.inr ⟨hfiller, hup, hlength, hthere, rfl⟩)

end FileTree

namespace Workspace
open FileTree

variable {workspace written : Workspace} {path root : Path} {place : Location} {name : String}
  {content : Option String}

theorem canonical_eq_ok_iff : workspace.canonical path = .ok root ↔
    hasNul path = false ∧ path.text ≠ "" ∧
      ∃ place, workspace.follow path = .ok place ∧ root = place.path := by
  rw [canonical]
  cases hnul : hasNul path with
  | true => simp
  | false =>
    by_cases hempty : path.text = ""
    · simp [hempty]
    · rw [if_neg Bool.false_ne_true, if_neg (by simpa using hempty), bind_eq_ok_iff]
      simp [hempty, follow, eq_comm]

theorem exists_of_canonical (hhere : workspace.here.IsProper)
    (h : workspace.canonical path = .ok root) :
    ∃ place : Location, place.IsProper ∧ root = place.path := by
  obtain ⟨-, -, place, hfollow, rfl⟩ := canonical_eq_ok_iff.1 h
  refine ⟨place, ?_, rfl⟩
  have hstart : (start workspace.here path).IsProper := by
    rw [start]
    split
    · simp [Location.IsProper]
    · exact hhere
  exact isProper_of_walk hstart path.admissible_segments.no_slash hfollow

theorem isFile_path (hplace : place.IsProper)
    (h : workspace.tree.lookup place = some .directory) : workspace.isFile place.path = false := by
  rw [← Bool.not_eq_true]
  intro hfile
  obtain ⟨found, text, hlocate, hfound⟩ := exists_of_isFile hfile
  rw [eq_of_locate_path hplace hlocate, h] at hfound
  simp at hfound

theorem write_eq_ok_iff : workspace.write path content = .ok written ↔
    ∃ place, workspace.tree.destination workspace.here path = .ok place ∧
      written = { workspace with tree := workspace.tree.update place (some (.file content)) } := by
  rw [write, bind_eq_ok_iff]
  simp [eq_comm]

theorem canonical_of_write (hwrite : workspace.write path content = .ok written) {other : Path}
    (h : workspace.canonical other = .ok root) : written.canonical other = .ok root := by
  obtain ⟨place, hplace, rfl⟩ := write_eq_ok_iff.1 hwrite
  obtain ⟨hnul, hempty, target, hfollow, rfl⟩ := canonical_eq_ok_iff.1 h
  exact canonical_eq_ok_iff.2 ⟨hnul, hempty, target,
    walk_update (exists_of_destination hplace).2.1 content hfollow, rfl⟩

theorem isFile_of_write (h : workspace.write path content = .ok written) :
    written.isFile path = true := by
  obtain ⟨place, hplace, rfl⟩ := write_eq_ok_iff.1 h
  simp [isFile, lookup, locate, locate_update content hplace]

end Workspace

end TestOutline
