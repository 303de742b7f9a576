import TestOutline.Proofs.CanonicalPath

/-! Names behind one path. What stands in front of a name in the text of a path does not depend on
the name, so names behind one path have the same parent and are looked up in the same directory. -/

namespace TestOutline

namespace Path
open Text

/-- A text that a name can stand behind: nothing, or something that ends in a slash. -/
def IsFront (front : List Char) : Prop :=
  front = [] ∨ front.getLast? = some '/'

theorem IsFront.tail {c : Char} {front : List Char} (h : IsFront (c :: front)) : IsFront front := by
  cases front with
  | nil => exact .inl rfl
  | cons d front => exact .inr (by simpa [IsFront] using h)

theorem IsFront.exists_pieces {front : List Char} (h : IsFront front) :
    ∃ before, ∀ name : List Char, '/' ∉ name → pieces '/' (front ++ name) = before ++ [name] := by
  rcases h with rfl | hlast
  · exact ⟨[], fun name hslash => pieces_of_not_mem hslash⟩
  · obtain ⟨outer, rfl⟩ := List.getLast?_eq_some_iff.1 hlast
    refine ⟨pieces '/' outer, fun name hslash => ?_⟩
    rw [List.append_assoc, List.singleton_append, pieces_append_cons, pieces_of_not_mem hslash]

theorem IsFront.exists_segments {front : List Char} (h : IsFront front) :
    ∃ anchor before, ∀ name, IsName name →
      Path.anchor ⟨.ofList (front ++ name.toList)⟩ = anchor ∧
        Path.segments ⟨.ofList (front ++ name.toList)⟩ = before ++ [name.toList] := by
  by_cases hroot : ∃ rest, front = '/' :: rest
  · obtain ⟨rest, rfl⟩ := hroot
    obtain ⟨before, hbefore⟩ := h.tail.exists_pieces
    exact ⟨.root, before, fun name hname => by
      simp [anchor, segments, hbefore name.toList hname.no_slash]⟩
  by_cases hhere : ∃ rest, front = '.' :: '/' :: rest
  · obtain ⟨rest, rfl⟩ := hhere
    obtain ⟨before, hbefore⟩ := h.tail.tail.exists_pieces
    exact ⟨.here, before, fun name hname => by
      simp [anchor, segments, hbefore name.toList hname.no_slash]⟩
  obtain ⟨before, hbefore⟩ := h.exists_pieces
  refine ⟨.relative, before, fun name hname => ?_⟩
  rw [← hbefore name.toList hname.no_slash]
  cases front with
  | nil =>
    have hrelative := relative_of_name hname.no_slash hname.not_filler []
    rwa [List.append_nil] at hrelative
  | cons c front =>
    have hrelative := @relative_of_ne ⟨.ofList (c :: front ++ name.toList)⟩
    rw [String.toList_ofList] at hrelative
    apply hrelative
    · simpa using hroot
    · intro hlone
      obtain ⟨rfl, hrest⟩ := List.cons.inj hlone
      obtain ⟨rfl, -⟩ := List.append_eq_nil_iff.1 hrest
      simp [IsFront] at h
    · intro rest heq
      obtain ⟨rfl, hrest⟩ := List.cons.inj heq
      cases front with
      | nil => simp [IsFront] at h
      | cons d front => exact hhere ⟨front, by rw [(List.cons.inj hrest).1]⟩

theorem IsName.isAbsolute {name : String} (h : IsName name) : Path.isAbsolute ⟨name⟩ = false := by
  have hanchor := (relative_of_name h.no_slash h.not_filler []).1
  rw [List.append_nil, String.ofList_toList] at hanchor
  simp [Path.isAbsolute, hanchor]

variable {path : Path} {name other : String}

theorem exists_front (path : Path) : ∃ front, IsFront front ∧ ∀ name, IsName name →
    path.join ⟨name⟩ = ⟨.ofList (front ++ name.toList)⟩ := by
  by_cases hend : (path.text.isEmpty || path.text.toList.getLast? = some '/') = true
  · refine ⟨path.text.toList, by simpa [IsFront] using hend, fun name hname => ?_⟩
    rw [join, if_neg (by simp [hname.isAbsolute]), if_pos hend, String.ofList_append]
    simp
  · refine ⟨path.text.toList ++ ['/'], by simp [IsFront], fun name hname => ?_⟩
    rw [join, if_neg (by simp [hname.isAbsolute]), if_neg hend]
    simp [← String.toList_inj]

theorem exists_segments_join (path : Path) : ∃ anchor before, ∀ name, IsName name →
    (path.join ⟨name⟩).anchor = anchor ∧ (path.join ⟨name⟩).segments = before ++ [name.toList] := by
  obtain ⟨front, hfront, hjoin⟩ := path.exists_front
  obtain ⟨anchor, before, hsegments⟩ := hfront.exists_segments
  exact ⟨anchor, before, fun name hname => by rw [hjoin name hname]; exact hsegments name hname⟩

theorem parent?_join_eq (hname : IsName name) (hother : IsName other) :
    (path.join ⟨name⟩).parent? = (path.join ⟨other⟩).parent? := by
  obtain ⟨anchor, before, hjoin⟩ := path.exists_segments_join
  obtain ⟨hanchor, hsegments⟩ := hjoin name hname
  obtain ⟨hanchorOther, hsegmentsOther⟩ := hjoin other hother
  rw [parent?, parent?, hanchor, hanchorOther, hsegments, hsegmentsOther]
  simp [hname.not_filler, hother.not_filler]

theorem utf8ByteSize_join_add (hname : IsName name) (hother : IsName other) :
    (path.join ⟨name⟩).text.utf8ByteSize + other.utf8ByteSize =
      (path.join ⟨other⟩).text.utf8ByteSize + name.utf8ByteSize := by
  obtain ⟨front, -, hjoin⟩ := path.exists_front
  rw [hjoin name hname, hjoin other hother]
  simp only [String.ofList_append, String.utf8ByteSize_append, String.ofList_toList]
  omega

end Path

namespace FileTree
open TestOutline.Path

variable {tree : FileTree} {here place next : Location} {path : Path} {name other : String}
  {content : Option String}

theorem checkPath_join_other (hname : IsName name) (hother : IsName other)
    (hnul : '\x00' ∉ other.toList) (hsize : (path.join ⟨other⟩).text.utf8ByteSize ≤ pathLimit)
    (h : checkPath (path.join ⟨name⟩) = .ok ()) : checkPath (path.join ⟨other⟩) = .ok () := by
  obtain ⟨front, -, hjoin⟩ := path.exists_front
  rw [hjoin other hother] at hsize ⊢
  rw [hjoin name hname] at h
  rw [checkPath_eq_ok_iff, String.toList_ofList] at h ⊢
  refine ⟨fun hmem => (List.mem_append.1 hmem).elim ?_ hnul, ?_, hsize⟩
  · exact fun hmem => h.1 (List.mem_append_left _ hmem)
  · intro hempty
    have hnone : front ++ other.toList = [] := by simpa using congrArg String.toList hempty
    simpa [(List.append_eq_nil_iff.1 hnone).2, isFiller] using hother.not_filler

theorem locate_join_other (hname : IsName name) (hother : IsName other)
    (h : tree.locate here (path.join ⟨name⟩) = .ok place) :
    ∃ directory, place = name :: directory ∧ (checkPath (path.join ⟨other⟩) = .ok () →
      other.utf8ByteSize ≤ nameLimit → (tree.lookup (other :: directory)).isSome = true →
        tree.locate here (path.join ⟨other⟩) = .ok (other :: directory)) := by
  obtain ⟨anchor, before, hjoin⟩ := path.exists_segments_join
  obtain ⟨hanchor, hsegments⟩ := hjoin name hname
  obtain ⟨hanchorOther, hsegmentsOther⟩ := hjoin other hother
  have hwalk := (locate_eq_ok_iff.1 h).2
  rw [hsegments, walk_append_eq_ok_iff] at hwalk
  obtain ⟨directory, hbefore, hlast⟩ := hwalk
  obtain ⟨found, hstep, hfound⟩ := walk_cons_eq_ok_iff.1 hlast
  obtain ⟨hdirectory, hnext⟩ := step_eq_ok_iff.1 hstep
  simp only [hname.not_filler, hname.not_up, Bool.false_eq_true, false_and, false_or, and_false,
    true_and, String.ofList_toList] at hnext
  obtain ⟨-, -, rfl⟩ := hnext
  obtain rfl := Except.ok.inj hfound
  refine ⟨directory, rfl, fun hcheck hlimit hthere => locate_eq_ok_iff.2 ⟨hcheck, ?_⟩⟩
  have hstart : start here (path.join ⟨other⟩) = start here (path.join ⟨name⟩) := by
    rw [start, start, isAbsolute, isAbsolute, hanchor, hanchorOther]
  rw [hstart, hsegmentsOther, walk_append_eq_ok_iff]
  refine ⟨directory, hbefore, walk_cons_eq_ok_iff.2 ⟨_, step_eq_ok_iff.2 ⟨hdirectory, ?_⟩, rfl⟩⟩
  rw [String.ofList_toList]
  exact .inr (.inr ⟨hother.not_filler, hother.not_up, hlimit, hthere, rfl⟩)

end FileTree

namespace Workspace
open FileTree TestOutline.Path

variable {workspace : Workspace} {path : Path} {place : Location} {name : String}

theorem exists_follow_of_locate_join (hname : IsName name)
    (h : workspace.locate (path.join ⟨name⟩) = .ok place) : ∃ directory,
      workspace.follow path = .ok directory ∧
        workspace.tree.lookup directory = some .directory := by
  have hfollow := (locate_eq_ok_iff.1 h).2
  have hstart : start workspace.here (path.join ⟨name⟩) = start workspace.here path := by
    rw [start, start, isAbsolute_join_relative path hname.isAbsolute]
  have hdirectory : workspace.tree.lookup (start workspace.here path) = some .directory := by
    obtain ⟨anchor, before, hjoin⟩ := path.exists_segments_join
    obtain ⟨segment, segments, hsegments⟩ := List.exists_cons_of_ne_nil
      (List.append_ne_nil_of_right_ne_nil before (List.cons_ne_nil name.toList []))
    have hwalk := hfollow
    rw [follow, hstart, (hjoin name hname).2, hsegments] at hwalk
    obtain ⟨between, hstep, -⟩ := walk_cons_eq_ok_iff.1 hwalk
    exact (step_eq_ok_iff.1 hstep).1
  obtain ⟨directory, hpath, hentry, -⟩ :=
    exists_of_follow_join hdirectory hname.isAbsolute hfollow
  exact ⟨directory, hpath, hentry⟩

end Workspace

end TestOutline
