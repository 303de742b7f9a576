import TestOutline.Proofs.Segments
import TestOutline.Proofs.Writing

/-! Ways through a tree of files. Where a path leads depends only on the place it starts from and on
its names. A path that leads somewhere leads through its parent, and what is left of it below
another path leads on from where that one ends. -/

namespace TestOutline

namespace Path

theorem filter_eq_of_namesOf_eq {segments others : List (List Char)}
    (h : namesOf segments = namesOf others) :
    segments.filter (!isFiller ·) = others.filter (!isFiller ·) := by
  rw [namesOf, namesOf] at h
  exact List.map_injective_iff.2 (fun _ _ => String.ofList_injective) h

end Path

namespace Text

theorem intercalate_isPrefix {separator : Char} {front texts : List (List Char)}
    (h : front <+: texts) : [separator].intercalate front <+: [separator].intercalate texts := by
  obtain ⟨behind, rfl⟩ := h
  induction front with
  | nil => simp
  | cons text front ih =>
    cases front with
    | nil =>
      cases behind with
      | nil => simp
      | cons next behind => simp
    | cons next front =>
      rw [List.cons_append, List.cons_append, List.intercalate_cons_cons,
        List.intercalate_cons_cons]
      exact List.prefix_append_right_inj _ |>.2 ih

theorem intercalate_isSuffix {separator : Char} {behind texts : List (List Char)}
    (h : behind <:+ texts) : [separator].intercalate behind <:+ [separator].intercalate texts := by
  obtain ⟨front, rfl⟩ := h
  induction front with
  | nil => simp
  | cons text front ih =>
    cases hrest : front ++ behind with
    | nil =>
      obtain ⟨-, rfl⟩ := List.append_eq_nil_iff.1 hrest
      simp
    | cons next rest =>
      rw [List.cons_append, hrest, List.intercalate_cons_cons, ← hrest]
      exact ih.trans (List.suffix_append ..)

end Text

namespace Path

theorem text_isPrefix (anchor : Anchor) {front segments : List (List Char)}
    (h : front <+: segments) :
    (ofSegments anchor front).text.toList <+: (ofSegments anchor segments).text.toList := by
  have hjoined := @Text.intercalate_isPrefix '/' _ _ h
  cases anchor with
  | root => simpa [ofSegments] using hjoined
  | relative => simpa [ofSegments] using hjoined
  | here =>
    cases front with
    | nil => cases segments <;> simp [ofSegments]
    | cons first front =>
      obtain ⟨behind, rfl⟩ := h
      simpa [ofSegments] using hjoined

theorem intercalate_isSuffix_text (anchor : Anchor) (segments : List (List Char)) :
    ['/'].intercalate segments <:+ (ofSegments anchor segments).text.toList := by
  cases anchor with
  | root => simp [ofSegments]
  | relative => simp [ofSegments]
  | here =>
    cases segments with
    | nil => simp [ofSegments]
    | cons first rest => simpa [ofSegments] using List.suffix_append ['.', '/'] _

theorem trim_isInfix_text {path : Path} {front tail : List (List Char)}
    (h : path.segments = front ++ tail) :
    (ofSegments .relative (trim tail)).text.toList <:+: path.text.toList := by
  have hbehind : tail.dropWhile isFiller <:+ path.segments :=
    (List.dropWhile_suffix _).trans (h ▸ List.suffix_append front tail)
  have hsuffix := intercalate_isSuffix_text path.anchor path.segments
  rw [ofSegments_segments] at hsuffix
  have hrest : ['/'].intercalate (trim tail) <:+: path.text.toList :=
    (Text.intercalate_isPrefix (trimEnd_isPrefix _)).isInfix.trans
      ((Text.intercalate_isSuffix hbehind).trans hsuffix).isInfix
  simpa [ofSegments] using hrest

theorem trimEnd_isPrefix_text {path : Path} {front tail : List (List Char)}
    (h : path.segments = front ++ tail) :
    (ofSegments path.anchor (trimEnd front)).text.toList <+: path.text.toList := by
  have hprefix := text_isPrefix path.anchor
    ((trimEnd_isPrefix front).trans (h ▸ List.prefix_append front tail))
  rwa [ofSegments_segments] at hprefix

end Path

namespace FileTree
open TestOutline.Path

variable {tree : FileTree} {here next place : Location} {path : Path}

theorem step_of_isFiller {segment : List Char} (h : isFiller segment = true) :
    tree.step here segment = .ok next ↔ tree.lookup here = some .directory ∧ next = here := by
  simp [step_eq_ok_iff, h]

theorem lookup_of_walk {segments : List (List Char)} (h : tree.walk here segments = .ok next)
    (hnext : tree.lookup next = some .directory) : tree.lookup here = some .directory := by
  cases segments with
  | nil =>
    obtain rfl : here = next := Except.ok.inj h
    exact hnext
  | cons segment segments =>
    obtain ⟨between, hstep, -⟩ := walk_cons_eq_ok_iff.1 h
    exact (step_eq_ok_iff.1 hstep).1

theorem walk_fillers {fillers : List (List Char)}
    (hfillers : ∀ segment ∈ fillers, isFiller segment = true)
    (h : tree.walk here fillers = .ok next) :
    next = here ∧ (fillers = [] ∨ tree.lookup here = some .directory) := by
  induction fillers with
  | nil => exact ⟨(Except.ok.inj h).symm, .inl rfl⟩
  | cons segment fillers ih =>
    obtain ⟨between, hstep, hwalk⟩ := walk_cons_eq_ok_iff.1 h
    have hsegment := hfillers segment (List.mem_cons_self ..)
    obtain ⟨hdirectory, rfl⟩ := (step_of_isFiller hsegment).1 hstep
    exact ⟨(ih (fun other hmem => hfillers other (List.mem_cons_of_mem _ hmem)) hwalk).1,
      .inr hdirectory⟩

theorem walk_names {segments : List (List Char)} (h : tree.walk here segments = .ok next) :
    tree.walk here (segments.filter (!isFiller ·)) = .ok next := by
  induction segments generalizing here with
  | nil => exact h
  | cons segment segments ih =>
    obtain ⟨between, hstep, hwalk⟩ := walk_cons_eq_ok_iff.1 h
    by_cases hfiller : isFiller segment = true
    · obtain ⟨-, rfl⟩ := (step_of_isFiller hfiller).1 hstep
      rw [List.filter_cons_of_neg (by simp [hfiller])]
      exact ih hwalk
    · rw [List.filter_cons_of_pos (by simp [hfiller]), walk_cons_eq_ok_iff]
      exact ⟨between, hstep, ih hwalk⟩

theorem walk_of_names {segments : List (List Char)}
    (h : tree.walk here (segments.filter (!isFiller ·)) = .ok next)
    (hnext : tree.lookup next = some .directory) : tree.walk here segments = .ok next := by
  induction segments generalizing here with
  | nil => exact h
  | cons segment segments ih =>
    by_cases hfiller : isFiller segment = true
    · rw [List.filter_cons_of_neg (by simp [hfiller])] at h
      exact walk_cons_eq_ok_iff.2
        ⟨here, (step_of_isFiller hfiller).2 ⟨lookup_of_walk h hnext, rfl⟩, ih h⟩
    · rw [List.filter_cons_of_pos (by simp [hfiller]), walk_cons_eq_ok_iff] at h
      obtain ⟨between, hstep, hwalk⟩ := h
      exact walk_cons_eq_ok_iff.2 ⟨between, hstep, ih hwalk⟩

theorem eq_of_walk_of_namesOf_eq {segments others : List (List Char)}
    (hnames : namesOf segments = namesOf others) (h : tree.walk here segments = .ok next)
    (hother : tree.walk here others = .ok place) : next = place := by
  have hwalk := walk_names h
  rw [filter_eq_of_namesOf_eq hnames, walk_names hother] at hwalk
  exact (Except.ok.inj hwalk).symm

theorem walk_trim {segments : List (List Char)} (h : tree.walk here segments = .ok next) :
    tree.walk here (trim segments) = .ok next := by
  rw [← @List.takeWhile_append_dropWhile _ isFiller segments, walk_append_eq_ok_iff] at h
  obtain ⟨between, hfront, h⟩ := h
  obtain ⟨rfl, -⟩ := walk_fillers (fun _ hsegment => List.mem_takeWhile_imp hsegment) hfront
  obtain ⟨fillers, hfillers, hsplit⟩ := exists_trimEnd_append (segments.dropWhile isFiller)
  rw [hsplit, walk_append_eq_ok_iff] at h
  obtain ⟨last, hwalk, hbehind⟩ := h
  obtain ⟨rfl, -⟩ := walk_fillers hfillers hbehind
  exact hwalk

theorem locate_eq_ok_iff : tree.locate here path = .ok place ↔
    checkPath path = .ok () ∧ tree.walk (start here path) path.segments = .ok place := by
  rw [locate, bind_eq_ok_iff]
  constructor
  · rintro ⟨_, hcheck, hwalk⟩
    exact ⟨hcheck, hwalk⟩
  · rintro ⟨hcheck, hwalk⟩
    exact ⟨(), hcheck, hwalk⟩

theorem utf8ByteSize_le_of_isInfix {text other : String} (h : other.toList <:+: text.toList) :
    other.utf8ByteSize ≤ text.utf8ByteSize := by
  obtain ⟨before, behind, hsplit⟩ := h
  have htext : text = .ofList before ++ other ++ .ofList behind := by
    simp [← String.toList_inj, hsplit]
  rw [htext, String.utf8ByteSize_append, String.utf8ByteSize_append]
  omega

theorem checkPath_eq_ok_iff : checkPath path = .ok () ↔
    '\x00' ∉ path.text.toList ∧ path.text ≠ "" ∧ path.text.utf8ByteSize ≤ pathLimit := by
  by_cases hnul : '\x00' ∈ path.text.toList
  · simp [checkPath, hasNul, hnul]
  · by_cases hempty : path.text = ""
    · simp [checkPath, hasNul, hempty]
    · by_cases hlength : pathLimit < path.text.utf8ByteSize
      · simp [checkPath, hasNul, hnul, hempty, hlength, Nat.not_le.2 hlength]
      · simp [checkPath, hasNul, hnul, hempty, hlength, Nat.not_lt.1 hlength]

theorem checkPath_of_isInfix {other : Path} (h : checkPath path = .ok ()) (hne : other.text ≠ "")
    (hpart : other.text.toList <:+: path.text.toList) : checkPath other = .ok () := by
  rw [checkPath_eq_ok_iff] at h ⊢
  exact ⟨fun hnul => h.1 (hpart.subset hnul), hne,
    (utf8ByteSize_le_of_isInfix hpart).trans h.2.2⟩

theorem exists_walk_parent? {up : Path} (h : tree.walk (start here path) path.segments = .ok place)
    (hup : path.parent? = some up) (hne : path.names ≠ []) :
    ∃ directory last, path.names = up.names ++ [last] ∧ start here up = start here path ∧
      up.text.toList <+: path.text.toList ∧
      tree.walk (start here up) up.segments = .ok directory ∧
      tree.step directory last.toList = .ok place := by
  rcases exists_of_parent? hup with
    ⟨hnone, -, -⟩ | ⟨front, last, behind, hsegments, hlast, hbehind, hform⟩
  · exact absurd hnone hne
  · rw [hsegments, walk_append_eq_ok_iff] at h
    obtain ⟨directory, hfront, hwalk⟩ := h
    obtain ⟨next, hstep, hrest⟩ := walk_cons_eq_ok_iff.1 hwalk
    obtain ⟨rfl, -⟩ := walk_fillers hbehind hrest
    have hadmissible := admissible_trimEnd hsegments
    have hstart : start here up = start here path := by
      rw [start, start, isAbsolute, isAbsolute, hform, anchor_ofSegments hadmissible]
    have hnames : namesOf up.segments = namesOf front := by
      rw [← names_eq_namesOf, hform, names_ofSegments hadmissible, namesOf_trimEnd]
    refine ⟨directory, .ofList last, ?_, hstart, hform ▸ trimEnd_isPrefix_text hsegments, ?_, ?_⟩
    · rw [names_eq_namesOf path, hsegments, namesOf_append, ← hnames, namesOf_cons_name hlast,
        namesOf_eq_nil_iff.2 hbehind, names_eq_namesOf]
    · rw [hstart]
      apply walk_of_names _ (step_eq_ok_iff.1 hstep).1
      rw [filter_eq_of_namesOf_eq hnames]
      exact walk_names hfront
    · rw [String.toList_ofList, hstep]

theorem exists_locate_parent? {up : Path} (h : tree.locate here path = .ok place)
    (hup : path.parent? = some up) (hne : up.text ≠ "") :
    ∃ directory, tree.locate here up = .ok directory ∧
      tree.lookup directory = some .directory := by
  obtain ⟨hcheck, hwalk⟩ := locate_eq_ok_iff.1 h
  obtain ⟨directory, last, -, -, htext, hfront, hlast⟩ :=
    exists_walk_parent? hwalk hup (names_ne_nil_of_parent? hup hne)
  exact ⟨directory, locate_eq_ok_iff.2 ⟨checkPath_of_isInfix hcheck hne htext.isInfix, hfront⟩,
    (step_eq_ok_iff.1 hlast).1⟩

theorem locate_relativeTo? {base rest : Path} {directory : Location}
    (h : tree.locate here path = .ok place) (hplace : tree.lookup place ≠ some .directory)
    (hbase : tree.locate here base = .ok directory)
    (hdirectory : tree.lookup directory = some .directory)
    (hrest : path.relativeTo? base = some rest) : tree.locate directory rest = .ok place := by
  obtain ⟨hcheck, hwalk⟩ := locate_eq_ok_iff.1 h
  obtain ⟨hanchor, front, tail, hsegments, hnames, hform⟩ := relativeTo?_eq_some hrest
  obtain ⟨hrelative, hsplit⟩ := names_relativeTo? hrest
  rw [hsegments, walk_append_eq_ok_iff] at hwalk
  obtain ⟨between, hfront, htail⟩ := hwalk
  have hstart : start here base = start here path := by
    rw [start, start, isAbsolute, isAbsolute, hanchor]
  have hbetween : between = directory := by
    have hwalkBase := (locate_eq_ok_iff.1 hbase).2
    rw [hstart] at hwalkBase
    exact eq_of_walk_of_namesOf_eq hnames hfront hwalkBase
  subst hbetween
  have hne : namesOf tail ≠ [] := by
    intro hnone
    obtain ⟨rfl, -⟩ := walk_fillers (namesOf_eq_nil_iff.1 hnone) htail
    exact hplace hdirectory
  have hnamesRest : rest.names = namesOf tail := by
    rw [names_eq_namesOf path, hsegments, namesOf_append, hnames] at hsplit
    exact (List.append_cancel_left hsplit).symm
  have htrim : trim tail ≠ [] := by
    intro hnil
    rw [← namesOf_trim, hnil] at hne
    exact hne rfl
  have hslash : ∀ segment ∈ tail, '/' ∉ segment := by
    intro segment hsegment
    apply path.admissible_segments.no_slash
    rw [hsegments]
    exact List.mem_append_right front hsegment
  rw [locate_eq_ok_iff]
  constructor
  · apply checkPath_of_isInfix hcheck
    · intro hempty
      rw [← hnamesRest, names_eq, hempty] at hne
      simp [namesOf, isFiller] at hne
    · rw [hform]
      exact trim_isInfix_text hsegments
  · rw [start, if_neg (by simp [isAbsolute, hrelative]), hform,
      segments_ofSegments (admissible_trim hslash) htrim]
    exact walk_trim htail

end FileTree

namespace Workspace

variable {workspace : Workspace} {path : Path}

theorem exists_of_isFile (h : workspace.isFile path = true) : ∃ place text,
    workspace.locate path = .ok place ∧ workspace.tree.lookup place = some (.file text) := by
  rw [isFile, lookup] at h
  cases hlocate : workspace.locate path with
  | error error => simp [hlocate] at h
  | ok place =>
    rw [hlocate] at h
    dsimp only at h
    split at h
    · next text hplace => exact ⟨place, text, rfl, hplace⟩
    · simp at h

theorem contains_of_isFile (h : workspace.isFile path = true) : workspace.contains path = true := by
  obtain ⟨place, text, hlocate, hplace⟩ := exists_of_isFile h
  simp [contains, lookup, hlocate, hplace]

end Workspace

end TestOutline
