import Mathlib.Data.List.DropRight
import TestOutline.Path

/-! The names of a path. A path can be written from its anchor and its segments and is read back as
these; joining puts names behind names, the parent lacks the last name, and what is left of a path
below another one has the names that the other one lacks. Segments that add nothing may stand
anywhere and do not count. -/

namespace TestOutline

namespace Text

theorem not_mem_of_mem_pieces {separator : Char} {text piece : List Char}
    (h : piece ∈ pieces separator text) : separator ∉ piece := by
  induction text generalizing piece with
  | nil => simp_all
  | cons c text ih =>
    rw [pieces_cons] at h
    split at h
    · rcases List.mem_cons.1 h with rfl | hmem
      · simp
      · exact ih hmem
    · next hc =>
      obtain ⟨first, rest, hpieces⟩ := List.exists_cons_of_ne_nil (pieces_ne_nil separator text)
      rw [hpieces, List.modifyHead_cons, List.mem_cons] at h
      rcases h with rfl | hmem
      · have hfirst := ih (hpieces ▸ List.mem_cons_self ..)
        simpa [hfirst] using Ne.symm hc
      · exact ih (hpieces ▸ List.mem_cons_of_mem _ hmem)

theorem pieces_of_not_mem {separator : Char} {text : List Char} (h : separator ∉ text) :
    pieces separator text = [text] := by
  induction text with
  | nil => rfl
  | cons c text ih =>
    rw [List.mem_cons, not_or] at h
    rw [pieces_cons, if_neg (Ne.symm h.1), ih h.2]
    rfl

theorem pieces_append_cons (separator : Char) (before behind : List Char) :
    pieces separator (before ++ separator :: behind) =
      pieces separator before ++ pieces separator behind := by
  induction before with
  | nil => simp [pieces_cons]
  | cons c before ih =>
    obtain ⟨first, rest, hpieces⟩ := List.exists_cons_of_ne_nil (pieces_ne_nil separator before)
    rw [List.cons_append, pieces_cons, pieces_cons, ih, hpieces]
    split <;> simp

theorem pieces_intercalate {separator : Char} {texts : List (List Char)} (hne : texts ≠ [])
    (h : ∀ text ∈ texts, separator ∉ text) :
    pieces separator ([separator].intercalate texts) = texts := by
  induction texts with
  | nil => exact absurd rfl hne
  | cons text texts ih =>
    have htext := h text (List.mem_cons_self ..)
    cases texts with
    | nil => simpa using pieces_of_not_mem htext
    | cons next texts =>
      have hline : [separator].intercalate (text :: next :: texts) =
          text ++ separator :: [separator].intercalate (next :: texts) := by
        simp
      rw [hline, pieces_append_cons, pieces_of_not_mem htext,
        ih (by simp) fun other hmem => h other (List.mem_cons_of_mem _ hmem)]
      rfl

theorem intercalate_concat {separator : Char} {texts : List (List Char)} {text : List Char}
    (hne : texts ≠ []) (h : ∀ other ∈ texts, separator ∉ other) (htext : separator ∉ text) :
    [separator].intercalate (texts ++ [text]) =
      [separator].intercalate texts ++ separator :: text := by
  rw [← intercalate_pieces separator ([separator].intercalate texts ++ separator :: text),
    pieces_append_cons, pieces_intercalate hne h, pieces_of_not_mem htext]

theorem getLast?_intercalate_ne {separator : Char} {texts : List (List Char)}
    (h : ∀ text ∈ texts, separator ∉ text) (hlast : texts.getLast? ≠ some []) :
    ([separator].intercalate texts).getLast? ≠ some separator := by
  by_cases hne : texts = []
  · simp [hne]
  · intro hend
    obtain ⟨front, hfront⟩ := List.getLast?_eq_some_iff.1 hend
    have hpieces := pieces_intercalate hne h
    rw [hfront, pieces_append_cons, pieces_nil] at hpieces
    rw [← hpieces] at hlast
    simp at hlast

end Text

namespace Path
open Text

theorem isFiller_eq_false_iff {segment : List Char} :
    isFiller segment = false ↔ segment ≠ [] ∧ segment ≠ ['.'] := by
  simp [isFiller]

def namesOf (segments : List (List Char)) : List String :=
  (segments.filter (!isFiller ·)).map .ofList

theorem namesOf_append (front behind : List (List Char)) :
    namesOf (front ++ behind) = namesOf front ++ namesOf behind := by
  simp [namesOf]

theorem namesOf_eq_nil_iff {segments : List (List Char)} :
    namesOf segments = [] ↔ ∀ segment ∈ segments, isFiller segment = true := by
  rw [namesOf, List.map_eq_nil_iff, List.filter_eq_nil_iff]
  simp

theorem namesOf_cons_name {segment : List Char} (h : isFiller segment = false)
    (segments : List (List Char)) :
    namesOf (segment :: segments) = .ofList segment :: namesOf segments := by
  simp [namesOf, h]

theorem names_eq_namesOf (path : Path) : path.names = namesOf path.segments := rfl

theorem namesOf_dropWhile (segments : List (List Char)) :
    namesOf (segments.dropWhile isFiller) = namesOf segments := by
  induction segments with
  | nil => rfl
  | cons segment segments ih =>
    by_cases h : isFiller segment = true
    · simpa [h, namesOf] using ih
    · simp [h]

theorem namesOf_reverse (segments : List (List Char)) :
    namesOf segments.reverse = (namesOf segments).reverse := by
  simp [namesOf]

theorem namesOf_trimEnd (segments : List (List Char)) :
    namesOf (trimEnd segments) = namesOf segments := by
  rw [trimEnd, namesOf_reverse, namesOf_dropWhile, namesOf_reverse, List.reverse_reverse]

theorem namesOf_trim (segments : List (List Char)) :
    namesOf (trim segments) = namesOf segments := by
  rw [trim, namesOf_trimEnd, namesOf_dropWhile]

/-- Segments that a path with the given anchor may have. In a relative path the first one is a
name, as the others would make it start elsewhere; but the empty path has an empty segment. -/
structure Admissible (anchor : Anchor) (segments : List (List Char)) : Prop where
  no_slash : ∀ segment ∈ segments, '/' ∉ segment
  first : anchor = .relative →
    segments = [[]] ∨ ∀ segment ∈ segments.head?, isFiller segment = false

theorem admissible_segments (path : Path) : Admissible path.anchor path.segments := by
  constructor
  · intro segment hsegment
    simp only [segments] at hsegment
    split at hsegment
    · exact not_mem_of_mem_pieces hsegment
    · simp at hsegment
    · exact not_mem_of_mem_pieces hsegment
    · exact not_mem_of_mem_pieces hsegment
  · simp only [anchor, segments]
    split
    · simp
    · simp
    · simp
    · next hroot hdot hhere =>
      intro _
      have htext := intercalate_pieces '/' path.text.toList
      obtain ⟨first, rest, hpieces⟩ :=
        List.exists_cons_of_ne_nil (pieces_ne_nil '/' path.text.toList)
      rw [hpieces] at htext ⊢
      by_cases hempty : first = [] ∧ rest = []
      · exact .inl (by rw [hempty.1, hempty.2])
      · refine .inr fun segment hsegment => ?_
        obtain rfl : first = segment := by simpa using hsegment
        rw [isFiller_eq_false_iff]
        cases rest with
        | nil =>
          rw [List.intercalate_singleton] at htext
          exact ⟨fun h => hempty ⟨h, rfl⟩, fun h => hdot (htext.symm.trans h)⟩
        | cons next rest =>
          rw [List.intercalate_cons_cons] at htext
          constructor
          · rintro rfl
            exact hroot _ htext.symm
          · rintro rfl
            exact hhere _ htext.symm

theorem relative_of_ne {path : Path} (hroot : ∀ rest, path.text.toList ≠ '/' :: rest)
    (hlone : path.text.toList ≠ ['.']) (hhere : ∀ rest, path.text.toList ≠ '.' :: '/' :: rest) :
    path.anchor = .relative ∧ path.segments = pieces '/' path.text.toList := by
  rw [anchor.eq_def, segments.eq_def]
  split
  · next h => exact absurd h (hroot _)
  · next h => exact absurd h hlone
  · next h => exact absurd h (hhere _)
  · exact ⟨rfl, rfl⟩

theorem relative_of_name {first : List Char} (hslash : '/' ∉ first)
    (hfirst : isFiller first = false) (behind : List Char) :
    anchor ⟨.ofList (first ++ behind)⟩ = .relative ∧
      segments ⟨.ofList (first ++ behind)⟩ = pieces '/' (first ++ behind) := by
  obtain ⟨hne, hdot⟩ := isFiller_eq_false_iff.1 hfirst
  obtain ⟨c, first, rfl⟩ := List.exists_cons_of_ne_nil hne
  have hrelative := @relative_of_ne ⟨.ofList (c :: first ++ behind)⟩
  rw [String.toList_ofList] at hrelative
  apply hrelative
  · intro rest h
    exact hslash (by simp [(List.cons.inj h).1])
  · intro h
    simp_all
  · intro rest h
    obtain ⟨rfl, hrest⟩ := List.cons.inj h
    cases first with
    | nil => exact hdot rfl
    | cons d first => exact hslash (by simp [(List.cons.inj hrest).1])

theorem relative_ofSegments {segments : List (List Char)} (h : Admissible .relative segments) :
    (ofSegments .relative segments).anchor = .relative ∧
      (segments ≠ [] → (ofSegments .relative segments).segments = segments) := by
  rcases h.first rfl with rfl | hfirst
  · exact ⟨rfl, fun _ => rfl⟩
  · cases segments with
    | nil => exact ⟨rfl, fun hne => absurd rfl hne⟩
    | cons first rest =>
      have hname : isFiller first = false := hfirst first rfl
      have hslash : '/' ∉ first := h.no_slash first (List.mem_cons_self ..)
      have hpieces := pieces_intercalate (List.cons_ne_nil first rest) h.no_slash
      cases rest with
      | nil =>
        have hrelative := relative_of_name hslash hname []
        rw [List.append_nil] at hrelative
        rw [List.intercalate_singleton] at hpieces
        rw [ofSegments, List.intercalate_singleton]
        exact ⟨hrelative.1, fun _ => hrelative.2.trans hpieces⟩
      | cons next rest =>
        have hrelative := relative_of_name hslash hname ('/' :: ['/'].intercalate (next :: rest))
        rw [List.intercalate_cons_cons, List.append_assoc, List.singleton_append] at hpieces
        rw [ofSegments, List.intercalate_cons_cons, List.append_assoc, List.singleton_append]
        exact ⟨hrelative.1, fun _ => hrelative.2.trans hpieces⟩

theorem anchor_ofSegments {anchor : Anchor} {segments : List (List Char)}
    (h : Admissible anchor segments) : (ofSegments anchor segments).anchor = anchor := by
  cases anchor with
  | root => simp [ofSegments, Path.anchor]
  | here =>
    cases segments with
    | nil => simp [ofSegments, Path.anchor]
    | cons first rest => simp [ofSegments, Path.anchor]
  | relative => exact (relative_ofSegments h).1

theorem segments_ofSegments {anchor : Anchor} {segments : List (List Char)}
    (h : Admissible anchor segments) (hne : segments ≠ []) :
    (ofSegments anchor segments).segments = segments := by
  have hpieces := pieces_intercalate hne h.no_slash
  cases anchor with
  | root => simp [ofSegments, Path.segments, hpieces]
  | here => simp [ofSegments, Path.segments, hne, hpieces]
  | relative => exact (relative_ofSegments h).2 hne

theorem names_ofSegments {anchor : Anchor} {segments : List (List Char)}
    (h : Admissible anchor segments) : (ofSegments anchor segments).names = namesOf segments := by
  cases segments with
  | nil => cases anchor <;> rfl
  | cons first rest => rw [names, segments_ofSegments h (List.cons_ne_nil first rest), namesOf]

theorem names_eq (path : Path) : path.names = namesOf (pieces '/' path.text.toList) := by
  rw [names, namesOf, segments.eq_def]
  split
  · next h => simp [h, pieces_cons, isFiller]
  · next h => simp [h, pieces_cons, isFiller]
  · next h => simp [h, pieces_cons, isFiller]
  · rfl

theorem isAbsolute_iff {path : Path} :
    path.isAbsolute = true ↔ path.text.toList.head? = some '/' := by
  rw [isAbsolute, decide_eq_true_iff, anchor.eq_def]
  split
  · next h => simp [h]
  · next h => simp [h]
  · next h => simp [h]
  · next hroot _ _ =>
    simp only [reduceCtorEq, false_iff]
    intro h
    obtain ⟨rest, hrest⟩ := List.head?_eq_some_iff.1 h
    exact hroot rest hrest

theorem names_join (path : Path) {other : Path} (h : other.isAbsolute = false) :
    (path.join other).names = path.names ++ other.names := by
  rw [names_eq, names_eq path, names_eq other, join, if_neg (by simp [h]), ← namesOf_append]
  split
  · next hend =>
    rw [Bool.or_eq_true, decide_eq_true_iff, String.isEmpty_iff] at hend
    rcases hend with hempty | hslash
    · simp [hempty, namesOf, isFiller]
    · obtain ⟨init, hinit⟩ := List.getLast?_eq_some_iff.1 hslash
      simp [hinit, pieces_append_cons, namesOf, isFiller]
  · simp [pieces_append_cons]

theorem isAbsolute_join {path : Path} (h : path.isAbsolute = true) (other : Path) :
    (path.join other).isAbsolute = true := by
  by_cases hother : other.isAbsolute = true
  · rw [join, if_pos hother, hother]
  · rw [isAbsolute_iff] at h
    obtain ⟨rest, hrest⟩ := List.head?_eq_some_iff.1 h
    rw [join, if_neg hother, isAbsolute_iff]
    split <;> simp [hrest]

theorem Admissible.front {anchor : Anchor} {segments front : List (List Char)}
    (h : Admissible anchor segments) (hfront : front <+: segments) : Admissible anchor front where
  no_slash segment hsegment := h.no_slash segment (hfront.subset hsegment)
  first hrelative := by
    cases front with
    | nil => simp
    | cons first rest =>
      obtain ⟨behind, rfl⟩ := hfront
      rcases h.first hrelative with heq | hfirst
      · simp_all
      · exact .inr (by simpa using hfirst)

theorem trimEnd_isPrefix (segments : List (List Char)) : trimEnd segments <+: segments := by
  rw [← List.reverse_suffix, trimEnd, List.reverse_reverse]
  exact List.dropWhile_suffix _

theorem trimEnd_trimEnd (segments : List (List Char)) :
    trimEnd (trimEnd segments) = trimEnd segments := by
  rw [trimEnd, trimEnd, List.reverse_reverse, List.dropWhile_idempotent]

theorem exists_trimEnd_append (segments : List (List Char)) :
    ∃ fillers, (∀ segment ∈ fillers, isFiller segment = true) ∧
      segments = trimEnd segments ++ fillers := by
  have hsplit := @List.takeWhile_append_dropWhile _ isFiller segments.reverse
  refine ⟨(segments.reverse.takeWhile isFiller).reverse, ?_, ?_⟩
  · exact fun segment hsegment => List.mem_takeWhile_imp (List.mem_reverse.1 hsegment)
  · exact (List.reverse_eq_iff.1 hsplit.symm).trans (by rw [List.reverse_append, trimEnd])

theorem exists_of_parent? {path up : Path} (h : path.parent? = some up) :
    path.names = [] ∧ path.anchor = .here ∧ up = ⟨""⟩ ∨
      ∃ front last behind, path.segments = front ++ last :: behind ∧ isFiller last = false ∧
        (∀ segment ∈ behind, isFiller segment = true) ∧
        up = ofSegments path.anchor (trimEnd front) := by
  rw [parent?] at h
  split at h
  · next last before hdrop =>
    rw [Option.some.injEq] at h
    refine .inr ⟨before.reverse, last, (path.segments.reverse.takeWhile isFiller).reverse, ?_, ?_,
      ?_, ?_⟩
    · have hsplit := @List.takeWhile_append_dropWhile _ isFiller path.segments.reverse
      rw [hdrop] at hsplit
      exact (List.reverse_eq_iff.1 hsplit.symm).trans (by simp)
    · have hlast := @List.head_dropWhile_not _ isFiller path.segments.reverse
      simpa [hdrop] using hlast
    · intro segment hsegment
      exact List.mem_takeWhile_imp (List.mem_reverse.1 hsegment)
    · rw [← h, trimEnd, List.reverse_reverse]
  · next hdrop =>
    split at h
    · next hhere =>
      have hall : ∀ segment ∈ path.segments, isFiller segment = true := by
        simpa using List.dropWhile_eq_nil_iff.1 hdrop
      exact .inl ⟨namesOf_eq_nil_iff.2 hall, hhere, (Option.some.inj h).symm⟩
    · simp at h

theorem isFiller_of_parent?_eq_none {path : Path} (h : path.parent? = none) :
    ∀ segment ∈ path.segments, isFiller segment = true := by
  rw [parent?] at h
  split at h
  · simp at h
  · next hdrop => simpa using List.dropWhile_eq_nil_iff.1 hdrop

theorem exists_parent?_of_names {path : Path} (h : path.names ≠ []) :
    ∃ up, path.parent? = some up := by
  rw [← Option.isSome_iff_exists, Option.isSome_iff_ne_none]
  exact fun hnone => h (namesOf_eq_nil_iff.2 (isFiller_of_parent?_eq_none hnone))

theorem segments_ne_nil_of_root {path : Path} (h : path.anchor = .root) : path.segments ≠ [] := by
  rw [anchor.eq_def] at h
  rw [segments.eq_def]
  split at h
  · next htext => simpa [htext] using pieces_ne_nil '/' _
  · simp at h
  · simp at h
  · simp at h

theorem admissible_trimEnd {path : Path} {front behind : List (List Char)}
    (h : path.segments = front ++ behind) : Admissible path.anchor (trimEnd front) := by
  refine path.admissible_segments.front ((trimEnd_isPrefix front).trans ?_)
  exact h ▸ List.prefix_append front behind

theorem names_parent? {path up : Path} (h : path.parent? = some up) (hne : path.names ≠ []) :
    up.anchor = path.anchor ∧ ∃ last, path.names = up.names ++ [last] := by
  rcases exists_of_parent? h with
    ⟨hnil, -, -⟩ | ⟨front, last, behind, hsegments, hlast, hbehind, rfl⟩
  · exact absurd hnil hne
  · have hup := admissible_trimEnd hsegments
    refine ⟨anchor_ofSegments hup, .ofList last, ?_⟩
    rw [names_ofSegments hup, namesOf_trimEnd, names_eq_namesOf, hsegments, namesOf_append,
      namesOf_cons_name hlast, namesOf_eq_nil_iff.2 hbehind]

theorem names_ne_nil_of_parent? {path up : Path} (h : path.parent? = some up)
    (hne : up.text ≠ "") : path.names ≠ [] := by
  intro hnil
  rcases exists_of_parent? h with ⟨-, -, rfl⟩ | ⟨front, last, behind, hsegments, hlast, -, -⟩
  · exact hne rfl
  · simp [names_eq_namesOf, hsegments, namesOf, hlast] at hnil

theorem above_dropWhile (anchor : Anchor) (segments : List (List Char)) :
    above anchor (segments.dropWhile isFiller) = above anchor segments := by
  induction segments with
  | nil => rfl
  | cons segment segments ih =>
    by_cases h : isFiller segment = true
    · simpa [h, above] using ih
    · simp [h]

theorem ancestors_ofSegments {anchor : Anchor} {segments : List (List Char)}
    (h : Admissible anchor segments) :
    (ofSegments anchor segments).ancestors = above anchor segments.reverse := by
  cases segments with
  | nil => cases anchor <;> rfl
  | cons first rest =>
    rw [ancestors, anchor_ofSegments h, segments_ofSegments h (List.cons_ne_nil first rest)]

theorem ancestors_of_parent? {path up : Path} (h : path.parent? = some up) :
    path.ancestors = up :: up.ancestors := by
  rcases exists_of_parent? h with
    ⟨hnames, hhere, rfl⟩ | ⟨front, last, behind, hsegments, hlast, hbehind, rfl⟩
  · have hdrop : path.segments.reverse.dropWhile isFiller = [] := by
      simpa [List.dropWhile_eq_nil_iff] using namesOf_eq_nil_iff.1 hnames
    rw [ancestors, ← above_dropWhile, hdrop, above, if_pos hhere]
    rfl
  · have hdrop : path.segments.reverse.dropWhile isFiller = last :: front.reverse := by
      have hbehind : ∀ segment ∈ behind.reverse, isFiller segment = true := by simpa using hbehind
      rw [hsegments, List.reverse_append, List.reverse_cons, List.append_assoc,
        List.dropWhile_append_of_pos hbehind, List.singleton_append,
        List.dropWhile_cons_of_neg (by simp [hlast])]
    rw [ancestors_ofSegments (admissible_trimEnd hsegments), ancestors,
      ← above_dropWhile, hdrop, above, if_neg (by simp [hlast]), trimEnd, List.reverse_reverse,
      above_dropWhile]

theorem isFiller_getLast? {segments : List (List Char)} (h : trimEnd segments = segments) :
    ∀ last ∈ segments.getLast?, isFiller last = false := by
  intro last hlast
  have hhead := List.head?_dropWhile_not isFiller segments.reverse
  rw [trimEnd, List.reverse_eq_iff] at h
  rw [h, List.head?_reverse, Option.mem_def.1 hlast] at hhead
  simpa using hhead

theorem join_name {segments : List (List Char)} {name : String}
    (h : Admissible .root segments) (htrimmed : trimEnd segments = segments)
    (hslash : '/' ∉ name.toList) (hname : isFiller name.toList = false) :
    (ofSegments .root segments).join ⟨name⟩ = ofSegments .root (segments ++ [name.toList]) := by
  have hrelative := (relative_of_name hslash hname []).1
  rw [List.append_nil, String.ofList_toList] at hrelative
  rw [join, if_neg (by simp [isAbsolute, hrelative])]
  cases hsegments : segments with
  | nil =>
    rw [if_pos (by simp [ofSegments])]
    simp [ofSegments]
  | cons first rest =>
    rw [hsegments] at h htrimmed
    have hends : ('/' :: ['/'].intercalate (first :: rest)).getLast? ≠ some '/' := by
      have hlast : ([] :: first :: rest).getLast? ≠ some [] := fun hlast =>
        absurd (isFiller_getLast? htrimmed [] (by simpa using hlast)) (by simp [isFiller])
      have hslashes : ∀ segment ∈ [] :: first :: rest, '/' ∉ segment :=
        List.forall_mem_cons.2 ⟨by simp, h.no_slash⟩
      simpa using getLast?_intercalate_ne hslashes hlast
    rw [if_neg (by simpa [ofSegments] using hends)]
    simp only [ofSegments, Path.mk.injEq, ← String.toList_inj, String.toList_append,
      String.toList_ofList,
      intercalate_concat (List.cons_ne_nil first rest) h.no_slash hslash]
    simp

theorem parent?_join_name {segments : List (List Char)} {name : String}
    (h : Admissible .root segments) (htrimmed : trimEnd segments = segments)
    (hslash : '/' ∉ name.toList) (hname : isFiller name.toList = false) :
    ((ofSegments .root segments).join ⟨name⟩).parent? = some (ofSegments .root segments) := by
  have hmore : Admissible .root (segments ++ [name.toList]) := by
    refine ⟨?_, by simp⟩
    simpa [or_imp, forall_and, hslash] using h.no_slash
  rw [join_name h htrimmed hslash hname, parent?, segments_ofSegments hmore (by simp),
    anchor_ofSegments hmore]
  rw [trimEnd, List.reverse_eq_iff] at htrimmed
  simp [hname, htrimmed]

theorem namesOf_of_dropNames? {names : List String} {segments rest : List (List Char)}
    (h : dropNames? names segments = some rest) :
    ∃ front, segments = front ++ rest ∧ namesOf front = names := by
  fun_induction dropNames? names segments with
  | case1 segments =>
    obtain rfl := Option.some.inj h
    exact ⟨[], rfl, rfl⟩
  | case2 => simp at h
  | case3 name names segment segments hfiller ih =>
    obtain ⟨front, rfl, hnames⟩ := ih h
    exact ⟨segment :: front, rfl, by simpa [namesOf, hfiller] using hnames⟩
  | case4 name names segments hname ih =>
    obtain ⟨front, rfl, hnames⟩ := ih h
    refine ⟨name.toList :: front, rfl, ?_⟩
    rw [namesOf] at hnames
    simp [namesOf, hname, hnames]
  | case5 => simp at h

theorem exists_dropNames? {names : List String} {segments : List (List Char)}
    (h : names <+: namesOf segments) : ∃ rest, dropNames? names segments = some rest := by
  fun_induction dropNames? names segments with
  | case1 segments => exact ⟨segments, rfl⟩
  | case2 => simp [namesOf] at h
  | case3 name names segment segments hfiller ih =>
    exact ih (by simpa [namesOf, hfiller] using h)
  | case4 name names segments hname ih =>
    exact ih (by simpa [namesOf, hname] using h)
  | case5 name names segment segments hfiller hne =>
    have hfirst : name = String.ofList segment := by
      rw [namesOf, List.filter_cons_of_pos (by simpa using hfiller), List.map_cons,
        List.cons_prefix_cons] at h
      exact h.1
    exact absurd (by rw [hfirst, String.toList_ofList]) hne

theorem relativeTo?_eq_some {path base rest : Path} (h : path.relativeTo? base = some rest) :
    path.anchor = base.anchor ∧ ∃ front tail, path.segments = front ++ tail ∧
      namesOf front = base.names ∧ rest = ofSegments .relative (trim tail) := by
  rw [relativeTo?] at h
  split at h
  · next hanchor =>
    obtain ⟨tail, htail, hrest⟩ := Option.map_eq_some_iff.1 h
    obtain ⟨front, hsegments, hnames⟩ := namesOf_of_dropNames? htail
    exact ⟨hanchor, front, tail, hsegments, hnames, hrest.symm⟩
  · simp at h

theorem exists_relativeTo? {path base : Path} (hanchor : path.anchor = base.anchor)
    (hnames : base.names <+: path.names) : ∃ rest, path.relativeTo? base = some rest := by
  obtain ⟨rest, hrest⟩ := exists_dropNames? hnames
  exact ⟨_, by rw [relativeTo?, if_pos hanchor, hrest, Option.map_some]⟩

theorem admissible_dropWhile {segments : List (List Char)}
    (h : ∀ segment ∈ segments, '/' ∉ segment) :
    Admissible .relative (segments.dropWhile isFiller) where
  no_slash segment hsegment := h segment ((List.dropWhile_sublist _).subset hsegment)
  first _ := by
    refine .inr fun segment hsegment => ?_
    have hhead := List.head?_dropWhile_not isFiller segments
    rw [Option.mem_def.1 hsegment] at hhead
    simpa using hhead

theorem admissible_trim {segments : List (List Char)}
    (h : ∀ segment ∈ segments, '/' ∉ segment) : Admissible .relative (trim segments) :=
  (admissible_dropWhile h).front (trimEnd_isPrefix _)

theorem names_relativeTo? {path base rest : Path} (h : path.relativeTo? base = some rest) :
    rest.anchor = .relative ∧ path.names = base.names ++ rest.names := by
  obtain ⟨-, front, tail, hsegments, hnames, rfl⟩ := relativeTo?_eq_some h
  have hrest : Admissible .relative (trim tail) := by
    apply admissible_trim
    intro segment hsegment
    apply path.admissible_segments.no_slash
    rw [hsegments]
    exact List.mem_append_right front hsegment
  refine ⟨anchor_ofSegments hrest, ?_⟩
  rw [names_ofSegments hrest, namesOf_trim, names_eq_namesOf, hsegments, namesOf_append, hnames]

theorem exists_relativeTo?_parent? {path up : Path} (h : path.parent? = some up)
    (hne : up.text ≠ "") : ∃ rest, path.relativeTo? up = some rest := by
  obtain ⟨hanchor, last, hlast⟩ := names_parent? h (names_ne_nil_of_parent? h hne)
  exact exists_relativeTo? hanchor.symm (hlast ▸ List.prefix_append up.names [last])

end Path

end TestOutline
