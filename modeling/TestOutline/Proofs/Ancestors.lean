import TestOutline.Proofs.Segments

/-! The paths above a path. Each is the parent of the one before it, and a search along them stops
at the nearest one that has what is looked for. A path above an absolute path goes part of its way,
and what is left of the path leads on from there. -/

namespace TestOutline.Path

/-- `found` is the nearest path above another one with a property: the parent, or else the parent of
the parent, and so on. -/
inductive NearestAbove (P : Path → Prop) : Path → Path → Prop where
  | parent {path up : Path} (hup : path.parent? = some up) (hfound : P up) : NearestAbove P path up
  | beyond {path up found : Path} (hup : path.parent? = some up) (hnot : ¬P up)
      (hfound : NearestAbove P up found) : NearestAbove P path found

variable {P : Path → Prop} {path found : Path}

theorem NearestAbove.holds (h : NearestAbove P path found) : P found := by
  induction h with
  | parent hup hfound => exact hfound
  | beyond hup hnot hfound ih => exact ih

theorem NearestAbove.mem_ancestors (h : NearestAbove P path found) : found ∈ path.ancestors := by
  induction h with
  | parent hup hfound =>
    rw [ancestors_of_parent? hup]
    exact List.mem_cons_self ..
  | beyond hup hnot hfound ih =>
    rw [ancestors_of_parent? hup]
    exact List.mem_cons_of_mem _ ih

theorem parent?_of_ancestors_eq_cons {path up : Path} {rest : List Path}
    (h : path.ancestors = up :: rest) : path.parent? = some up ∧ up.ancestors = rest := by
  have hup : path.parent? = some up := by rw [← head?_ancestors, h, List.head?_cons]
  rw [ancestors_of_parent? hup] at h
  exact ⟨hup, (List.cons.inj h).2⟩

theorem exists_nearestAbove (hmem : found ∈ path.ancestors) (hfound : P found) :
    ∃ nearest, NearestAbove P path nearest := by
  generalize habove : path.ancestors = above at hmem
  induction above generalizing path with
  | nil => simp at hmem
  | cons up rest ih =>
    obtain ⟨hup, hrest⟩ := parent?_of_ancestors_eq_cons habove
    by_cases hnear : P up
    · exact ⟨up, .parent hup hnear⟩
    · rcases List.mem_cons.1 hmem with rfl | hfar
      · exact absurd hfound hnear
      · obtain ⟨nearest, hnearest⟩ := ih hrest hfar
        exact ⟨nearest, .beyond hup hnear hnearest⟩

theorem findSome?_ancestors {α : Type} {search : Path → Option α}
    (hnone : ∀ up, ¬P up → search up = none) (h : NearestAbove P path found) {result : α}
    (hfound : search found = some result) : path.ancestors.findSome? search = some result := by
  induction h with
  | parent hup _ => rw [ancestors_of_parent? hup, List.findSome?_cons, hfound]
  | beyond hup hnot _ ih =>
    rw [ancestors_of_parent? hup, List.findSome?_cons, hnone _ hnot, ih hfound]

theorem parent?_of_isAbsolute {path up : Path} (habsolute : path.isAbsolute = true)
    (h : path.parent? = some up) : up.isAbsolute = true ∧
      (∃ segments, Admissible .root segments ∧ trimEnd segments = segments ∧
        up = ofSegments .root segments) ∧ ∃ last, path.names = up.names ++ [last] := by
  have hroot : path.anchor = .root := of_decide_eq_true habsolute
  rcases exists_of_parent? h with ⟨-, hhere, -⟩ | ⟨front, last, behind, hsegments, hlast, -, hup⟩
  · simp [hroot] at hhere
  · have hne : path.names ≠ [] := by
      simp [names_eq_namesOf, hsegments, namesOf, hlast]
    obtain ⟨hanchor, hnames⟩ := names_parent? h hne
    have hfront := admissible_trimEnd hsegments
    rw [hroot] at hup hfront
    refine ⟨?_, ⟨trimEnd front, hfront, trimEnd_trimEnd front, hup⟩, hnames⟩
    rw [isAbsolute, hanchor, hroot, decide_eq_true rfl]

theorem exists_of_mem_ancestors (habsolute : path.isAbsolute = true)
    (hmem : found ∈ path.ancestors) : found.isAbsolute = true ∧
      (∃ segments, Admissible .root segments ∧ trimEnd segments = segments ∧
        found = ofSegments .root segments) ∧
      ∃ name names, path.names = found.names ++ name :: names := by
  generalize habove : path.ancestors = above at hmem
  induction above generalizing path with
  | nil => simp at hmem
  | cons up rest ih =>
    obtain ⟨hup, hrest⟩ := parent?_of_ancestors_eq_cons habove
    obtain ⟨hupAbsolute, hsegments, last, hlast⟩ := parent?_of_isAbsolute habsolute hup
    rcases List.mem_cons.1 hmem with rfl | hfar
    · exact ⟨hupAbsolute, hsegments, last, [], hlast⟩
    · obtain ⟨hfound, hform, name, names, hnames⟩ := ih hupAbsolute hrest hfar
      exact ⟨hfound, hform, name, names ++ [last], by rw [hlast, hnames, List.append_assoc]; rfl⟩

theorem exists_relativeTo?_of_mem_ancestors (habsolute : path.isAbsolute = true)
    (hmem : found ∈ path.ancestors) : ∃ rest, path.relativeTo? found = some rest ∧
      rest.text ≠ "" ∧ rest.isAbsolute = false ∧ (found.join rest).sameWay path = true := by
  obtain ⟨hfound, -, name, names, hnames⟩ := exists_of_mem_ancestors habsolute hmem
  have hroot : path.anchor = .root := of_decide_eq_true habsolute
  have hfoundRoot : found.anchor = .root := of_decide_eq_true hfound
  obtain ⟨rest, hrest⟩ := exists_relativeTo? (hroot.trans hfoundRoot.symm)
    (hnames ▸ List.prefix_append found.names (name :: names))
  obtain ⟨hrelative, hsplit⟩ := names_relativeTo? hrest
  have hrestAbsolute : rest.isAbsolute = false := by simp [isAbsolute, hrelative]
  refine ⟨rest, hrest, ?_, hrestAbsolute, ?_⟩
  · intro hempty
    have hnone : rest.names = [] := by simp [names_eq, hempty, namesOf, isFiller]
    rw [hnone, List.append_nil] at hsplit
    simp [hsplit] at hnames
  · have hjoin : (found.join rest).anchor = .root := of_decide_eq_true (isAbsolute_join hfound rest)
    simp [sameWay, hjoin, hroot, names_join found hrestAbsolute, hsplit]

end TestOutline.Path
