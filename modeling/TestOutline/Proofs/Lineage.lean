import Mathlib.Data.List.Chain
import TestOutline.Proofs.Nesting

/-! Lineages in a nested outline. The walk up from a block is never cut short, so a lineage is the
parent's lineage and the block itself. Its members are the block and the suites open where it
starts; their labels make up the qualified name. -/

namespace TestOutline.Outline

variable {outline : Outline}

namespace Nested

theorem chain_eq (h : outline.Nested) {id first second : Nat} (hfirst : id < first)
    (hsecond : id < second) : outline.chain first id = outline.chain second id := by
  induction first generalizing id second with
  | zero => omega
  | succ first ih =>
    obtain ⟨second, rfl⟩ := Nat.exists_eq_succ_of_ne_zero (by omega : second ≠ 0)
    rw [chain, chain]
    split
    · rfl
    · next block hget =>
      cases hparent : block.parent with
      | none => rfl
      | some parent =>
        have hlt := h.parent_lt hget hparent
        exact congrArg (block :: ·) (ih (by omega) (by omega))

theorem lineage_of_root {id : Nat} {block : Block} (hget : outline.get? id = some block)
    (hparent : block.parent = none) : outline.lineage id = [block] := by
  obtain ⟨count, hcount⟩ := Nat.exists_eq_succ_of_ne_zero
    (by have := lt_size_of_get? hget; omega : outline.size ≠ 0)
  simp [lineage, hcount, chain, hget, hparent]

theorem lineage_of_child (h : outline.Nested) {id parent : Nat} {block : Block}
    (hget : outline.get? id = some block) (hparent : block.parent = some parent) :
    outline.lineage id = outline.lineage parent ++ [block] := by
  have hlt := h.parent_lt hget hparent
  have hsize := lt_size_of_get? hget
  obtain ⟨count, hcount⟩ := Nat.exists_eq_succ_of_ne_zero (by omega : outline.size ≠ 0)
  have hchain : outline.chain count parent = outline.chain (count + 1) parent :=
    h.chain_eq (by omega) (by omega)
  simp [lineage, hcount, chain, hget, hparent, hchain]

theorem eq_iff_id_eq (h : outline.Nested) {first second : Nat} {one other : Block}
    (hone : outline.get? first = some one) (hother : outline.get? second = some other) :
    one = other ↔ first = second := by
  constructor
  · rintro rfl
    rw [← h.id_eq first one hone, h.id_eq second one hother]
  · rintro rfl
    exact Option.some.inj (hone.symm.trans hother)

theorem mem_lineage_iff (h : outline.Nested) {suite id : Nat} {outer block : Block}
    (houter : outline.get? suite = some outer) (hget : outline.get? id = some block) :
    outer ∈ outline.lineage id ↔ suite = id ∨ outline.IsOpen id block.column suite := by
  refine h.induction (motive := fun id block =>
    outer ∈ outline.lineage id ↔ suite = id ∨ outline.IsOpen id block.column suite) ?_ ?_ hget
  · intro id block hget hparent
    have hnone : ¬ outline.IsOpen id block.column suite := h.isInnermost hget hparent suite
    rw [lineage_of_root hget hparent, List.mem_singleton, h.eq_iff_id_eq houter hget]
    simp [hnone]
  · intro id block parent above hget hparent habove ih
    rw [h.lineage_of_child hget hparent, List.mem_append, List.mem_singleton, ih,
      h.eq_iff_id_eq houter hget, (h.isInnermost hget hparent).isOpen_iff habove, or_comm]

theorem induction_of_mem_lineage (h : outline.Nested) {member : Block} {motive : Nat → Block → Prop}
    (self : outline.get? member.id = some member → motive member.id member)
    (child : ∀ id block parent outer, outline.get? id = some block → block.parent = some parent →
      outline.get? parent = some outer → motive parent outer → motive id block)
    {id : Nat} {block : Block} (hget : outline.get? id = some block)
    (hmember : member ∈ outline.lineage id) : motive id block := by
  have hself {id : Nat} (hget : outline.get? id = some member) : motive id member := by
    obtain rfl := h.id_eq id member hget
    exact self hget
  refine h.induction (motive := fun id block => member ∈ outline.lineage id → motive id block)
    ?_ ?_ hget hmember
  · intro id block hget hparent hmember
    rw [lineage_of_root hget hparent, List.mem_singleton] at hmember
    subst hmember
    exact hself hget
  · intro id block parent outer hget hparent houter ih hmember
    rw [h.lineage_of_child hget hparent, List.mem_append, List.mem_singleton] at hmember
    cases hmember with
    | inl houtside => exact child id block parent outer hget hparent houter (ih houtside)
    | inr hblock =>
      subst hblock
      exact hself hget

theorem get?_id_of_mem_lineage (h : outline.Nested) {id : Nat} {block member : Block}
    (hget : outline.get? id = some block) (hmember : member ∈ outline.lineage id) :
    outline.get? member.id = some member := by
  refine h.induction_of_mem_lineage (motive := fun _ _ => outline.get? member.id = some member)
    ?_ ?_ hget hmember
  · exact fun hself => hself
  · intro _ _ _ _ _ _ _ ih
    exact ih

theorem lineage_isPrefix (h : outline.Nested) {id : Nat} {block member : Block}
    (hget : outline.get? id = some block) (hmember : member ∈ outline.lineage id) :
    outline.lineage member.id <+: outline.lineage id := by
  refine h.induction_of_mem_lineage
    (motive := fun id _ => outline.lineage member.id <+: outline.lineage id) ?_ ?_ hget hmember
  · intro _
    exact List.prefix_rfl
  · intro id block parent outer hget hparent _ ih
    rw [h.lineage_of_child hget hparent]
    exact ih.trans (List.prefix_append ..)

theorem qualifiedName_of_child (h : outline.Nested) {id parent : Nat} {block outer : Block}
    (hget : outline.get? id = some block) (hparent : block.parent = some parent)
    (houter : outline.get? parent = some outer) :
    block.qualifiedName = outer.qualifiedName ++ " " ++ block.label := by
  rw [h.qualifiedName id block hget]
  simp [parent?, hparent, houter]

theorem qualifiedName_of_root (h : outline.Nested) {id : Nat} {block : Block}
    (hget : outline.get? id = some block) (hparent : block.parent = none) :
    block.qualifiedName = block.label := by
  rw [h.qualifiedName id block hget]
  simp [parent?, hparent]

theorem qualifiedName_isPrefix (h : outline.Nested) {id : Nat} {block member : Block}
    (hget : outline.get? id = some block) (hmember : member ∈ outline.lineage id) :
    member.qualifiedName.toList <+: block.qualifiedName.toList := by
  refine h.induction_of_mem_lineage
    (motive := fun _ block => member.qualifiedName.toList <+: block.qualifiedName.toList)
    ?_ ?_ hget hmember
  · intro _
    exact List.prefix_rfl
  · intro id block parent outer hget hparent houter ih
    rw [h.qualifiedName_of_child hget hparent houter, String.toList_append, String.toList_append,
      List.append_assoc]
    exact ih.trans (List.prefix_append ..)

theorem getLast?_lineage (h : outline.Nested) {id : Nat} {block : Block}
    (hget : outline.get? id = some block) : (outline.lineage id).getLast? = some block := by
  cases hparent : block.parent with
  | none => simp [lineage_of_root hget hparent]
  | some parent => simp [h.lineage_of_child hget hparent]

theorem lineage_ne_nil (h : outline.Nested) {id : Nat} {block : Block}
    (hget : outline.get? id = some block) : outline.lineage id ≠ [] := by
  intro hnil
  simpa [hnil] using h.getLast?_lineage hget

theorem parent_of_head?_lineage (h : outline.Nested) {id : Nat} {block root : Block}
    (hget : outline.get? id = some block) (hroot : root ∈ (outline.lineage id).head?) :
    root.parent = none := by
  refine h.induction (motive := fun id _ =>
    root ∈ (outline.lineage id).head? → root.parent = none) ?_ ?_ hget hroot
  · intro id block hget hparent hroot
    rw [lineage_of_root hget hparent, List.head?_cons, Option.mem_some] at hroot
    exact hroot ▸ hparent
  · intro id block parent outer hget hparent houter ih hroot
    rw [h.lineage_of_child hget hparent, List.head?_append_of_ne_nil _ (h.lineage_ne_nil houter)]
      at hroot
    exact ih hroot

theorem isChain_lineage (h : outline.Nested) {id : Nat} {block : Block}
    (hget : outline.get? id = some block) :
    (outline.lineage id).IsChain fun outer inner => inner.parent = some outer.id := by
  refine h.induction (motive := fun id _ =>
    (outline.lineage id).IsChain fun outer inner => inner.parent = some outer.id) ?_ ?_ hget
  · intro id block hget hparent
    rw [lineage_of_root hget hparent]
    exact .singleton block
  · intro id block parent outer hget hparent houter ih
    rw [h.lineage_of_child hget hparent]
    refine ih.append (.singleton block) ?_
    intro last hlast first hfirst
    rw [h.getLast?_lineage houter, Option.mem_some] at hlast
    rw [List.head?_cons, Option.mem_some] at hfirst
    rw [← hlast, ← hfirst, hparent, h.id_eq parent outer houter]

theorem pairwise_lineage (h : outline.Nested) {id : Nat} {block : Block}
    (hget : outline.get? id = some block) :
    (outline.lineage id).Pairwise fun outer inner =>
      outline.IsOpen inner.id inner.column outer.id := by
  refine h.induction (motive := fun id _ => (outline.lineage id).Pairwise fun outer inner =>
    outline.IsOpen inner.id inner.column outer.id) ?_ ?_ hget
  · intro id block hget hparent
    rw [lineage_of_root hget hparent]
    exact List.pairwise_singleton ..
  · intro id block parent above hget hparent habove ih
    rw [h.lineage_of_child hget hparent, List.pairwise_append]
    refine ⟨ih, List.pairwise_singleton .., ?_⟩
    intro outer houter inner hinner
    rw [List.mem_singleton] at hinner
    rw [hinner, h.id_eq id block hget, (h.isInnermost hget hparent).isOpen_iff habove]
    exact (h.mem_lineage_iff (h.get?_id_of_mem_lineage habove houter) habove).1 houter

theorem intercalate_labels (h : outline.Nested) {id : Nat} {block : Block}
    (hget : outline.get? id = some block) :
    " ".intercalate ((outline.lineage id).map (·.label)) = block.qualifiedName := by
  refine h.induction (motive := fun id block =>
    " ".intercalate ((outline.lineage id).map (·.label)) = block.qualifiedName) ?_ ?_ hget
  · intro id block hget hparent
    rw [lineage_of_root hget hparent, h.qualifiedName_of_root hget hparent]
    simp
  · intro id block parent outer hget hparent houter ih
    rw [h.lineage_of_child hget hparent, h.qualifiedName_of_child hget hparent houter, ← ih,
      List.map_append, String.intercalate_append_of_ne_nil]
    · simp
    · simpa using h.lineage_ne_nil houter
    · simp

end Nested

end TestOutline.Outline
