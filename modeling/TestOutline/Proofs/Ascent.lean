import Mathlib.Data.Fintype.EquivFin
import Mathlib.Data.List.Perm.Subperm
import Mathlib.Logic.Function.Iterate
import TestOutline.Outline.Json
import TestOutline.Proofs.Scan
import TestOutline.Proofs.Walk

/-! Lineages in outlines of any order. In an outline from elsewhere a parent may come later than its
children or be missing, and what a block says of its own id may be anything, so only positions tell
where a walk up goes. If no walk up returns to a block, every walk up ends: the positions that it
visits are different, and there are no more of them than blocks. What it has met by then is the
lineage of its block, and the pattern of the block is made of that. -/

namespace TestOutline.Outline

/-- The block at `id` names `parent` as the position of its parent; no block need stand there. -/
def HasParent (outline : Outline) (id parent : Nat) : Prop :=
  outline.parentId? id = some parent

/-- Going from parent to parent never returns to a block. -/
def Acyclic (outline : Outline) : Prop :=
  ∀ id, ¬Relation.TransGen outline.HasParent id id

/-- A walk up on its way: the blocks met so far, outermost first, and the block that is next. -/
structure Ascent where
  met : List Block := []
  next : Option Block
deriving DecidableEq, Repr

def Ascent.turn (outline : Outline) (ascent : Ascent) : Ascent :=
  match ascent.next with
  | some block => { met := block :: ascent.met, next := outline.parent? block }
  | none => ascent

/-- The walk up from the block at `id` after a number of turns, which nothing bounds. -/
def ascent (outline : Outline) (id turns : Nat) : Ascent :=
  (Ascent.turn outline)^[turns] { next := outline.get? id }

inductive Climbs (outline : Outline) : (id : Nat) → (visited : List Nat) → List Block → Prop
  | root {id : Nat} {block : Block} (hget : outline.get? id = some block)
      (hroot : outline.parent? block = none) : Climbs outline id [id] [block]
  | child {id parent : Nat} {block : Block} {visited : List Nat} {members : List Block}
      (hget : outline.get? id = some block) (hparent : block.parent = some parent)
      (habove : Climbs outline parent visited members) :
      Climbs outline id (id :: visited) (block :: members)

variable {outline : Outline} {id parent : Nat} {block : Block} {visited : List Nat}
  {members : List Block}

theorem hasParent_iff (hget : outline.get? id = some block) :
    outline.HasParent id parent ↔ block.parent = some parent := by
  simp [HasParent, parentId?, hget]

theorem not_hasParent (hget : outline.get? id = none) : ¬outline.HasParent id parent := by
  simp [HasParent, parentId?, hget]

theorem HasParent.unique {other : Nat} (h : outline.HasParent id parent)
    (hother : outline.HasParent id other) : parent = other :=
  Option.some.inj (h.symm.trans hother)

theorem parent?_of_parent (hparent : block.parent = some parent) :
    outline.parent? block = outline.get? parent := by
  simp [parent?, hparent]

theorem parent?_eq_some_iff {above : Block} : outline.parent? block = some above ↔
    ∃ parent, block.parent = some parent ∧ outline.get? parent = some above :=
  Option.bind_eq_some_iff

namespace Ascent

@[simp] theorem turn_some (met : List Block) (block : Block) :
    turn outline ⟨met, some block⟩ = ⟨block :: met, outline.parent? block⟩ := rfl

@[simp] theorem iterate_turn_none (met : List Block) (turns : Nat) :
    (turn outline)^[turns] ⟨met, none⟩ = ⟨met, none⟩ :=
  Function.iterate_fixed rfl turns

theorem met_iterate_turn (met : List Block) (turns id : Nat) :
    ((turn outline)^[turns] ⟨met, outline.get? id⟩).met =
      (outline.chain turns id).reverse ++ met := by
  induction turns generalizing met id with
  | zero => simp [chain]
  | succ turns ih =>
    rw [Function.iterate_succ_apply, chain]
    cases hget : outline.get? id with
    | none => simp [turn]
    | some block =>
      cases hparent : block.parent with
      | none => simp [parent?, hparent]
      | some parent => simp [parent?, hparent, ih]

end Ascent

theorem met_ascent_size (outline : Outline) (id : Nat) :
    (outline.ascent id outline.size).met = outline.lineage id := by
  rw [ascent, Ascent.met_iterate_turn, List.append_nil, lineage]

theorem Acyclic.wellFounded (h : outline.Acyclic) :
    WellFounded fun above below : Fin outline.size =>
      Relation.TransGen outline.HasParent below above := by
  have htrans : IsTrans (Fin outline.size) fun above below =>
      Relation.TransGen outline.HasParent below above :=
    ⟨fun _ _ _ hfirst hsecond => hsecond.trans hfirst⟩
  have hirrefl : Std.Irrefl fun above below : Fin outline.size =>
      Relation.TransGen outline.HasParent below above := ⟨fun position => h position⟩
  exact Finite.wellFounded_of_trans_of_irrefl _

theorem Acyclic.induction (h : outline.Acyclic) {motive : Nat → Prop}
    (root : ∀ id block, outline.get? id = some block → outline.parent? block = none → motive id)
    (child : ∀ id block parent, outline.get? id = some block → block.parent = some parent →
      motive parent → motive id) (hid : id < outline.size) : motive id := by
  suffices hall : ∀ position : Fin outline.size, motive position from hall ⟨id, hid⟩
  intro position
  induction position using h.wellFounded.induction with
  | _ position ih =>
    obtain ⟨block, hget⟩ := get?_eq_some_of_lt position.isLt
    cases habove : outline.parent? block with
    | none => exact root position block hget habove
    | some above =>
      obtain ⟨parent, hparent, hheld⟩ := parent?_eq_some_iff.1 habove
      have hup : outline.HasParent position parent := (hasParent_iff hget).2 hparent
      exact child position block parent hget hparent
        (ih ⟨parent, lt_size_of_get? hheld⟩ (.single hup))

theorem Acyclic.exists_climbs (h : outline.Acyclic) (hid : id < outline.size) :
    ∃ visited members, outline.Climbs id visited members := by
  refine h.induction (motive := fun id => ∃ visited members, outline.Climbs id visited members)
    ?_ ?_ hid
  · intro id block hget hroot
    exact ⟨[id], [block], .root hget hroot⟩
  · intro id block parent hget hparent ⟨visited, members, habove⟩
    exact ⟨id :: visited, block :: members, .child hget hparent habove⟩

theorem Nested.acyclic (h : outline.Nested) : outline.Acyclic := by
  have hlt {below above : Nat} (hup : Relation.TransGen outline.HasParent below above) :
      above < below := by
    induction hup with
    | single hup => exact h.parentId?_lt hup
    | tail _ hup ih => exact (h.parentId?_lt hup).trans ih
  intro id hcycle
  exact lt_irrefl id (hlt hcycle)

theorem acyclic_ofSource (source : String) : (ofSource source).Acyclic :=
  (nested_ofLines _).acyclic

namespace Climbs

theorem head?_visited (h : outline.Climbs id visited members) : visited.head? = some id := by
  cases h <;> rfl

theorem map_get?_visited (h : outline.Climbs id visited members) :
    visited.map outline.get? = members.map some := by
  induction h with
  | root hget _ => rw [List.map_singleton, List.map_singleton, hget]
  | child hget _ _ ih => rw [List.map_cons, List.map_cons, hget, ih]

theorem isChain_visited (h : outline.Climbs id visited members) :
    visited.IsChain outline.HasParent := by
  induction h with
  | root => exact .singleton _
  | child hget hparent habove ih =>
    refine ih.cons ?_
    intro next hnext
    rw [habove.head?_visited, Option.mem_some] at hnext
    rw [hasParent_iff hget, hparent, hnext]

theorem size_le_of_getLast? (h : outline.Climbs id visited members) {last : Nat}
    (hlast : last ∈ visited.getLast?) (hparent : outline.HasParent last parent) :
    outline.size ≤ parent := by
  induction h with
  | root hget hroot =>
    rw [List.getLast?_singleton, Option.mem_some] at hlast
    subst hlast
    rw [parent?_of_parent ((hasParent_iff hget).1 hparent)] at hroot
    exact (get?_eq_none_iff outline parent).1 hroot
  | child _ _ habove ih =>
    have hne : _ ≠ [] := List.ne_nil_of_mem (List.mem_of_mem_head? habove.head?_visited)
    rw [List.getLast?_cons_of_ne_nil hne] at hlast
    exact ih hlast

theorem nodup_visited (h : outline.Climbs id visited members) (hacyclic : outline.Acyclic) :
    visited.Nodup := by
  have hpairwise : visited.Pairwise (Relation.TransGen outline.HasParent) :=
    List.isChain_iff_pairwise.1 (h.isChain_visited.imp fun _ _ => .single)
  refine hpairwise.imp ?_
  rintro below above hup rfl
  exact hacyclic below hup

theorem length_visited_le (h : outline.Climbs id visited members) (hacyclic : outline.Acyclic) :
    visited.length ≤ outline.size := by
  have hsubset : visited ⊆ List.range outline.size := by
    intro position hposition
    have hheld := List.mem_map_of_mem (f := outline.get?) hposition
    rw [h.map_get?_visited, List.mem_map] at hheld
    obtain ⟨block, -, hblock⟩ := hheld
    exact List.mem_range.2 (lt_size_of_get? hblock.symm)
  calc visited.length ≤ (List.range outline.size).length :=
        ((h.nodup_visited hacyclic).subperm hsubset).length_le
    _ = outline.size := List.length_range

theorem iterate_turn (h : outline.Climbs id visited members) (met : List Block) (turns : Nat) :
    (Ascent.turn outline)^[turns] ⟨met, outline.get? id⟩ =
      ⟨(members.take turns).reverse ++ met, members[turns]?⟩ := by
  induction h generalizing met turns with
  | root hget hroot =>
    cases turns with
    | zero => simp [hget]
    | succ turns => simp [hget, hroot]
  | child hget hparent habove ih =>
    cases turns with
    | zero => simp [hget]
    | succ turns => simp [hget, parent?_of_parent hparent, ih]

theorem ascent_eq (h : outline.Climbs id visited members) (turns : Nat) :
    outline.ascent id turns = { met := (members.take turns).reverse, next := members[turns]? } := by
  rw [ascent, h.iterate_turn, List.append_nil]

theorem length_members (h : outline.Climbs id visited members) :
    members.length = visited.length := by
  simpa using (congrArg List.length h.map_get?_visited).symm

theorem not_transGen (h : outline.Climbs id visited members) :
    ¬Relation.TransGen outline.HasParent id id := by
  induction h with
  | @root id block hget hroot =>
    intro hcycle
    obtain ⟨parent, hup, hback⟩ := Relation.TransGen.head'_iff.1 hcycle
    rw [parent?_of_parent ((hasParent_iff hget).1 hup)] at hroot
    rcases hback.cases_head with rfl | ⟨next, hnext, -⟩
    · simp [hget] at hroot
    · exact not_hasParent hroot hnext
  | child hget hparent _ ih =>
    intro hcycle
    obtain ⟨next, hup, hback⟩ := Relation.TransGen.head'_iff.1 hcycle
    have hsame := hup.unique ((hasParent_iff hget).2 hparent)
    subst hsame
    exact ih (.tail' hback hup)

end Climbs

theorem exists_climbs_of_next_eq_none {met : List Block} {turns : Nat} (hid : id < outline.size)
    (hend : ((Ascent.turn outline)^[turns] ⟨met, outline.get? id⟩).next = none) :
    ∃ visited members, outline.Climbs id visited members := by
  induction turns generalizing id met with
  | zero =>
    have hsize := (get?_eq_none_iff outline id).1 hend
    omega
  | succ turns ih =>
    obtain ⟨block, hget⟩ := get?_eq_some_of_lt hid
    rw [Function.iterate_succ_apply, hget, Ascent.turn_some] at hend
    cases habove : outline.parent? block with
    | none => exact ⟨[id], [block], .root hget habove⟩
    | some above =>
      obtain ⟨parent, hparent, hheld⟩ := parent?_eq_some_iff.1 habove
      rw [parent?_of_parent hparent] at hend
      obtain ⟨visited, members, hclimbs⟩ := ih (lt_size_of_get? hheld) hend
      exact ⟨id :: visited, block :: members, .child hget hparent hclimbs⟩

theorem acyclic_iff :
    outline.Acyclic ↔ ∀ id < outline.size, (outline.ascent id outline.size).next = none := by
  constructor
  · intro h id hid
    obtain ⟨visited, members, hclimbs⟩ := h.exists_climbs hid
    rw [hclimbs.ascent_eq, List.getElem?_eq_none_iff, hclimbs.length_members]
    exact hclimbs.length_visited_le h
  · intro hend id hcycle
    obtain ⟨parent, hup, -⟩ := Relation.TransGen.head'_iff.1 hcycle
    cases hget : outline.get? id with
    | none => exact not_hasParent hget hup
    | some block =>
      have hid := lt_size_of_get? hget
      obtain ⟨visited, members, hclimbs⟩ := exists_climbs_of_next_eq_none hid (hend id hid)
      exact hclimbs.not_transGen hcycle

instance : Decidable outline.Acyclic :=
  decidable_of_iff _ acyclic_iff.symm

/-- The walk up from the block at `id` visits the positions `visited` in their order, meets the
blocks `members` there, one at each turn, and ends behind the last of them. -/
structure Ascends (outline : Outline) (id : Nat) (visited : List Nat) (members : List Block) :
    Prop where
  head : visited.head? = some id
  held : visited.map outline.get? = members.map some
  parents : visited.IsChain outline.HasParent
  root : ∀ last ∈ visited.getLast?, ∀ parent, outline.HasParent last parent → outline.size ≤ parent
  nodup : visited.Nodup
  length_le : visited.length ≤ outline.size
  turns : ∀ turns, outline.ascent id turns =
    { met := (members.take turns).reverse, next := members[turns]? }

theorem Climbs.ascends (h : outline.Climbs id visited members) (hacyclic : outline.Acyclic) :
    outline.Ascends id visited members where
  head := h.head?_visited
  held := h.map_get?_visited
  parents := h.isChain_visited
  root _ hlast _ hparent := h.size_le_of_getLast? hlast hparent
  nodup := h.nodup_visited hacyclic
  length_le := h.length_visited_le hacyclic
  turns := h.ascent_eq

theorem Climbs.lineage_eq (h : outline.Climbs id visited members) (hacyclic : outline.Acyclic) :
    outline.lineage id = members.reverse := by
  have hlength : members.length ≤ outline.size :=
    h.length_members ▸ h.length_visited_le hacyclic
  rw [← met_ascent_size, h.ascent_eq, List.take_of_length_le hlength]

theorem Climbs.ascent_length (h : outline.Climbs id visited members) :
    outline.ascent id visited.length = { met := members.reverse, next := none } := by
  rw [h.ascent_eq, ← h.length_members, List.take_length, List.getElem?_eq_none le_rfl]

/-- In an acyclic outline the walk up from a block ends, within as many turns as there are blocks.
What it has met is the lineage of the block, and the labels of that make up the pattern. -/
theorem pattern_of_acyclic (h : outline.Acyclic) (hget : outline.get? id = some block) :
    ∃ visited members, outline.Ascends id visited members ∧
      outline.ascent id visited.length = { met := members.reverse, next := none } ∧
      outline.lineage id = members.reverse ∧
      outline.pattern id =
        "^" ++ " ".intercalate
          (members.reverse.map fun member => .ofList (Grep.escape member.label.toList)) ++
        (if block.isTestCase then "$" else "") := by
  obtain ⟨visited, members, hclimbs⟩ := h.exists_climbs (lt_size_of_get? hget)
  have hlineage := hclimbs.lineage_eq h
  refine ⟨visited, members, hclimbs.ascends h, hclimbs.ascent_length, hlineage, ?_⟩
  rw [pattern, hget, hlineage]
  cases hkind : block.kind with
  | suite => simp [Grep.anchored, Block.isTestCase, hkind, Function.comp_def]
  | testCase => simp [Grep.anchored, Block.isTestCase, hkind, Function.comp_def]

def shuffledBlocks : Outline where
  blocks := #[⟨7, .testCase, "b.", ⟨0, 0⟩, "b.", some 3⟩, ⟨7, .suite, "a", ⟨4, 2⟩, "a", some 9⟩,
    ⟨0, .suite, "c", ⟨1, 0⟩, "c", none⟩, ⟨7, .suite, "d+", ⟨2, 8⟩, "", some 1⟩]

theorem pattern_shuffledBlocks :
    ofJson? shuffledBlocks.toJson = some shuffledBlocks ∧ shuffledBlocks.Acyclic ∧
      shuffledBlocks.pattern 0 = "^a d\\+ b\\.$" ∧
      ∃ visited members, shuffledBlocks.Ascends 0 visited members ∧
        shuffledBlocks.ascent 0 visited.length = { met := members.reverse, next := none } ∧
        members.map (·.label) = ["b.", "d+", "a"] := by
  have hacyclic : shuffledBlocks.Acyclic := by decide
  have hlabels : (shuffledBlocks.lineage 0).map (·.label) = ["a", "d+", "b."] := by decide
  have hget : shuffledBlocks.get? 0 = some ⟨7, .testCase, "b.", ⟨0, 0⟩, "b.", some 3⟩ := rfl
  obtain ⟨visited, members, hascends, hend, hlineage, -⟩ := pattern_of_acyclic hacyclic hget
  refine ⟨by decide, hacyclic, by decide, visited, members, hascends, hend, ?_⟩
  rw [hlineage, List.map_reverse, List.reverse_eq_iff] at hlabels
  exact hlabels

end TestOutline.Outline
