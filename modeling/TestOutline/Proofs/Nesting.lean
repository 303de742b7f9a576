import Mathlib.Order.Bounds.Basic
import TestOutline.Outline.Basic

/-! Nesting, told from the blocks alone. A suite is open behind the first blocks of an outline
until one of them starts in the suite's column or further left; a block lies below the innermost
suite that is open where it starts. No stack appears in these definitions: that the scan of a file
keeps the right suites at hand is what `Scan.Sound` says. -/

namespace TestOutline

namespace Block

def line (block : Block) : Nat :=
  block.start.line.toNat

def column (block : Block) : Nat :=
  block.start.character.toNat

end Block

namespace Outline

/-- For something in `column` behind the first `count` blocks, the suite at `id` is still open. -/
def IsOpen (outline : Outline) (count column id : Nat) : Prop :=
  ∃ suite, outline.get? id = some suite ∧ id < count ∧ suite.isSuite ∧ suite.column < column ∧
    ∀ later block, id < later → later < count → outline.get? later = some block →
      suite.column < block.column

/-- The last of the open suites, if there is one. -/
def IsInnermost (outline : Outline) (count column : Nat) : Option Nat → Prop
  | some id => IsGreatest {id | outline.IsOpen count column id} id
  | none => ∀ id, ¬ outline.IsOpen count column id

/-- Ids are positions, parents are the innermost open suites, and names follow the parents. -/
structure Nested (outline : Outline) : Prop where
  id_eq : ∀ id block, outline.get? id = some block → block.id = id
  parent : ∀ id block, outline.get? id = some block →
    outline.IsInnermost id block.column block.parent
  qualifiedName : ∀ id block, outline.get? id = some block →
    block.qualifiedName = match outline.parent? block with
      | some parent => parent.qualifiedName ++ " " ++ block.label
      | none => block.label

theorem lt_size_of_get? {outline : Outline} {id : Nat} {block : Block}
    (h : outline.get? id = some block) : id < outline.size := by
  by_contra hle
  rw [(get?_eq_none_iff outline id).2 (by omega)] at h
  simp at h

theorem get?_eq_some_of_lt {outline : Outline} {id : Nat} (h : id < outline.size) :
    ∃ block, outline.get? id = some block := by
  cases hget : outline.get? id with
  | none => exact absurd ((get?_eq_none_iff outline id).1 hget) (by omega)
  | some block => exact ⟨block, rfl⟩

theorem mem_toList_iff {outline : Outline} {block : Block} :
    block ∈ outline.toList ↔ ∃ id, outline.get? id = some block := by
  simp only [get?_eq_getElem?]
  exact List.mem_iff_getElem?

theorem isOpen_congr {first second : Outline} {count : Nat}
    (h : ∀ id < count, first.get? id = second.get? id) (column id : Nat) :
    first.IsOpen count column id ↔ second.IsOpen count column id := by
  constructor
  · rintro ⟨suite, hget, hid, hsuite, hcolumn, hlater⟩
    refine ⟨suite, h id hid ▸ hget, hid, hsuite, hcolumn, ?_⟩
    intro later block hlt hcount hblock
    exact hlater later block hlt hcount (h later hcount ▸ hblock)
  · rintro ⟨suite, hget, hid, hsuite, hcolumn, hlater⟩
    refine ⟨suite, (h id hid).symm ▸ hget, hid, hsuite, hcolumn, ?_⟩
    intro later block hlt hcount hblock
    exact hlater later block hlt hcount ((h later hcount).symm ▸ hblock)

theorem isInnermost_congr {first second : Outline} {count : Nat}
    (h : ∀ id < count, first.get? id = second.get? id) (column : Nat) (parent : Option Nat) :
    first.IsInnermost count column parent ↔ second.IsInnermost count column parent := by
  cases parent with
  | none => simp only [IsInnermost, isOpen_congr h]
  | some id => simp only [IsInnermost, isOpen_congr h]

theorem IsInnermost.unique {outline : Outline} {count column : Nat} {first second : Option Nat}
    (hfirst : outline.IsInnermost count column first)
    (hsecond : outline.IsInnermost count column second) : first = second := by
  cases first with
  | none =>
    cases second with
    | none => rfl
    | some id => exact absurd hsecond.1 (hfirst id)
  | some id =>
    cases second with
    | none => exact absurd hfirst.1 (hsecond id)
    | some other => rw [IsGreatest.unique hfirst hsecond]

theorem isOpen_succ {outline : Outline} {count : Nat} {block : Block}
    (hblock : outline.get? count = some block) (column id : Nat) :
    outline.IsOpen (count + 1) column id ↔
      (id = count ∧ block.isSuite ∧ block.column < column) ∨
        outline.IsOpen count (min column block.column) id := by
  constructor
  · rintro ⟨suite, hget, hid, hsuite, hcolumn, hlater⟩
    by_cases hlast : id = count
    · subst hlast
      rw [hblock, Option.some.injEq] at hget
      exact .inl ⟨rfl, hget ▸ hsuite, hget ▸ hcolumn⟩
    · have hlt : id < count := by omega
      have hleft := hlater count block hlt (by omega) hblock
      refine .inr ⟨suite, hget, hlt, hsuite, by omega, ?_⟩
      intro later other hafter hbefore hother
      exact hlater later other hafter (by omega) hother
  · rintro (⟨rfl, hsuite, hcolumn⟩ | ⟨suite, hget, hid, hsuite, hcolumn, hlater⟩)
    · exact ⟨block, hblock, by omega, hsuite, hcolumn, by omega⟩
    · refine ⟨suite, hget, by omega, hsuite, by omega, ?_⟩
      intro later other hafter hbefore hother
      by_cases hlast : later = count
      · rw [hlast, hblock, Option.some.injEq] at hother
        rw [← hother]
        omega
      · exact hlater later other hafter (by omega) hother

theorem isInnermost_succ {outline : Outline} {count column : Nat} {block : Block}
    {parent : Option Nat} (hblock : outline.get? count = some block)
    (h : outline.IsInnermost count (min column block.column) parent) :
    outline.IsInnermost (count + 1) column
      (if block.isSuite ∧ block.column < column then some count else parent) := by
  split
  · next hnew =>
    refine ⟨(isOpen_succ hblock ..).2 (.inl ⟨rfl, hnew⟩), ?_⟩
    intro id hopen
    obtain ⟨suite, -, hid, -⟩ := hopen
    omega
  · next hold =>
    have hopen (id : Nat) : outline.IsOpen (count + 1) column id ↔
        outline.IsOpen count (min column block.column) id := by
      rw [isOpen_succ hblock]
      exact or_iff_right fun hnew => hold hnew.2
    cases parent with
    | none => exact fun id hid => h id ((hopen id).1 hid)
    | some last => simpa only [IsInnermost, hopen] using h

theorem isInnermost_push {outline : Outline} {block : Block} {count column : Nat}
    {parent : Option Nat} (hcount : count ≤ outline.size) :
    (outline.push block).IsInnermost count column parent ↔
      outline.IsInnermost count column parent :=
  isInnermost_congr (fun _ hlt => get?_push_of_lt outline block (by omega)) column parent

theorem IsInnermost.isOpen_iff {outline : Outline} {count column parent : Nat} {outer : Block}
    (h : outline.IsInnermost count column (some parent)) (houter : outline.get? parent = some outer)
    (id : Nat) :
    outline.IsOpen count column id ↔ id = parent ∨ outline.IsOpen parent outer.column id := by
  obtain ⟨found, hfound, hcount, -, hcolumn, hlater⟩ := h.1
  rw [houter, Option.some.injEq] at hfound
  subst hfound
  constructor
  · intro hopen
    have hle : id ≤ parent := h.2 hopen
    obtain ⟨suite, hget, hid, hsuite, -, hkept⟩ := hopen
    by_cases hlast : id = parent
    · exact .inl hlast
    · have hlt : id < parent := by omega
      refine .inr ⟨suite, hget, hlt, hsuite, hkept parent outer hlt hcount houter, ?_⟩
      intro later block hafter hbefore hblock
      exact hkept later block hafter (by omega) hblock
  · rintro (rfl | ⟨suite, hget, hid, hsuite, hleft, hkept⟩)
    · exact h.1
    · refine ⟨suite, hget, by omega, hsuite, by omega, ?_⟩
      intro later block hafter hbefore hblock
      rcases Nat.lt_trichotomy later parent with hlt | rfl | hgt
      · exact hkept later block hafter hlt hblock
      · rw [houter, Option.some.injEq] at hblock
        exact hblock ▸ hleft
      · have hright := hlater later block hgt hbefore hblock
        omega

theorem IsInnermost.lt {outline : Outline} {count column id : Nat}
    (h : outline.IsInnermost count column (some id)) : id < count := by
  obtain ⟨suite, -, hid, -⟩ := h.1
  exact hid

theorem Nested.get?_id {outline : Outline} (h : outline.Nested) {block : Block}
    (hblock : block ∈ outline.toList) :
    outline.get? block.id = some block := by
  obtain ⟨id, hget⟩ := mem_toList_iff.1 hblock
  rw [h.id_eq id block hget, hget]

theorem Nested.isInnermost {outline : Outline} (h : outline.Nested) {id : Nat} {block : Block}
    {parent : Option Nat} (hget : outline.get? id = some block) (hparent : block.parent = parent) :
    outline.IsInnermost id block.column parent := by
  rw [← hparent]
  exact h.parent id block hget

theorem Nested.parent_lt {outline : Outline} (h : outline.Nested) {id parent : Nat} {block : Block}
    (hget : outline.get? id = some block) (hparent : block.parent = some parent) : parent < id :=
  (h.isInnermost hget hparent).lt

theorem Nested.exists_parent {outline : Outline} (h : outline.Nested) {id parent : Nat}
    {block : Block} (hget : outline.get? id = some block) (hparent : block.parent = some parent) :
    ∃ outer, outline.get? parent = some outer := by
  obtain ⟨outer, houter, -⟩ := (h.isInnermost hget hparent).1
  exact ⟨outer, houter⟩

theorem Nested.induction {outline : Outline} (h : outline.Nested) {motive : Nat → Block → Prop}
    (root : ∀ id block, outline.get? id = some block → block.parent = none → motive id block)
    (child : ∀ id block parent outer, outline.get? id = some block → block.parent = some parent →
      outline.get? parent = some outer → motive parent outer → motive id block)
    {id : Nat} {block : Block} (hget : outline.get? id = some block) : motive id block := by
  induction id using Nat.strong_induction_on generalizing block with
  | _ id ih =>
    cases hparent : block.parent with
    | none => exact root id block hget hparent
    | some parent =>
      obtain ⟨outer, houter⟩ := h.exists_parent hget hparent
      exact child id block parent outer hget hparent houter
        (ih parent (h.parent_lt hget hparent) houter)

theorem parent?_push {outline : Outline} {block : Block}
    (h : ∀ parent, block.parent = some parent → parent < outline.size) (added : Block) :
    (outline.push added).parent? block = outline.parent? block := by
  cases hparent : block.parent with
  | none => simp [parent?, hparent]
  | some parent => simp [parent?, hparent, get?_push_of_lt _ _ (h parent hparent)]

theorem nested_empty : Nested {} := by
  constructor <;> simp [get?]

theorem Nested.push {outline : Outline} (h : outline.Nested) {block : Block}
    (hid : block.id = outline.size)
    (hparent : outline.IsInnermost outline.size block.column block.parent)
    (hname : block.qualifiedName = Block.qualify (outline.parent? block) block.label) :
    (outline.push block).Nested := by
  have cases_get? {id : Nat} {found : Block} (hget : (outline.push block).get? id = some found) :
      (id = outline.size ∧ found = block) ∨ (id < outline.size ∧ outline.get? id = some found) := by
    have hlt := lt_size_of_get? hget
    rw [size_push] at hlt
    by_cases hlast : id = outline.size
    · subst hlast
      rw [get?_push_size, Option.some.injEq] at hget
      exact .inl ⟨rfl, hget.symm⟩
    · have hold : id < outline.size := by omega
      exact .inr ⟨hold, get?_push_of_lt outline block hold ▸ hget⟩
  constructor
  · intro id found hget
    rcases cases_get? hget with ⟨rfl, rfl⟩ | ⟨-, hold⟩
    · exact hid
    · exact h.id_eq id found hold
  · intro id found hget
    rcases cases_get? hget with ⟨rfl, rfl⟩ | ⟨hlt, hold⟩
    · exact (isInnermost_push le_rfl).2 hparent
    · exact (isInnermost_push hlt.le).2 (h.parent id found hold)
  · intro id found hget
    rcases cases_get? hget with ⟨rfl, rfl⟩ | ⟨hlt, hold⟩
    · rw [parent?_push fun parent hp => (hp ▸ hparent).lt]
      exact hname
    · rw [parent?_push fun parent hp => (h.parent_lt hold hp).trans hlt]
      exact h.qualifiedName id found hold

end Outline

end TestOutline
