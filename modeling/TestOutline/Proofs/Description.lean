import TestOutline.Proofs.Scan

/-! The outline of a file, said without the scan: its blocks are the declarations of the file, line
by line, and they are nested. Nested blocks are determined by their kinds, labels and the order of
their columns, so no other outline fits the description. -/

namespace TestOutline

structure Text.Addressable (lines : List (List Char)) : Prop where
  length_le : lines.length ≤ UInt32.size
  indentation_lt : ∀ line ∈ lines, indentation line < UInt32.size

/-- A declaration and its place, in unbounded numbers. -/
structure Finding where
  line : Nat
  column : Nat
  kind : Kind
  label : String
deriving DecidableEq, Repr

def Finding.ofLine? (line : List Char × Nat) : Option Finding :=
  (Declaration.ofLine? line.1).map fun declaration => {
    line := line.2
    column := Text.indentation line.1
    kind := declaration.kind
    label := declaration.label
  }

def Block.finding (block : Block) : Finding where
  line := block.line
  column := block.column
  kind := block.kind
  label := block.label

namespace Outline
open Text

/-- The blocks are the declarations on the lines, in order, and they are nested. -/
structure Describes (outline : Outline) (lines : List (List Char)) : Prop
    extends Nested outline where
  findings : outline.toList.map Block.finding = lines.zipIdx.filterMap Finding.ofLine?

structure Alike (first second : Outline) : Prop where
  size_eq : first.size = second.size
  kind_eq : ∀ id one other, first.get? id = some one → second.get? id = some other →
    one.kind = other.kind
  label_eq : ∀ id one other, first.get? id = some one → second.get? id = some other →
    one.label = other.label
  column_lt : ∀ id later one other one' other', first.get? id = some one →
    first.get? later = some one' → second.get? id = some other → second.get? later = some other' →
      (one.column < one'.column ↔ other.column < other'.column)

namespace Alike

variable {first second : Outline}

theorem symm (h : Alike first second) : Alike second first where
  size_eq := h.size_eq.symm
  kind_eq id one other hone hother := (h.kind_eq id other one hother hone).symm
  label_eq id one other hone hother := (h.label_eq id other one hother hone).symm
  column_lt id later one other one' other' hone hone' hother hother' :=
    (h.column_lt id later other one other' one' hother hother' hone hone').symm

theorem exists_get? (h : Alike first second) {id : Nat} {one : Block}
    (hget : first.get? id = some one) : ∃ other, second.get? id = some other :=
  get?_eq_some_of_lt (h.size_eq ▸ lt_size_of_get? hget)

theorem isOpen (h : Alike first second) {id suite : Nat} {one other : Block}
    (hone : first.get? id = some one) (hother : second.get? id = some other)
    (hopen : first.IsOpen id one.column suite) : second.IsOpen id other.column suite := by
  obtain ⟨outer, hget, hlt, hsuite, hcolumn, hlater⟩ := hopen
  obtain ⟨outer', hget'⟩ := h.exists_get? hget
  refine ⟨outer', hget', hlt, ?_, ?_, ?_⟩
  · have hkind := h.kind_eq suite outer outer' hget hget'
    simpa [Block.isSuite, hkind] using hsuite
  · exact (h.column_lt suite id outer outer' one other hget hone hget' hother).1 hcolumn
  · intro later between' hafter hbefore hbetween'
    obtain ⟨between, hbetween⟩ := h.symm.exists_get? hbetween'
    have hkept := hlater later between hafter hbefore hbetween
    exact (h.column_lt suite later outer outer' between between' hget hbetween hget' hbetween').1
      hkept

theorem isInnermost (h : Alike first second) {id : Nat} {one other : Block} {parent : Option Nat}
    (hone : first.get? id = some one) (hother : second.get? id = some other)
    (hparent : first.IsInnermost id one.column parent) :
    second.IsInnermost id other.column parent := by
  have hiff (suite : Nat) :
      first.IsOpen id one.column suite ↔ second.IsOpen id other.column suite :=
    ⟨h.isOpen hone hother, h.symm.isOpen hother hone⟩
  cases parent with
  | none => exact fun suite hopen => hparent suite ((hiff suite).2 hopen)
  | some last => simpa only [IsInnermost, hiff] using hparent

theorem parent_eq (h : Alike first second) (hfirst : first.Nested) (hsecond : second.Nested)
    {id : Nat} {one other : Block} (hone : first.get? id = some one)
    (hother : second.get? id = some other) : one.parent = other.parent :=
  (h.isInnermost hone hother (hfirst.parent id one hone)).unique (hsecond.parent id other hother)

theorem qualifiedName_eq (h : Alike first second) (hfirst : first.Nested) (hsecond : second.Nested)
    {id : Nat} {one other : Block} (hone : first.get? id = some one)
    (hother : second.get? id = some other) : one.qualifiedName = other.qualifiedName := by
  induction id using Nat.strong_induction_on generalizing one other with
  | _ id ih =>
    have hparent := h.parent_eq hfirst hsecond hone hother
    have hlabel := h.label_eq id one other hone hother
    rw [hfirst.qualifiedName id one hone, hsecond.qualifiedName id other hother]
    cases hp : one.parent with
    | none => simp [parent?, ← hparent, hp, hlabel]
    | some parent =>
      have hlt := hfirst.parent_lt hone hp
      obtain ⟨outer, houter⟩ := get?_eq_some_of_lt (hlt.trans (lt_size_of_get? hone))
      obtain ⟨outer', houter'⟩ := h.exists_get? houter
      have hname := ih parent hlt houter houter'
      simp [parent?, ← hparent, hp, houter, houter', hname, hlabel]

end Alike

theorem read_eq_of_map_eq {α : Type} {read : Block → α} {first second : Outline}
    (h : first.toList.map read = second.toList.map read) {id : Nat} {one other : Block}
    (hone : first.get? id = some one) (hother : second.get? id = some other) :
    read one = read other := by
  have hentry := congrArg (·[id]?) h
  rw [get?_eq_getElem?] at hone hother
  simpa [hone, hother] using hentry

theorem alike_of_findings {first second : Outline}
    (h : first.toList.map Block.finding = second.toList.map Block.finding) :
    Alike first second where
  size_eq := by simpa [length_toList] using congrArg List.length h
  kind_eq _ _ _ hone hother := congrArg Finding.kind (read_eq_of_map_eq h hone hother)
  label_eq _ _ _ hone hother := congrArg Finding.label (read_eq_of_map_eq h hone hother)
  column_lt id later one other one' other' hone hone' hother hother' := by
    have hcolumn : one.column = other.column :=
      congrArg Finding.column (read_eq_of_map_eq h hone hother)
    have hcolumn' : one'.column = other'.column :=
      congrArg Finding.column (read_eq_of_map_eq h hone' hother')
    rw [hcolumn, hcolumn']

theorem eq_of_finding_eq {one other : Block} (hfinding : one.finding = other.finding)
    (hid : one.id = other.id) (hparent : one.parent = other.parent)
    (hname : one.qualifiedName = other.qualifiedName) : one = other := by
  rcases one with ⟨id, kind, label, ⟨line, character⟩, name, parent⟩
  rcases other with ⟨id', kind', label', ⟨line', character'⟩, name', parent'⟩
  simp only [Block.finding, Block.line, Block.column, Finding.mk.injEq, UInt32.toNat_inj]
    at hfinding
  obtain ⟨rfl, rfl, rfl, rfl⟩ := hfinding
  obtain rfl := hid
  obtain rfl := hparent
  obtain rfl := hname
  rfl

theorem ext_get? {first second : Outline} (h : ∀ id, first.get? id = second.get? id) :
    first = second := by
  rcases first with ⟨blocks⟩
  rcases second with ⟨blocks'⟩
  exact congrArg Outline.mk (Array.ext_getElem? h)

theorem eq_of_findings {first second : Outline} (hfirst : first.Nested) (hsecond : second.Nested)
    (h : first.toList.map Block.finding = second.toList.map Block.finding) : first = second := by
  have halike := alike_of_findings h
  apply ext_get?
  intro id
  cases hone : first.get? id with
  | none =>
    rw [get?_eq_none_iff, halike.size_eq, ← get?_eq_none_iff] at hone
    exact hone.symm
  | some one =>
    obtain ⟨other, hother⟩ := halike.exists_get? hone
    have hid : one.id = other.id :=
      (hfirst.id_eq id one hone).trans (hsecond.id_eq id other hother).symm
    rw [hother, eq_of_finding_eq (read_eq_of_map_eq h hone hother) hid
      (halike.parent_eq hfirst hsecond hone hother)
      (halike.qualifiedName_eq hfirst hsecond hone hother)]

theorem column_of_ofLine? {line : List Char} {declaration : Declaration}
    (h : Declaration.ofLine? line = some declaration) :
    declaration.column = .ofNat (indentation line) := by
  simp only [Declaration.ofLine?, Option.bind_eq_some_iff, Option.map_eq_some_iff] at h
  obtain ⟨_, -, _, -, rfl⟩ := h
  rfl

theorem describes_ofLines {lines : List (List Char)} (h : Addressable lines) :
    (ofLines lines).Describes lines where
  toNested := nested_ofLines lines
  findings := by
    apply map_toList_ofLines
    rintro ⟨line, index⟩ hmem id parent
    have hindex : index < UInt32.size :=
      (List.snd_lt_of_mem_zipIdx hmem).trans_le (by simpa using h.length_le)
    have hindent : indentation line < UInt32.size :=
      h.indentation_lt line (List.fst_mem_of_mem_zipIdx hmem)
    cases hline : Declaration.ofLine? line with
    | none => simp [Finding.ofLine?, hline]
    | some declaration =>
      have hcolumn := column_of_ofLine? hline
      simp [Finding.ofLine?, hline, Block.finding, Block.ofDeclaration, Block.line, Block.column,
        hcolumn, Nat.mod_eq_of_lt hindex, Nat.mod_eq_of_lt hindent]

/-- The outline of a file lists its declarations in order and nests them by indentation, and it is
the only outline that does. -/
theorem eq_ofSource_iff_describes {source : String} (h : Addressable (lines source.toList))
    (outline : Outline) : outline = ofSource source ↔ outline.Describes (lines source.toList) := by
  constructor
  · rintro rfl
    exact describes_ofLines h
  · intro hdescribes
    apply eq_of_findings hdescribes.toNested (nested_ofLines _)
    rw [hdescribes.findings]
    exact (describes_ofLines h).findings.symm

def closingCase : String :=
  "describe('a')\n    describe('b')\nit('c')\n      it('d')\n"

theorem describes_closingCase :
    Addressable (lines closingCase.toList) ∧
      (ofSource closingCase).toList.map Block.parent = [none, some 0, none, none] ∧
      (ofSource closingCase).Describes (lines closingCase.toList) := by
  have h : Addressable (lines closingCase.toList) := ⟨by decide, by decide⟩
  exact ⟨h, by decide, (eq_ofSource_iff_describes h _).1 rfl⟩

end Outline

end TestOutline
