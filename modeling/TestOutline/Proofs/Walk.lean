import Mathlib.Data.Nat.Find
import TestOutline.Proofs.Lineage

/-! The depth-first walk of a nested outline. The blocks below a block are those that follow it up
to some position, so a walk that starts with the first of an interval of blocks goes on through the
interval in order. -/

namespace TestOutline.Outline

def idsBelow (outline : Outline) (parent : Option Nat) : List Nat :=
  (outline.toList.filter (·.parent = parent)).map (·.id)

/-- Visiting the blocks `pending`, and below each of them its children first, meets `visited`. -/
inductive Walk (outline : Outline) : (pending visited : List Nat) → Prop
  | done : Walk outline [] []
  | visit {id : Nat} {pending below rest : List Nat} :
      Walk outline ((outline.children id).map (·.id)) below → Walk outline pending rest →
      Walk outline (id :: pending) (id :: (below ++ rest))

theorem Walk.unique {outline : Outline} {pending first second : List Nat}
    (hfirst : outline.Walk pending first) (hsecond : outline.Walk pending second) :
    first = second := by
  induction hfirst generalizing second with
  | done =>
    cases hsecond
    rfl
  | visit _ _ ihbelow ihrest =>
    cases hsecond with
    | visit hbelow hrest => rw [ihbelow hbelow, ihrest hrest]

def parentId? (outline : Outline) (id : Nat) : Option Nat :=
  (outline.get? id).bind (·.parent)

theorem lineage_of_none {outline : Outline} {id : Nat} (h : outline.get? id = none) :
    outline.lineage id = [] := by
  rw [lineage]
  cases outline.size with
  | zero => rfl
  | succ count => simp [chain, h]

namespace Nested

variable {outline : Outline} {id : Nat} {outer : Block}

theorem map_id_toList (h : outline.Nested) :
    outline.toList.map (·.id) = List.range outline.size := by
  apply List.ext_getElem?
  intro id
  rw [List.getElem?_map, ← get?_eq_getElem?]
  cases hget : outline.get? id with
  | none =>
    have hsize := (get?_eq_none_iff outline id).1 hget
    simp [hsize]
  | some block =>
    simp [h.id_eq id block hget, lt_size_of_get? hget]

theorem idsBelow_eq (h : outline.Nested) (parent : Option Nat) :
    outline.idsBelow parent =
      (List.range outline.size).filter (outline.parentId? · = parent) := by
  rw [← h.map_id_toList, List.filter_map, idsBelow]
  congr 1
  apply List.filter_congr
  intro block hblock
  simp [parentId?, h.get?_id hblock]

theorem parentId?_lt (h : outline.Nested) {parent : Nat}
    (hparent : outline.parentId? id = some parent) : parent < id := by
  obtain ⟨block, hget, hblock⟩ := Option.bind_eq_some_iff.1 hparent
  exact h.parent_lt hget hblock

theorem lt_size_of_mem_lineage {member : Block} (hmember : member ∈ outline.lineage id) :
    id < outline.size := by
  by_contra hle
  rw [lineage_of_none ((get?_eq_none_iff outline id).2 (by omega))] at hmember
  simp at hmember

theorem mem_lineage_iff_parentId? (h : outline.Nested) (houter : outline.get? id = some outer)
    {later : Nat} (hlater : later < outline.size) (hne : later ≠ id) :
    outer ∈ outline.lineage later ↔
      ∃ parent, outline.parentId? later = some parent ∧ outer ∈ outline.lineage parent := by
  obtain ⟨block, hget⟩ := get?_eq_some_of_lt hlater
  have hother : outer ≠ block := fun heq => hne ((h.eq_iff_id_eq houter hget).1 heq).symm
  cases hparent : block.parent with
  | none => simp [lineage_of_root hget hparent, parentId?, hget, hparent, hother]
  | some parent => simp [h.lineage_of_child hget hparent, parentId?, hget, hparent, hother]

theorem mem_lineage_self (h : outline.Nested) (houter : outline.get? id = some outer) :
    outer ∈ outline.lineage id :=
  List.mem_of_getLast? (h.getLast?_lineage houter)

theorem mem_lineage_of_parentId? (h : outline.Nested) {parent later : Nat}
    (hparent : outline.parentId? later = some parent)
    (hmem : outer ∈ outline.lineage parent) : outer ∈ outline.lineage later := by
  obtain ⟨block, hget, hblock⟩ := Option.bind_eq_some_iff.1 hparent
  rw [h.lineage_of_child hget hblock]
  exact List.mem_append_left _ hmem

theorem le_of_mem_lineage (h : outline.Nested) (houter : outline.get? id = some outer) {later : Nat}
    (hmem : outer ∈ outline.lineage later) : id ≤ later := by
  obtain ⟨block, hget⟩ := get?_eq_some_of_lt (lt_size_of_mem_lineage hmem)
  rcases (h.mem_lineage_iff houter hget).1 hmem with rfl | ⟨_, _, hlt, _⟩ <;> omega

theorem mem_lineage_of_between (h : outline.Nested) (houter : outline.get? id = some outer)
    {between later : Nat} (hmem : outer ∈ outline.lineage later) (hafter : id ≤ between)
    (hbefore : between ≤ later) : outer ∈ outline.lineage between := by
  obtain ⟨block, hget⟩ := get?_eq_some_of_lt (lt_size_of_mem_lineage hmem)
  obtain ⟨middle, hmiddle⟩ := get?_eq_some_of_lt (hbefore.trans_lt (lt_size_of_get? hget))
  rw [h.mem_lineage_iff houter hmiddle]
  by_cases hself : id = between
  · exact .inl hself
  · -- What keeps the suite open up to the later block keeps it open up to the one between.
    rcases (h.mem_lineage_iff houter hget).1 hmem with
      rfl | ⟨suite, hfound, hlt, hsuite, hleft, hkept⟩
    · omega
    · refine .inr ⟨suite, hfound, by omega, hsuite, ?_, ?_⟩
      · by_cases hlast : between = later
        · subst hlast
          rw [hget, Option.some.injEq] at hmiddle
          exact hmiddle ▸ hleft
        · exact hkept between middle (by omega) (by omega) hmiddle
      · intro other found hinner houtermost hother
        exact hkept other found hinner (by omega) hother

theorem exists_stop (h : outline.Nested) (houter : outline.get? id = some outer) :
    ∃ stop, ∀ later, outer ∈ outline.lineage later ↔ id ≤ later ∧ later < stop := by
  have hend : ∃ stop, id ≤ stop ∧ outer ∉ outline.lineage stop := by
    refine ⟨outline.size, (lt_size_of_get? houter).le, fun hmem => ?_⟩
    exact absurd (lt_size_of_mem_lineage hmem) (by omega)
  classical
  refine ⟨Nat.find hend, fun later => ⟨fun hmem => ⟨h.le_of_mem_lineage houter hmem, ?_⟩, ?_⟩⟩
  · by_contra hle
    obtain ⟨hstart, hnot⟩ := Nat.find_spec hend
    exact hnot (h.mem_lineage_of_between houter hmem hstart (by omega))
  · rintro ⟨hstart, hlt⟩
    by_contra hnot
    exact Nat.find_min hend hlt ⟨hstart, hnot⟩

theorem idsBelow_some (h : outline.Nested) (houter : outline.get? id = some outer)
    {stop width : Nat}
    (hstop : ∀ later, outer ∈ outline.lineage later ↔ id ≤ later ∧ later < stop)
    (hwidth : id + 1 + width = stop) :
    outline.idsBelow (some id) =
      (List.range' (id + 1) width).filter (outline.parentId? · = some id) := by
  have hsize : stop ≤ outline.size := by
    have hlast : outer ∈ outline.lineage (id + width) := (hstop _).2 ⟨by omega, by omega⟩
    have hlt := lt_size_of_mem_lineage hlast
    omega
  obtain ⟨more, hmore⟩ := Nat.exists_eq_add_of_le hsize
  have hsplit : List.range outline.size =
      List.range' 0 (id + 1) ++ (List.range' (id + 1) width ++ List.range' stop more) := by
    rw [List.range_eq_range', hmore, ← hwidth, List.range'_append_1]
    have hfront := @List.range'_append_1 0 (id + 1) (width + more)
    rw [Nat.zero_add] at hfront
    rw [hfront]
    congr 1
    omega
  have hbefore : (List.range' 0 (id + 1)).filter (outline.parentId? · = some id) = [] := by
    rw [List.filter_eq_nil_iff]
    intro later hlater hparent
    have hlt := h.parentId?_lt (of_decide_eq_true hparent)
    simp at hlater
    omega
  have hbehind : (List.range' stop more).filter (outline.parentId? · = some id) = [] := by
    rw [List.filter_eq_nil_iff]
    intro later hlater hparent
    have hmem := h.mem_lineage_of_parentId? (of_decide_eq_true hparent)
      (h.mem_lineage_self houter)
    have hlt := (hstop later).1 hmem
    simp at hlater
    omega
  rw [h.idsBelow_eq, hsplit, List.filter_append, List.filter_append, hbefore, hbehind]
  simp

end Nested

/-- The blocks of an interval lie below `parent` or below each other, and nothing behind the
interval lies right below one of them. -/
structure Closed (outline : Outline) (parent : Option Nat) (first count : Nat) : Prop where
  parent_lt : ∀ id, parent = some id → id < first
  inside : ∀ id, first ≤ id → id < first + count → outline.parentId? id = parent ∨
    ∃ above, outline.parentId? id = some above ∧ first ≤ above
  behind : ∀ id, first + count ≤ id → ∀ above, outline.parentId? id = some above →
    above < first ∨ first + count ≤ above

namespace Closed

variable {outline : Outline} {parent : Option Nat} {first count : Nat} {outer : Block}

theorem parentId?_first (h : outline.Nested) (hclosed : Closed outline parent first (count + 1)) :
    outline.parentId? first = parent := by
  cases hclosed.inside first le_rfl (by omega) with
  | inl hparent => exact hparent
  | inr habove =>
    obtain ⟨above, hparent, hle⟩ := habove
    have hlt := h.parentId?_lt hparent
    omega

theorem stop_le (h : outline.Nested) (hclosed : Closed outline parent first (count + 1))
    (houter : outline.get? first = some outer) {stop : Nat}
    (hstop : ∀ later, outer ∈ outline.lineage later ↔ first ≤ later ∧ later < stop) :
    stop ≤ first + (count + 1) := by
  by_contra hlt
  have hmem : outer ∈ outline.lineage (first + (count + 1)) := (hstop _).2 ⟨by omega, by omega⟩
  obtain ⟨above, hparent, habove⟩ :=
    (h.mem_lineage_iff_parentId? houter (Nested.lt_size_of_mem_lineage hmem) (by omega)).1 hmem
  have hle := h.le_of_mem_lineage houter habove
  have hbefore := h.parentId?_lt hparent
  cases hclosed.behind _ le_rfl above hparent with
  | inl hlt => omega
  | inr hge => omega

theorem below (h : outline.Nested) (houter : outline.get? first = some outer) {stop : Nat}
    (hstop : ∀ later, outer ∈ outline.lineage later ↔ first ≤ later ∧ later < stop)
    {width : Nat} (hwidth : first + 1 + width = stop) :
    Closed outline (some first) (first + 1) width where
  parent_lt := by simp
  inside id hfirst hid := by
    have hmem : outer ∈ outline.lineage id := (hstop id).2 ⟨by omega, by omega⟩
    obtain ⟨above, hparent, habove⟩ :=
      (h.mem_lineage_iff_parentId? houter (Nested.lt_size_of_mem_lineage hmem) (by omega)).1 hmem
    have hle := h.le_of_mem_lineage houter habove
    by_cases heq : above = first
    · exact .inl (heq ▸ hparent)
    · exact .inr ⟨above, hparent, by omega⟩
  behind id hid above hparent := by
    by_contra hinside
    have habove : outer ∈ outline.lineage above := (hstop above).2 ⟨by omega, by omega⟩
    have hmem := h.mem_lineage_of_parentId? hparent habove
    have hlt := (hstop id).1 hmem
    omega

theorem filter_below (h : outline.Nested) (hclosed : Closed outline parent first (count + 1))
    (houter : outline.get? first = some outer) {stop : Nat}
    (hstop : ∀ later, outer ∈ outline.lineage later ↔ first ≤ later ∧ later < stop)
    {width : Nat} (hwidth : first + 1 + width = stop) :
    (List.range' (first + 1) width).filter (outline.parentId? · = parent) = [] := by
  rw [List.filter_eq_nil_iff]
  intro id hid hparent
  have hrange := List.mem_range'_1.1 hid
  cases (below h houter hstop hwidth).inside id hrange.1 hrange.2 with
  | inl hfirst =>
    have hlt := hclosed.parent_lt first (of_decide_eq_true hparent ▸ hfirst)
    omega
  | inr habove =>
    obtain ⟨above, habove, hle⟩ := habove
    have hlt := hclosed.parent_lt above (of_decide_eq_true hparent ▸ habove)
    omega

theorem rest (h : outline.Nested) (hclosed : Closed outline parent first (count + 1))
    (houter : outline.get? first = some outer) {stop : Nat}
    (hstop : ∀ later, outer ∈ outline.lineage later ↔ first ≤ later ∧ later < stop)
    {width : Nat} (hwidth : stop + width = first + (count + 1)) :
    Closed outline parent stop width := by
  have hfirst := ((hstop first).1 (h.mem_lineage_self houter)).2
  constructor
  · intro id hid
    have hlt := hclosed.parent_lt id hid
    omega
  · intro id hid hend
    cases hclosed.inside id (by omega) (by omega) with
    | inl hparent => exact .inl hparent
    | inr hinside =>
      obtain ⟨above, hparent, hle⟩ := hinside
      refine .inr ⟨above, hparent, ?_⟩
      by_contra hlt
      have habove : outer ∈ outline.lineage above := (hstop above).2 ⟨hle, by omega⟩
      have hmem := h.mem_lineage_of_parentId? hparent habove
      have hend := (hstop id).1 hmem
      omega
  · intro id hid above hparent
    have hbehind := hclosed.behind id (by omega) above hparent
    omega

end Closed

theorem walk_interval {outline : Outline} (h : outline.Nested) {parent : Option Nat}
    {first count : Nat} (hsize : first + count ≤ outline.size)
    (hclosed : Closed outline parent first count) :
    outline.Walk ((List.range' first count).filter (outline.parentId? · = parent))
      (List.range' first count) := by
  -- On the length: what lies below the first block and what follows that are shorter intervals.
  induction count using Nat.strong_induction_on generalizing first parent with
  | _ count ih =>
    cases count with
    | zero => exact .done
    | succ count =>
      obtain ⟨outer, houter⟩ := get?_eq_some_of_lt (by omega : first < outline.size)
      obtain ⟨stop, hstop⟩ := h.exists_stop houter
      have hlt := ((hstop first).1 (h.mem_lineage_self houter)).2
      have hle := hclosed.stop_le h houter hstop
      obtain ⟨width, hwidth⟩ := Nat.exists_eq_add_of_le hlt
      obtain ⟨more, hmore⟩ := Nat.exists_eq_add_of_le hle
      have hbelow : outline.Walk ((outline.children first).map (·.id))
          (List.range' (first + 1) width) := by
        have hids := h.idsBelow_some houter hstop hwidth.symm
        rw [idsBelow] at hids
        rw [children, hids]
        exact ih width (by omega) (by omega) (Closed.below h houter hstop hwidth.symm)
      have hrest : outline.Walk ((List.range' stop more).filter (outline.parentId? · = parent))
          (List.range' stop more) :=
        ih more (by omega) (by omega) (hclosed.rest h houter hstop hmore.symm)
      have hsplit : List.range' first (count + 1) =
          first :: (List.range' (first + 1) width ++ List.range' stop more) := by
        rw [List.range'_succ, show stop = first + 1 + width from hwidth, List.range'_append_1]
        congr 2
        omega
      have hfilter : (List.range' first (count + 1)).filter (outline.parentId? · = parent) =
          first :: (List.range' stop more).filter (outline.parentId? · = parent) := by
        rw [hsplit, List.filter_cons_of_pos (by simpa using hclosed.parentId?_first h),
          List.filter_append, hclosed.filter_below h houter hstop hwidth.symm, List.nil_append]
      rw [hfilter, hsplit]
      exact .visit hbelow hrest

theorem Nested.walk_iff {outline : Outline} (h : outline.Nested) (visited : List Nat) :
    outline.Walk (outline.idsBelow none) visited ↔ visited = List.range outline.size := by
  have hclosed : Closed outline none 0 outline.size := by
    constructor
    · simp
    · intro id _ _
      cases hparent : outline.parentId? id with
      | none => exact .inl rfl
      | some above => exact .inr ⟨above, rfl, by omega⟩
    · intro id hid above hparent
      have hnone : outline.get? id = none := (get?_eq_none_iff outline id).2 (by omega)
      simp [parentId?, hnone] at hparent
  have hwalk := walk_interval h (by omega) hclosed
  rw [← List.range_eq_range', ← h.idsBelow_eq] at hwalk
  constructor
  · intro hvisited
    exact hvisited.unique hwalk
  · rintro rfl
    exact hwalk

end TestOutline.Outline
