import TestOutline.CommandLine.Grammar

/-! What a command line says. Behind the subcommand it says three kinds of things: a switch, the
directory, a word for the target. They are taken in any order, and refused if anything is said more
often than the subcommand takes it. -/

namespace TestOutline.CommandLine

namespace Request

def subcommand : Request → Subcommand
  | analyze .. => .analyze
  | pattern .. => .pattern
  | command .. => .command
  | init .. => .init

def switches : Request → List Switch
  | analyze _ verbose => if verbose then [.verbose] else []
  | pattern _ => []
  | command _ debug json => (if debug then [.debug] else []) ++ if json then [.json] else []
  | init _ force => if force then [.force] else []

def directories : Request → List String
  | init directory _ => directory.toList
  | _ => []

def operands : Request → List String
  | analyze target _ => [target]
  | pattern target => [target]
  | command target _ _ => [target]
  | init _ _ => []

theorem nodup_switches (request : Request) : request.switches.Nodup := by
  cases request with
  | analyze _ verbose => cases verbose <;> simp [switches]
  | pattern _ => simp [switches]
  | command _ debug json => cases debug <;> cases json <;> simp [switches]
  | init _ force => cases force <;> simp [switches]

theorem switches_subset (request : Request) : request.switches ⊆ request.subcommand.switches := by
  cases request with
  | analyze _ verbose => cases verbose <;> simp [switches, subcommand, Subcommand.switches]
  | pattern _ => simp [switches]
  | command _ debug json =>
    cases debug <;> cases json <;> simp [switches, subcommand, Subcommand.switches]
  | init _ force => cases force <;> simp [switches, subcommand, Subcommand.switches]

theorem takesDirectory_of_mem {request : Request} {path : String} (h : path ∈ request.directories) :
    request.subcommand.takesDirectory = true := by
  cases request with
  | init => rfl
  | _ => simp [directories] at h

end Request

inductive Item where
  | switch (switch : Switch)
  | directory (directory : String)
  | operand (word : String)
deriving DecidableEq, Repr

namespace Item

def switch? : Item → Option Switch
  | switch s => some s
  | _ => none

def directory? : Item → Option String
  | directory path => some path
  | _ => none

def operand? : Item → Option String
  | operand word => some word
  | _ => none

def switches (items : List Item) : List Switch :=
  items.filterMap switch?

def directories (items : List Item) : List String :=
  items.filterMap directory?

def operands (items : List Item) : List String :=
  items.filterMap operand?

def give (subcommand : Subcommand) (arguments : Arguments) : Item → Except Notice Arguments
  | switch s => arguments.give s
  | directory path => arguments.giveDirectory path
  | operand word => arguments.giveOperand subcommand word

end Item

def Arguments.ofItems (items : List Item) : Arguments where
  switches := Item.switches items
  directory := (Item.directories items).head?
  target := (Item.operands items).head?

def Subcommand.operandCount (subcommand : Subcommand) : Nat :=
  if subcommand.takesTarget then 1 else 0

/-- Nothing is said more often than the subcommand takes it. -/
structure Fits (subcommand : Subcommand) (items : List Item) : Prop where
  switches : (Item.switches items).Nodup
  directories : (Item.directories items).length ≤ 1
  operands : (Item.operands items).length ≤ subcommand.operandCount

section

variable {subcommand : Subcommand} {items before more : List Item} {item : Item}

theorem Fits.of_perm (h : Fits subcommand items) (hperm : items.Perm more) :
    Fits subcommand more where
  switches := (hperm.filterMap Item.switch?).nodup_iff.1 h.switches
  directories := by
    rw [Item.directories, ← (hperm.filterMap Item.directory?).length_eq]
    exact h.directories
  operands := by
    rw [Item.operands, ← (hperm.filterMap Item.operand?).length_eq]
    exact h.operands

theorem Fits.of_sublist (h : Fits subcommand items) (hsub : before.Sublist items) :
    Fits subcommand before where
  switches := h.switches.sublist (hsub.filterMap _)
  directories := Nat.le_trans (hsub.filterMap _).length_le h.directories
  operands := Nat.le_trans (hsub.filterMap _).length_le h.operands

theorem fits_nil (subcommand : Subcommand) : Fits subcommand [] where
  switches := .nil
  directories := Nat.zero_le 1
  operands := Nat.zero_le _

theorem fits_cons_switch_iff {s : Switch} : Fits subcommand (.switch s :: items) ↔
    s ∉ Item.switches items ∧ Fits subcommand items := by
  have hswitches : Item.switches (.switch s :: items) = s :: Item.switches items := rfl
  constructor
  · intro h
    have hnodup := h.switches
    rw [hswitches, List.nodup_cons] at hnodup
    exact ⟨hnodup.1, h.of_sublist (List.sublist_cons_self ..)⟩
  · rintro ⟨hnew, h⟩
    exact ⟨hswitches ▸ List.nodup_cons.2 ⟨hnew, h.switches⟩, h.directories, h.operands⟩

theorem fits_cons_directory_iff {path : String} : Fits subcommand (.directory path :: items) ↔
    Item.directories items = [] ∧ Fits subcommand items := by
  have hdirectories : (Item.directories (.directory path :: items)).length =
      (Item.directories items).length + 1 := rfl
  constructor
  · intro h
    have hlength := h.directories
    rw [hdirectories] at hlength
    exact ⟨List.eq_nil_of_length_eq_zero (by omega), h.of_sublist (List.sublist_cons_self ..)⟩
  · rintro ⟨hnone, h⟩
    refine ⟨h.switches, ?_, h.operands⟩
    rw [hdirectories, hnone]
    exact Nat.le_refl 1

theorem fits_cons_operand_iff {word : String} : Fits subcommand (.operand word :: items) ↔
    (subcommand.takesTarget = true ∧ Item.operands items = []) ∧ Fits subcommand items := by
  have hoperands : (Item.operands (.operand word :: items)).length =
      (Item.operands items).length + 1 := rfl
  constructor
  · intro h
    have hlength := h.operands
    rw [hoperands, Subcommand.operandCount] at hlength
    split at hlength
    · next htarget =>
      exact ⟨⟨htarget, List.eq_nil_of_length_eq_zero (by omega)⟩,
        h.of_sublist (List.sublist_cons_self ..)⟩
    · omega
  · rintro ⟨⟨htarget, hnone⟩, h⟩
    refine ⟨h.switches, h.directories, ?_⟩
    rw [hoperands, hnone, Subcommand.operandCount, if_pos htarget]
    exact Nat.le_refl 1

theorem Fits.takesTarget_of_mem (h : Fits subcommand items) {word : String}
    (hmem : .operand word ∈ items) : subcommand.takesTarget = true :=
  (fits_cons_operand_iff.1 (h.of_sublist (List.singleton_sublist.2 hmem))).1.1

theorem give_ofItems (h : Fits subcommand before) (item : Item) :
    (Fits subcommand (item :: before) →
      item.give subcommand (.ofItems before) = .ok (.ofItems (item :: before))) ∧
    (¬Fits subcommand (item :: before) →
      item.give subcommand (.ofItems before) = .error .usageError) := by
  cases item with
  | switch s =>
    rw [fits_cons_switch_iff, and_iff_left h, Item.give, Arguments.give]
    exact ⟨fun hnew => if_neg hnew, fun hold => if_pos (Decidable.not_not.1 hold)⟩
  | directory path =>
    rw [fits_cons_directory_iff, and_iff_left h, Item.give, Arguments.giveDirectory]
    cases hgiven : Item.directories before with
    | nil =>
      have hnone : (Arguments.ofItems before).directory = none := by
        rw [Arguments.ofItems, hgiven, List.head?_nil]
      simp only [hnone]
      exact ⟨fun _ => rfl, fun hnot => absurd trivial hnot⟩
    | cons given others =>
      have hsome : (Arguments.ofItems before).directory = some given := by
        rw [Arguments.ofItems, hgiven, List.head?_cons]
      simp [hsome]
  | operand word =>
    rw [fits_cons_operand_iff, and_iff_left h, Item.give, Arguments.giveOperand]
    have hfree : (subcommand.takesTarget && (Arguments.ofItems before).target.isNone) = true ↔
        subcommand.takesTarget = true ∧ Item.operands before = [] := by
      simp [Arguments.ofItems]
    rw [← hfree]
    exact ⟨fun htaken => if_pos htaken, fun hrefused => if_neg hrefused⟩

theorem foldlM_give (h : Fits subcommand (items.reverse ++ before)) :
    items.foldlM (Item.give subcommand) (.ofItems before) =
      .ok (.ofItems (items.reverse ++ before)) := by
  induction items generalizing before with
  | nil => rfl
  | cons item items ih =>
    rw [List.reverse_cons, List.append_assoc, List.singleton_append] at h ⊢
    have hitem : Fits subcommand (item :: before) := h.of_sublist (List.sublist_append_right ..)
    have hbefore : Fits subcommand before := hitem.of_sublist (List.sublist_cons_self ..)
    rw [List.foldlM_cons, (give_ofItems hbefore item).1 hitem]
    exact ih h

theorem foldlM_give_of_not_fits (hbefore : Fits subcommand before)
    (h : ¬Fits subcommand (items.reverse ++ before)) :
    items.foldlM (Item.give subcommand) (.ofItems before) = .error .usageError := by
  induction items generalizing before with
  | nil => exact absurd hbefore h
  | cons item items ih =>
    rw [List.reverse_cons, List.append_assoc, List.singleton_append] at h
    rw [List.foldlM_cons]
    by_cases hitem : Fits subcommand (item :: before)
    · rw [(give_ofItems hbefore item).1 hitem]
      exact ih hitem h
    · rw [(give_ofItems hbefore item).2 hitem]
      rfl

theorem foldlM_give_start : (Fits subcommand items →
      items.foldlM (Item.give subcommand) {} = .ok (.ofItems items.reverse)) ∧
    (¬Fits subcommand items →
      items.foldlM (Item.give subcommand) {} = .error .usageError) := by
  have hreverse : Fits subcommand (items.reverse ++ []) ↔ Fits subcommand items := by
    rw [List.append_nil]
    exact ⟨(·.of_perm (List.reverse_perm _)), (·.of_perm (List.reverse_perm _).symm)⟩
  constructor
  · intro h
    rw [← List.append_nil items.reverse]
    exact foldlM_give (hreverse.2 h)
  · exact fun h => foldlM_give_of_not_fits (fits_nil subcommand) (mt hreverse.1 h)

end

end TestOutline.CommandLine
