/-!
Texts cut at a separator, and the lines of a text. A line feed ends a line and takes a carriage
return before it along; what follows the last line feed is a line only if it is not empty, and it
keeps its carriage returns.
-/

namespace TestOutline.Text

/-- The pieces of a text between the occurrences of a separator: always one more than there are
separators. -/
def pieces (separator : Char) (text : List Char) : List (List Char) :=
  text.foldr (fun c rest => if c = separator then [] :: rest else rest.modifyHead (c :: ·)) [[]]

def splitLast? (separator : Char) : List Char → Option (List Char × List Char)
  | [] => none
  | c :: text =>
    match splitLast? separator text with
    | some (before, behind) => some (c :: before, behind)
    | none => if c = separator then some ([], text) else none

def dropReturn (line : List Char) : List Char :=
  if line.getLast? = some '\r' then line.dropLast else line

def linesOfPieces : List (List Char) → List (List Char)
  | [] => []
  | [rest] => if rest.isEmpty then [] else [rest]
  | line :: next :: more => dropReturn line :: linesOfPieces (next :: more)

def lines (text : List Char) : List (List Char) :=
  linesOfPieces (pieces '\n' text)

@[simp] theorem pieces_nil (separator : Char) : pieces separator [] = [[]] := rfl

theorem pieces_cons (separator c : Char) (text : List Char) :
    pieces separator (c :: text) =
      if c = separator then [] :: pieces separator text
      else (pieces separator text).modifyHead (c :: ·) := rfl

theorem pieces_ne_nil (separator : Char) (text : List Char) : pieces separator text ≠ [] := by
  induction text with
  | nil => simp
  | cons c text ih =>
    rw [pieces_cons]
    split
    · simp
    · simpa using ih

theorem intercalate_modifyHead (separator c : Char) {texts : List (List Char)} (h : texts ≠ []) :
    [separator].intercalate (texts.modifyHead (c :: ·)) = c :: [separator].intercalate texts := by
  match texts, h with
  | [_], _ => simp [List.intercalate]
  | _ :: _ :: _, _ => simp [List.intercalate]

theorem intercalate_pieces (separator : Char) (text : List Char) :
    [separator].intercalate (pieces separator text) = text := by
  induction text with
  | nil => simp [List.intercalate]
  | cons c text ih =>
    rw [pieces_cons]
    split
    · next h =>
      obtain ⟨first, rest, hp⟩ := List.exists_cons_of_ne_nil (pieces_ne_nil separator text)
      rw [hp] at ih ⊢
      simpa [List.intercalate, h] using ih
    · rw [intercalate_modifyHead separator c (pieces_ne_nil separator text), ih]

theorem splitLast?_eq_none {separator : Char} {text : List Char} :
    splitLast? separator text = none ↔ separator ∉ text := by
  induction text with
  | nil => simp [splitLast?]
  | cons c text ih =>
    rw [splitLast?]
    split
    · next h =>
      have hmem : separator ∈ text := by
        simpa [h] using ih
      simp [hmem]
    · next h =>
      have hmem := ih.1 h
      by_cases hc : c = separator
      · simp [hc]
      · simp [hc, hmem, Ne.symm hc]

theorem splitLast?_eq_some {separator : Char} {text before behind : List Char} :
    splitLast? separator text = some (before, behind) ↔
      text = before ++ separator :: behind ∧ separator ∉ behind := by
  induction text generalizing before behind with
  | nil => simp [splitLast?]
  | cons c text ih =>
    rw [splitLast?]
    split
    · next first rest h =>
      have key := ih.1 h
      cases before with
      | nil =>
        simp only [Option.some.injEq, Prod.mk.injEq, reduceCtorEq, false_and, List.nil_append,
          List.cons.injEq, false_iff, not_and, and_imp]
        rintro rfl rfl
        simp [key.1]
      | cons b before =>
        have hiff := @ih before behind
        rw [h] at hiff
        simp only [Option.some.injEq, Prod.mk.injEq] at hiff
        simp only [Option.some.injEq, Prod.mk.injEq, List.cons.injEq, List.cons_append, and_assoc]
        exact and_congr_right fun _ => hiff
    · next h =>
      have hmem := splitLast?_eq_none.1 h
      cases before with
      | nil =>
        by_cases hc : c = separator
        · subst hc
          simp only [if_pos, Option.some.injEq, Prod.mk.injEq, true_and, List.nil_append,
            List.cons.injEq]
          exact ⟨fun he => ⟨he, he ▸ hmem⟩, fun he => he.1⟩
        · simp [hc]
      | cons b before =>
        have hne : text ≠ before ++ separator :: behind := by
          rintro rfl
          simp at hmem
        by_cases hc : c = separator <;> simp [hc, hne]

end TestOutline.Text
