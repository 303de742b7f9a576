import TestOutline.Grep
import TestOutline.Proofs.Lineage
import TestOutline.Proofs.Scan

/-! What the search patterns match. A pattern is read as a regular expression of anchors and single
characters; a metacharacter stands for itself behind a backslash and nowhere else. Read this way,
the pattern of a block is its qualified name, anchored at the start and for a test case at the
end. -/

namespace TestOutline.Grep

inductive Atom where
  | start
  | stop
  | char (c : Char)
deriving DecidableEq, Repr

/-- The expression that a pattern spells, unless a metacharacter stands in it unescaped. -/
def read? : List Char → Option (List Atom)
  | [] => some []
  | '\\' :: c :: rest =>
    if c ∈ metacharacters then (read? rest).map (.char c :: ·) else none
  | c :: rest =>
    if c = '^' then (read? rest).map (.start :: ·)
    else if c = '$' then (read? rest).map (.stop :: ·)
    else if c ∈ metacharacters then none
    else (read? rest).map (.char c :: ·)

/-- Whether a match begins here, in front of `text`, at the start of the whole text or behind it. -/
def matchesHere : (atStart : Bool) → List Atom → (text : List Char) → Bool
  | _, [], _ => true
  | atStart, .start :: rest, text => atStart && matchesHere atStart rest text
  | atStart, .stop :: rest, text => text.isEmpty && matchesHere atStart rest text
  | _, .char _ :: _, [] => false
  | _, .char c :: rest, d :: text => c = d && matchesHere false rest text

def matchesFrom (expression : List Atom) : (atStart : Bool) → (text : List Char) → Bool
  | atStart, [] => matchesHere atStart expression []
  | atStart, c :: text =>
    matchesHere atStart expression (c :: text) || matchesFrom expression false text

/-- Whether the expression has a match anywhere in the text. -/
def accepts (expression : List Atom) (text : List Char) : Bool :=
  matchesFrom expression true text

/-- A name anchored at the start, and for a test case at the end. -/
def nameAtoms : Kind → List Char → List Atom
  | .suite, name => .start :: name.map .char
  | .testCase, name => .start :: (name.map .char ++ [.stop])

theorem read?_escaped {c : Char} (h : c ∈ metacharacters) (rest : List Char) :
    read? ('\\' :: c :: rest) = (read? rest).map (.char c :: ·) := by
  rw [read?, if_pos h]

theorem read?_plain {c : Char} (h : c ∉ metacharacters) (rest : List Char) :
    read? (c :: rest) = (read? rest).map (.char c :: ·) := by
  have hbackslash : c ≠ '\\' := fun heq => h (by rw [heq]; decide)
  have hstart : c ≠ '^' := fun heq => h (by rw [heq]; decide)
  have hstop : c ≠ '$' := fun heq => h (by rw [heq]; decide)
  rw [read?.eq_def]
  split
  · next heq => simp at heq
  · next heq =>
    obtain ⟨rfl, -⟩ := List.cons.inj heq
    exact absurd rfl hbackslash
  · next heq =>
    obtain ⟨rfl, rfl⟩ := List.cons.inj heq
    rw [if_neg hstart, if_neg hstop, if_neg h]

theorem read?_escape_append (text rest : List Char) :
    read? (escape text ++ rest) = (read? rest).map (text.map Atom.char ++ ·) := by
  induction text with
  | nil => simp [escape]
  | cons c text ih =>
    by_cases hc : c ∈ metacharacters
    · have hescape : escape (c :: text) ++ rest = '\\' :: c :: (escape text ++ rest) := by
        simp [escape, hc]
      rw [hescape, read?_escaped hc, ih]
      simp [Function.comp_def]
    · have hescape : escape (c :: text) ++ rest = c :: (escape text ++ rest) := by
        simp [escape, hc]
      rw [hescape, read?_plain hc, ih]
      simp [Function.comp_def]

theorem escape_append (first second : List Char) :
    escape (first ++ second) = escape first ++ escape second :=
  List.flatMap_append

theorem escape_intercalate (texts : List (List Char)) :
    escape ([' '].intercalate texts) = [' '].intercalate (texts.map escape) := by
  match texts with
  | [] => rfl
  | [text] => simp
  | text :: next :: texts =>
    rw [List.intercalate_cons_cons, escape_append, escape_append,
      escape_intercalate (next :: texts)]
    simp only [List.map_cons, List.intercalate_cons_cons]
    rfl

theorem toList_anchored (kind : Kind) (labels : List String) :
    (anchored kind labels).toList = '^' :: (escape (" ".intercalate labels).toList ++
      match kind with
      | .suite => []
      | .testCase => ['$']) := by
  have hname : (" ".intercalate (labels.map fun label => .ofList (escape label.toList))).toList =
      escape (" ".intercalate labels).toList := by
    rw [String.toList_intercalate, String.toList_intercalate, List.map_map,
      show " ".toList = [' '] from rfl, escape_intercalate, List.map_map]
    congr 2
    funext label
    simp
  cases kind with
  | suite => simp [anchored, hname]
  | testCase => simp [anchored, hname]

theorem anchored_eq_of_intercalate (kind : Kind) {labels others : List String}
    (h : " ".intercalate labels = " ".intercalate others) :
    anchored kind labels = anchored kind others := by
  rw [← String.toList_inj, toList_anchored, toList_anchored, h]

theorem read?_anchored (kind : Kind) (labels : List String) :
    read? (anchored kind labels).toList =
      some (nameAtoms kind (" ".intercalate labels).toList) := by
  have hstart (rest : List Char) : read? ('^' :: rest) = (read? rest).map (.start :: ·) := rfl
  rw [toList_anchored, hstart, read?_escape_append]
  cases kind with
  | suite => simp [read?, nameAtoms]
  | testCase => simp [read?, nameAtoms]

theorem matchesHere_map_char (atStart : Bool) (name text : List Char) :
    matchesHere atStart (name.map .char) text = true ↔ name <+: text := by
  induction name generalizing atStart text with
  | nil => simp [matchesHere]
  | cons c name ih =>
    cases text with
    | nil => simp [matchesHere]
    | cons d text => simp [matchesHere, ih, List.cons_prefix_cons]

theorem matchesHere_map_char_stop (atStart : Bool) (name text : List Char) :
    matchesHere atStart (name.map .char ++ [.stop]) text = true ↔ text = name := by
  induction name generalizing atStart text with
  | nil => simp [matchesHere]
  | cons c name ih =>
    cases text with
    | nil => simp [matchesHere]
    | cons d text =>
      simp only [List.map_cons, List.cons_append, matchesHere, Bool.and_eq_true,
        decide_eq_true_eq, ih, List.cons.injEq]
      exact and_congr_left' eq_comm

theorem accepts_start (expression : List Atom) (text : List Char) :
    accepts (.start :: expression) text = matchesHere true expression text := by
  have hlater (rest : List Char) : matchesFrom (.start :: expression) false rest = false := by
    induction rest with
    | nil => rfl
    | cons c rest ih => rw [matchesFrom, ih]; rfl
  cases text with
  | nil => rfl
  | cons c text =>
    rw [accepts, matchesFrom, hlater, Bool.or_false]
    rfl

theorem accepts_suite (name text : List Char) :
    accepts (nameAtoms .suite name) text = true ↔ name <+: text := by
  rw [nameAtoms, accepts_start, matchesHere_map_char]

theorem accepts_testCase (name text : List Char) :
    accepts (nameAtoms .testCase name) text = true ↔ text = name := by
  rw [nameAtoms, accepts_start, matchesHere_map_char_stop]

end TestOutline.Grep

namespace TestOutline.Outline
open Grep Text

theorem Nested.pattern_eq {outline : Outline} (h : outline.Nested) {id : Nat} {block : Block}
    (hget : outline.get? id = some block) :
    outline.pattern id = anchored block.kind [block.qualifiedName] := by
  rw [pattern, hget]
  apply anchored_eq_of_intercalate
  rw [h.intercalate_labels hget, String.intercalate_singleton]

theorem Nested.read?_pattern {outline : Outline} (h : outline.Nested) {block : Block}
    (hblock : block ∈ outline.toList) :
    read? (outline.pattern block.id).toList =
      some (nameAtoms block.kind block.qualifiedName.toList) := by
  rw [h.pattern_eq (h.get?_id hblock), read?_anchored, String.intercalate_singleton]

/-- The pattern of a block spells its qualified name, anchored. For a test case it matches that name
alone, for a suite whatever begins with it, such as the names of all blocks below the suite. -/
theorem pattern_language {source : String} {block : Block}
    (hblock : block ∈ (ofSource source).toList) :
    ∃ expression, read? ((ofSource source).pattern block.id).toList = some expression ∧
      expression = nameAtoms block.kind block.qualifiedName.toList ∧
      (∀ text : String, accepts expression text.toList = true ↔ match block.kind with
        | .testCase => text = block.qualifiedName
        | .suite => block.qualifiedName.toList <+: text.toList) ∧
      (block.isSuite → ∀ inner ∈ (ofSource source).toList,
        block ∈ (ofSource source).lineage inner.id →
          accepts expression inner.qualifiedName.toList = true) := by
  have hnested : (ofSource source).Nested := nested_ofLines _
  refine ⟨_, hnested.read?_pattern hblock, rfl, ?_, ?_⟩
  · intro text
    cases hkind : block.kind with
    | suite => exact accepts_suite ..
    | testCase => rw [accepts_testCase, String.toList_inj]
  · intro hsuite inner hinner hmember
    have hkind : block.kind = .suite := of_decide_eq_true hsuite
    rw [hkind, accepts_suite]
    exact hnested.qualifiedName_isPrefix (hnested.get?_id hinner) hmember

def backslashSuite : String :=
  "describe('a\\\\')\n  it('$')\n"

theorem pattern_backslashSuite :
    ∃ block ∈ (ofSource backslashSuite).toList, block.kind = .testCase ∧
      (ofSource backslashSuite).pattern block.id = "^a\\\\ \\$$" ∧
      ∃ expression, read? "^a\\\\ \\$$".toList = some expression ∧
        ∀ text : String, accepts expression text.toList = true ↔ text = "a\\ $" := by
  have hblock : (⟨1, .testCase, "$", ⟨1, 2⟩, "a\\ $", some 0⟩ : Block) ∈
      (ofSource backslashSuite).toList := by decide
  have hpattern : (ofSource backslashSuite).pattern 1 = "^a\\\\ \\$$" := by decide
  obtain ⟨expression, hread, -, hlanguage, -⟩ := pattern_language hblock
  rw [hpattern] at hread
  exact ⟨_, hblock, rfl, hpattern, expression, hread, hlanguage⟩

end TestOutline.Outline
