import Mathlib.Data.List.DropRight
import TestOutline.Proofs.Grammar
import TestOutline.Proofs.Lenses

/-! Line endings. Blanks at the end of a line make no difference: what is declared there, whether
there is code, and how far code is indented are the same without them. A carriage return before a
line feed is such a blank wherever it is not dropped with the line feed, so a file may be stored
with either line ending, and with a byte order mark or without. -/

namespace TestOutline

namespace Text

def trimEnd (line : List Char) : List Char :=
  line.rdropWhile isBlank

theorem trimEnd_append_blank (line : List Char) {c : Char} (h : isBlank c = true) :
    trimEnd (line ++ [c]) = trimEnd line :=
  List.rdropWhile_concat_pos _ _ _ h

theorem apply_trimEnd {α : Type} {read : List Char → α}
    (h : ∀ line c, isBlank c = true → read (line ++ [c]) = read line) (line : List Char) :
    read (trimEnd line) = read line := by
  induction line using List.reverseRecOn with
  | nil => rfl
  | append_singleton line c ih =>
    by_cases hc : isBlank c = true
    · rw [trimEnd_append_blank line hc, ih, h line c hc]
    · rw [trimEnd, List.rdropWhile_concat_neg _ _ _ hc]

theorem isBlankLine_trimEnd (line : List Char) : isBlankLine (trimEnd line) = isBlankLine line := by
  refine apply_trimEnd (fun line c hc => ?_) line
  simp [isBlankLine, hc]

theorem indentation_append_of_code {line : List Char} (h : isBlankLine line = false)
    (behind : List Char) : indentation (line ++ behind) = indentation line := by
  induction line with
  | nil => simp [isBlankLine] at h
  | cons c line ih =>
    by_cases hc : isBlank c = true
    · have hline : isBlankLine line = false := by
        simpa [isBlankLine, hc] using h
      simpa [indentation, hc] using ih hline
    · simp [indentation, hc]

theorem indentation_trimEnd {line : List Char} (h : isBlankLine line = false) :
    indentation (trimEnd line) = indentation line := by
  obtain ⟨blanks, hline⟩ : trimEnd line <+: line := List.rdropWhile_prefix ..
  rw [← isBlankLine_trimEnd] at h
  rw [← indentation_append_of_code h blanks, hline]

def withReturns (text : List Char) : List Char :=
  text.flatMap fun c => if c = '\n' then ['\r', '\n'] else [c]

theorem dropReturn_append_return (line : List Char) : dropReturn (line ++ ['\r']) = line := by
  simp [dropReturn]

theorem trimEnd_dropReturn (line : List Char) : trimEnd (dropReturn line) = trimEnd line := by
  rw [dropReturn]
  split
  · next h =>
    obtain ⟨front, rfl⟩ := List.getLast?_eq_some_iff.1 h
    rw [List.dropLast_concat, trimEnd_append_blank front (by decide)]
  · rfl

def returnPieces : List (List Char) → List (List Char)
  | [] => []
  | [rest] => [rest]
  | line :: next :: more => (line ++ ['\r']) :: returnPieces (next :: more)

theorem returnPieces_modifyHead (c : Char) (texts : List (List Char)) :
    returnPieces (texts.modifyHead (c :: ·)) = (returnPieces texts).modifyHead (c :: ·) := by
  match texts with
  | [] => rfl
  | [_] => rfl
  | _ :: _ :: _ => rfl

theorem pieces_withReturns (text : List Char) :
    pieces '\n' (withReturns text) = returnPieces (pieces '\n' text) := by
  induction text with
  | nil => rfl
  | cons c text ih =>
    have hcons : withReturns (c :: text) =
        (if c = '\n' then ['\r', '\n'] else [c]) ++ withReturns text := rfl
    obtain ⟨first, rest, hpieces⟩ := List.exists_cons_of_ne_nil (pieces_ne_nil '\n' text)
    by_cases hc : c = '\n'
    · rw [hcons, if_pos hc, List.cons_append, List.cons_append, List.nil_append, pieces_cons,
        if_neg (by decide), pieces_cons, if_pos rfl, ih, pieces_cons, if_pos hc, hpieces]
      rfl
    · rw [hcons, if_neg hc, List.cons_append, List.nil_append, pieces_cons, if_neg hc, ih,
        pieces_cons, if_neg hc, returnPieces_modifyHead]

theorem returnPieces_ne_nil (next : List Char) (more : List (List Char)) :
    returnPieces (next :: more) ≠ [] := by
  cases more with
  | nil => simp [returnPieces]
  | cons _ _ => simp [returnPieces]

theorem linesOfPieces_cons (first : List Char) {rest : List (List Char)} (h : rest ≠ []) :
    linesOfPieces (first :: rest) = dropReturn first :: linesOfPieces rest := by
  obtain ⟨second, others, rfl⟩ := List.exists_cons_of_ne_nil h
  rfl

theorem map_trimEnd_linesOfPieces (texts : List (List Char)) :
    (linesOfPieces (returnPieces texts)).map trimEnd = (linesOfPieces texts).map trimEnd := by
  induction texts with
  | nil => rfl
  | cons line texts ih =>
    cases texts with
    | nil => rfl
    | cons next more =>
      rw [returnPieces, linesOfPieces_cons _ (returnPieces_ne_nil next more),
        linesOfPieces_cons line (List.cons_ne_nil next more), List.map_cons, List.map_cons, ih,
        dropReturn_append_return, trimEnd_dropReturn]

theorem map_trimEnd_lines_withReturns (text : List Char) :
    (lines (withReturns text)).map trimEnd = (lines text).map trimEnd := by
  rw [lines, pieces_withReturns, map_trimEnd_linesOfPieces, lines]

end Text

open Text

namespace Declaration

def Form.head (form : Form) : List Char :=
  form.opening.text ++ form.quote :: (form.body ++ form.quote :: form.closing.gap) ++
    [form.closing.stop]

theorem Form.line_eq_head_append (form : Form) : form.line = form.head ++ form.closing.rest := by
  simp [line, head, Closing.text]

theorem Form.ofLine?_head_append (form : Form) (rest : List Char) :
    ofLine? (form.head ++ rest) = some (form.opening.declaration form.body) := by
  let other : Form := { form with closing := { form.closing with rest } }
  have hline : other.line = form.head ++ rest := other.line_eq_head_append
  rw [← hline, other.ofLine?_line]

theorem ofLine?_append_blank (line : List Char) {c : Char} (h : isBlank c = true) :
    ofLine? (line ++ [c]) = ofLine? line := by
  apply Option.ext
  intro declaration
  constructor
  · intro hfound
    obtain ⟨form, hline, rfl⟩ := Form.exists_of_ofLine? hfound
    rw [form.line_eq_head_append] at hline
    rcases form.closing.rest.eq_nil_or_concat' with hrest | ⟨rest, last, hrest⟩
    · rw [hrest, List.append_nil] at hline
      obtain ⟨-, hlast⟩ := List.append_inj' hline rfl
      have hnone : [',', ')'].any isBlank = false := by decide
      have hstop := List.any_eq_false.1 hnone form.closing.stop form.closing.stop_mem
      rw [List.singleton_inj.1 hlast] at hstop
      exact absurd h hstop
    · rw [hrest, ← List.append_assoc] at hline
      rw [← (List.append_inj' hline rfl).1, form.ofLine?_head_append]
  · intro hfound
    obtain ⟨form, rfl, rfl⟩ := Form.exists_of_ofLine? hfound
    rw [form.line_eq_head_append, List.append_assoc, form.ofLine?_head_append]

theorem ofLine?_trimEnd (line : List Char) : ofLine? (trimEnd line) = ofLine? line :=
  apply_trimEnd (fun line _ hc => ofLine?_append_blank line hc) line

theorem ofLine?_dropReturn (line : List Char) : ofLine? (dropReturn line) = ofLine? line := by
  rw [← ofLine?_trimEnd, trimEnd_dropReturn, ofLine?_trimEnd]

end Declaration

namespace Outline

theorem isCode_trimEnd (line : List Char) : isCode (trimEnd line) = isCode line := by
  rw [isCode, isBlankLine_trimEnd, isCode]

theorem ofLines_map_trimEnd (lines : List (List Char)) :
    ofLines (lines.map trimEnd) = ofLines lines := by
  apply ofLines_congr
  rw [List.map_map]
  exact List.map_congr_left fun line _ => Declaration.ofLine?_trimEnd line

theorem decisiveLine?_map_trimEnd (lines : List (List Char)) (line : Nat) :
    decisiveLine? (lines.map trimEnd) line = (decisiveLine? lines line).map trimEnd := by
  have hcode : isCode ∘ trimEnd = isCode := funext isCode_trimEnd
  rw [decisiveLine?, ← List.map_drop, ← List.map_take, ← List.map_reverse, List.find?_map,
    List.find?_map, hcode, ← Option.map_or, decisiveLine?]

theorem isCode_of_decisiveLine? {lines : List (List Char)} {line : Nat} {code : List Char}
    (h : decisiveLine? lines line = some code) : isCode code = true := by
  rcases Option.or_eq_some_iff.1 h with hbehind | ⟨-, hbefore⟩
  · exact List.find?_some hbehind
  · exact List.find?_some hbefore

theorem cursorColumn_map_trimEnd (lines : List (List Char)) (line : Nat) :
    cursorColumn (lines.map trimEnd) line = cursorColumn lines line := by
  rw [cursorColumn, decisiveLine?_map_trimEnd, cursorColumn]
  cases hdecisive : decisiveLine? lines line with
  | none => rfl
  | some code =>
    have hcode := isCode_of_decisiveLine? hdecisive
    rw [isCode, Bool.not_eq_true'] at hcode
    exact congrArg UInt32.ofNat (indentation_trimEnd hcode)

theorem atCursor?_map_trimEnd (lines : List (List Char)) (line : UInt32) :
    atCursor? (lines.map trimEnd) line = atCursor? lines line := by
  rw [atCursor?, ofLines_map_trimEnd, cursorColumn_map_trimEnd, atCursor?]

end Outline

/-- In both workspaces the file can be read, and whatever is asked about it has the same answer. -/
structure Settings.SameAnswers (settings : Settings) (workspace other : Workspace) (file : Path) :
    Prop where
  answered : ∃ outline, workspace.outline file = .ok outline
  outline : other.outline file = workspace.outline file
  lenses : other.lenses file = workspace.lenses file
  blockAt? : ∀ line, other.blockAt? file line = workspace.blockAt? file line
  patternAt? : ∀ line, other.patternAt? file line = workspace.patternAt? file line
  launch : ∀ line mode,
    settings.launch other file line mode = settings.launch workspace file line mode
  analyse : settings.analyse other file = settings.analyse workspace file

section

variable {workspace other : Workspace} {file : Path}

theorem Settings.sameAnswers_of_trimEnd {first second : List (List Char)}
    (hfirst : workspace.sourceLines file = .ok first)
    (hsecond : other.sourceLines file = .ok second)
    (h : second.map trimEnd = first.map trimEnd) (settings : Settings) :
    settings.SameAnswers workspace other file := by
  have hlines : Outline.ofLines second = .ofLines first := by
    rw [← Outline.ofLines_map_trimEnd, h, Outline.ofLines_map_trimEnd]
  have hcursor (line : UInt32) : Outline.atCursor? second line = Outline.atCursor? first line := by
    rw [← Outline.atCursor?_map_trimEnd, h, Outline.atCursor?_map_trimEnd]
  have houtline : other.outline file = workspace.outline file := by
    rw [Workspace.outline_eq hfirst, Workspace.outline_eq hsecond, hlines]
  constructor
  · exact ⟨_, Workspace.outline_eq hfirst⟩
  · exact houtline
  · rw [Workspace.lenses, houtline, Workspace.lenses]
  · intro line
    rw [Workspace.blockAt?_eq hfirst, Workspace.blockAt?_eq hsecond, hcursor]
  · intro line
    rw [Workspace.patternAt?_eq hfirst, Workspace.patternAt?_eq hsecond, hcursor, hlines]
  · intro line mode
    cases line with
    | none => rfl
    | some line => rw [launch_eq hfirst, launch_eq hsecond, hcursor, hlines]
  · rw [analyse, houtline, analyse]

/-- The ways to store a text: with either line ending, and with a byte order mark or without. -/
def storedForms (text : List Char) : List (List Char) :=
  [text, '\uFEFF' :: text, withReturns text, '\uFEFF' :: withReturns text]

theorem dropByteOrderMark_of_head? {text : List Char} (h : text.head? ≠ some '\uFEFF') :
    dropByteOrderMark text = text := by
  rw [dropByteOrderMark.eq_def]
  split
  · simp at h
  · rfl

theorem head?_withReturns {text : List Char} (h : text.head? ≠ some '\uFEFF') :
    (withReturns text).head? ≠ some '\uFEFF' := by
  cases text with
  | nil => exact h
  | cons c text =>
    by_cases hc : c = '\n'
    · simp [withReturns, hc]
    · simpa [withReturns, hc] using h

theorem map_trimEnd_storedForms {text stored : List Char} (h : text.head? ≠ some '\uFEFF')
    (hstored : stored ∈ storedForms text) :
    (lines (dropByteOrderMark stored)).map trimEnd = (lines text).map trimEnd := by
  simp only [storedForms, List.mem_cons, List.not_mem_nil, or_false] at hstored
  rcases hstored with rfl | rfl | rfl | rfl
  · rw [dropByteOrderMark_of_head? h]
  · rfl
  · rw [dropByteOrderMark_of_head? (head?_withReturns h), map_trimEnd_lines_withReturns]
  · exact map_trimEnd_lines_withReturns text

/-- Whether a file has one line ending or the other, and a byte order mark or none, is seen in no
answer about it. -/
theorem Settings.sameAnswers_of_storedForms {text stored : String}
    (hmark : text.toList.head? ≠ some '\uFEFF') (hread : workspace.read file = .ok text)
    (hother : other.read file = .ok stored) (hstored : stored.toList ∈ storedForms text.toList)
    (settings : Settings) : settings.SameAnswers workspace other file := by
  apply sameAnswers_of_trimEnd (Workspace.sourceLines_eq hread) (Workspace.sourceLines_eq hother)
  rw [map_trimEnd_storedForms hmark hstored, dropByteOrderMark_of_head? hmark]

end

def strayReturns : String :=
  "describe('a')\r\n\n  it('b')\r"

def markedReturns : String :=
  "\uFEFFdescribe('a')\r\r\n\r\n  it('b')\r"

theorem sameAnswers_strayReturns :
    strayReturns.toList.head? ≠ some '\uFEFF' ∧
      (Workspace.onlyFile "a.js" strayReturns).read ⟨"a.js"⟩ = .ok strayReturns ∧
      (Workspace.onlyFile "a.js" markedReturns).read ⟨"a.js"⟩ = .ok markedReturns ∧
      markedReturns.toList ∈ storedForms strayReturns.toList ∧
      ({} : Settings).SameAnswers (.onlyFile "a.js" strayReturns) (.onlyFile "a.js" markedReturns)
        ⟨"a.js"⟩ ∧
      (Workspace.onlyFile "a.js" markedReturns).patternAt? ⟨"a.js"⟩ 1 = .ok (some "^a") := by
  have hmark : strayReturns.toList.head? ≠ some '\uFEFF' := by decide
  have hread : (Workspace.onlyFile "a.js" strayReturns).read ⟨"a.js"⟩ = .ok strayReturns := by rfl
  have hother : (Workspace.onlyFile "a.js" markedReturns).read ⟨"a.js"⟩ = .ok markedReturns := by
    rfl
  have hstored : markedReturns.toList ∈ storedForms strayReturns.toList := by decide
  have hsame := Settings.sameAnswers_of_storedForms hmark hread hother hstored {}
  have hpattern : (Workspace.onlyFile "a.js" strayReturns).patternAt? ⟨"a.js"⟩ 1 =
      .ok (some "^a") := by
    rfl
  exact ⟨hmark, hread, hother, hstored, hsame, (hsame.patternAt? 1).trans hpattern⟩

end TestOutline
