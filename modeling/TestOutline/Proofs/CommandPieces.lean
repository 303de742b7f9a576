import TestOutline.Proofs.CommandItems

/-! The pieces of a command line. The same can be said by a long option or by letters behind one
hyphen, in one word or in two, and behind two hyphens in words of any form. The words of each piece
are read for what the piece says, so only that counts about a line. -/

namespace TestOutline.CommandLine

inductive Piece where
  | switch (switch : Switch)
  | letters (switches : List Switch)
  | directory (path : String) (attached : Bool)
  | operand (word : String)
deriving DecidableEq, Repr

namespace Piece

def words : Piece → List String
  | switch s => ["--" ++ s.long]
  | letters switches => [.ofList ('-' :: switches.filterMap Switch.short?)]
  | directory path attached => if attached then ["--cwd=" ++ path] else ["--cwd", path]
  | operand word => [word]

def items : Piece → List Item
  | switch s => [.switch s]
  | letters switches => switches.map .switch
  | directory path _ => [.directory path]
  | operand word => [.operand word]

def IsPlain (word : String) : Prop :=
  word.toList.head? ≠ some '-'

/-- The subcommand has the options of the piece, and all its words are taken for what they are. -/
def IsOf (subcommand : Subcommand) : Piece → Prop
  | switch s => s ∈ subcommand.switches
  | letters switches => switches ≠ [] ∧
      ∀ s ∈ switches, s ∈ subcommand.switches ∧ s.short?.isSome = true
  | directory path attached => subcommand.takesDirectory = true ∧ (attached = true ∨ IsPlain path)
  | operand word => IsPlain word

instance (subcommand : Subcommand) : (piece : Piece) → Decidable (piece.IsOf subcommand)
  | switch s => inferInstanceAs (Decidable (s ∈ subcommand.switches))
  | letters switches => inferInstanceAs (Decidable (switches ≠ [] ∧
      ∀ s ∈ switches, s ∈ subcommand.switches ∧ s.short?.isSome = true))
  | directory path attached => inferInstanceAs (Decidable (subcommand.takesDirectory = true ∧
      (attached = true ∨ path.toList.head? ≠ some '-')))
  | operand word => inferInstanceAs (Decidable (word.toList.head? ≠ some '-'))

end Piece

section

variable {subcommand : Subcommand} {arguments : Arguments} {piece : Piece} {word : String}

theorem ofWord_of_isPlain (h : Piece.IsPlain word) : Form.ofWord word = .plain := by
  rw [Form.ofWord]
  split
  · next heq => simp [Piece.IsPlain, heq] at h
  · next heq => simp [Piece.IsPlain, heq] at h
  · next heq => simp [Piece.IsPlain, heq] at h
  · rfl

theorem ofWord_long (s : Switch) : Form.ofWord ("--" ++ s.long) = .long s.long none := by
  cases s <;> decide

theorem ofWord_attached (path : String) :
    Form.ofWord ("--cwd=" ++ path) = .long "cwd" (some path) := by
  simp [Form.ofWord]

theorem readLong_switch {s : Switch} (h : s ∈ subcommand.switches) :
    Reading.readLong subcommand arguments s.long none =
      Reading.advance (arguments.give s) .anything := by
  have hfind : subcommand.switches.find? (·.long = s.long) = some s := by
    revert h
    cases subcommand <;> cases s <;> decide
  have hcwd : s.long ≠ "cwd" := by cases s <;> decide
  have hhelp : s.long ≠ "help" := by cases s <;> decide
  simp [Reading.readLong, hcwd, hhelp, hfind]

theorem giveLetter_switch {s : Switch} {letter : Char} (h : s ∈ subcommand.switches)
    (hletter : s.short? = some letter) :
    Arguments.giveLetter subcommand arguments letter = arguments.give s := by
  have hfind : subcommand.switches.find? (·.short? = some letter) = some s := by
    rw [← hletter]
    revert h
    cases subcommand <;> cases s <;> decide
  have hhelp : letter ≠ 'h' := by
    rintro rfl
    revert hletter
    cases s <;> decide
  rw [Arguments.giveLetter, if_neg hhelp, hfind]

theorem foldlM_giveLetter {switches : List Switch}
    (h : ∀ s ∈ switches, s ∈ subcommand.switches ∧ s.short?.isSome = true) :
    (switches.filterMap Switch.short?).foldlM (Arguments.giveLetter subcommand) arguments =
      (switches.map Item.switch).foldlM (Item.give subcommand) arguments := by
  induction switches generalizing arguments with
  | nil => rfl
  | cons s switches ih =>
    obtain ⟨hs, hshort⟩ := h s (List.mem_cons_self ..)
    obtain ⟨letter, hletter⟩ := Option.isSome_iff_exists.1 hshort
    rw [List.filterMap_cons_some hletter, List.foldlM_cons, giveLetter_switch hs hletter,
      List.map_cons, List.foldlM_cons, Item.give]
    exact bind_congr fun _ => ih fun other hmem => h other (List.mem_cons_of_mem _ hmem)

theorem ofWord_letters {switches : List Switch} (hne : switches ≠ [])
    (h : ∀ s ∈ switches, s ∈ subcommand.switches ∧ s.short?.isSome = true) :
    Form.ofWord (.ofList ('-' :: switches.filterMap Switch.short?)) =
      .short (switches.filterMap Switch.short?) := by
  obtain ⟨s, switches, rfl⟩ := List.exists_cons_of_ne_nil hne
  obtain ⟨letter, hletter⟩ := Option.isSome_iff_exists.1 (h s (List.mem_cons_self ..)).2
  have hhyphen : letter ≠ '-' := by
    rintro rfl
    revert hletter
    cases s <;> decide
  rw [List.filterMap_cons_some hletter, Form.ofWord, String.toList_ofList]
  simp [hhyphen]

theorem step_cwd (h : subcommand.takesDirectory = true) :
    Reading.step subcommand ⟨arguments, .anything⟩ "--cwd" = .ok ⟨arguments, .directory⟩ := by
  have hform : Form.ofWord "--cwd" = .long "cwd" none := by decide
  simp [Reading.step, hform, Reading.readLong, h]

theorem step_directory_of_ne_plain (h : Form.ofWord word ≠ .plain) :
    Reading.step subcommand ⟨arguments, .directory⟩ word = .error .usageError := by
  rw [Reading.step]
  cases hform : Form.ofWord word with
  | plain => exact absurd hform h
  | terminator => rfl
  | long => rfl
  | short => rfl

theorem foldlM_words (h : piece.IsOf subcommand) :
    piece.words.foldlM (Reading.step subcommand) ⟨arguments, .anything⟩ =
      Reading.advance (piece.items.foldlM (Item.give subcommand) arguments) .anything := by
  cases piece with
  | switch s =>
    have hstep : Reading.step subcommand ⟨arguments, .anything⟩ ("--" ++ s.long) =
        Reading.advance (arguments.give s) .anything := by
      simp only [Reading.step, ofWord_long, readLong_switch h]
    rw [Piece.words, Piece.items, List.foldlM_cons, List.foldlM_cons, hstep]
    simp [Item.give]
  | letters switches =>
    obtain ⟨hne, hswitches⟩ := h
    have hstep : Reading.step subcommand ⟨arguments, .anything⟩
        (.ofList ('-' :: switches.filterMap Switch.short?)) =
          Reading.advance ((switches.map Item.switch).foldlM (Item.give subcommand) arguments)
            .anything := by
      simp only [Reading.step, ofWord_letters hne hswitches, foldlM_giveLetter hswitches]
    rw [Piece.words, Piece.items, List.foldlM_cons, hstep]
    simp
  | directory path attached =>
    obtain ⟨hsub, hplain⟩ := h
    cases attached with
    | true =>
      have hstep : Reading.step subcommand ⟨arguments, .anything⟩ ("--cwd=" ++ path) =
          Reading.advance (arguments.giveDirectory path) .anything := by
        simp [Reading.step, ofWord_attached, Reading.readLong, hsub]
      rw [Piece.words, Piece.items, if_pos rfl, List.foldlM_cons, List.foldlM_cons, hstep]
      simp [Item.give]
    | false =>
      have hstep : Reading.step subcommand ⟨arguments, .directory⟩ path =
          Reading.advance (arguments.giveDirectory path) .anything := by
        simp only [Reading.step, ofWord_of_isPlain (hplain.resolve_left Bool.false_ne_true)]
      rw [Piece.words, Piece.items, if_neg Bool.false_ne_true, List.foldlM_cons, List.foldlM_cons,
        step_cwd hsub]
      change Reading.step subcommand ⟨arguments, .directory⟩ path >>= _ = _
      rw [hstep]
      simp [Item.give]
  | operand word =>
    have hstep : Reading.step subcommand ⟨arguments, .anything⟩ word =
        Reading.advance (arguments.giveOperand subcommand word) .anything := by
      simp only [Reading.step, ofWord_of_isPlain h]
    rw [Piece.words, Piece.items, List.foldlM_cons, List.foldlM_cons, hstep]
    simp [Item.give]

theorem bind_advance {α : Type} {result : Except Notice Arguments} {phase : Phase}
    {rest : Reading → Except Notice α} :
    Reading.advance result phase >>= rest =
      result >>= fun arguments => rest ⟨arguments, phase⟩ := by
  cases result <;> rfl

theorem foldlM_flatMap_words {pieces : List Piece} (h : ∀ piece ∈ pieces, piece.IsOf subcommand) :
    (pieces.flatMap Piece.words).foldlM (Reading.step subcommand) ⟨arguments, .anything⟩ =
      Reading.advance ((pieces.flatMap Piece.items).foldlM (Item.give subcommand) arguments)
        .anything := by
  induction pieces generalizing arguments with
  | nil => rfl
  | cons piece pieces ih =>
    obtain ⟨hpiece, hpieces⟩ := List.forall_mem_cons.1 h
    rw [List.flatMap_cons, List.flatMap_cons, List.foldlM_append, List.foldlM_append,
      foldlM_words hpiece, bind_advance]
    cases piece.items.foldlM (Item.give subcommand) arguments with
    | error notice => rfl
    | ok given => exact ih hpieces

theorem foldlM_operands (words : List String) :
    words.foldlM (Reading.step subcommand) ⟨arguments, .operand⟩ =
      Reading.advance ((words.map Item.operand).foldlM (Item.give subcommand) arguments)
        .operand := by
  induction words generalizing arguments with
  | nil => rfl
  | cons word words ih =>
    have hstep : Reading.step subcommand ⟨arguments, .operand⟩ word =
        Reading.advance (Item.give subcommand arguments (.operand word)) .operand := rfl
    rw [List.foldlM_cons, List.map_cons, List.foldlM_cons, hstep, bind_advance]
    cases Item.give subcommand arguments (.operand word) with
    | error notice => rfl
    | ok given => exact ih

end

/-- The words of a command line: the name of a subcommand, pieces in any order, and operands behind
two hyphens if there are any. -/
structure Line where
  name : String
  pieces : List Piece
  behind : Option (List String)

namespace Line

def tail (line : Line) : List String :=
  line.behind.elim [] ("--" :: ·)

def words (line : Line) : List String :=
  line.name :: (line.pieces.flatMap Piece.words ++ line.tail)

def items (line : Line) : List Item :=
  line.pieces.flatMap Piece.items ++ (line.behind.getD []).map .operand

structure Writes (line : Line) (request : Request) : Prop where
  name : line.name ∈ request.subcommand.names
  pieces : ∀ piece ∈ line.pieces, piece.IsOf request.subcommand
  switches : (Item.switches line.items).Perm request.switches
  directories : Item.directories line.items = request.directories
  operands : Item.operands line.items = request.operands

end Line

section

variable {subcommand : Subcommand} {line : Line} {request : Request}

theorem takesTarget_of_takesDirectory (h : subcommand.takesDirectory = true) :
    subcommand.takesTarget = false := by
  revert h
  cases subcommand <;> decide

theorem ofName?_of_mem {name : String} (h : name ∈ subcommand.names) :
    Subcommand.ofName? name = some subcommand := by
  revert h
  cases subcommand <;> simp only [Subcommand.names, List.mem_cons, List.not_mem_nil, or_false] <;>
    rintro (rfl | rfl) <;> decide

theorem finish_advance {result : Except Notice Arguments} {phase : Phase}
    (h : phase ≠ .directory) : Reading.advance result phase >>= Reading.finish = result := by
  rw [bind_advance]
  cases result with
  | error notice => rfl
  | ok given => exact if_neg h

theorem foldlM_line (h : ∀ piece ∈ line.pieces, piece.IsOf subcommand) :
    (line.pieces.flatMap Piece.words ++ line.tail).foldlM (Reading.step subcommand) {} >>=
      Reading.finish = line.items.foldlM (Item.give subcommand) {} := by
  rw [List.foldlM_append, Line.items, List.foldlM_append, foldlM_flatMap_words h, bind_advance]
  cases (line.pieces.flatMap Piece.items).foldlM (Item.give subcommand) {} with
  | error notice => rfl
  | ok given =>
    change line.tail.foldlM (Reading.step subcommand) ⟨given, .anything⟩ >>= _ = _
    cases hbehind : line.behind with
    | none => rw [Line.tail, hbehind]; rfl
    | some words =>
      have hstep : Reading.step subcommand ⟨given, .anything⟩ "--" = .ok ⟨given, .operand⟩ := by
        have hform : Form.ofWord "--" = .terminator := by decide
        simp only [Reading.step, hform]
      rw [Line.tail, hbehind, Option.elim_some, List.foldlM_cons, hstep]
      change words.foldlM (Reading.step subcommand) ⟨given, .operand⟩ >>= _ = _
      rw [foldlM_operands, finish_advance (by decide)]
      rfl

theorem parse_words (hname : line.name ∈ subcommand.names)
    (h : ∀ piece ∈ line.pieces, piece.IsOf subcommand) :
    parse line.words =
      line.items.foldlM (Item.give subcommand) {} >>= (·.request subcommand) := by
  rw [← foldlM_line h, Line.words, parse, ofName?_of_mem hname]
  simp only [parseArguments, bind_assoc]

theorem parse_words_of_not_fits (hname : line.name ∈ subcommand.names)
    (h : ∀ piece ∈ line.pieces, piece.IsOf subcommand) (hnot : ¬Fits subcommand line.items) :
    parse line.words = .error .usageError := by
  rw [parse_words hname h, foldlM_give_start.2 hnot]
  rfl

theorem Line.Writes.fits (h : line.Writes request) : Fits request.subcommand line.items where
  switches := by
    rw [h.switches.nodup_iff]
    exact request.nodup_switches
  directories := by
    rw [h.directories]
    cases request with
    | init directory force => cases directory <;> simp [Request.directories]
    | _ => simp [Request.directories]
  operands := by
    rw [h.operands]
    cases request <;> exact Nat.le_refl _

theorem request_eq_ok {arguments : Arguments}
    (hswitches : ∀ s, s ∈ arguments.switches ↔ s ∈ request.switches)
    (hdirectory : arguments.directory = request.directories.head?)
    (htarget : arguments.target = request.operands.head?) :
    arguments.request request.subcommand = .ok request := by
  cases request with
  | analyze target verbose =>
    simp [Arguments.request, Request.subcommand, Arguments.withTarget, htarget, Request.operands,
      hswitches, Request.switches]
  | pattern target =>
    simp [Arguments.request, Request.subcommand, Arguments.withTarget, htarget, Request.operands]
  | command target debug json =>
    simp [Arguments.request, Request.subcommand, Arguments.withTarget, htarget, Request.operands,
      hswitches, Request.switches]
  | init directory force =>
    cases directory <;>
      simp [Arguments.request, Request.subcommand, hdirectory, Request.directories, hswitches,
        Request.switches]

theorem Line.Writes.parse_words (h : line.Writes request) : parse line.words = .ok request := by
  rw [CommandLine.parse_words h.name h.pieces, foldlM_give_start.1 h.fits]
  apply request_eq_ok
  · intro s
    rw [Arguments.ofItems, Item.switches, List.filterMap_reverse, List.mem_reverse]
    exact h.switches.mem_iff
  · have hdirectories := h.directories
    rw [Item.directories] at hdirectories
    rw [Arguments.ofItems, Item.directories, List.filterMap_reverse, hdirectories]
    cases request with
    | init directory force => cases directory <;> rfl
    | _ => rfl
  · have hoperands := h.operands
    rw [Item.operands] at hoperands
    rw [Arguments.ofItems, Item.operands, List.filterMap_reverse, hoperands]
    cases request <;> rfl

end

end TestOutline.CommandLine
