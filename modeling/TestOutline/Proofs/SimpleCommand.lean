import TestOutline.Proofs.Launching
import TestOutline.Proofs.Words

/-! What a POSIX shell runs for a line. The words in front that give a value to a variable are
assignments, and the first other word is the name of the command, unless it belongs to the grammar
of the shell. Both are only seen in what stands outside quotes. The line of an invocation is read as
the invocation exactly if its variables have names that a shell knows, and its program is not left
without quotes where it looks like an assignment or like a reserved word. -/

namespace TestOutline

namespace Shell

structure SimpleCommand where
  assignments : List (String × String)
  name : String
  args : List String
deriving DecidableEq, Repr

def isNameCharacter (c : Char) : Bool :=
  c.isAlphanum || c = '_'

def isName : List Char → Bool
  | [] => false
  | c :: name => !c.isDigit && (c :: name).all isNameCharacter

/-- The words of the grammar. Those that are made of active characters are never without quotes. -/
def reservedWords : List String :=
  ["case", "do", "done", "elif", "else", "esac", "fi", "for", "if", "in", "then", "until", "while"]

namespace Mark

def isActive : Mark → Bool
  | bare c => c ∈ activeCharacters
  | gap c => c = '\n'
  | _ => false

def inName : Mark → Bool
  | bare c => isNameCharacter c
  | _ => false

def textOf (word : List Mark) : String :=
  .ofList (word.flatMap text)

def assignment? (word : List Mark) : Option (String × String) :=
  match word.dropWhile inName with
  | .bare '=' :: value =>
    if isName ((word.takeWhile inName).flatMap text) then
      some (textOf (word.takeWhile inName), textOf value)
    else none
  | _ => none

def isReserved (word : List Mark) : Bool :=
  reservedWords.any fun reserved => word = reserved.toList.map .bare

/-- The command that some words are. A reserved word is refused as its name, also behind
assignments, where a shell does not look for it. -/
def command? : List (List Mark) → Option SimpleCommand
  | [] => none
  | word :: words =>
    match assignment? word with
    | some entry =>
      (command? words).map fun command =>
        { command with assignments := entry :: command.assignments }
    | none => if isReserved word then none else some ⟨[], textOf word, words.map textOf⟩

end Mark

/-- The one simple command that a line is, with nothing in it to expand. -/
def simpleCommand? (line : String) : Option SimpleCommand :=
  (marks? .outside line.toList).bind fun marks =>
    if marks.any Mark.isActive then none else Mark.command? (Mark.wordMarks marks)

/-- A text that is not quoted, though what it starts with reads as an assignment. -/
def LooksAssigning (text : String) : Prop :=
  (∀ c ∈ text.toList, isPlain c = true) ∧
    ∃ name value, isName name = true ∧ text.toList = name ++ '=' :: value

theorem isNameCharacter_of_isName {name : List Char} (h : isName name = true) :
    ∀ c ∈ name, isNameCharacter c = true := by
  cases name with
  | nil => simp
  | cons c name =>
    rw [isName, Bool.and_eq_true, List.all_eq_true] at h
    exact h.2

namespace Mark

theorem wordMarks_intercalate {words : List (List Mark)}
    (h : ∀ word ∈ words, word ≠ [] ∧ ∀ mark ∈ word, mark.isGap = false) :
    wordMarks ([gap ' '].intercalate words) = words := by
  induction words with
  | nil => rfl
  | cons word words ih =>
    obtain ⟨hne, hgap⟩ := h word (List.mem_cons_self ..)
    have hrest := ih fun other hmem => h other (List.mem_cons_of_mem _ hmem)
    cases words with
    | nil => rw [List.intercalate_singleton, wordMarks_of_not_gap hne hgap]
    | cons next words =>
      rw [List.intercalate_cons_cons, List.append_assoc, List.singleton_append,
        wordMarks_append_gap, wordMarks_of_not_gap hne hgap, hrest]
      rfl

theorem eq_map_bare {marks : List Mark} (h : ∀ mark ∈ marks, mark.inName = true) :
    marks = (marks.flatMap text).map .bare := by
  induction marks with
  | nil => rfl
  | cons mark marks ih =>
    have hmark := h mark (List.mem_cons_self ..)
    have hrest := ih fun other hmem => h other (List.mem_cons_of_mem _ hmem)
    cases mark with
    | bare c => rw [List.flatMap_cons, List.map_append, ← hrest]; rfl
    | gap c => simp [inName] at hmark
    | kept c => simp [inName] at hmark
    | quoting => simp [inName] at hmark

theorem flatMap_text_map_bare (word : List Char) : (word.map bare).flatMap text = word := by
  simp [List.flatMap_map, text]

theorem assignment?_eq_some_iff {word : List Mark} {entry : String × String} :
    assignment? word = some entry ↔ ∃ name value, isName name = true ∧
      word = name.map .bare ++ .bare '=' :: value ∧ entry = (.ofList name, textOf value) := by
  constructor
  · intro h
    rw [assignment?] at h
    split at h
    · next value hvalue =>
      have hfront : word.takeWhile inName = ((word.takeWhile inName).flatMap text).map .bare :=
        eq_map_bare fun _ => List.mem_takeWhile_imp
      split at h
      · next hname =>
        refine ⟨_, value, hname, ?_, (Option.some.inj h).symm⟩
        rw [← hfront, ← hvalue, List.takeWhile_append_dropWhile]
      · simp at h
    · simp at h
  · rintro ⟨name, value, hname, rfl, rfl⟩
    have hfront : ∀ mark ∈ name.map bare, mark.inName = true := by
      simpa [inName] using isNameCharacter_of_isName hname
    have hdrop : (name.map bare ++ bare '=' :: value).dropWhile inName = bare '=' :: value := by
      rw [List.dropWhile_append_of_pos hfront]
      rfl
    have htake : (name.map bare ++ bare '=' :: value).takeWhile inName = name.map bare := by
      rw [List.takeWhile_append_of_pos hfront]
      simp [inName, isNameCharacter]
    rw [assignment?, hdrop, htake]
    simp [textOf, flatMap_text_map_bare, hname]

theorem isName_of_command? {words : List (List Mark)} {command : SimpleCommand}
    (h : command? words = some command) :
    ∀ entry ∈ command.assignments, isName entry.1.toList = true := by
  induction words generalizing command with
  | nil => simp [command?] at h
  | cons word words ih =>
    rw [command?] at h
    split at h
    · next entry hentry =>
      obtain ⟨rest, hrest, rfl⟩ := Option.map_eq_some_iff.1 h
      obtain ⟨name, value, hname, -, rfl⟩ := assignment?_eq_some_iff.1 hentry
      exact List.forall_mem_cons.2 ⟨by simpa using hname, ih hrest⟩
    · split at h
      · simp at h
      · rw [← Option.some.inj h]
        simp

end Mark

open Mark

theorem textOf_marksOf (text : String) : textOf (marksOf text.toList) = text := by
  rw [textOf, (spells_marksOf text.toList).text, String.ofList_toList]

theorem marksOf_of_bare {word : List Char} {c : Char} (h : .bare c ∈ marksOf word) :
    (∀ d ∈ word, isPlain d = true) ∧ marksOf word = word.map .bare := by
  by_cases hplain : (!word.isEmpty && word.all isPlain) = true
  · refine ⟨?_, by rw [marksOf, if_pos hplain]⟩
    rw [Bool.and_eq_true, List.all_eq_true] at hplain
    exact hplain.2
  · rw [marksOf, if_neg hplain] at h
    have hquoted : ∀ d, .bare c ∉ quotedMarks d := by
      intro d
      by_cases hd : d = '\'' <;> simp [quotedMarks, hd]
    simp [hquoted] at h

theorem marksOf_of_plain {word : List Char} (hne : word ≠ [])
    (h : ∀ c ∈ word, isPlain c = true) : marksOf word = word.map .bare := by
  have : (!word.isEmpty && word.all isPlain) = true := by simpa [hne] using h
  rw [marksOf, if_pos this]

theorem exists_assignment?_marksOf {text : String} :
    (∃ entry, assignment? (marksOf text.toList) = some entry) ↔ LooksAssigning text := by
  constructor
  · rintro ⟨entry, hentry⟩
    obtain ⟨name, value, hname, hmarks, -⟩ := assignment?_eq_some_iff.1 hentry
    obtain ⟨hplain, -⟩ := @marksOf_of_bare text.toList '=' (by simp [hmarks])
    refine ⟨hplain, name, value.flatMap Mark.text, hname, ?_⟩
    rw [← (spells_marksOf text.toList).text, hmarks, List.flatMap_append, flatMap_text_map_bare]
    rfl
  · rintro ⟨hplain, name, value, hname, htext⟩
    refine ⟨_, assignment?_eq_some_iff.2 ⟨name, value.map .bare, hname, ?_, rfl⟩⟩
    rw [marksOf_of_plain (by simp [htext]) hplain, htext, List.map_append, List.map_cons]

theorem isReserved_marksOf {text : String} :
    isReserved (marksOf text.toList) = true ↔ text ∈ reservedWords := by
  rw [isReserved, List.any_eq_true]
  constructor
  · rintro ⟨reserved, hmem, hmarks⟩
    have heq := (spells_marksOf text.toList).text
    rw [of_decide_eq_true hmarks, flatMap_text_map_bare, String.toList_inj] at heq
    exact heq ▸ hmem
  · intro hmem
    have hplain : reservedWords.all fun reserved =>
        !reserved.toList.isEmpty && reserved.toList.all isPlain := by
      decide
    have htext := List.all_eq_true.1 hplain text hmem
    simp only [Bool.and_eq_true, Bool.not_eq_true', List.isEmpty_eq_false_iff,
      List.all_eq_true] at htext
    exact ⟨text, hmem, decide_eq_true (marksOf_of_plain htext.1 htext.2)⟩

theorem marks?_intercalate {texts : List (List Char)} {words : List (List Mark)}
    (h : List.Forall₂ (fun text word => ∀ line,
      marks? .outside (text ++ line) = (marks? .outside line).map (word ++ ·)) texts words) :
    marks? .outside ([' '].intercalate texts) = some ([.gap ' '].intercalate words) := by
  induction h with
  | nil => rfl
  | @cons text word texts words hword hwords ih =>
    cases hwords with
    | nil => simpa [marks?] using hword []
    | @cons next nextWord texts words hnext hrest =>
      have hspace : ∀ line, marks? .outside (' ' :: line) =
          (marks? .outside line).map (.gap ' ' :: ·) := fun _ => rfl
      rw [List.intercalate_cons_cons, List.append_assoc, List.singleton_append, hword, hspace, ih,
        List.intercalate_cons_cons, List.append_assoc, List.singleton_append]
      rfl

theorem mem_intercalate {separator mark : Mark} {words : List (List Mark)}
    (h : mark ∈ [separator].intercalate words) :
    mark = separator ∨ ∃ word ∈ words, mark ∈ word := by
  induction words with
  | nil => simp at h
  | cons word words ih =>
    cases words with
    | nil => exact .inr ⟨word, List.mem_cons_self .., by simpa using h⟩
    | cons next words =>
      rw [List.intercalate_cons_cons, List.append_assoc, List.mem_append, List.singleton_append,
        List.mem_cons] at h
      rcases h with hword | hseparator | hrest
      · exact .inr ⟨word, List.mem_cons_self .., hword⟩
      · exact .inl hseparator
      · exact (ih hrest).imp_right fun ⟨other, hother, hmark⟩ =>
          ⟨other, List.mem_cons_of_mem _ hother, hmark⟩

theorem Spells.isActive_eq_false {marks : List Mark} {word : List Char} (h : Spells marks word) :
    ∀ mark ∈ marks, mark.isActive = false := by
  intro mark hmark
  cases mark with
  | bare c => exact decide_eq_false (not_mem_activeCharacters (h.plain c hmark))
  | gap c => simpa [Mark.isGap] using h.not_gap _ hmark
  | kept c => rfl
  | quoting => rfl

theorem simpleCommand?_intercalate {texts : List String} {words : List (List Mark)}
    (h : List.Forall₂ (fun text word => ∀ line,
      marks? .outside (text.toList ++ line) = (marks? .outside line).map (word ++ ·)) texts words)
    (hspells : ∀ word ∈ words, ∃ text, Spells word text) :
    simpleCommand? (" ".intercalate texts) = command? words := by
  have hmarks : marks? .outside (" ".intercalate texts).toList =
      some ([.gap ' '].intercalate words) := by
    rw [String.toList_intercalate]
    exact marks?_intercalate (List.forall₂_map_left_iff.2 h)
  have hactive : ([.gap ' '].intercalate words).any Mark.isActive = false := by
    rw [List.any_eq_false]
    intro mark hmark
    rcases mem_intercalate hmark with rfl | ⟨word, hword, hmem⟩
    · decide
    · obtain ⟨text, htext⟩ := hspells word hword
      simp [htext.isActive_eq_false mark hmem]
  have hwords : wordMarks ([.gap ' '].intercalate words) = words := by
    refine wordMarks_intercalate fun word hword => ?_
    obtain ⟨text, htext⟩ := hspells word hword
    exact ⟨htext.ne_nil, htext.not_gap⟩
  rw [simpleCommand?, hmarks, Option.bind_some, hactive, if_neg Bool.false_ne_true, hwords]

def assignmentMarks (entry : String × String) : List Mark :=
  (entry.1.toList ++ ['=']).map .bare ++ marksOf entry.2.toList

theorem isPlain_of_isName {name : List Char} (h : isName name = true) :
    ∀ c ∈ name ++ ['='], isPlain c = true := by
  intro c hc
  rcases List.mem_append.1 hc with hname | hequals
  · have hcharacter := isNameCharacter_of_isName h c hname
    rw [isNameCharacter, Bool.or_eq_true, decide_eq_true_iff] at hcharacter
    rcases hcharacter with halnum | rfl
    · simp [isPlain, halnum]
    · rfl
  · rw [List.mem_singleton.1 hequals]
    rfl

theorem spells_assignmentMarks {entry : String × String} (h : isName entry.1.toList = true) :
    Spells (assignmentMarks entry) (entry.1.toList ++ ['='] ++ entry.2.toList) :=
  (spells_plain (by simp) (isPlain_of_isName h)).append (spells_marksOf entry.2.toList)

theorem marks?_assignment {entry : String × String} (h : isName entry.1.toList = true)
    (line : List Char) :
    marks? .outside ((entry.1 ++ "=" ++ word entry.2).toList ++ line) =
      (marks? .outside line).map (assignmentMarks entry ++ ·) := by
  have htext : (entry.1 ++ "=" ++ word entry.2).toList ++ line =
      (entry.1.toList ++ ['=']) ++ (quote entry.2.toList ++ line) := by
    simp [word]
  rw [htext, marks?_append_of_plain (isPlain_of_isName h), marks?_quote, Option.map_map,
    assignmentMarks]
  simp [Function.comp_def]

theorem command?_assignments {entries : List (String × String)}
    (h : ∀ entry ∈ entries, isName entry.1.toList = true) (words : List (List Mark)) :
    command? (entries.map assignmentMarks ++ words) = (command? words).map fun command =>
      { command with assignments := entries ++ command.assignments } := by
  induction entries with
  | nil => simp
  | cons entry entries ih =>
    have hentry : assignment? (assignmentMarks entry) = some entry := by
      refine assignment?_eq_some_iff.2
        ⟨entry.1.toList, marksOf entry.2.toList, h entry (List.mem_cons_self ..), ?_, ?_⟩
      · simp [assignmentMarks]
      · rw [String.ofList_toList, textOf_marksOf]
    have hrest := ih fun other hmem => h other (List.mem_cons_of_mem _ hmem)
    simp only [List.map_cons, List.cons_append, command?, hentry, hrest, Option.map_map]
    rfl

theorem command?_marksOf (program : String) (args : List String) :
    LooksAssigning program ∧ (∀ command,
        command? ((program :: args).map (marksOf ·.toList)) = some command →
          command.assignments ≠ []) ∨
      ¬LooksAssigning program ∧ command? ((program :: args).map (marksOf ·.toList)) =
        if program ∈ reservedWords then none else some ⟨[], program, args⟩ := by
  rw [List.map_cons, command?]
  by_cases hassigning : LooksAssigning program
  · obtain ⟨entry, hentry⟩ := exists_assignment?_marksOf.2 hassigning
    refine .inl ⟨hassigning, fun command hcommand => ?_⟩
    rw [hentry] at hcommand
    obtain ⟨rest, -, rfl⟩ := Option.map_eq_some_iff.1 hcommand
    exact List.cons_ne_nil _ _
  · have hnone : assignment? (marksOf program.toList) = none := by
      rw [Option.eq_none_iff_forall_not_mem]
      exact fun entry hentry => hassigning (exists_assignment?_marksOf.1 ⟨entry, hentry⟩)
    refine .inr ⟨hassigning, ?_⟩
    rw [hnone]
    have hargs : (args.map (marksOf ·.toList)).map textOf = args := by
      simp [Function.comp_def, textOf_marksOf]
    simp only [isReserved_marksOf, textOf_marksOf, hargs]

end Shell

namespace Invocation
open Shell Mark

theorem simpleCommand?_shellLine {invocation : Invocation}
    (h : ∀ entry ∈ invocation.env, isName entry.1.toList = true) :
    simpleCommand? invocation.shellLine = command? (invocation.env.map assignmentMarks ++
      (invocation.program :: invocation.args).map (marksOf ·.toList)) := by
  rw [shellLine, shellWords, ← List.map_cons]
  apply simpleCommand?_intercalate
  · apply List.rel_append
    · rw [List.forall₂_map_left_iff, List.forall₂_map_right_iff, List.forall₂_same]
      exact fun entry hentry => marks?_assignment (h entry hentry)
    · rw [List.forall₂_map_left_iff, List.forall₂_map_right_iff, List.forall₂_same]
      intro text _ line
      rw [word, String.toList_ofList, marks?_quote]
  · intro marks hmarks
    rcases List.mem_append.1 hmarks with henv | hargs
    · obtain ⟨entry, hentry, rfl⟩ := List.mem_map.1 henv
      exact ⟨_, spells_assignmentMarks (h entry hentry)⟩
    · obtain ⟨text, -, rfl⟩ := List.mem_map.1 hargs
      exact ⟨_, spells_marksOf text.toList⟩

theorem simpleCommand?_eq_some_iff {invocation : Invocation} :
    simpleCommand? invocation.shellLine =
        some ⟨invocation.env, invocation.program, invocation.args⟩ ↔
      (∀ entry ∈ invocation.env, isName entry.1.toList = true) ∧
        ¬LooksAssigning invocation.program ∧ invocation.program ∉ reservedWords := by
  constructor
  · intro h
    have hnames : ∀ entry ∈ invocation.env, isName entry.1.toList = true := by
      obtain ⟨marks, -, hcommand⟩ := Option.bind_eq_some_iff.1 h
      split at hcommand
      · simp at hcommand
      · exact isName_of_command? hcommand
    rw [simpleCommand?_shellLine hnames, command?_assignments hnames] at h
    obtain ⟨command, hcommand, heq⟩ := Option.map_eq_some_iff.1 h
    have hassignments : command.assignments = [] := by
      simpa using congrArg SimpleCommand.assignments heq
    refine ⟨hnames, ?_⟩
    rcases command?_marksOf invocation.program invocation.args with
      ⟨-, hassigning⟩ | ⟨hassigning, hread⟩
    · exact absurd hassignments (hassigning command hcommand)
    · refine ⟨hassigning, fun hreserved => ?_⟩
      rw [hread, if_pos hreserved] at hcommand
      simp at hcommand
  · rintro ⟨hnames, hassigning, hreserved⟩
    rw [simpleCommand?_shellLine hnames, command?_assignments hnames]
    rcases command?_marksOf invocation.program invocation.args with ⟨hlooks, -⟩ | ⟨-, hread⟩
    · exact absurd hlooks hassigning
    · rw [hread, if_neg hreserved]
      simp

end Invocation

namespace Settings
open Shell

variable {settings : Settings} {file : Path} {outline : Outline} {id : Nat} {mode : Mode}
  {invocation : Invocation}

/-- A shell runs the line of an invocation for a file or a block as that invocation exactly if all
variables of the settings have names, and the program looks neither like an assignment nor like a
reserved word. -/
theorem simpleCommand?_launch
    (h : invocation = settings.launchFile file mode ∨
      settings.launchBlock file outline id mode = .ok invocation) :
    simpleCommand? invocation.shellLine =
        some ⟨invocation.env, invocation.program, invocation.args⟩ ↔
      (∀ entry ∈ settings.env.entries, isName entry.1.toList = true) ∧
        ¬LooksAssigning (settings.launcher mode).1 ∧
        (settings.launcher mode).1 ∉ reservedWords := by
  have hsame : invocation.env = settings.env.sorted ∧
      invocation.program = (settings.launcher mode).1 := by
    rcases h with rfl | hblock
    · exact ⟨rfl, rfl⟩
    · rw [launchBlock] at hblock
      split at hblock
      · rw [← Except.ok.inj hblock]
        exact ⟨rfl, rfl⟩
      · simp at hblock
  rw [Invocation.simpleCommand?_eq_some_iff, hsame.1, hsame.2]
  simp only [settings.env.sorted_perm.mem_iff]

def withVariable : Settings where
  env := .ofList [("A", "b c")]
  root := some ⟨"/w"⟩

theorem simpleCommand?_withVariable :
    ∃ invocation, withVariable.launchBlock ⟨"/w/test/a.js"⟩ (.ofSource "it('a')") 0 .run =
        .ok invocation ∧
      simpleCommand? invocation.shellLine =
        some ⟨[("A", "b c")], "/w/node_modules/.bin/mocha", ["test/a.js", "--grep", "^a$"]⟩ := by
  have hnames : ∀ entry ∈ withVariable.env.entries, isName entry.1.toList = true := by decide
  have hprogram : ¬LooksAssigning (withVariable.launcher .run).1 := by
    rintro ⟨-, name, value, -, htext⟩
    have hequals : '=' ∈ (withVariable.launcher .run).1.toList := by simp [htext]
    exact absurd hequals (by decide)
  have henv : withVariable.env.sorted = [("A", "b c")] := List.mergeSort_singleton _
  obtain ⟨invocation, hinvocation⟩ : ∃ invocation,
      withVariable.launchBlock ⟨"/w/test/a.js"⟩ (.ofSource "it('a')") 0 .run = .ok invocation :=
    ⟨_, rfl⟩
  refine ⟨invocation, hinvocation, ?_⟩
  rw [(simpleCommand?_launch (.inr hinvocation)).2 ⟨hnames, hprogram, by decide⟩,
    ← Except.ok.inj hinvocation, ← henv]
  rfl

def assigningProgram : Settings where
  mochaPath := "a=b"
  root := some ⟨"/w"⟩

theorem exists_misread_shellLine :
    ∃ settings, load (.project ["w"] "\x7b\"mocha_path\": \"a=b\"\x7d")
        ⟨"/w/.mocha-lens.json"⟩ = .ok settings ∧
      settings.launchFile ⟨"/w/test/a.js"⟩ .run =
        { program := "a=b", args := ["test/a.js"], workingDirectory := some "/w" } ∧
      simpleCommand? (settings.launchFile ⟨"/w/test/a.js"⟩ .run).shellLine =
        some ⟨[("a", "b")], "test/a.js", []⟩ := by
  have henv : assigningProgram.env.sorted = [] := List.mergeSort_nil
  have hlaunch : assigningProgram.launchFile ⟨"/w/test/a.js"⟩ .run =
      { program := "a=b", args := ["test/a.js"], workingDirectory := some "/w" } := by
    rw [launchFile, henv]
    rfl
  refine ⟨assigningProgram, by rfl, hlaunch, ?_⟩
  rw [hlaunch]
  decide

end Settings

end TestOutline
