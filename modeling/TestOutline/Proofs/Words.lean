import Mathlib.Data.List.Forall2
import TestOutline.Invocation

/-! How a POSIX shell reads a line. Every character of the line is a gap between words, stands for
itself outside quotes, is protected by quotes or a backslash, or only quotes; words are what stands
between gaps. Read this way, a shell line gives back the words that it was made of, and nothing in
it outside quotes has a meaning to the shell. -/

namespace TestOutline

namespace Shell

inductive Mark where
  | gap (c : Char)
  | bare (c : Char)
  | kept (c : Char)
  /-- A single quote or a backslash that protects others and is itself removed. -/
  | quoting
deriving DecidableEq, Repr

/-- Where the shell stands in its line: outside quotes, between single quotes, or outside quotes
right behind a backslash. -/
inductive Place where
  | outside
  | quoted
  | escaped

def isGap (c : Char) : Bool :=
  c = ' ' || c = '\t' || c = '\n'

/-- What the characters from here on are taken for. A line that ends between quotes or behind a
backslash is not read, nor one that a backslash joins to the next line. -/
def marks? : Place → List Char → Option (List Mark)
  | .outside, [] => some []
  | .quoted, [] => none
  | .escaped, [] => none
  | .outside, c :: line =>
    if c = '\'' then (marks? .quoted line).map (.quoting :: ·)
    else if c = '\\' then (marks? .escaped line).map (.quoting :: ·)
    else if isGap c then (marks? .outside line).map (.gap c :: ·)
    else (marks? .outside line).map (.bare c :: ·)
  | .quoted, c :: line =>
    if c = '\'' then (marks? .outside line).map (.quoting :: ·)
    else (marks? .quoted line).map (.kept c :: ·)
  | .escaped, c :: line =>
    if c = '\n' then none else (marks? .outside line).map (.kept c :: ·)

namespace Mark

def isGap : Mark → Bool
  | gap _ => true
  | _ => false

def text : Mark → List Char
  | bare c => [c]
  | kept c => [c]
  | gap _ => []
  | quoting => []

/-- The words between the gaps. Where there is no character at all there is no word, but between
quotes with nothing in them there is an empty one. -/
def words (marks : List Mark) : List (List Char) :=
  ((marks.splitOnP isGap).filter (!·.isEmpty)).map (·.flatMap text)

def wordMarks (marks : List Mark) : List (List Mark) :=
  (marks.splitOnP isGap).filter (!·.isEmpty)

theorem words_eq (marks : List Mark) : words marks = (wordMarks marks).map (·.flatMap text) := rfl

theorem wordMarks_append_gap (before behind : List Mark) (c : Char) :
    wordMarks (before ++ gap c :: behind) = wordMarks before ++ wordMarks behind := by
  rw [wordMarks, List.splitOnP_append_cons _ _ rfl, List.filter_append]
  rfl

theorem wordMarks_of_not_gap {word : List Mark} (hne : word ≠ [])
    (h : ∀ mark ∈ word, mark.isGap = false) : wordMarks word = [word] := by
  rw [wordMarks, List.splitOnP_eq_singleton h]
  simp [hne]

theorem words_append_gap (before behind : List Mark) (c : Char) :
    words (before ++ gap c :: behind) = words before ++ words behind := by
  rw [words_eq, wordMarks_append_gap, List.map_append, words_eq, words_eq]

end Mark

/-- The characters that have a meaning of their own outside quotes, at least in some places:
operators, expansions, patterns of names, comments, home directories and quotes. -/
def activeCharacters : List Char :=
  ['|', '&', ';', '<', '>', '(', ')', '$', '\x60', '\x7b', '\x7d', '!', '*', '?', '[', ']', '^',
    '#', '~', '"']

theorem not_mem_activeCharacters {c : Char} (h : isPlain c = true) : c ∉ activeCharacters := by
  intro hmem
  have hnone : activeCharacters.any isPlain = false := by decide
  exact List.any_eq_false.1 hnone c hmem h

theorem marks?_plain {c : Char} (h : isPlain c = true) (line : List Char) :
    marks? .outside (c :: line) = (marks? .outside line).map (.bare c :: ·) := by
  have hquote : c ≠ '\'' := by
    rintro rfl
    simp [isPlain] at h
  have hbackslash : c ≠ '\\' := by
    rintro rfl
    simp [isPlain] at h
  have hgap : isGap c = false := by
    rw [isGap, Bool.or_eq_false_iff, Bool.or_eq_false_iff, decide_eq_false_iff_not,
      decide_eq_false_iff_not, decide_eq_false_iff_not]
    refine ⟨⟨?_, ?_⟩, ?_⟩ <;> rintro rfl <;> simp [isPlain] at h
  rw [marks?, if_neg hquote, if_neg hbackslash, hgap, if_neg Bool.false_ne_true]

structure Spells (marks : List Mark) (word : List Char) : Prop where
  ne_nil : marks ≠ []
  not_gap : ∀ mark ∈ marks, mark.isGap = false
  text : marks.flatMap Mark.text = word
  plain : ∀ c, .bare c ∈ marks → isPlain c = true

theorem Spells.words {marks : List Mark} {word : List Char} (h : Spells marks word) :
    Mark.words marks = [word] := by
  rw [Mark.words_eq, Mark.wordMarks_of_not_gap h.ne_nil h.not_gap, List.map_singleton, h.text]

/-- A text that is read as one word, whatever stands behind it on the line. -/
def Reads (text word : List Char) : Prop :=
  ∃ marks, Spells marks word ∧
    ∀ line, marks? .outside (text ++ line) = (marks? .outside line).map (marks ++ ·)

theorem marks?_append_of_plain {text : List Char} (h : ∀ c ∈ text, isPlain c = true)
    (line : List Char) :
    marks? .outside (text ++ line) = (marks? .outside line).map (text.map .bare ++ ·) := by
  induction text with
  | nil => simp
  | cons c text ih =>
    rw [List.cons_append, marks?_plain (h c (List.mem_cons_self ..)),
      ih fun other hmem => h other (List.mem_cons_of_mem _ hmem), Option.map_map]
    rfl

def quotedMarks (c : Char) : List Mark :=
  if c = '\'' then [.quoting, .quoting, .kept c, .quoting] else [.kept c]

theorem marks?_quoted (word line : List Char) :
    marks? .quoted (word.flatMap quoteCharacter ++ '\'' :: line) =
      (marks? .outside line).map (word.flatMap quotedMarks ++ .quoting :: ·) := by
  -- Each character leaves the shell between quotes again, a quote by way of both other places.
  induction word with
  | nil => simp [marks?]
  | cons c word ih =>
    rw [List.flatMap_cons, List.flatMap_cons, List.append_assoc]
    by_cases hc : c = '\''
    · subst hc
      simp [quoteCharacter, quotedMarks, marks?, ih, Function.comp_def]
    · simp [quoteCharacter, quotedMarks, marks?, hc, ih, Function.comp_def]

theorem spells_plain {word : List Char} (hne : word ≠ []) (h : ∀ c ∈ word, isPlain c = true) :
    Spells (word.map .bare) word where
  ne_nil := by simpa using hne
  not_gap := by simp [Mark.isGap]
  text := by simp [List.flatMap_map, Mark.text]
  plain c hc := by
    obtain ⟨d, hd, heq⟩ := List.mem_map.1 hc
    exact Mark.bare.inj heq ▸ h d hd

theorem spells_quoted (word : List Char) :
    Spells (.quoting :: (word.flatMap quotedMarks ++ [.quoting])) word := by
  have hgap : ∀ c, ∀ mark ∈ quotedMarks c, mark.isGap = false := by
    intro c
    by_cases hc : c = '\'' <;> simp [quotedMarks, hc, Mark.isGap]
  have htext : ∀ c, (quotedMarks c).flatMap Mark.text = [c] := by
    intro c
    by_cases hc : c = '\'' <;> simp [quotedMarks, hc, Mark.text]
  have hbare : ∀ c d, .bare d ∉ quotedMarks c := by
    intro c d
    by_cases hc : c = '\'' <;> simp [quotedMarks, hc]
  constructor
  · simp
  · intro mark hmark
    simp only [List.mem_cons, List.mem_append, List.mem_flatMap, List.not_mem_nil, or_false]
      at hmark
    rcases hmark with rfl | ⟨c, -, hmark⟩ | rfl
    · rfl
    · exact hgap c mark hmark
    · rfl
  · simp [Mark.text, List.flatMap_assoc, htext]
  · intro d hd
    simp [hbare] at hd

def marksOf (word : List Char) : List Mark :=
  if !word.isEmpty && word.all isPlain then word.map .bare
  else .quoting :: (word.flatMap quotedMarks ++ [.quoting])

theorem spells_marksOf (word : List Char) : Spells (marksOf word) word := by
  rw [marksOf]
  split
  · next h =>
    simp only [Bool.and_eq_true, Bool.not_eq_true', List.isEmpty_eq_false_iff, List.all_eq_true]
      at h
    exact spells_plain h.1 h.2
  · exact spells_quoted word

theorem marks?_quote (word line : List Char) :
    marks? .outside (quote word ++ line) = (marks? .outside line).map (marksOf word ++ ·) := by
  rw [quote, marksOf]
  split
  · next h =>
    rw [Bool.and_eq_true, List.all_eq_true] at h
    exact marks?_append_of_plain h.2 line
  · simp [marks?, marks?_quoted, Function.comp_def]

theorem reads_quote (word : List Char) : Reads (quote word) word :=
  ⟨marksOf word, spells_marksOf word, marks?_quote word⟩

theorem Spells.append {marks more : List Mark} {word rest : List Char} (h : Spells marks word)
    (hmore : Spells more rest) : Spells (marks ++ more) (word ++ rest) := by
  constructor
  · exact List.append_ne_nil_of_left_ne_nil h.ne_nil more
  · intro mark hmark
    exact (List.mem_append.1 hmark).elim (h.not_gap mark) (hmore.not_gap mark)
  · rw [List.flatMap_append, h.text, hmore.text]
  · intro c hc
    exact (List.mem_append.1 hc).elim (h.plain c) (hmore.plain c)

theorem Reads.append {first second firstWord secondWord : List Char}
    (hfirst : Reads first firstWord) (hsecond : Reads second secondWord) :
    Reads (first ++ second) (firstWord ++ secondWord) := by
  obtain ⟨marks, hspells, hread⟩ := hfirst
  obtain ⟨more, hmore, hreadMore⟩ := hsecond
  refine ⟨marks ++ more, hspells.append hmore, fun line => ?_⟩
  rw [List.append_assoc, hread, hreadMore, Option.map_map]
  simp [Function.comp_def]

theorem reads_assignment {name : List Char} (h : ∀ c ∈ name, isPlain c = true)
    (value : List Char) : Reads (name ++ '=' :: quote value) (name ++ '=' :: value) := by
  have hplain : ∀ c ∈ name ++ ['='], isPlain c = true := by
    intro c hc
    rcases List.mem_append.1 hc with hname | hequals
    · exact h c hname
    · rw [List.mem_singleton.1 hequals]
      rfl
  have hname : Reads (name ++ ['=']) (name ++ ['=']) :=
    ⟨_, spells_plain (by simp) hplain, marks?_append_of_plain hplain⟩
  simpa using hname.append (reads_quote value)

/-- What a shell makes of a line: its words, with nothing active outside quotes and nothing but
spaces between words. -/
def Splits (line : List Char) (words : List (List Char)) : Prop :=
  ∃ marks, marks? .outside line = some marks ∧ Mark.words marks = words ∧
    (∀ c, .bare c ∈ marks → c ∉ activeCharacters) ∧ ∀ c, .gap c ∈ marks → c = ' '

theorem splits_of_reads {text word : List Char} (h : Reads text word) : Splits text [word] := by
  obtain ⟨marks, hspells, hread⟩ := h
  refine ⟨marks, ?_, hspells.words, ?_, ?_⟩
  · simpa [marks?] using hread []
  · exact fun c hc => not_mem_activeCharacters (hspells.plain c hc)
  · exact fun c hc => absurd (hspells.not_gap _ hc) (by simp [Mark.isGap])

theorem Splits.cons {text word line : List Char} {words : List (List Char)}
    (htext : Reads text word) (hline : Splits line words) :
    Splits (text ++ ' ' :: line) (word :: words) := by
  obtain ⟨marks, hspells, hread⟩ := htext
  obtain ⟨more, hmore, hwords, hactive, hgap⟩ := hline
  have hspace : marks? .outside (' ' :: line) = (marks? .outside line).map (.gap ' ' :: ·) := rfl
  refine ⟨marks ++ .gap ' ' :: more, ?_, ?_, ?_, ?_⟩
  · rw [hread, hspace, hmore]
    rfl
  · rw [Mark.words_append_gap, hspells.words, hwords]
    rfl
  · intro c hc
    rcases List.mem_append.1 hc with hword | hrest
    · exact not_mem_activeCharacters (hspells.plain c hword)
    · exact hactive c (by simpa using hrest)
  · intro c hc
    rcases List.mem_append.1 hc with hword | hrest
    · exact absurd (hspells.not_gap _ hword) (by simp [Mark.isGap])
    · rcases List.mem_cons.1 hrest with hself | hlater
      · exact Mark.gap.inj hself
      · exact hgap c hlater

theorem splits_intercalate {texts words : List (List Char)} (h : List.Forall₂ Reads texts words) :
    Splits ([' '].intercalate texts) words := by
  induction h with
  | nil => exact ⟨[], rfl, rfl, by simp, by simp⟩
  | @cons text word texts words hword hwords ih =>
    cases texts with
    | nil =>
      cases hwords
      simpa using splits_of_reads hword
    | cons next texts =>
      have hline : [' '].intercalate (text :: next :: texts) =
          text ++ ' ' :: [' '].intercalate (next :: texts) := by
        simp
      rw [hline]
      exact ih.cons hword

end Shell

namespace Invocation
open Shell

/-- The words that a shell line is made of: the assignments of variables, the program and the
arguments, before anything is quoted. -/
def plainWords (invocation : Invocation) : List String :=
  invocation.env.map (fun entry => entry.1 ++ "=" ++ entry.2) ++
    invocation.program :: invocation.args

theorem reads_word (text : String) : Reads (word text).toList text.toList := by
  rw [word, String.toList_ofList]
  exact reads_quote text.toList

/-- A shell splits the line of an invocation into the words of the invocation, whatever stands in
its arguments and in the values of its variables. -/
theorem splits_shellLine {invocation : Invocation}
    (hnames : ∀ entry ∈ invocation.env, ∀ c ∈ entry.1.toList, c.isAlphanum ∨ c = '_') :
    Splits invocation.shellLine.toList (invocation.plainWords.map String.toList) := by
  have henv : List.Forall₂ Reads
      ((invocation.env.map fun entry => entry.1 ++ "=" ++ word entry.2).map String.toList)
      ((invocation.env.map fun entry => entry.1 ++ "=" ++ entry.2).map String.toList) := by
    rw [List.map_map, List.map_map, List.forall₂_map_left_iff, List.forall₂_map_right_iff,
      List.forall₂_same]
    intro entry hentry
    have hplain : ∀ c ∈ entry.1.toList, isPlain c = true := by
      intro c hc
      rcases hnames entry hentry c hc with halnum | rfl
      · simp [isPlain, halnum]
      · rfl
    simpa [word] using reads_assignment hplain entry.2.toList
  have hargs : List.Forall₂ Reads
      ((word invocation.program :: invocation.args.map word).map String.toList)
      ((invocation.program :: invocation.args).map String.toList) := by
    rw [← List.map_cons, List.map_map, List.forall₂_map_left_iff, List.forall₂_map_right_iff,
      List.forall₂_same]
    exact fun text _ => reads_word text
  have hwords : List.Forall₂ Reads (invocation.shellWords.map String.toList)
      (invocation.plainWords.map String.toList) := by
    rw [shellWords, plainWords, List.map_append, List.map_append]
    exact List.rel_append henv hargs
  rw [shellLine, String.toList_intercalate]
  exact splits_intercalate hwords

def hostile : Invocation where
  program := ""
  args := ["it's", "$(x);\n", "a.js"]
  env := [("A_1", "~ *")]

theorem splits_hostile :
    hostile.shellLine = "A_1='~ *' '' 'it'\\''s' '$(x);\n' a.js" ∧
      Splits hostile.shellLine.toList
        (["A_1=~ *", "", "it's", "$(x);\n", "a.js"].map String.toList) :=
  ⟨by decide, splits_shellLine (by simp [hostile])⟩

end Invocation

end TestOutline
