import Mathlib.Data.List.Basic
import TestOutline.Proofs.CommandPieces

/-! Requests, written in words. However a request is written, it is read. If one thing more is said
anywhere in the line, an option for the second time or another operand, the line is refused. -/

namespace TestOutline.CommandLine

def Piece.Repeats (items : List Item) : Piece → Prop
  | switch s => .switch s ∈ items
  | letters switches => ∃ s ∈ switches, .switch s ∈ items
  | directory _ _ => Item.directories items ≠ []
  | operand _ => True

namespace Line

/-- Words of a line and one thing more: a piece between any two words in front of the two hyphens,
a letter in a word of letters, or a word behind the two hyphens, which may be added with it. -/
inductive Surplus (subcommand : Subcommand) (line : Line) : List String → Prop
  | piece {front back : List String} {piece : Piece}
      (hwords : line.pieces.flatMap Piece.words = front ++ back) (hpiece : piece.IsOf subcommand)
      (hagain : piece.Repeats line.items) :
      Surplus subcommand line (line.name :: (front ++ (piece.words ++ back) ++ line.tail))
  | letter {front back : List Piece} {before behind : List Switch} {again : Switch}
      (hpieces : line.pieces = front ++ Piece.letters (before ++ behind) :: back)
      (hshort : again.short?.isSome = true) (hagain : .switch again ∈ line.items) :
      Surplus subcommand line
        { line with pieces := front ++ Piece.letters (before ++ again :: behind) :: back }.words
  | word {front back : List String} {word : String}
      (hbehind : line.behind.getD [] = front ++ back) :
      Surplus subcommand line { line with behind := some (front ++ word :: back) }.words

end Line

/-- The pieces of a line, cut between two words: between two pieces, or behind `--cwd`. -/
inductive Cut : List Piece → (front back : List String) → Prop
  | between (before behind : List Piece) :
      Cut (before ++ behind) (before.flatMap Piece.words) (behind.flatMap Piece.words)
  | within (before : List Piece) (path : String) (behind : List Piece) :
      Cut (before ++ .directory path false :: behind) (before.flatMap Piece.words ++ ["--cwd"])
        (path :: behind.flatMap Piece.words)

section

variable {subcommand : Subcommand} {line : Line} {request : Request} {piece : Piece}
  {pieces : List Piece} {front back : List String}

theorem Cut.cons (h : Cut pieces front back) (piece : Piece) :
    Cut (piece :: pieces) (piece.words ++ front) back := by
  cases h with
  | between before behind => exact .between (piece :: before) behind
  | within before path behind =>
    rw [← List.append_assoc]
    exact .within (piece :: before) path behind

theorem Piece.exists_words_eq (piece : Piece) :
    (∃ word, piece.words = [word]) ∨ ∃ path, piece = .directory path false := by
  cases piece with
  | switch s => exact .inl ⟨_, rfl⟩
  | letters switches => exact .inl ⟨_, rfl⟩
  | directory path attached =>
    cases attached with
    | true => exact .inl ⟨_, rfl⟩
    | false => exact .inr ⟨path, rfl⟩
  | operand word => exact .inl ⟨_, rfl⟩

theorem cut_of_flatMap_words (h : pieces.flatMap Piece.words = front ++ back) :
    Cut pieces front back := by
  induction pieces generalizing front with
  | nil =>
    obtain ⟨rfl, rfl⟩ := List.append_eq_nil_iff.1 h.symm
    exact .between [] []
  | cons piece pieces ih =>
    cases front with
    | nil =>
      rw [List.nil_append] at h
      exact h ▸ .between [] (piece :: pieces)
    | cons word front =>
      rw [List.flatMap_cons] at h
      rcases piece.exists_words_eq with ⟨only, honly⟩ | ⟨path, rfl⟩
      · rw [honly] at h
        obtain ⟨rfl, hrest⟩ := List.cons.inj h
        have hcut := (ih hrest).cons piece
        rwa [honly] at hcut
      · obtain ⟨rfl, hrest⟩ := List.cons.inj h
        cases front with
        | nil =>
          obtain rfl : back = path :: pieces.flatMap Piece.words := hrest.symm
          exact .within [] path pieces
        | cons value front =>
          obtain ⟨rfl, hbehind⟩ := List.cons.inj hrest
          exact (ih hbehind).cons _

theorem exists_word_of_isOf (h : piece.IsOf subcommand) : (∃ word, piece = .operand word) ∨
    ∃ word more, piece.words = word :: more ∧ Form.ofWord word ≠ .plain := by
  cases piece with
  | switch s => exact .inr ⟨_, [], rfl, by simp [ofWord_long]⟩
  | letters switches => exact .inr ⟨_, [], rfl, by rw [ofWord_letters h.1 h.2]; exact nofun⟩
  | directory path attached =>
    cases attached with
    | true => exact .inr ⟨_, [], rfl, by simp [ofWord_attached]⟩
    | false => exact .inr ⟨"--cwd", [path], rfl, by decide⟩
  | operand word => exact .inl ⟨word, rfl⟩

theorem parse_of_missing_value {name word : String} {before : List Piece} {rest : List String}
    (hname : name ∈ subcommand.names) (hdirectory : subcommand.takesDirectory = true)
    (hbefore : ∀ piece ∈ before, piece.IsOf subcommand)
    (hfits : Fits subcommand (before.flatMap Piece.items)) (hword : Form.ofWord word ≠ .plain) :
    parse (name :: (before.flatMap Piece.words ++ "--cwd" :: word :: rest)) =
      .error .usageError := by
  obtain ⟨given, hgiven⟩ : ∃ given,
      (before.flatMap Piece.items).foldlM (Item.give subcommand) {} = .ok given :=
    ⟨_, foldlM_give_start.1 hfits⟩
  have hread : (before.flatMap Piece.words ++ "--cwd" :: word :: rest).foldlM
      (Reading.step subcommand) {} = .error .usageError := by
    rw [List.foldlM_append, foldlM_flatMap_words hbefore, hgiven]
    change ("--cwd" :: word :: rest).foldlM (Reading.step subcommand) ⟨given, .anything⟩ = _
    rw [List.foldlM_cons, step_cwd hdirectory]
    change (word :: rest).foldlM (Reading.step subcommand) ⟨given, .directory⟩ = _
    rw [List.foldlM_cons, step_directory_of_ne_plain hword]
    rfl
  rw [parse, ofName?_of_mem hname]
  dsimp only
  rw [parseArguments, hread]
  rfl

theorem mem_switches {s : Switch} {items : List Item} :
    s ∈ Item.switches items ↔ .switch s ∈ items := by
  rw [Item.switches, List.mem_filterMap]
  constructor
  · rintro ⟨item, hmem, hitem⟩
    cases item with
    | switch other => exact Option.some.inj hitem ▸ hmem
    | directory path => simp [Item.switch?] at hitem
    | operand word => simp [Item.switch?] at hitem
  · exact fun hmem => ⟨_, hmem, rfl⟩

theorem Line.Writes.not_fits (h : line.Writes request) (hagain : piece.Repeats line.items) :
    ¬Fits request.subcommand (piece.items ++ line.items) := by
  intro hfits
  cases piece with
  | switch s => exact (fits_cons_switch_iff.1 hfits).1 (mem_switches.2 hagain)
  | letters switches =>
    obtain ⟨s, hs, hgiven⟩ := hagain
    have hsub : (.switch s :: line.items).Sublist (switches.map Item.switch ++ line.items) :=
      (List.singleton_sublist.2 (List.mem_map_of_mem hs)).append_right line.items
    exact (fits_cons_switch_iff.1 (hfits.of_sublist hsub)).1 (mem_switches.2 hgiven)
  | directory path attached =>
    exact hagain (fits_cons_directory_iff.1 hfits).1
  | operand word =>
    obtain ⟨htarget, hnone⟩ := (fits_cons_operand_iff.1 hfits).1
    replace hnone : request.operands = [] := h.operands.symm.trans hnone
    cases request with
    | init => simp [Request.subcommand, Subcommand.takesTarget] at htarget
    | _ => simp [Request.operands] at hnone

theorem Line.Writes.mem_of_switch (h : line.Writes request) {s : Switch}
    (hs : .switch s ∈ line.items) : s ∈ request.subcommand.switches :=
  request.switches_subset (h.switches.mem_iff.1 (mem_switches.2 hs))

theorem Line.Writes.refused (h : line.Writes request) (other : Line)
    (hname : other.name = line.name)
    (hpieces : ∀ piece ∈ other.pieces, piece.IsOf request.subcommand)
    (hagain : piece.Repeats line.items) (hperm : other.items.Perm (piece.items ++ line.items)) :
    parse other.words = .error .usageError :=
  parse_words_of_not_fits (hname ▸ h.name) hpieces fun hfits =>
    h.not_fits hagain (hfits.of_perm hperm)

theorem Line.Writes.parse_between {before behind : List Piece} (h : line.Writes request)
    (hline : line.pieces = before ++ behind) (hpiece : piece.IsOf request.subcommand)
    (hagain : piece.Repeats line.items) :
    parse (line.name :: (before.flatMap Piece.words ++
      (piece.words ++ behind.flatMap Piece.words) ++ line.tail)) = .error .usageError := by
  let other : Line := { line with pieces := before ++ piece :: behind }
  have hitems : other.items.Perm (piece.items ++ line.items) := by
    rw [Line.items, Line.items, hline, ← List.append_assoc]
    refine List.Perm.append_right _ ?_
    rw [List.flatMap_append, List.flatMap_append, List.flatMap_cons]
    exact List.perm_append_comm_assoc ..
  have hpieces := h.pieces
  rw [hline, List.forall_mem_append] at hpieces
  have hrefused := h.refused other rfl
    (List.forall_mem_append.2 ⟨hpieces.1, List.forall_mem_cons.2 ⟨hpiece, hpieces.2⟩⟩) hagain hitems
  rwa [Line.words, List.flatMap_append, List.flatMap_cons] at hrefused

theorem Line.Writes.parse_within {before behind : List Piece} {path : String}
    (h : line.Writes request) (hline : line.pieces = before ++ .directory path false :: behind)
    (hpiece : piece.IsOf request.subcommand) :
    parse (line.name :: (before.flatMap Piece.words ++ ["--cwd"] ++
      (piece.words ++ path :: behind.flatMap Piece.words) ++ line.tail)) = .error .usageError := by
  have hpieces := h.pieces
  rw [hline, List.forall_mem_append, List.forall_mem_cons] at hpieces
  obtain ⟨hbefore, ⟨hdirectory, hplain⟩, hbehind⟩ := hpieces
  rcases exists_word_of_isOf hpiece with ⟨word, rfl⟩ | ⟨word, more, hwords, hword⟩
  · let other : Line :=
      { line with pieces := before ++ .directory word false :: .operand path :: behind }
    have hother : ∀ piece ∈ other.pieces, piece.IsOf request.subcommand :=
      List.forall_mem_append.2 ⟨hbefore, List.forall_mem_cons.2 ⟨⟨hdirectory, .inr hpiece⟩,
        List.forall_mem_cons.2 ⟨hplain.resolve_left Bool.false_ne_true, hbehind⟩⟩⟩
    have hnot : ¬Fits request.subcommand other.items := by
      intro hfits
      have hmem : .operand path ∈ other.items := by simp [other, Line.items, Piece.items]
      have htarget := hfits.takesTarget_of_mem hmem
      rw [takesTarget_of_takesDirectory hdirectory] at htarget
      simp at htarget
    have hrefused := @parse_words_of_not_fits _ other h.name hother hnot
    simpa [other, Line.words, Line.tail, Piece.words] using hrefused
  · have hfits : Fits request.subcommand (before.flatMap Piece.items) := by
      refine h.fits.of_sublist ?_
      rw [Line.items, hline, List.flatMap_append, List.append_assoc]
      exact List.sublist_append_left ..
    rw [hwords]
    simpa using parse_of_missing_value h.name hdirectory hbefore hfits hword

theorem Line.Writes.parse_letter {front back : List Piece} {before behind : List Switch}
    {again : Switch} (h : line.Writes request)
    (hline : line.pieces = front ++ Piece.letters (before ++ behind) :: back)
    (hshort : again.short?.isSome = true) (hagain : .switch again ∈ line.items) :
    parse { line with pieces := front ++ Piece.letters (before ++ again :: behind) :: back }.words =
      .error .usageError := by
  have hpieces := h.pieces
  rw [hline, List.forall_mem_append, List.forall_mem_cons] at hpieces
  obtain ⟨hfront, ⟨-, hletters⟩, hback⟩ := hpieces
  rw [List.forall_mem_append] at hletters
  have hof : Piece.IsOf request.subcommand (.letters (before ++ again :: behind)) :=
    ⟨by simp, List.forall_mem_append.2 ⟨hletters.1,
      List.forall_mem_cons.2 ⟨⟨h.mem_of_switch hagain, hshort⟩, hletters.2⟩⟩⟩
  refine @Line.Writes.refused line request (.switch again) h _ rfl
    (List.forall_mem_append.2 ⟨hfront, List.forall_mem_cons.2 ⟨hof, hback⟩⟩) hagain ?_
  simpa [Line.items, hline, Piece.items] using
    @List.perm_middle _ (.switch again) (front.flatMap Piece.items ++ before.map Item.switch)
      (behind.map Item.switch ++ (back.flatMap Piece.items ++
        (line.behind.getD []).map Item.operand))

theorem Line.Writes.parse_word {word : String} (h : line.Writes request)
    (hbehind : line.behind.getD [] = front ++ back) :
    parse { line with behind := some (front ++ word :: back) }.words = .error .usageError := by
  refine @Line.Writes.refused line request (.operand word) h _ rfl h.pieces trivial ?_
  simpa [Line.items, hbehind, Piece.items] using
    @List.perm_middle _ (.operand word) (line.pieces.flatMap Piece.items ++ front.map Item.operand)
      (back.map Item.operand)

/-- However a request is written, its line is read for the request, and it is refused with one thing
more. -/
theorem parse_written (h : line.Writes request) : parse line.words = .ok request ∧
    ∀ words, line.Surplus request.subcommand words → parse words = .error .usageError := by
  refine ⟨h.parse_words, fun words hwords => ?_⟩
  cases hwords with
  | piece hsplit hpiece hagain =>
    have hcut := cut_of_flatMap_words hsplit
    generalize hline : line.pieces = pieces at hcut
    cases hcut with
    | between before behind => exact h.parse_between hline hpiece hagain
    | within before path behind => exact h.parse_within hline hpiece
  | letter hline hshort hagain => exact h.parse_letter hline hshort hagain
  | word hbehind => exact h.parse_word hbehind

theorem parse_written_debugCommand :
    Line.Writes ⟨"c", [.letters [.debug], .switch .json], some ["-x"]⟩ (.command "-x" true true) ∧
      parse ["c", "-d", "--json", "--", "-x"] = .ok (.command "-x" true true) ∧
      parse ["c", "-d", "--debug", "--json", "--", "-x"] = .error .usageError := by
  have hwrites : Line.Writes ⟨"c", [.letters [.debug], .switch .json], some ["-x"]⟩
      (.command "-x" true true) := by
    constructor <;> decide
  obtain ⟨hread, hrefused⟩ := parse_written hwrites
  refine ⟨hwrites, hread, hrefused _ ?_⟩
  exact @Line.Surplus.piece .command _ ["-d"] ["--json"] (.switch .debug) (by decide) (by decide)
    (.head _)

theorem Request.exists_writes (request : Request) : ∃ line : Line, line.Writes request := by
  let line : Line :=
    { name := request.subcommand.names.headD ""
      pieces := request.switches.map .switch ++ request.directories.map (.directory · true)
      behind := some request.operands }
  have hitems : line.items = request.switches.map .switch ++ request.directories.map .directory ++
      request.operands.map .operand := by
    simp [line, Line.items, Piece.items, List.flatMap_map, ← List.map_eq_flatMap]
  refine ⟨line, ?_, ?_, ?_, ?_, ?_⟩
  · simp only [line]
    cases request.subcommand <;> decide
  · intro piece hpiece
    rcases List.mem_append.1 hpiece with hswitch | hdirectory
    · obtain ⟨s, hs, rfl⟩ := List.mem_map.1 hswitch
      exact request.switches_subset hs
    · obtain ⟨path, hpath, rfl⟩ := List.mem_map.1 hdirectory
      exact ⟨Request.takesDirectory_of_mem hpath, .inl rfl⟩
  · rw [hitems]
    simp [Item.switches, List.filterMap_map, Function.comp_def, Item.switch?]
  · rw [hitems]
    simp [Item.directories, List.filterMap_map, Function.comp_def, Item.directory?]
  · rw [hitems]
    simp [Item.operands, List.filterMap_map, Function.comp_def, Item.operand?]

end

end TestOutline.CommandLine
