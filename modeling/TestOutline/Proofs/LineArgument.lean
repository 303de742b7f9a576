import TestOutline.Proofs.Numbers
import TestOutline.Proofs.Summary

/-! Lines behind paths. A number written behind a path and a colon is taken for a line, and nothing
else is; the path may have any other colons in it. Lines are counted from zero inside, and going
back to the number that was written never leaves 32 bits. -/

namespace TestOutline.CommandLine
open Text

/-- The ways to write a number as a line: decimal digits, perhaps behind a plus sign. The number has
to fit into 32 bits. -/
def WritesLine (text : List Char) (number : Nat) : Prop :=
  ∃ sign digits, text = sign ++ digits ∧ (sign = [] ∨ sign = ['+']) ∧ IsDecimal digits number ∧
    number < UInt32.size

/-- A line is shown as a number at the top of a summary, above the block at the line, and where it
is said that there is none. -/
structure ShowsLine (workspace : Workspace) (argument : String) (number : Nat) : Prop where
  top : ∀ file settings, Opens workspace argument file settings →
    (analyze workspace argument false).Prints
      ("🔍 Analyzing: " ++ (Target.ofArgument argument).path ++ ":" ++ toString number)
  block : ∀ file settings line block, Opens workspace argument file settings →
    (Target.ofArgument argument).line = some line →
    workspace.blockAt? file line = .ok (some block) →
    (analyze workspace argument false).Prints ("\n🎯 Block at line " ++ toString number ++ ":")
  no_block : ∀ file settings line outline, Opens workspace argument file settings →
    (Target.ofArgument argument).line = some line →
    workspace.outline file = .ok outline → outline.isEmpty = false →
    workspace.blockAt? file line = .ok none →
    (analyze workspace argument false).Prints ("\n❌ No block at line " ++ toString number)
  no_pattern : ∀ file settings line, Opens workspace argument file settings →
    (Target.ofArgument argument).line = some line →
    workspace.patternAt? file line = .ok none →
    (pattern workspace argument).failure = some ⟨"No describe/it block at " ++
      (Target.ofArgument argument).path ++ ":" ++ toString number, []⟩

theorem WritesLine.toDigits {number : Nat} (h : number < UInt32.size) :
    WritesLine (Nat.toDigits 10 number) number :=
  ⟨[], _, rfl, .inl rfl, isDecimal_toDigits number, h⟩

theorem WritesLine.lt_size {text : List Char} {number : Nat} (h : WritesLine text number) :
    number < UInt32.size := by
  obtain ⟨-, -, -, -, -, hlt⟩ := h
  exact hlt

theorem WritesLine.not_mem_colon {text : List Char} {number : Nat} (h : WritesLine text number) :
    ':' ∉ text := by
  obtain ⟨sign, digits, rfl, hsign, hdigits, -⟩ := h
  rw [List.mem_append, not_or]
  constructor
  · rcases hsign with rfl | rfl <;> decide
  · intro hmem
    have hcolon := hdigits.isDigit ':' hmem
    exact absurd hcolon (by decide)

theorem lineNumber?_eq_some_iff {text : List Char} {number : Nat} :
    Target.lineNumber? text = some number ↔ WritesLine text number := by
  rw [Target.lineNumber?.eq_def, Option.filter_eq_some_iff, decide_eq_true_eq]
  split
  · next rest =>
    rw [numeral?_eq_some_iff]
    constructor
    · exact fun ⟨hdigits, hlt⟩ => ⟨['+'], rest, rfl, .inr rfl, hdigits, hlt⟩
    · rintro ⟨sign, digits, htext, rfl | rfl, hdigits, hlt⟩
      · subst htext
        have hplus := hdigits.isDigit '+' (List.mem_cons_self ..)
        exact absurd hplus (by decide)
      · rw [List.singleton_append, List.cons.injEq] at htext
        exact ⟨htext.2 ▸ hdigits, hlt⟩
  · next hne =>
    rw [numeral?_eq_some_iff]
    constructor
    · exact fun ⟨hdigits, hlt⟩ => ⟨[], text, rfl, .inl rfl, hdigits, hlt⟩
    · rintro ⟨sign, digits, htext, rfl | rfl, hdigits, hlt⟩
      · exact ⟨htext ▸ hdigits, hlt⟩
      · exact absurd htext (hne digits)

namespace Target

theorem ofArgument_of_writesLine (path : String) {text : String} {number : Nat}
    (h : WritesLine text.toList number) :
    ofArgument (path ++ ":" ++ text) = ⟨path, some (.ofNat (number - 1))⟩ := by
  have hsplit : splitLast? ':' (path ++ ":" ++ text).toList = some (path.toList, text.toList) :=
    splitLast?_eq_some.2 ⟨by simp, h.not_mem_colon⟩
  rw [ofArgument, hsplit]
  simp only [lineNumber?_eq_some_iff.2 h, String.ofList_toList]

theorem ofArgument_or_exists (argument : String) : ofArgument argument = ⟨argument, none⟩ ∨
    ∃ path text number, argument = path ++ ":" ++ text ∧ WritesLine text.toList number := by
  rw [ofArgument]
  split
  · next path text hsplit =>
    split
    · next number hnumber =>
      obtain ⟨hargument, -⟩ := splitLast?_eq_some.1 hsplit
      refine .inr ⟨.ofList path, .ofList text, number, ?_, ?_⟩
      · rw [← String.toList_inj, hargument]
        simp
      · rw [String.toList_ofList]
        exact lineNumber?_eq_some_iff.1 hnumber
    · exact .inl rfl
  · exact .inl rfl

end Target

theorem toNat_ofNat_pred_succ {number : Nat} (h : number < UInt32.size) :
    (UInt32.ofNat (number - 1) + 1).toNat = max 1 number := by
  have hpred : (UInt32.ofNat (number - 1)).toNat = number - 1 :=
    UInt32.toNat_ofNat_of_lt' (by omega)
  have hsucc : number - 1 + 1 < 2 ^ 32 := by
    simp only [UInt32.size] at h
    omega
  rw [UInt32.toNat_add, hpred, UInt32.toNat_one, Nat.mod_eq_of_lt hsucc]
  omega

theorem showsLine {path text : String} {number : Nat} (h : WritesLine text.toList number)
    (workspace : Workspace) : ShowsLine workspace (path ++ ":" ++ text) (max 1 number) := by
  have htarget := Target.ofArgument_of_writesLine path h
  have hshown : shownLine (.ofNat (number - 1)) = toString (max 1 number) := by
    rw [shownLine, toNat_ofNat_pred_succ h.lt_size]
  have hline {line : UInt32} (hargument : (Target.ofArgument (path ++ ":" ++ text)).line =
      some line) : shownLine line = toString (max 1 number) := by
    rw [htarget] at hargument
    rw [← Option.some.inj hargument, hshown]
  constructor
  · intro file settings hopens
    rw [hopens.analyze_eq_summary]
    apply prints_summaryHeader
    rw [summaryHeader, htarget]
    simp only [Option.map_some, Option.getD_some, hshown, String.append_assoc]
    exact List.mem_append_left _ (List.mem_cons_self ..)
  · intro file settings line block hopens hargument hblock
    obtain ⟨lines, hread, hcursor⟩ := Workspace.blockAt?_eq_ok_iff.1 hblock
    rw [hopens.analyze_eq_summary, summary_eq_print (summaryBody_of_block hread hargument hcursor),
      blockLines, hline hargument]
    exact prints_of_mem (by simp)
  · intro file settings line outline hopens hargument houtline hne hblock
    obtain ⟨lines, hread, hcursor⟩ := Workspace.blockAt?_eq_ok_iff.1 hblock
    rw [Workspace.outline_eq hread, Except.ok.injEq] at houtline
    rw [hopens.analyze_eq_summary,
      summary_eq_print (summaryBody_of_no_block hread (houtline ▸ hne) hargument hcursor),
      hline hargument]
    exact prints_of_mem (List.mem_append_right _ (List.mem_cons_self ..))
  · intro file settings line hopens hargument hnone
    rw [hopens.pattern_of_no_block hargument hnone, hline hargument]

/-- A number behind the last colon of an argument is a line, counted from one, if it is written as
one; the path is what stands before the colon, or else the whole argument. The number can be shown
again: it is the one that was written, but for zero, which is the first line. -/
theorem ofArgument_reads_line :
    (∀ (path : String) (number : Nat), 1 ≤ number → number < UInt32.size →
      Target.ofArgument (path ++ ":" ++ toString number) =
        ⟨path, some (.ofNat (number - 1))⟩) ∧
    ∀ argument : String,
      ((Target.ofArgument argument).line.isSome ↔ ∃ path text number,
        argument = path ++ ":" ++ text ∧ ':' ∉ text.toList ∧ WritesLine text.toList number) ∧
      ((Target.ofArgument argument).line = none → (Target.ofArgument argument).path = argument) ∧
      ∀ path text number, argument = path ++ ":" ++ text → WritesLine text.toList number →
        (Target.ofArgument argument).path = path ∧
        ∃ line, (Target.ofArgument argument).line = some line ∧
          line.toNat = number - 1 ∧ line.toNat + 1 < UInt32.size ∧
          (line + 1).toNat = max 1 number ∧
          ∀ workspace, ShowsLine workspace argument (max 1 number) := by
  refine ⟨?_, fun argument => ⟨?_, ?_, ?_⟩⟩
  · intro path number _ hlt
    apply Target.ofArgument_of_writesLine
    rw [Json.toList_toString]
    exact WritesLine.toDigits hlt
  · constructor
    · intro hsome
      rcases Target.ofArgument_or_exists argument with hpath | ⟨path, text, number, hsplit, hwrites⟩
      · simp [hpath] at hsome
      · exact ⟨path, text, number, hsplit, hwrites.not_mem_colon, hwrites⟩
    · rintro ⟨path, text, number, rfl, -, hwrites⟩
      simp [Target.ofArgument_of_writesLine path hwrites]
  · intro hnone
    rcases Target.ofArgument_or_exists argument with hpath | ⟨path, text, number, rfl, hwrites⟩
    · rw [hpath]
    · simp [Target.ofArgument_of_writesLine path hwrites] at hnone
  · rintro path text number rfl hwrites
    have hlt := hwrites.lt_size
    have hline : (UInt32.ofNat (number - 1)).toNat = number - 1 :=
      UInt32.toNat_ofNat_of_lt' (by omega)
    rw [Target.ofArgument_of_writesLine path hwrites]
    refine ⟨rfl, _, rfl, hline, ?_, toNat_ofNat_pred_succ hlt, showsLine hwrites⟩
    rw [hline]
    simp only [UInt32.size] at hlt ⊢
    omega

theorem ofArgument_signedLine :
    (1 ≤ 4294967295 ∧ 4294967295 < UInt32.size ∧
      Target.ofArgument ("a:7.js:7" ++ ":" ++ toString 4294967295) =
        ⟨"a:7.js:7", some (.ofNat (4294967295 - 1))⟩) ∧
    WritesLine "+01".toList 1 ∧ (Target.ofArgument "test/a.js:+01").path = "test/a.js" ∧
    ∃ settings block,
      Opens (.project ["w"]) "test/a.js:+01" ⟨"/w/test/a.js"⟩ settings ∧
      (Workspace.project ["w"]).blockAt? ⟨"/w/test/a.js"⟩ 0 = .ok (some block) ∧
      (analyze (.project ["w"]) "test/a.js:+01" false).Prints
        ("🔍 Analyzing: " ++ (Target.ofArgument "test/a.js:+01").path ++ ":" ++ toString 1) ∧
      (analyze (.project ["w"]) "test/a.js:+01" false).Prints
        ("\n🎯 Block at line " ++ toString 1 ++ ":") := by
  have hwrites : WritesLine "+01".toList 1 :=
    ⟨['+'], ['0', '1'], rfl, .inr rfl, ⟨by simp, by simp, rfl⟩, by decide⟩
  obtain ⟨hpath, -, -, -, -, -, hshows⟩ :=
    (ofArgument_reads_line.2 "test/a.js:+01").2.2 "test/a.js" "+01" 1 rfl hwrites
  have hline : (Target.ofArgument "test/a.js:+01").line = some 0 := by decide
  obtain ⟨settings, hopens⟩ : ∃ settings,
      Opens (.project ["w"]) "test/a.js:+01" ⟨"/w/test/a.js"⟩ settings :=
    ⟨_, by rfl, by rfl⟩
  obtain ⟨block, hblock⟩ : ∃ block,
      (Workspace.project ["w"]).blockAt? ⟨"/w/test/a.js"⟩ 0 = .ok (some block) :=
    ⟨_, by rfl⟩
  exact ⟨⟨by decide, by decide, ofArgument_reads_line.1 _ _ (by decide) (by decide)⟩, hwrites,
    hpath, settings, block, hopens, hblock, (hshows _).top _ _ hopens,
    (hshows _).block _ _ _ _ hopens hline hblock⟩

end TestOutline.CommandLine
