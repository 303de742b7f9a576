import Mathlib.Algebra.Ring.Parity
import Mathlib.Data.List.Basic
import Mathlib.Data.List.Induction
import TestOutline.CommandLine.Breakdown
import TestOutline.Launch

/-! What the entries of a breakdown show. Read one after the other they are the arguments, but for a
last `--grep` that has no argument left to take along: none of the entries shows it. From the left,
`--grep` takes any argument along, also another `--grep`, so this is the last one of an odd number
at the end. -/

namespace TestOutline.CommandLine

namespace Part

def shown : Part → List String
  | inspector port => [inspectorOption ++ port]
  | grep pattern => ["--grep", pattern]
  | flag text => [text]
  | argument text => [text]

/-- A flag is an option other than the two that have parts of their own, and an argument is no
option. -/
def IsApt : Part → Prop
  | inspector _ => True
  | grep _ => True
  | flag text => text.toList.head? = some '-' ∧ text ≠ "--grep" ∧
      ¬inspectorOption.toList <+: text.toList
  | argument text => text.toList.head? ≠ some '-'

/-- The parts show all arguments, each of them once and in their order. -/
structure ShowAll (parts : List Part) (args : List String) : Prop where
  isApt : ∀ part ∈ parts, part.IsApt
  shown : parts.flatMap shown = args

def EndsUnpaired (args : List String) : Prop :=
  ∃ before n, args = before ++ List.replicate (2 * n + 1) "--grep" ∧
    before.getLast? ≠ some "--grep"

theorem shown_ofArgument (text : String) : (ofArgument text).shown = [text] := by
  rw [ofArgument]
  split
  · next port hport =>
    rw [List.isPrefixOf?_eq_some_iff_append_eq] at hport
    rw [shown, List.cons.injEq, ← String.toList_inj, ← hport]
    simp
  · split
    · rfl
    · rfl

theorem isApt_ofArgument {text : String} (h : text ≠ "--grep") : (ofArgument text).IsApt := by
  rw [ofArgument]
  split
  · trivial
  · next hnone =>
    split
    · next hhyphen =>
      refine ⟨hhyphen, h, ?_⟩
      rintro ⟨port, hport⟩
      rw [List.isPrefixOf?_eq_some_iff_append_eq.2 hport] at hnone
      simp at hnone
    · next hhyphen => exact hhyphen

theorem ofArguments_cons_of_ne {text : String} (h : text ≠ "--grep") (rest : List String) :
    ofArguments (text :: rest) = ofArgument text :: ofArguments rest := by
  cases rest <;> simp [ofArguments, h]

theorem ofArguments_grep (pattern : String) (rest : List String) :
    ofArguments ("--grep" :: pattern :: rest) = grep pattern :: ofArguments rest := by
  simp [ofArguments]

theorem isApt_ofArguments (args : List String) : ∀ part ∈ ofArguments args, part.IsApt := by
  fun_induction ofArguments args with
  | case1 => simp
  | case2 => simp
  | case3 last hne => simpa using isApt_ofArgument hne
  | case4 next rest ih => exact List.forall_mem_cons.2 ⟨trivial, ih⟩
  | case5 text next rest hne ih => exact List.forall_mem_cons.2 ⟨isApt_ofArgument hne, ih⟩

theorem flatMap_shown_append {before : List String} (h : before.getLast? ≠ some "--grep")
    (rest : List String) : (ofArguments (before ++ rest)).flatMap shown =
      before ++ (ofArguments rest).flatMap shown := by
  fun_induction ofArguments before with
  | case1 => rfl
  | case2 => simp at h
  | case3 last hne =>
    rw [List.singleton_append, ofArguments_cons_of_ne hne, List.flatMap_cons, shown_ofArgument]
  | case4 next more ih =>
    have hlast : more.getLast? ≠ some "--grep" := by
      cases more with
      | nil => simp
      | cons text more => simpa using h
    rw [List.cons_append, List.cons_append, ofArguments_grep, List.flatMap_cons, ih hlast]
    rfl
  | case5 text next more hne ih =>
    have hlast : (next :: more).getLast? ≠ some "--grep" := by simpa using h
    rw [List.cons_append, ofArguments_cons_of_ne hne, List.flatMap_cons, shown_ofArgument,
      ih hlast]
    rfl

theorem flatMap_shown_replicate (n : Nat) (rest : List String) :
    (ofArguments (List.replicate (2 * n) "--grep" ++ rest)).flatMap shown =
      List.replicate (2 * n) "--grep" ++ (ofArguments rest).flatMap shown := by
  induction n with
  | zero => rfl
  | succ n ih =>
    have hrun : List.replicate (2 * (n + 1)) "--grep" =
        "--grep" :: "--grep" :: List.replicate (2 * n) "--grep" := rfl
    rw [hrun, List.cons_append, List.cons_append, ofArguments_grep, List.flatMap_cons, ih]
    rfl

theorem exists_run (args : List String) : ∃ before n,
    args = before ++ List.replicate n "--grep" ∧ before.getLast? ≠ some "--grep" := by
  induction args using List.reverseRecOn with
  | nil => exact ⟨[], 0, rfl, by simp⟩
  | append_singleton args text ih =>
    by_cases htext : text = "--grep"
    · obtain ⟨before, n, rfl, hlast⟩ := ih
      refine ⟨before, n + 1, ?_, hlast⟩
      rw [List.append_assoc, List.replicate_succ', htext]
    · exact ⟨args ++ [text], 0, by simp, by simpa using htext⟩

theorem showAll_of_endsUnpaired {args : List String} (h : EndsUnpaired args) :
    ∃ front, args = front ++ ["--grep"] ∧ ShowAll (ofArguments args) front := by
  obtain ⟨before, n, rfl, hlast⟩ := h
  have hrun : List.replicate (2 * n + 1) "--grep" =
      List.replicate (2 * n) "--grep" ++ ["--grep"] := List.replicate_succ'
  refine ⟨before ++ List.replicate (2 * n) "--grep", ?_, isApt_ofArguments _, ?_⟩
  · rw [hrun, List.append_assoc]
  · rw [flatMap_shown_append hlast, hrun, flatMap_shown_replicate]
    simp [ofArguments]

theorem showAll_of_not_endsUnpaired {args : List String} (h : ¬EndsUnpaired args) :
    ShowAll (ofArguments args) args := by
  obtain ⟨before, n, rfl, hlast⟩ := exists_run args
  refine ⟨isApt_ofArguments _, ?_⟩
  rcases n.even_or_odd' with ⟨half, rfl | rfl⟩
  · have hrun := flatMap_shown_replicate half []
    rw [List.append_nil] at hrun
    rw [flatMap_shown_append hlast, hrun]
    simp [ofArguments]
  · exact absurd ⟨before, half, rfl, hlast⟩ h

theorem showAll_ofArguments_iff {args : List String} :
    ShowAll (ofArguments args) args ↔ ¬EndsUnpaired args := by
  refine ⟨fun hall hends => ?_, showAll_of_not_endsUnpaired⟩
  obtain ⟨front, hargs, hfront⟩ := showAll_of_endsUnpaired hends
  rw [← hfront.shown, hall.shown] at hargs
  simp at hargs

end Part

/-- A breakdown with these entries between the program and the directory. -/
def breakdownWith (invocation : Invocation) (entries : List String) : List String :=
  ["   🔧 Command breakdown:", "      • program: " ++ invocation.program] ++ entries ++
    ((invocation.workingDirectory.map ("      • working dir: " ++ ·)).toList ++
      invocation.env.map (fun entry => "      • env: " ++ entry.1 ++ "=" ++ entry.2) ++
      ["   ▶️  " ++ invocation.shellLine])

theorem breakdown_eq (invocation : Invocation) : breakdown invocation =
    breakdownWith invocation ((Part.ofArguments invocation.args).map Part.line) := by
  simp only [breakdown, breakdownWith, List.append_assoc]

theorem breakdownWith_inj {invocation : Invocation} {entries others : List String} :
    breakdownWith invocation entries = breakdownWith invocation others ↔ entries = others := by
  rw [breakdownWith, breakdownWith, List.append_left_inj, List.append_right_inj]

/-- The entries show every argument, in order and once, exactly if the arguments do not end in an
odd number of `--grep`. If they do, the entries show all but the last of these. -/
theorem breakdown_shows (invocation : Invocation) :
    ∃ parts : List Part,
      breakdown invocation = breakdownWith invocation (parts.map Part.line) ∧
      (Part.ShowAll parts invocation.args ↔ ¬Part.EndsUnpaired invocation.args) ∧
      (Part.EndsUnpaired invocation.args →
        ∃ front, invocation.args = front ++ ["--grep"] ∧ Part.ShowAll parts front) :=
  ⟨Part.ofArguments invocation.args, breakdown_eq invocation, Part.showAll_ofArguments_iff,
    Part.showAll_of_endsUnpaired⟩

example : (Part.ofArguments ["--grep", "--grep", "--grep"]).flatMap Part.shown =
    ["--grep", "--grep"] := by
  decide

theorem exists_argument_not_shown :
    ∃ invocation, invocation = Settings.launchFile {} ⟨"/w/--grep"⟩ .run ∧
      "--grep" ∈ invocation.args ∧
      ¬∃ parts : List Part,
        breakdown invocation = breakdownWith invocation (parts.map Part.line) ∧
          parts.flatMap Part.shown = invocation.args := by
  have hargs : (Settings.launchFile {} ⟨"/w/--grep"⟩ .run).args = ["--grep"] := by decide
  refine ⟨_, rfl, ?_, ?_⟩
  · rw [hargs]
    exact List.mem_singleton_self _
  · rintro ⟨parts, hentries, hshown⟩
    rw [breakdown_eq, breakdownWith_inj, hargs] at hentries
    rw [List.map_eq_nil_iff.1 hentries.symm, hargs] at hshown
    simp at hshown

end TestOutline.CommandLine
