import Mathlib.Data.List.Perm.Basic
import TestOutline.Launch
import TestOutline.Outline.Extract

/-! What settings make of a file in either mode. Variables are handed on in the order of their
names, so the order in which they are held does not count; and a run and a debug run have the same
directory, the same variables and the same arguments behind those that start the test runner. -/

namespace TestOutline

namespace Environment

theorem pairwise_sorted (environment : Environment) :
    environment.sorted.Pairwise fun entry next => entry.1 < next.1 := by
  have hle : environment.sorted.Pairwise fun entry next =>
      decide (entry.1 ≤ next.1) = true := by
    apply List.pairwise_mergeSort
    · intro a b c hab hbc
      rw [decide_eq_true_eq] at hab hbc ⊢
      exact String.le_trans hab hbc
    · intro a b
      rw [Bool.or_eq_true, decide_eq_true_eq, decide_eq_true_eq]
      exact String.le_total a.1 b.1
  have hne : environment.sorted.Pairwise fun entry next => entry.1 ≠ next.1 :=
    List.pairwise_map.1 ((environment.sorted_perm.map _).nodup_iff.2 environment.nodup)
  refine hle.imp₂ ?_ hne
  intro entry next hentry hother
  exact Std.lt_of_le_of_ne (of_decide_eq_true hentry) hother

theorem sorted_eq_of_perm {first second : Environment} (h : first.entries.Perm second.entries) :
    first.sorted = second.sorted := by
  have hperm : first.sorted.Perm second.sorted :=
    first.sorted_perm.trans (h.trans second.sorted_perm.symm)
  refine hperm.eq_of_pairwise ?_ first.pairwise_sorted second.pairwise_sorted
  intro entry other _ _ hlt hgt
  exact absurd hgt (String.lt_asymm hlt)

end Environment

namespace Settings

variable {settings : Settings} {file : Path} {block : Option (Outline × Nat)} {mode : Mode}
  {invocation : Invocation}

def invocationFor (settings : Settings) (file : Path) (mode : Mode) :
    Option (Outline × Nat) → Except Fault Invocation
  | none => .ok (settings.launchFile file mode)
  | some (outline, id) => settings.launchBlock file outline id mode

def tailFor (settings : Settings) (file : Path) (pattern : Option String) : List String :=
  settings.mochaArgs ++ [(settings.fileArgument file).text] ++
    pattern.elim [] fun pattern => ["--grep", pattern]

/-- A run and a debug run for the same tests, which are all of a file or those that a pattern
selects. -/
structure DifferInLauncher (settings : Settings) (file : Path) (pattern : Option String)
    (run debug : Invocation) : Prop where
  workingDirectory : run.workingDirectory = debug.workingDirectory
  env : run.env = debug.env
  grep : run.grep = pattern ∧ debug.grep = pattern
  run_program : run.program = settings.nodePath.getD settings.runnerPath
  run_args : run.args = (settings.nodePath.map fun _ => settings.runnerPath).toList ++
    settings.tailFor file pattern
  debug_program : debug.program = settings.nodePath.getD "node"
  debug_args : debug.args = ["--inspect-brk=" ++ toString settings.debugPort.toNat,
    settings.runnerPath, "--no-timeouts"] ++ settings.tailFor file pattern

theorem differInLauncher_launchFile (settings : Settings) (file : Path) :
    settings.DifferInLauncher file none (settings.launchFile file .run)
      (settings.launchFile file .debug) := by
  constructor
  · rfl
  · rfl
  · exact ⟨rfl, rfl⟩
  · cases hnode : settings.nodePath <;> simp [launchFile, launcher, hnode]
  · cases hnode : settings.nodePath <;> simp [launchFile, launcher, tailFor, hnode]
  · rfl
  · simp [launchFile, launcher, tailFor]

theorem DifferInLauncher.narrow {run debug : Invocation}
    (h : settings.DifferInLauncher file none run debug) (pattern : String) :
    settings.DifferInLauncher file (some pattern) (run.narrow pattern) (debug.narrow pattern) where
  workingDirectory := h.workingDirectory
  env := h.env
  grep := ⟨rfl, rfl⟩
  run_program := h.run_program
  run_args := by
    rw [Invocation.args_narrow, h.run_args]
    simp [tailFor]
  debug_program := h.debug_program
  debug_args := by
    rw [Invocation.args_narrow, h.debug_args]
    simp [tailFor]

theorem invocationFor_block (outline : Outline) (id : Nat) :
    settings.invocationFor file mode (some (outline, id)) =
      if (outline.get? id).isSome then
        .ok ((settings.launchFile file mode).narrow (outline.pattern id))
      else .error .noBlock := by
  rw [invocationFor, launchBlock]
  cases outline.get? id <;> rfl

theorem env_of_invocationFor (h : settings.invocationFor file mode block = .ok invocation) :
    invocation.env = settings.env.sorted := by
  cases block with
  | none =>
    rw [← Except.ok.inj h]
    rfl
  | some block =>
    rw [invocationFor_block] at h
    split at h
    · rw [← Except.ok.inj h]
      rfl
    · simp at h

theorem launchFile_of_perm {env : Environment} (h : settings.env.entries.Perm env.entries) :
    launchFile { settings with env } file mode = settings.launchFile file mode := by
  have hsorted := Environment.sorted_eq_of_perm h
  simp only [launchFile, hsorted]
  rfl

/-- The order in which variables are held makes no difference to an invocation, so it makes none to
its shell line; each variable is handed on once, in the order of the names. A run and a debug run of
a file, or of a block that the outline holds, differ in the words that start the test runner. -/
theorem invocationFor_modes :
    (∀ (settings : Settings) (env : Environment), settings.env.entries.Perm env.entries →
      ∀ file mode block, invocationFor { settings with env } file mode block =
        settings.invocationFor file mode block) ∧
    (∀ (settings : Settings) file mode block invocation,
      settings.invocationFor file mode block = .ok invocation →
      invocation.env.Perm settings.env.entries ∧
        invocation.env.Pairwise fun entry next => entry.1 < next.1) ∧
    ∀ (settings : Settings) file block,
      (∃ run debug, settings.invocationFor file .run block = .ok run ∧
        settings.invocationFor file .debug block = .ok debug ∧
        settings.DifferInLauncher file (block.map fun held => held.1.pattern held.2) run debug) ∨
      ∃ outline id, block = some (outline, id) ∧ outline.get? id = none ∧
        ∀ mode, settings.invocationFor file mode block = .error .noBlock := by
  refine ⟨?_, ?_, ?_⟩
  · intro settings env hperm file mode block
    cases block with
    | none => rw [invocationFor, launchFile_of_perm hperm, invocationFor]
    | some block => rw [invocationFor_block, launchFile_of_perm hperm, invocationFor_block]
  · intro settings file mode block invocation h
    rw [env_of_invocationFor h]
    exact ⟨settings.env.sorted_perm, settings.env.pairwise_sorted⟩
  · intro settings file block
    have hfile := settings.differInLauncher_launchFile file
    cases block with
    | none => exact .inl ⟨_, _, rfl, rfl, hfile⟩
    | some block =>
      obtain ⟨outline, id⟩ := block
      cases hget : outline.get? id with
      | none =>
        refine .inr ⟨outline, id, rfl, hget, fun mode => ?_⟩
        rw [invocationFor_block, hget]
        rfl
      | some held =>
        refine .inl ⟨_, _, ?_, ?_, hfile.narrow (outline.pattern id)⟩
        · rw [invocationFor_block, hget]
          rfl
        · rw [invocationFor_block, hget]
          rfl

def twoVariables : Settings where
  env := .ofList [("TZ", "UTC"), ("NODE_ENV", "test")]

theorem invocationFor_twoVariables :
    ∃ invocation,
      twoVariables.env.entries.Perm
        (Environment.ofList [("NODE_ENV", "test"), ("TZ", "UTC")]).entries ∧
      invocationFor { twoVariables with
          env := .ofList [("NODE_ENV", "test"), ("TZ", "UTC")] } ⟨"/w/a.js"⟩ .debug
        (some (.ofSource "it('a')", 0)) = .ok invocation ∧
      twoVariables.invocationFor ⟨"/w/a.js"⟩ .debug (some (.ofSource "it('a')", 0)) =
        .ok invocation ∧
      invocation.env.Perm [("TZ", "UTC"), ("NODE_ENV", "test")] ∧
      invocation.env.Pairwise fun entry next => entry.1 < next.1 := by
  have hperm : twoVariables.env.entries.Perm
      (Environment.ofList [("NODE_ENV", "test"), ("TZ", "UTC")]).entries := by
    decide
  obtain ⟨invocation, hinvocation⟩ : ∃ invocation, twoVariables.invocationFor ⟨"/w/a.js"⟩ .debug
      (some (.ofSource "it('a')", 0)) = .ok invocation :=
    ⟨_, rfl⟩
  have hsame := invocationFor_modes.1 _ _ hperm ⟨"/w/a.js"⟩ .debug (some (.ofSource "it('a')", 0))
  obtain ⟨henv, hsorted⟩ := invocationFor_modes.2.1 _ _ _ _ _ hinvocation
  exact ⟨invocation, hperm, hsame.trans hinvocation, hinvocation, henv, hsorted⟩

end Settings

end TestOutline
