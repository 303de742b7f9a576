import TestOutline.CommandLine.Run
import TestOutline.Proofs.Lenses
import TestOutline.Proofs.Writing

/-! What is launched for a file or for a line of it. The words of the invocation are those that
start the test runner, then the configured arguments, then the file, and then the pattern if there
is one. The command line finds the file and the settings for it, and prints that invocation. -/

namespace TestOutline

def Workspace.project (here : Location) (settings : String := "\x7b\x7d") : Workspace where
  tree := ⟨fun place => List.lookup place
    [([], .directory), (["w"], .directory), ([".mocha-lens.json", "w"], .file (some settings)),
      (["test", "w"], .directory), (["a.js", "test", "w"], .file (some "it('a')\n"))]⟩
  here := here

section

variable {settings : Settings} {workspace : Workspace} {file : Path} {line : Option UInt32}
  {mode : Mode} {invocation : Invocation}

/-- The words in front of the file: the program, the test runner if it is not the program, what a
debug run needs, and the configured arguments. -/
def Settings.wordsBefore (settings : Settings) (mode : Mode) (runner : String) : List String :=
  (match mode, settings.nodePath with
    | .run, none => [runner]
    | .run, some node => [node, runner]
    | .debug, node =>
      [node.getD "node", "--inspect-brk=" ++ toString settings.debugPort.toNat, runner,
        "--no-timeouts"]) ++ settings.mochaArgs

theorem Settings.of_load {path : Path} (h : load workspace path = .ok settings) :
    (∃ text, workspace.read path = .ok text) ∧ settings.root = path.parent? := by
  rw [load, bind_eq_ok_iff] at h
  obtain ⟨text, htext, h⟩ := h
  refine ⟨⟨text, Fault.ofFile_eq_ok_iff.1 htext⟩, ?_⟩
  split at h
  · rw [← Except.ok.inj h]
  · simp at h

theorem Settings.words_launchFile : (settings.launchFile file mode).program ::
    (settings.launchFile file mode).args =
      settings.wordsBefore mode settings.runnerPath ++ [(settings.fileArgument file).text] := by
  cases mode with
  | run => cases hnode : settings.nodePath <;> simp [wordsBefore, launchFile, launcher, hnode]
  | debug => simp [wordsBefore, launchFile, launcher]

theorem Settings.launchFile_or_narrow
    (h : settings.launch workspace file line mode = .ok invocation) :
    invocation = settings.launchFile file mode ∨
      ∃ pattern, invocation = (settings.launchFile file mode).narrow pattern := by
  cases line with
  | none => exact .inl (Except.ok.inj h).symm
  | some line =>
    obtain ⟨lines, hlines, -⟩ := bind_eq_ok_iff.1 h
    rw [launch_eq hlines] at h
    split at h
    · next block hcursor =>
      have hblock := Outline.mem_of_innermost? hcursor
      rw [launchBlock_of_mem (Outline.nested_ofLines lines) hblock] at h
      exact .inr ⟨_, (Except.ok.inj h).symm⟩
    · exact .inl (Except.ok.inj h).symm

theorem Settings.narrow_of_launchBlock {outline : Outline} {id : Nat}
    (h : settings.launchBlock file outline id mode = .ok invocation) :
    invocation = (settings.launchFile file mode).narrow (outline.pattern id) := by
  rw [launchBlock] at h
  split at h
  · exact (Except.ok.inj h).symm
  · simp at h

theorem Settings.words_of_launchFile_or_narrow (h : invocation = settings.launchFile file mode ∨
      ∃ pattern, invocation = (settings.launchFile file mode).narrow pattern) :
    ∃ behind, (behind = [] ∨ ∃ pattern, behind = ["--grep", pattern]) ∧
      invocation.program :: invocation.args = settings.wordsBefore mode settings.runnerPath ++
        (settings.fileArgument file).text :: behind := by
  have hwords := @words_launchFile settings file mode
  rcases h with rfl | ⟨pattern, rfl⟩
  · exact ⟨[], .inl rfl, hwords⟩
  · refine ⟨["--grep", pattern], .inr ⟨pattern, rfl⟩, ?_⟩
    rw [Invocation.args_narrow, ← List.cons_append]
    exact (congrArg (· ++ ["--grep", pattern]) hwords).trans (List.append_assoc ..)

theorem Settings.words_of_launch
    (h : settings.launch workspace file line mode = .ok invocation) :
    ∃ behind, (behind = [] ∨ ∃ pattern, behind = ["--grep", pattern]) ∧
      invocation.program :: invocation.args = settings.wordsBefore mode settings.runnerPath ++
        (settings.fileArgument file).text :: behind :=
  words_of_launchFile_or_narrow (launchFile_or_narrow h)

theorem Settings.workingDirectory_of_launchFile_or_narrow
    (h : invocation = settings.launchFile file mode ∨
      ∃ pattern, invocation = (settings.launchFile file mode).narrow pattern) :
    invocation.workingDirectory = (settings.workingDirectory file).map (·.text) := by
  rcases h with rfl | ⟨pattern, rfl⟩
  · rfl
  · rfl

theorem Settings.workingDirectory_of_launch
    (h : settings.launch workspace file line mode = .ok invocation) :
    invocation.workingDirectory = (settings.workingDirectory file).map (·.text) :=
  workingDirectory_of_launchFile_or_narrow (launchFile_or_narrow h)

theorem Settings.exists_launch (h : line = none ∨ ∃ text, workspace.read file = .ok text) :
    ∃ invocation, settings.launch workspace file line mode = .ok invocation := by
  cases line with
  | none => exact ⟨_, rfl⟩
  | some line =>
    obtain ⟨text, htext⟩ := h.resolve_left (by simp)
    have hlines : workspace.sourceLines file =
        .ok (Text.lines (dropByteOrderMark text.toList)) := by
      rw [Workspace.sourceLines, htext]
      rfl
    rw [launch_eq hlines]
    split
    · next block hcursor =>
      exact ⟨_, launchBlock_of_mem (Outline.nested_ofLines _) (Outline.mem_of_innermost? hcursor) _⟩
    · exact ⟨_, rfl⟩

end

namespace CommandLine

variable {workspace : Workspace} {argument : String} {debug json : Bool}

def modeOf (debug : Bool) : Mode :=
  if debug then .debug else .run

def invocationLines (json : Bool) (invocation : Invocation) : List String :=
  if json then [invocation.toJson.pretty]
  else invocation.shellLine ::
    (invocation.workingDirectory.map ("Working directory: " ++ ·)).toList

theorem run_command : (run workspace (.command argument debug json)).1 =
    command workspace argument debug json := by
  simp only [run]

theorem resolve_eq_ok_iff {path : String} {file : Path} : resolve workspace path = .ok file ↔
    workspace.absolute ⟨path⟩ = file ∧ workspace.contains file = true := by
  rw [resolve]
  split
  · next h =>
    rw [Except.ok.injEq]
    exact ⟨fun heq => ⟨heq, heq ▸ h⟩, fun heq => heq.1⟩
  · next h =>
    simp only [reduceCtorEq, false_iff, not_and]
    rintro rfl
    exact h

theorem lift_eq_ok_iff {α : Type} {result : Except Fault α} {value : α} :
    lift result = .ok value ↔ result = .ok value := by
  cases result <;> simp [lift, Except.mapError]

theorem exists_of_exitCode_ofResult {result : Except Failure Outcome}
    (h : (Outcome.ofResult result).exitCode = 0) : ∃ outcome, result = .ok outcome := by
  cases result with
  | error failure => simp [Outcome.ofResult, Outcome.exitCode] at h
  | ok outcome => exact ⟨outcome, rfl⟩

theorem command_eq_print {file : Path} {settings : Settings} {invocation : Invocation}
    (hfile : resolve workspace (Target.ofArgument argument).path = .ok file)
    (hsettings : Settings.nearest workspace file = .ok settings)
    (hlaunch : settings.launch workspace file (Target.ofArgument argument).line (modeOf debug) =
      .ok invocation) :
    command workspace argument debug json = .print (invocationLines json invocation) := by
  rw [modeOf] at hlaunch
  simp only [command, hfile, hsettings, hlaunch, bind, Except.bind, lift, Except.mapError]
  cases json <;> rfl

theorem command_of_fault {file : Path} {fault : Fault}
    (hfile : resolve workspace (Target.ofArgument argument).path = .ok file)
    (hsettings : Settings.nearest workspace file = .error fault) :
    (command workspace argument debug json).exitCode = 1 ∧
      (command workspace argument debug json).output = "" := by
  simp only [command, hfile, hsettings, bind, Except.bind, lift, Except.mapError]
  exact ⟨rfl, rfl⟩

theorem exists_of_exitCode_command (h : (command workspace argument debug json).exitCode = 0) :
    ∃ file settings invocation,
      resolve workspace (Target.ofArgument argument).path = .ok file ∧
      Settings.nearest workspace file = .ok settings ∧
      settings.launch workspace file (Target.ofArgument argument).line (modeOf debug) =
        .ok invocation := by
  obtain ⟨outcome, houtcome⟩ := exists_of_exitCode_ofResult h
  obtain ⟨file, hfile, houtcome⟩ := bind_eq_ok_iff.1 houtcome
  obtain ⟨settings, hsettings, houtcome⟩ := bind_eq_ok_iff.1 houtcome
  obtain ⟨invocation, hlaunch, -⟩ := bind_eq_ok_iff.1 houtcome
  exact ⟨file, settings, invocation, hfile, lift_eq_ok_iff.1 hsettings, lift_eq_ok_iff.1 hlaunch⟩

end CommandLine

end TestOutline
