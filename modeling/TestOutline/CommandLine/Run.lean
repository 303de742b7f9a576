import TestOutline.CommandLine.Breakdown
import TestOutline.CommandLine.Grammar
import TestOutline.CommandLine.Outcome
import TestOutline.CommandLine.Target
import TestOutline.Inspection

/-!
Carrying out requests. All of them only read files, but for `init`, which writes a settings file.
-/

namespace TestOutline.CommandLine

def icon : Kind → String
  | .suite => "📦"
  | .testCase => "🧪"

/-- Two lines on a block, indented to its depth. Lines and columns are counted from one. -/
def describeBlock (block : Block) (depth : Nat) (pattern : String) : String :=
  let indent := String.join (List.replicate depth "  ")
  indent ++ icon block.kind ++ " " ++ block.kind.keyword ++ " '" ++ block.label ++ "' (line " ++
    toString (block.start.line + 1).toNat ++ ", col " ++
    toString (block.start.character + 1).toNat ++ ")\n" ++ indent ++ "   🔎 " ++ pattern

/-- The absolute path of a file or directory that is there. -/
def resolve (workspace : Workspace) (path : String) : Except Failure Path :=
  let file := workspace.absolute ⟨path⟩
  if workspace.contains file then .ok file
  else .error ⟨"File not found: " ++ file.text, []⟩

def lift {α : Type} (result : Except Fault α) : Except Failure α :=
  result.mapError Failure.ofFault

def shownLine (line : UInt32) : String :=
  toString (line + 1).toNat

/-- What is printed about a file before it is read. -/
def summaryHeader (settings : Settings) (file : Path) (target : Target) : List String :=
  ["🔍 Analyzing: " ++ target.path ++ (target.line.map (":" ++ shownLine ·)).getD "",
    .ofList (List.replicate 80 '='),
    "   📦 Type: " ++ settings.describeFile file,
    "\n📄 File-level command:"] ++
  breakdown (settings.launchFile file .run)

def summaryAt (settings : Settings) (workspace : Workspace) (file : Path) (outline : Outline)
    (line : UInt32) : Except Fault (List String) := do
  match ← workspace.blockAt? file line with
  | some block =>
    let invocation ← settings.launch workspace file (some line) .run
    .ok (["\n🎯 Block at line " ++ shownLine line ++ ":",
      describeBlock block 1 (outline.pattern block.id), "\n🚀 Command:"] ++ breakdown invocation)
  | none => .ok ["\n❌ No block at line " ++ shownLine line]

def summaryOfAll (outline : Outline) : List String :=
  ("\n✅ Found " ++ toString outline.size ++ " block(s): " ++ toString outline.suites.length ++
    " suite(s), " ++ toString outline.testCases.length ++ " test(s)") ::
  outline.toList.map fun block =>
    describeBlock block (outline.lineage block.id).length (outline.pattern block.id)

def summaryBody (settings : Settings) (workspace : Workspace) (file : Path) (target : Target) :
    Except Fault (List String) := do
  let outline ← workspace.outline file
  if outline.isEmpty then .ok ["\n❌ No describe/it blocks found"]
  else match target.line with
    | some line => summaryAt settings workspace file outline line
    | none => .ok (summaryOfAll outline)

def summary (settings : Settings) (workspace : Workspace) (file : Path) (target : Target) :
    Outcome :=
  let header := summaryHeader settings file target
  match summaryBody settings workspace file target with
  | .ok body => .print (header ++ body)
  | .error fault => .printThenFail header (.ofFault fault)

def analyze (workspace : Workspace) (argument : String) (verbose : Bool) : Outcome := .ofResult do
  let target := Target.ofArgument argument
  let file ← resolve workspace target.path
  let settings ← lift (Settings.nearest workspace file)
  if verbose then
    let analysis ← lift (settings.analyse workspace file)
    .ok (.print [analysis.toJson.pretty])
  else .ok (summary settings workspace file target)

def pattern (workspace : Workspace) (argument : String) : Outcome := .ofResult do
  let target := Target.ofArgument argument
  match target.line with
  | none => .error ⟨"A line number is required, e.g. " ++ target.path ++ ":10", []⟩
  | some line =>
    let file ← resolve workspace target.path
    let _ ← lift (Settings.nearest workspace file)
    match ← lift (workspace.patternAt? file line) with
    | some pattern => .ok (.print [pattern])
    | none =>
      .error ⟨"No describe/it block at " ++ target.path ++ ":" ++ shownLine line, []⟩

def command (workspace : Workspace) (argument : String) (debug json : Bool) : Outcome :=
  .ofResult do
    let target := Target.ofArgument argument
    let file ← resolve workspace target.path
    let settings ← lift (Settings.nearest workspace file)
    let mode := if debug then Mode.debug else Mode.run
    let invocation ← lift (settings.launch workspace file target.line mode)
    if json then .ok (.print [invocation.toJson.pretty])
    else .ok (.print (invocation.shellLine ::
      (invocation.workingDirectory.map ("Working directory: " ++ ·)).toList))

def init (workspace : Workspace) (directory : Option String) (force : Bool) :
    Outcome × Workspace :=
  let chosen := (directory.map Path.mk).getD workspace.here.path
  match workspace.canonical chosen with
  | .error error =>
    ({ failure := some ⟨"Failed to canonicalize project root", [error.message]⟩ }, workspace)
  | .ok root =>
    let file := root.join ⟨Settings.newFileName⟩
    if workspace.contains file && !force then
      (.print ["❌ Config already exists at: " ++ file.text, "   Use --force to overwrite"],
        workspace)
    else
      let start := "🚀 Initializing mocha-lens in: " ++ root.text
      match Settings.save {} workspace file with
      | .error fault =>
        (.printThenFail [start]
          ((Failure.ofFault fault).withContext ("Failed to write config to " ++ file.text)),
          workspace)
      | .ok written =>
        (.print [start, "✅ Created config: " ++ file.text,
          "\n📌 Set \x60node_path\x60 to launch mocha through a specific node binary,",
          "   and \x60mocha_args\x60 for flags such as --require or --timeout."],
          written)

def run (workspace : Workspace) : Request → Outcome × Workspace
  | .analyze target verbose => (analyze workspace target verbose, workspace)
  | .pattern target => (pattern workspace target, workspace)
  | .command target debug json => (command workspace target debug json, workspace)
  | .init directory force => init workspace directory force

end TestOutline.CommandLine
