import TestOutline.Language
import TestOutline.Launch
import TestOutline.Outline.Cursor
import TestOutline.Outline.Json
import TestOutline.Settings.Discovery

/-!
What an editor asks about a test file: its outline, the block at the cursor, the actions to offer at
every block, and the invocation that runs a block. Every question reads the file anew.
-/

namespace TestOutline
open Text

def dropByteOrderMark : List Char → List Char
  | '\uFEFF' :: text => text
  | text => text

namespace Workspace

def sourceLines (workspace : Workspace) (file : Path) : Except Fault (List (List Char)) := do
  let text ← Fault.ofFile (workspace.read file)
  .ok (lines (dropByteOrderMark text.toList))

def outline (workspace : Workspace) (file : Path) : Except Fault Outline := do
  .ok (.ofLines (← workspace.sourceLines file))

def blockAt? (workspace : Workspace) (file : Path) (line : UInt32) :
    Except Fault (Option Block) := do
  .ok (Outline.atCursor? (← workspace.sourceLines file) line)

def patternAt? (workspace : Workspace) (file : Path) (line : UInt32) :
    Except Fault (Option String) := do
  let lines ← workspace.sourceLines file
  .ok ((Outline.atCursor? lines line).map fun block => (Outline.ofLines lines).pattern block.id)

end Workspace

structure Lens where
  position : Position
  title : String
  mode : Mode
  pattern : String
deriving DecidableEq, Repr

namespace Lens

def verb : Mode → String
  | .run => "Run"
  | .debug => "Debug"

def noun : Kind → String
  | .suite => "suite"
  | .testCase => "test"

def ofBlock (outline : Outline) (block : Block) (mode : Mode) : Lens where
  position := block.start
  title := verb mode ++ " " ++ noun block.kind
  mode := mode
  pattern := outline.pattern block.id

end Lens

def Outline.lenses (outline : Outline) : List Lens :=
  outline.toList.flatMap fun block => [.ofBlock outline block .run, .ofBlock outline block .debug]

def Workspace.lenses (workspace : Workspace) (file : Path) : Except Fault (List Lens) := do
  .ok (← workspace.outline file).lenses

/-- The invocation for the block at the cursor; for the whole file if there is no cursor or no block
at it. -/
def Settings.launch (settings : Settings) (workspace : Workspace) (file : Path)
    (line : Option UInt32) (mode : Mode) : Except Fault Invocation :=
  match line with
  | none => .ok (settings.launchFile file mode)
  | some line => do
    let lines ← workspace.sourceLines file
    match Outline.atCursor? lines line with
    | some block => settings.launchBlock file (.ofLines lines) block.id mode
    | none => .ok (settings.launchFile file mode)

structure Analysis where
  file : Path
  language : Language
  isTestFile : Bool
  outline : Outline
  invocation : Invocation

def Settings.analyse (settings : Settings) (workspace : Workspace) (file : Path) :
    Except Fault Analysis := do
  let outline ← workspace.outline file
  .ok {
    file
    language := .ofPath file
    isTestFile := settings.isTestFile file
    outline
    invocation := settings.launchFile file .run
  }

def Analysis.toJson (analysis : Analysis) : Json :=
  .record [
    ("file_path", .text analysis.file.text),
    ("language", .text analysis.language.tag),
    ("is_test_file", .bool analysis.isTestFile),
    ("blocks", analysis.outline.toJsonWithPatterns),
    ("file_command", analysis.invocation.toJson)
  ]

end TestOutline
