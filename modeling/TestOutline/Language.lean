import TestOutline.Settings.Basic

/-!
The language of a file, which its extension tells, and the recognition of test files.
-/

namespace TestOutline

inductive Language where
  | javaScript
  | typeScript
  | unknown
deriving DecidableEq, Repr

namespace Language

def name : Language → String
  | javaScript => "JavaScript"
  | typeScript => "TypeScript"
  | unknown => "Unknown"

def tag : Language → String
  | javaScript => "java_script"
  | typeScript => "type_script"
  | unknown => "unknown"

def ofExtension (extension : String) : Language :=
  if extension ∈ ["js", "mjs", "cjs", "jsx"] then javaScript
  else if extension ∈ ["ts", "mts", "cts", "tsx"] then typeScript
  else unknown

def ofPath (path : Path) : Language :=
  match path.extension? with
  | some extension => ofExtension extension
  | none => unknown

end Language

namespace Settings

def testDirectories : List String :=
  ["test", "tests", "__tests__"]

def inTestDirectory (path : Path) : Bool :=
  match path.parent? with
  | some directory => directory.names.any (· ∈ testDirectories)
  | none => false

/-- A test file has a name with one of the given endings, or is written in a known language and lies
in a directory for tests. -/
def isTestFile (settings : Settings) (path : Path) : Bool :=
  let name := path.fileName?.getD ""
  settings.testFilePatterns.any (·.toList.isSuffixOf name.toList) ||
    (Language.ofPath path ≠ .unknown && inTestDirectory path)

def describeFile (settings : Settings) (path : Path) : String :=
  let language := Language.ofPath path
  if settings.isTestFile path then language.name ++ " test file"
  else if language = .unknown then "Unrecognized file"
  else language.name ++ " file (not matched as a test file)"

end Settings

end TestOutline
