import TestOutline.Path

/-!
Settings: how test files are recognised and how the test runner is started for them.
-/

namespace TestOutline

/-- Variables with their values. Each variable stands once, in the order of first mention. -/
structure Environment where
  entries : List (String × String) := []
  nodup : (entries.map (·.1)).Nodup := by exact List.nodup_nil

namespace Environment

def value? (environment : Environment) (name : String) : Option String :=
  environment.entries.lookup name

def assign (name value : String) : List (String × String) → List (String × String)
  | [] => [(name, value)]
  | entry :: entries =>
    if entry.1 = name then (name, value) :: entries else entry :: assign name value entries

theorem mem_keys_assign {name value other : String} {entries : List (String × String)} :
    other ∈ (assign name value entries).map (·.1) ↔ other = name ∨ other ∈ entries.map (·.1) := by
  induction entries with
  | nil => simp [assign]
  | cons entry entries ih =>
    by_cases h : entry.1 = name
    · simp [assign, h]
    · rw [assign, if_neg h, List.map_cons, List.mem_cons, ih, List.map_cons, List.mem_cons]
      exact or_left_comm

theorem nodup_assign {name value : String} {entries : List (String × String)}
    (h : (entries.map (·.1)).Nodup) : ((assign name value entries).map (·.1)).Nodup := by
  induction entries with
  | nil => simp [assign]
  | cons entry entries ih =>
    rw [List.map_cons, List.nodup_cons] at h
    by_cases he : entry.1 = name
    · simpa [assign, he] using ⟨by simpa [he] using h.1, h.2⟩
    · rw [assign, if_neg he, List.map_cons, List.nodup_cons, mem_keys_assign]
      exact ⟨fun hm => hm.elim he h.1, ih h.2⟩

theorem lookup_assign (name value other : String) (entries : List (String × String)) :
    (assign name value entries).lookup other =
      if other = name then some value else entries.lookup other := by
  induction entries with
  | nil => by_cases h : other = name <;> simp [assign, h]
  | cons entry entries ih =>
    obtain ⟨key, old⟩ := entry
    by_cases hk : key = name
    · subst hk
      by_cases h : other = key
      · simp [assign, h]
      · have hb : (other == key) = false := by simpa using h
        simp [assign, List.lookup_cons, h, hb]
    · by_cases h : other = key
      · subst h
        simp [assign, hk]
      · have hb : (other == key) = false := by simpa using h
        simp only [assign, if_neg hk, List.lookup_cons, hb, ih]

def insert (environment : Environment) (name value : String) : Environment :=
  ⟨assign name value environment.entries, nodup_assign environment.nodup⟩

theorem value?_insert (environment : Environment) (name value other : String) :
    (environment.insert name value).value? other =
      if other = name then some value else environment.value? other :=
  lookup_assign name value other environment.entries

/-- The environment in which the last value given to a variable counts. -/
def ofList (entries : List (String × String)) : Environment :=
  entries.foldl (fun environment entry => environment.insert entry.1 entry.2) {}

def sorted (environment : Environment) : List (String × String) :=
  environment.entries.mergeSort fun a b => a.1 ≤ b.1

theorem sorted_perm (environment : Environment) :
    environment.sorted.Perm environment.entries :=
  List.mergeSort_perm ..

end Environment

structure Settings where
  /-- The program that runs tests, relative to the root unless it is absolute. -/
  mochaPath : String := "node_modules/.bin/mocha"
  /-- The interpreter that starts the test runner; without one it is started by itself. -/
  nodePath : Option String := none
  mochaArgs : List String := []
  env : Environment := {}
  debugPort : UInt16 := 9229
  testFilePatterns : List String := [".test.js", ".spec.js", ".test.ts", ".spec.ts"]
  root : Option Path := none

namespace Settings

/-- The test runner's program: a relative path with a slash starts from the root. -/
def runnerPath (settings : Settings) : String :=
  match settings.root with
  | some root =>
    if (Path.mk settings.mochaPath).isAbsolute || '/' ∉ settings.mochaPath.toList then
      settings.mochaPath
    else (root.join ⟨settings.mochaPath⟩).text
  | none => settings.mochaPath

def agrees (settings other : Settings) : Bool :=
  settings.mochaPath = other.mochaPath && settings.nodePath = other.nodePath &&
    settings.mochaArgs = other.mochaArgs && settings.env.entries = other.env.entries &&
    settings.debugPort = other.debugPort &&
    settings.testFilePatterns = other.testFilePatterns &&
    match settings.root, other.root with
    | some root, some otherRoot => root.sameWay otherRoot
    | none, none => true
    | _, _ => false

end Settings

end TestOutline
