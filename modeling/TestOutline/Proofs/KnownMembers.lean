import Mathlib.Data.List.Count
import TestOutline.Proofs.Launching
import TestOutline.Proofs.SavedSettings
import TestOutline.Proofs.WrittenJson

/-! Settings from the members that count. An object may give every field once, in any order and
among any other members; what it does not give has its default. An array gives the first fields by
their place. However such a file is laid out and spelled, loading it gives these settings. -/

namespace TestOutline

theorem Environment.value?_foldl_insert (entries : List (String × String))
    (environment : Environment) (name : String) :
    (entries.foldl (fun environment entry => environment.insert entry.1 entry.2)
      environment).value? name = (entries.reverse.lookup name).or (environment.value? name) := by
  induction entries generalizing environment with
  | nil => rfl
  | cons entry entries ih =>
    obtain ⟨key, value⟩ := entry
    rw [List.foldl_cons, ih, value?_insert, List.reverse_cons, List.lookup_append, Option.or_assoc]
    congr 1
    by_cases hname : name = key
    · simp [hname]
    · have hne : (name == key) = false := by simpa using hname
      simp [List.lookup_cons, hname, hne]

theorem Environment.value?_ofList (entries : List (String × String)) (name : String) :
    (ofList entries).value? name = entries.reverse.lookup name := by
  rw [ofList, value?_foldl_insert]
  exact Option.or_none

namespace Settings

/-- A field that a file may give, with a value of its type. A variable may have several values. -/
inductive Field where
  | mochaPath (path : String)
  | nodePath (path : Option String)
  | mochaArgs (args : List String)
  | env (entries : List (String × String))
  | debugPort (port : UInt16)
  | testFilePatterns (patterns : List String)

namespace Field

def name : Field → String
  | mochaPath _ => "mocha_path"
  | nodePath _ => "node_path"
  | mochaArgs _ => "mocha_args"
  | env _ => "env"
  | debugPort _ => "debug_port"
  | testFilePatterns _ => "test_file_patterns"

def value : Field → Json
  | mochaPath path => .text path
  | nodePath none => .null
  | nodePath (some path) => .text path
  | mochaArgs args => .texts args
  | env entries => .record (entries.map fun entry => (entry.1, .text entry.2))
  | debugPort port => .natural port.toNat
  | testFilePatterns patterns => .texts patterns

def member (field : Field) : String × Json :=
  (field.name, field.value)

def defaults : List Field :=
  [mochaPath "node_modules/.bin/mocha", nodePath none, mochaArgs [], env [], debugPort 9229,
    testFilePatterns [".test.js", ".spec.js", ".test.ts", ".spec.ts"]]

end Field

def Has (settings : Settings) : Field → Prop
  | .mochaPath path => settings.mochaPath = path
  | .nodePath path => settings.nodePath = path
  | .mochaArgs args => settings.mochaArgs = args
  | .env entries => ∀ name, settings.env.value? name = entries.reverse.lookup name
  | .debugPort port => settings.debugPort = port
  | .testFilePatterns patterns => settings.testFilePatterns = patterns

/-- The settings that some fields make up: those that are not among them have their defaults. -/
structure HasFields (settings : Settings) (fields : List Field) : Prop where
  given : ∀ field ∈ fields, settings.Has field
  missing : ∀ field ∈ Field.defaults, field.name ∉ fields.map Field.name → settings.Has field

end Settings

namespace Json

variable {α : Type} {members : List (String × Json)} {key : String} {absent : Option α}
  {read : Json → Option α}

theorem eq_map_of_namedMembers? {members : List (Option String × Json)}
    {named : List (String × Json)} (h : namedMembers? members = some named) :
    members = named.map fun member => (some member.1, member.2) := by
  induction members generalizing named with
  | nil =>
    cases h
    rfl
  | cons member members ih =>
    obtain ⟨key, value⟩ := member
    rw [namedMembers?, List.mapM_cons] at h
    cases key with
    | none => simp at h
    | some key =>
      obtain ⟨rest, hrest, rfl⟩ : ∃ rest, namedMembers? members = some rest ∧
          (key, value) :: rest = named := by
        simpa [namedMembers?, Option.bind_eq_some_iff] using h
      rw [List.map_cons, ← ih hrest]

theorem length_valuesOf (key : String) (members : List (String × Json)) :
    (valuesOf key members).length = (members.map (·.1)).count key := by
  rw [valuesOf, List.length_map, List.count_eq_length_filter, List.filter_map, List.length_map]
  rfl

theorem readMember?_of_repeated (h : 1 < (members.map (·.1)).count key) :
    readMember? members key absent read = none := by
  rw [← length_valuesOf] at h
  rw [readMember?]
  split
  · next hvalues => simp [hvalues] at h
  · next hvalues => simp [hvalues] at h
  · rfl

end Json

namespace Settings

variable {members : List (String × Json)} {fields : List Field} {key : String}

theorem valuesOf_known (h : members.filter (·.1 ∈ fieldNames) = fields.map Field.member)
    (hkey : key ∈ fieldNames) :
    Json.valuesOf key members = (fields.filter (·.name = key)).map Field.value := by
  have hfilter : members.filter (·.1 = key) = (fields.map Field.member).filter (·.1 = key) := by
    rw [← h, List.filter_filter]
    apply List.filter_congr
    intro member _
    by_cases hmember : member.1 = key <;> simp [hmember, hkey]
  rw [Json.valuesOf, hfilter, List.filter_map, List.map_map]
  rfl

theorem filter_name_cases (h : (fields.map Field.name).Nodup) (key : String) :
    key ∉ fields.map Field.name ∧ fields.filter (·.name = key) = [] ∨
      ∃ field ∈ fields, field.name = key ∧ fields.filter (·.name = key) = [field] := by
  cases hfilter : fields.filter (·.name = key) with
  | nil =>
    refine .inl ⟨fun hmem => ?_, rfl⟩
    obtain ⟨field, hfield, hname⟩ := List.mem_map.1 hmem
    exact absurd (decide_eq_true hname) (List.filter_eq_nil_iff.1 hfilter field hfield)
  | cons field rest =>
    have hmem (other : Field) (hother : other ∈ field :: rest) :
        other ∈ fields ∧ other.name = key := by
      rw [← hfilter, List.mem_filter] at hother
      exact ⟨hother.1, of_decide_eq_true hother.2⟩
    obtain ⟨hfield, hname⟩ := hmem field (List.mem_cons_self ..)
    refine .inr ⟨field, hfield, hname, ?_⟩
    have hnodup : ((field :: rest).map Field.name).Nodup := by
      rw [← hfilter]
      exact h.sublist (List.filter_sublist.map Field.name)
    rw [List.map_cons, List.nodup_cons] at hnodup
    cases rest with
    | nil => rfl
    | cons other rest =>
      have hother := (hmem other (by simp)).2
      exact absurd (by simp [hname, hother]) hnodup.1

theorem exists_readMember? {α β : Type} (key : String) (read : Json → Option α) (absent : α)
    (make : β → Field) (result : β → α)
    (hmake : ∀ field : Field, field.name = key ↔ ∃ given, make given = field)
    (hinjective : Function.Injective make)
    (hread : ∀ given, read (make given).value = some (result given))
    (hvalues : Json.valuesOf key members = (fields.filter (·.name = key)).map Field.value)
    (hnodup : (fields.map Field.name).Nodup) :
    ∃ value, Json.readMember? members key (some absent) read = some value ∧
      (∀ given, make given ∈ fields → value = result given) ∧
      (key ∉ fields.map Field.name → value = absent) := by
  rw [Json.readMember?, hvalues]
  rcases filter_name_cases hnodup key with ⟨hnot, hfilter⟩ | ⟨field, hfield, hname, hfilter⟩
  · rw [hfilter]
    refine ⟨absent, rfl, fun given hgiven => ?_, fun _ => rfl⟩
    exact absurd (List.mem_map.2 ⟨_, hgiven, (hmake _).2 ⟨given, rfl⟩⟩) hnot
  · obtain ⟨given, rfl⟩ := (hmake field).1 hname
    rw [hfilter]
    refine ⟨result given, hread given, fun other hother => ?_, fun hnot => ?_⟩
    · have hmem : make other ∈ fields.filter (·.name = key) :=
        List.mem_filter.2 ⟨hother, decide_eq_true ((hmake _).2 ⟨other, rfl⟩)⟩
      rw [hfilter, List.mem_singleton] at hmem
      rw [hinjective hmem]
    · exact absurd (List.mem_map.2 ⟨_, hfield, hname⟩) hnot

theorem nullable?_value_nodePath (path : Option String) :
    Json.nullable? Json.text? (Field.nodePath path).value = some path := by
  cases path <;> rfl

theorem ofJson?_value_env (entries : List (String × String)) :
    Environment.ofJson? (Field.env entries).value = some (.ofList entries) := by
  have hentries : (entries.map fun entry => (entry.1, Json.text entry.2)).mapM
      Environment.assignment? = some entries :=
    mapM_map_eq_some fun _ _ => rfl
  rw [Field.value, Json.record, Environment.ofJson?, Json.namedMembers?_record, Option.bind_some,
    hentries, Option.map_some]

theorem exists_ofMembers? (hknown : members.filter (·.1 ∈ fieldNames) = fields.map Field.member)
    (hnodup : (fields.map Field.name).Nodup) :
    ∃ settings, ofMembers? members = some settings ∧ settings.HasFields fields := by
  have hvalues {key : String} (hkey : key ∈ fieldNames) := valuesOf_known hknown hkey
  obtain ⟨mochaPath, hmocha, hmochaGiven, hmochaMissing⟩ :=
    exists_readMember? "mocha_path" Json.text? ({} : Settings).mochaPath Field.mochaPath id
      (fun field => by cases field <;> simp [Field.name]) (fun _ _ => Field.mochaPath.inj)
      (fun _ => rfl) (hvalues (by simp [fieldNames])) hnodup
  obtain ⟨nodePath, hnode, hnodeGiven, hnodeMissing⟩ :=
    exists_readMember? "node_path" (Json.nullable? Json.text?) ({} : Settings).nodePath
      Field.nodePath id (fun field => by cases field <;> simp [Field.name])
      (fun _ _ => Field.nodePath.inj)
      nullable?_value_nodePath (hvalues (by simp [fieldNames])) hnodup
  obtain ⟨mochaArgs, hargs, hargsGiven, hargsMissing⟩ :=
    exists_readMember? "mocha_args" Json.texts? ({} : Settings).mochaArgs Field.mochaArgs id
      (fun field => by cases field <;> simp [Field.name]) (fun _ _ => Field.mochaArgs.inj)
      Json.texts?_texts (hvalues (by simp [fieldNames])) hnodup
  obtain ⟨env, henv, henvGiven, henvMissing⟩ :=
    exists_readMember? "env" Environment.ofJson? ({} : Settings).env Field.env Environment.ofList
      (fun field => by cases field <;> simp [Field.name]) (fun _ _ => Field.env.inj)
      ofJson?_value_env (hvalues (by simp [fieldNames])) hnodup
  obtain ⟨port, hport, hportGiven, hportMissing⟩ :=
    exists_readMember? "debug_port" port? ({} : Settings).debugPort Field.debugPort id
      (fun field => by cases field <;> simp [Field.name]) (fun _ _ => Field.debugPort.inj)
      port?_natural (hvalues (by simp [fieldNames])) hnodup
  obtain ⟨patterns, hpatterns, hpatternsGiven, hpatternsMissing⟩ :=
    exists_readMember? "test_file_patterns" Json.texts? ({} : Settings).testFilePatterns
      Field.testFilePatterns id (fun field => by cases field <;> simp [Field.name])
      (fun _ _ => Field.testFilePatterns.inj)
      Json.texts?_texts (hvalues (by simp [fieldNames])) hnodup
  refine ⟨{ mochaPath, nodePath, mochaArgs, env, debugPort := port, testFilePatterns := patterns },
    ?_, ?_, ?_⟩
  · simp only [ofMembers?, hmocha, hnode, hargs, henv, hport, hpatterns]
    rfl
  · intro field hfield
    cases field with
    | mochaPath path => exact hmochaGiven path hfield
    | nodePath path => exact hnodeGiven path hfield
    | mochaArgs args => exact hargsGiven args hfield
    | env entries =>
      intro name
      rw [henvGiven entries hfield, Environment.value?_ofList]
    | debugPort port => exact hportGiven port hfield
    | testFilePatterns patterns => exact hpatternsGiven patterns hfield
  · simp only [Field.defaults, List.forall_mem_cons, List.not_mem_nil, false_imp_iff, implies_true,
      and_true]
    refine ⟨hmochaMissing, hnodeMissing, hargsMissing, fun h name => ?_, hportMissing,
      hpatternsMissing⟩
    rw [henvMissing h]
    rfl

theorem ofMembers?_of_repeated (hkey : key ∈ fieldNames) (h : 1 < (members.map (·.1)).count key) :
    ofMembers? members = none := by
  have hnone {α : Type} (absent : Option α) (read : Json → Option α) :
      Json.readMember? members key absent read = none :=
    Json.readMember?_of_repeated h
  simp only [fieldNames, List.mem_cons, List.not_mem_nil, or_false] at hkey
  rcases hkey with rfl | rfl | rfl | rfl | rfl | rfl <;> simp [ofMembers?, hnone]

theorem ofJson?_of_repeated {members : List (Option String × Json)} (hkey : key ∈ fieldNames)
    (h : 1 < (members.map (·.1)).count (some key)) : ofJson? (.object members) = none := by
  rw [ofJson?]
  cases hnamed : Json.namedMembers? members with
  | none => rfl
  | some named =>
    have hmembers := Json.eq_map_of_namedMembers? hnamed
    have hkeys : members.map (·.1) = (named.map (·.1)).map some := by simp [hmembers]
    rw [hkeys, List.count_map_of_injective _ _ (Option.some_injective String)] at h
    exact ofMembers?_of_repeated hkey h

theorem ofJson?_record (members : List (String × Json)) :
    ofJson? (.record members) = ofMembers? members := by
  rw [Json.record, ofJson?, Json.namedMembers?_record, Option.bind_some]

theorem ofJson?_array (h : fields.map Field.name <+: fieldNames) :
    ofJson? (.array (fields.map Field.value)) = ofJson? (.record (fields.map Field.member)) := by
  have hlength : (fields.map Field.value).length ≤ fieldNames.length := by
    simpa using h.length_le
  obtain ⟨rest, hrest⟩ := h
  have hzip : fieldNames.zip (fields.map Field.value) = fields.map Field.member := by
    rw [← hrest, ← List.append_nil (fields.map Field.value), List.zip_append (by simp),
      List.zip_nil_right, List.append_nil, List.zip_map']
    rfl
  rw [ofJson?_record, ofJson?, if_pos hlength, hzip]

variable {workspace : Workspace} {path : Path} {text : String} {settings : Settings}

theorem has_withRoot {root : Option Path} {field : Field} :
    Has { settings with root } field ↔ settings.Has field := by
  cases field <;> rfl

theorem HasFields.withRoot (h : settings.HasFields fields) (root : Option Path) :
    HasFields { settings with root } fields where
  given field hfield := has_withRoot.2 (h.given field hfield)
  missing field hfield hname := has_withRoot.2 (h.missing field hfield hname)

theorem load_of_parse?_eq_none (hread : workspace.read path = .ok text)
    (hparse : parse? text = none) : load workspace path = .error (.settings path) := by
  simp [load, hread, hparse, bind, Except.bind]

theorem parse?_of_writes {value : Json} (h : value.Writes text) : parse? text = ofJson? value := by
  rw [parse?, h.parse?, Option.bind_some]

/-- A settings file is loaded for what its known members say, or the values at their places, in
whatever way the file is written. Other members do not matter, and a known one must not stand
twice. -/
theorem load_written (hread : workspace.read path = .ok text) :
    (∀ members fields, Json.Writes (.record members) text →
      members.filter (·.1 ∈ fieldNames) = fields.map Field.member →
      (fields.map Field.name).Nodup →
      ∃ settings, load workspace path = .ok settings ∧ settings.HasFields fields ∧
        settings.root = path.parent?) ∧
    (∀ members key, Json.Writes (.object members) text → key ∈ fieldNames →
      1 < (members.map (·.1)).count (some key) →
      load workspace path = .error (.settings path)) ∧
    (∀ fields, Json.Writes (.array (fields.map Field.value)) text →
      fields.map Field.name <+: fieldNames →
      ∃ settings, load workspace path = .ok settings ∧ settings.HasFields fields ∧
        settings.root = path.parent? ∧
        ∀ (other : Workspace) (objectText : String), other.read path = .ok objectText →
          Json.Writes (.record (fields.map Field.member)) objectText →
          load other path = .ok settings) := by
  refine ⟨fun members fields htext hknown hnodup => ?_, fun members key htext hkey htwice => ?_,
    fun fields htext hplaces => ?_⟩
  · obtain ⟨settings, hsettings, hfields⟩ := exists_ofMembers? hknown hnodup
    have hparse := parse?_of_writes htext
    rw [ofJson?_record, hsettings] at hparse
    exact ⟨_, load_of_parse? hread hparse, hfields.withRoot path.parent?, rfl⟩
  · have hparse := parse?_of_writes htext
    rw [ofJson?_of_repeated hkey htwice] at hparse
    exact load_of_parse?_eq_none hread hparse
  · have hnodup : (fields.map Field.name).Nodup := by
      have hnames : fieldNames.Nodup := by decide
      exact hnames.sublist hplaces.sublist
    have hknown :
        (fields.map Field.member).filter (·.1 ∈ fieldNames) = fields.map Field.member := by
      rw [List.filter_eq_self]
      intro member hmember
      obtain ⟨field, hfield, rfl⟩ := List.mem_map.1 hmember
      exact decide_eq_true (hplaces.subset (List.mem_map.2 ⟨field, hfield, rfl⟩))
    obtain ⟨settings, hsettings, hfields⟩ := exists_ofMembers? hknown hnodup
    have hparse := parse?_of_writes htext
    rw [ofJson?_array hplaces, ofJson?_record, hsettings] at hparse
    refine ⟨_, load_of_parse? hread hparse, hfields.withRoot path.parent?, rfl, ?_⟩
    intro other objectText hother hobject
    have hsame := parse?_of_writes hobject
    rw [ofJson?_record, hsettings] at hsame
    exact load_of_parse? hother hsame

def crowdedText : String :=
  "\x7b\"x\" :[\x7b\"env\":\"\\ud800\"\x7d],\n\"debug\\u005Fport\":80,\"x\":null\x7d"

def crowdedMembers : List (String × Json) :=
  [("x", .array [.object [(some "env", .string none)]]), ("debug_port", .number "80"),
    ("x", .null)]

theorem writes_crowdedText : Json.Writes (.record crowdedMembers) crowdedText := by
  have hempty : ∀ c ∈ ([] : List Char), Json.Token.isSpace c = true := by simp
  have hspace : ∀ c ∈ [' '], Json.Token.isSpace c = true := by simp [Json.Token.isSpace]
  have hfeed : ∀ c ∈ ['\n'], Json.Token.isSpace c = true := by simp [Json.Token.isSpace]
  have hx : Json.WritesLiteral (some "x") ['x'] := .text (Json.forall₂_spells_itself (by decide))
  have henv : Json.WritesLiteral (some "env") ['e', 'n', 'v'] :=
    .text (Json.forall₂_spells_itself (by decide))
  have hhalf := @Json.WritesPoint.codePoint ['d', '8', '0', '0'] (by decide) rfl
  have hlone : Json.WritesLiteral none ['\\', 'u', 'd', '8', '0', '0'] :=
    .none_of_characters? (.cons hhalf .nil) (by decide)
  have hunderscore : Json.WritesPoint '_'.toNat ['\\', 'u', '0', '0', '5', 'F'] :=
    @Json.WritesPoint.codePoint ['0', '0', '5', 'F'] (by decide) rfl
  have hdebug := @Json.forall₂_spells_itself "debug".toList (by decide)
  have hport := @Json.forall₂_spells_itself "port".toList (by decide)
  have hkey : Json.WritesLiteral (some "debug_port") "debug\\u005Fport".toList :=
    @Json.WritesLiteral.text "debug_port" _
      (List.rel_append hdebug (.cons (.point hunderscore) hport))
  have hwhole : Json.Token.Whole ['8', '0'] :=
    .positive (by decide) (by decide) (by simp [Json.Token.isDigit])
  have hnumber : Json.Token.Number "80".toList :=
    @Json.Token.Number.parts [] ['8', '0'] [] [] (by simp) hwhole .none .none
  exact .cons hempty .openObject <| .cons hempty (.literal hx) <| .cons hspace .colon <|
    .cons hempty .openArray <| .cons hempty .openObject <| .cons hempty (.literal henv) <|
    .cons hempty .colon <| .cons hempty (.literal hlone) <| .cons hempty .closeObject <|
    .cons hempty .closeArray <| .cons hempty .comma <| .cons hfeed (.literal hkey) <|
    .cons hempty .colon <| .cons hempty (.number hnumber) <| .cons hempty .comma <|
    .cons hempty (.literal hx) <| .cons hempty .colon <| .cons hempty .null <|
    .cons hempty .closeObject <| .nil hempty

theorem load_crowdedText :
    (Workspace.project [] crowdedText).read ⟨"w/.mocha-lens.json"⟩ = .ok crowdedText ∧
      Json.Writes (.record crowdedMembers) crowdedText ∧
      crowdedMembers.filter (·.1 ∈ fieldNames) = [Field.debugPort 80].map Field.member ∧
      ([Field.debugPort 80].map Field.name).Nodup ∧
      ∃ settings, load (.project [] crowdedText) ⟨"w/.mocha-lens.json"⟩ = .ok settings ∧
        settings.debugPort = 80 ∧ settings.nodePath = none ∧ settings.root = some ⟨"w"⟩ := by
  have hread : (Workspace.project [] crowdedText).read ⟨"w/.mocha-lens.json"⟩ =
      .ok crowdedText := by rfl
  have hknown : crowdedMembers.filter (·.1 ∈ fieldNames) =
      [Field.debugPort 80].map Field.member := by rfl
  have hnodup : ([Field.debugPort 80].map Field.name).Nodup := by decide
  obtain ⟨settings, hload, hfields, hroot⟩ :=
    (load_written hread).1 crowdedMembers [.debugPort 80] writes_crowdedText hknown hnodup
  exact ⟨hread, writes_crowdedText, hknown, hnodup, settings, hload,
    hfields.given (.debugPort 80) (by simp),
    hfields.missing (.nodePath none) (by simp [Field.defaults]) (by simp [Field.name]), hroot⟩

end Settings

end TestOutline
