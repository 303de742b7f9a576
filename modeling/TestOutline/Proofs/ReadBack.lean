import TestOutline.Proofs.Launching
import TestOutline.Proofs.SavedSettings

/-! What editors read. The JSON text about a file gives back its outline, the pattern of every
block, and the invocation for the file; the JSON text of an invocation gives back the invocation.
Members that are left out stand for what is empty. -/

namespace TestOutline

namespace Text

theorem length_linesOfPieces_le (pieces : List (List Char)) :
    (linesOfPieces pieces).length ≤ (['\n'].intercalate pieces).length := by
  fun_induction linesOfPieces pieces with
  | case1 => simp
  | case2 rest => simp
  | case3 rest hne =>
    have hpos := List.length_pos_of_ne_nil (by simpa using hne)
    simpa [Nat.succ_le_iff] using hpos
  | case4 line next more ih =>
    rw [List.intercalate_cons_cons, List.length_cons, List.append_assoc, List.length_append,
      List.singleton_append, List.length_cons]
    omega

theorem length_lines_le (text : List Char) : (lines text).length ≤ text.length := by
  have h := length_linesOfPieces_le (pieces '\n' text)
  rwa [intercalate_pieces] at h

theorem length_le_utf8ByteSize (text : List Char) :
    text.length ≤ (String.ofList text).utf8ByteSize := by
  induction text with
  | nil => simp
  | cons c text ih =>
    have hsplit : String.ofList (c :: text) = .singleton c ++ .ofList text := by simp
    have hpos := c.utf8Size_pos
    rw [hsplit, String.utf8ByteSize_append, String.utf8ByteSize_singleton, List.length_cons]
    omega

end Text

theorem length_dropByteOrderMark_le (text : List Char) :
    (dropByteOrderMark text).length ≤ text.length := by
  rw [dropByteOrderMark.eq_def]
  split <;> simp

namespace Json

def member? (key : String) : Json → Option Json
  | .object members => (namedMembers? members).bind (readMember? · key none some)
  | _ => none

theorem member?_record (key : String) (members : List (String × Json)) :
    (record members).member? key = readMember? members key none some := by
  rw [record, member?, namedMembers?_record, Option.bind_some]

def pair? (value : Json) : Option (String × String) :=
  match value.texts? with
  | some [first, second] => some (first, second)
  | _ => none

def pairs? (value : Json) : Option (List (String × String)) :=
  value.items?.bind (·.mapM pair?)

theorem pairs?_map (entries : List (String × String)) :
    (array (entries.map fun entry => texts [entry.1, entry.2])).pairs? = some entries := by
  rw [pairs?, items?, Option.bind_some]
  exact mapM_map_eq_some fun entry _ => by rw [pair?, texts?_texts]

theorem parse?_line {value : Json} (h : value.WellSpelled) :
    parse? (value.pretty ++ "\n") = some value := by
  have hends : Token.Ends ['\n'] := .cons rfl []
  have hscan := scan?_layOut 0 h hends
  rw [Token.scan?_of_isSpace rfl, Token.scan?, Option.map_some, List.append_nil] at hscan
  rw [parse?, pretty, String.toList_append, String.toList_ofList, Token.tokens?]
  exact (congrArg (Option.bind · ofTokens?) hscan).trans (ofTokens?_tokens value)

end Json

namespace Invocation

def ofMembers? (members : List (String × Json)) : Option Invocation := do
  return {
    program := ← Json.readMember? members "program" none Json.text?
    args := ← Json.readMember? members "args" none Json.texts?
    workingDirectory :=
      ← Json.readMember? members "working_dir" (some none) (Json.nullable? Json.text?)
    env := ← Json.readMember? members "env" (some []) Json.pairs?
    grep := ← Json.readMember? members "grep" (some none) (Json.nullable? Json.text?)
  }

def ofJson? : Json → Option Invocation
  | .object members => (Json.namedMembers? members).bind ofMembers?
  | _ => none

theorem ofJson?_toJson (invocation : Invocation) :
    ofJson? invocation.toJson = some invocation := by
  obtain ⟨program, args, workingDirectory, env, grep⟩ := invocation
  have henv := Json.pairs?_map env
  rw [toJson, Json.record, ofJson?, Json.namedMembers?_record, Option.bind_some]
  cases workingDirectory <;> cases env <;> cases grep <;>
    simp_all [ofMembers?, Json.readMember?, Json.valuesOf, Json.text, Json.text?, Json.nullable?,
      Json.texts?_texts]

theorem wellSpelled_toJson (invocation : Invocation) : invocation.toJson.WellSpelled := by
  apply Json.wellSpelled_record
  intro member hmember
  simp only [List.mem_append, List.mem_cons, List.not_mem_nil, or_false, Option.mem_toList,
    Option.map_eq_some_iff, List.mem_ite_nil_left] at hmember
  rcases hmember with (((rfl | rfl) | ⟨path, -, rfl⟩) | ⟨-, rfl⟩) | ⟨pattern, -, rfl⟩
  · exact Json.wellSpelled_text _
  · exact Json.wellSpelled_texts _
  · exact Json.wellSpelled_text _
  · rw [Json.WellSpelled]
    exact Json.wellSpelledItems_map fun entry _ => Json.wellSpelled_texts _
  · exact Json.wellSpelled_text _

end Invocation

theorem Position.position?_toJson (position : Position) :
    Json.position? position.toJson = some position := by
  have hline := Json.natural?_natural position.line.toNat_lt
  have hcharacter := Json.natural?_natural position.character.toNat_lt
  rw [toJson, Json.record, Json.position?, Json.recordMembers?, Json.namedMembers?_record,
    Option.bind_some]
  simp [ofMembers?, Json.readMember?, Json.valuesOf, coordinate?, UInt32.size, hline, hcharacter]

namespace Block

variable {block : Block}

theorem ofJson?_toJsonWithPattern (hid : block.id < idBound)
    (hparent : ∀ parent, block.parent = some parent → parent < idBound) (pattern : String) :
    ofJson? (block.toJsonWithPattern pattern) = some block := by
  obtain ⟨id, kind, label, start, qualifiedName, parent⟩ := block
  have hnumber := Json.natural?_natural hid
  rw [toJsonWithPattern, Json.record, ofJson?, Json.recordMembers?, Json.namedMembers?_record,
    Option.bind_some]
  cases parent with
  | none =>
    simp [ofMembers?, members, Json.readMember?, Json.valuesOf, id?, hnumber, Json.text, Json.text?,
      Json.kind?, Position.position?_toJson]
  | some parent =>
    have houter : Json.nullable? id? (.natural parent) = some (some parent) :=
      congrArg (Option.map some) (Json.natural?_natural (hparent parent rfl))
    simp [ofMembers?, members, Json.readMember?, Json.valuesOf, id?, hnumber, Json.text, Json.text?,
      Json.kind?, Position.position?_toJson, houter]

theorem member?_pattern (pattern : String) :
    (block.toJsonWithPattern pattern).member? "pattern" = some (.text pattern) := by
  rw [toJsonWithPattern, Json.member?_record]
  cases hparent : block.parent <;> simp [members, hparent, Json.readMember?, Json.valuesOf]

theorem wellSpelled_toJsonWithPattern (pattern : String) :
    (block.toJsonWithPattern pattern).WellSpelled := by
  have hstart : block.start.toJson.WellSpelled := by
    apply Json.wellSpelled_record
    simp [Json.wellSpelled_natural]
  apply Json.wellSpelled_record
  intro member hmember
  simp only [members, List.mem_append, List.mem_cons, List.not_mem_nil, or_false,
    Option.mem_toList, Option.map_eq_some_iff] at hmember
  rcases hmember with ((rfl | rfl | rfl | rfl | rfl) | ⟨parent, -, rfl⟩) | rfl
  · exact Json.wellSpelled_natural _
  · exact Json.wellSpelled_text _
  · exact Json.wellSpelled_text _
  · exact hstart
  · exact Json.wellSpelled_text _
  · exact Json.wellSpelled_natural _
  · exact Json.wellSpelled_text _

end Block

namespace Outline

variable {outline : Outline}

theorem size_ofLines_le (lines : List (List Char)) : (ofLines lines).size ≤ lines.length := by
  have hmap : (ofLines lines).toList.map (fun _ => ()) =
      lines.zipIdx.filterMap fun line => (Declaration.ofLine? line.1).map fun _ => () :=
    map_toList_ofLines _ _ fun _ _ _ _ => rfl
  have hlength := congrArg List.length hmap
  rw [List.length_map] at hlength
  calc (ofLines lines).size = (ofLines lines).toList.length := Array.length_toList.symm
    _ ≤ lines.zipIdx.length := hlength ▸ List.length_filterMap_le ..
    _ = lines.length := List.length_zipIdx

theorem ofJson?_of_mem (h : outline.Nested) (hsize : outline.size ≤ idBound) {block : Block}
    (hblock : block ∈ outline.toList) (pattern : String) :
    Block.ofJson? (block.toJsonWithPattern pattern) = some block := by
  have hget := h.get?_id hblock
  have hid := (lt_size_of_get? hget).trans_le hsize
  exact Block.ofJson?_toJsonWithPattern hid
    (fun parent hparent => (h.parent_lt hget hparent).trans hid) pattern

theorem ofJson?_toJsonWithPatterns (h : outline.Nested) (hsize : outline.size ≤ idBound) :
    ofJson? outline.toJsonWithPatterns = some outline := by
  rw [toJsonWithPatterns, ofJson?, Json.items?, Option.bind_some,
    mapM_map_eq_some fun block hblock => ofJson?_of_mem h hsize hblock _]
  rfl

theorem wellSpelled_toJsonWithPatterns (outline : Outline) :
    outline.toJsonWithPatterns.WellSpelled := by
  rw [toJsonWithPatterns, Json.WellSpelled]
  exact Json.wellSpelledItems_map fun block _ => block.wellSpelled_toJsonWithPattern _

end Outline

/-- A value that tells of a file: its path, its outline with the pattern of every block, and an
invocation. -/
structure Json.TellsOf (value : Json) (file : Path) (outline : Outline) (invocation : Invocation) :
    Prop where
  file : (value.member? "file_path").bind text? = some file.text
  blocks : (value.member? "blocks").bind Outline.ofJson? = some outline
  patterns : ∃ items, (value.member? "blocks").bind items? = some items ∧
    ∀ item ∈ items, ∃ block, Block.ofJson? item = some block ∧
      (item.member? "pattern").bind text? = some (outline.pattern block.id)
  invocation : (value.member? "file_command").bind Invocation.ofJson? = some invocation

namespace Analysis

theorem wellSpelled_toJson (analysis : Analysis) : analysis.toJson.WellSpelled := by
  apply Json.wellSpelled_record
  intro member hmember
  simp only [List.mem_cons, List.not_mem_nil, or_false] at hmember
  rcases hmember with rfl | rfl | rfl | rfl | rfl
  · exact Json.wellSpelled_text _
  · exact Json.wellSpelled_text _
  · simp [Json.WellSpelled]
  · exact analysis.outline.wellSpelled_toJsonWithPatterns
  · exact analysis.invocation.wellSpelled_toJson

theorem tellsOf_toJson {analysis : Analysis} (h : analysis.outline.Nested)
    (hsize : analysis.outline.size ≤ idBound) :
    analysis.toJson.TellsOf analysis.file analysis.outline analysis.invocation := by
  have hblocks : analysis.toJson.member? "blocks" = some analysis.outline.toJsonWithPatterns := by
    rw [toJson, Json.member?_record]
    simp [Json.readMember?, Json.valuesOf]
  constructor
  · rw [toJson, Json.member?_record]
    simp [Json.readMember?, Json.valuesOf, Json.text, Json.text?]
  · rw [hblocks, Option.bind_some, Outline.ofJson?_toJsonWithPatterns h hsize]
  · rw [hblocks, Option.bind_some, Outline.toJsonWithPatterns, Json.items?]
    refine ⟨_, rfl, fun item hitem => ?_⟩
    obtain ⟨block, hblock, rfl⟩ := List.mem_map.1 hitem
    refine ⟨block, Outline.ofJson?_of_mem h hsize hblock _, ?_⟩
    rw [Block.member?_pattern]
    rfl
  · rw [toJson, Json.member?_record]
    simp [Json.readMember?, Json.valuesOf, Invocation.ofJson?_toJson]

end Analysis

theorem Workspace.exists_outline {workspace : Workspace} {file : Path} {text : String}
    (hread : workspace.read file = .ok text) (hbytes : text.utf8ByteSize < UInt64.size) :
    ∃ outline, workspace.outline file = .ok outline ∧ outline.Nested ∧ outline.size ≤ idBound := by
  refine ⟨.ofLines (Text.lines (dropByteOrderMark text.toList)), ?_, Outline.nested_ofLines _, ?_⟩
  · rw [outline, sourceLines, hread]
    rfl
  · have htext := Text.length_le_utf8ByteSize text.toList
    rw [String.ofList_toList] at htext
    calc (Outline.ofLines (Text.lines (dropByteOrderMark text.toList))).size
        ≤ (Text.lines (dropByteOrderMark text.toList)).length := Outline.size_ofLines_le _
      _ ≤ (dropByteOrderMark text.toList).length := Text.length_lines_le _
      _ ≤ text.toList.length := length_dropByteOrderMark_le _
      _ ≤ text.utf8ByteSize := htext
      _ ≤ idBound := hbytes.le

namespace CommandLine

/-- What editors are handed reads back: the text about a file gives its outline, the pattern of
every block and the invocation for the file, and what is printed for an invocation gives the
invocation. -/
theorem json_reads_back :
    (∀ (settings : Settings) (workspace : Workspace) (file : Path) (text : String),
      workspace.read file = .ok text → text.utf8ByteSize < UInt64.size →
      ∃ analysis outline value, settings.analyse workspace file = .ok analysis ∧
        workspace.outline file = .ok outline ∧
        Json.parse? analysis.toJson.pretty = some value ∧
        value.TellsOf file outline (settings.launchFile file .run)) ∧
    ∀ (workspace : Workspace) (argument : String) (debug : Bool),
      (run workspace (.command argument debug true)).1.exitCode = 0 →
      ∃ file settings invocation,
        resolve workspace (Target.ofArgument argument).path = .ok file ∧
        Settings.nearest workspace file = .ok settings ∧
        settings.launch workspace file (Target.ofArgument argument).line (modeOf debug) =
          .ok invocation ∧
        (Json.parse? (run workspace (.command argument debug true)).1.output).bind
          Invocation.ofJson? = some invocation := by
  constructor
  · intro settings workspace file text hread hbytes
    obtain ⟨outline, houtline, hnested, hsize⟩ := Workspace.exists_outline hread hbytes
    have hanalysis : settings.analyse workspace file = .ok ⟨file, .ofPath file,
        settings.isTestFile file, outline, settings.launchFile file .run⟩ := by
      rw [Settings.analyse, houtline]
      rfl
    exact ⟨_, outline, _, hanalysis, houtline, Json.parse?_pretty (Analysis.wellSpelled_toJson _),
      Analysis.tellsOf_toJson hnested hsize⟩
  · intro workspace argument debug hexit
    rw [run_command] at hexit ⊢
    obtain ⟨file, settings, invocation, hfile, hsettings, hlaunch⟩ :=
      exists_of_exitCode_command hexit
    refine ⟨file, settings, invocation, hfile, hsettings, hlaunch, ?_⟩
    have houtput : (command workspace argument debug true).output =
        invocation.toJson.pretty ++ "\n" := by
      rw [command_eq_print hfile hsettings hlaunch]
      simp [Outcome.print, invocationLines, String.join]
    rw [houtput, Json.parse?_line invocation.wellSpelled_toJson, Option.bind_some,
      Invocation.ofJson?_toJson]

theorem json_reads_back_projectFile :
    (Workspace.project ["w"]).read ⟨"/w/test/a.js"⟩ = .ok "it('a')\n" ∧
      "it('a')\n".utf8ByteSize < UInt64.size ∧
      (∃ analysis outline value,
        Settings.analyse {} (.project ["w"]) ⟨"/w/test/a.js"⟩ = .ok analysis ∧
        (Workspace.project ["w"]).outline ⟨"/w/test/a.js"⟩ = .ok outline ∧
        Json.parse? analysis.toJson.pretty = some value ∧
        value.TellsOf ⟨"/w/test/a.js"⟩ outline (Settings.launchFile {} ⟨"/w/test/a.js"⟩ .run)) ∧
      (run (.project ["w"]) (.command "test/a.js:1" true true)).1.exitCode = 0 ∧
      ∃ invocation,
        (Json.parse? (run (.project ["w"]) (.command "test/a.js:1" true true)).1.output).bind
          Invocation.ofJson? = some invocation := by
  have hread : (Workspace.project ["w"]).read ⟨"/w/test/a.js"⟩ = .ok "it('a')\n" := by rfl
  have hbytes : "it('a')\n".utf8ByteSize < UInt64.size := by decide
  have hexit : (run (.project ["w"]) (.command "test/a.js:1" true true)).1.exitCode = 0 := by rfl
  obtain ⟨-, -, invocation, -, -, -, hinvocation⟩ := json_reads_back.2 _ _ _ hexit
  exact ⟨hread, hbytes, json_reads_back.1 _ _ _ _ hread hbytes, hexit, invocation, hinvocation⟩

end CommandLine

end TestOutline
