import TestOutline.Proofs.Layout
import TestOutline.Proofs.Writing
import TestOutline.Settings.Discovery

/-! Settings, saved and loaded. The JSON form of settings has every field but the root, and reading
it back gives each field its value again, variables in the order in which they were written; so a
file of saved settings holds the settings, and its directory becomes their root. -/

namespace TestOutline

theorem mapM_map_eq_some {α β : Type} {write : α → β} {read : β → Option α} {values : List α}
    (h : ∀ value ∈ values, read (write value) = some value) :
    (values.map write).mapM read = some values := by
  induction values with
  | nil => rfl
  | cons value values ih =>
    rw [List.map_cons, List.mapM_cons, h value (List.mem_cons_self ..),
      ih fun other hmem => h other (List.mem_cons_of_mem _ hmem)]
    rfl

namespace Json

theorem texts?_texts (values : List String) : (texts values).texts? = some values := by
  rw [texts, texts?, items?, Option.bind_some]
  exact mapM_map_eq_some fun _ _ => rfl

theorem namedMembers?_record (members : List (String × Json)) :
    namedMembers? (members.map fun member => (some member.1, member.2)) = some members := by
  rw [namedMembers?]
  exact mapM_map_eq_some fun _ _ => rfl

theorem wellSpelledItems_map {α : Type} {write : α → Json} {values : List α}
    (h : ∀ value ∈ values, (write value).WellSpelled) : WellSpelledItems (values.map write) := by
  induction values with
  | nil => simp [WellSpelledItems]
  | cons value values ih =>
    exact ⟨h value (List.mem_cons_self ..),
      ih fun other hmem => h other (List.mem_cons_of_mem _ hmem)⟩

theorem wellSpelled_text (value : String) : (text value).WellSpelled := by
  simp [text, WellSpelled]

theorem wellSpelled_texts (values : List String) : (texts values).WellSpelled := by
  rw [texts, WellSpelled]
  exact wellSpelledItems_map fun value _ => wellSpelled_text value

theorem wellSpelled_natural (n : Nat) : (natural n).WellSpelled := by
  rw [natural, WellSpelled, toList_toString]
  exact Token.isNumber_toDigits n

theorem wellSpelled_record {members : List (String × Json)}
    (h : ∀ member ∈ members, member.2.WellSpelled) : (record members).WellSpelled := by
  rw [record, WellSpelled]
  induction members with
  | nil => simp [WellSpelledMembers]
  | cons member members ih =>
    exact ⟨h member (List.mem_cons_self ..),
      ih fun other hmem => h other (List.mem_cons_of_mem _ hmem)⟩

end Json

namespace Environment

theorem assign_of_not_mem {name value : String} {entries : List (String × String)}
    (h : name ∉ entries.map (·.1)) : assign name value entries = entries ++ [(name, value)] := by
  induction entries with
  | nil => rfl
  | cons entry entries ih =>
    rw [List.map_cons, List.mem_cons, not_or] at h
    rw [assign, if_neg (Ne.symm h.1), ih h.2, List.cons_append]

theorem entries_foldl_insert {entries : List (String × String)} {environment : Environment}
    (h : ((environment.entries ++ entries).map (·.1)).Nodup) :
    (entries.foldl (fun environment entry => environment.insert entry.1 entry.2)
      environment).entries = environment.entries ++ entries := by
  induction entries generalizing environment with
  | nil => simp
  | cons entry entries ih =>
    have hnew : entry.1 ∉ environment.entries.map (·.1) := by
      rw [List.map_append, List.nodup_append] at h
      intro hold
      exact h.2.2 entry.1 hold entry.1 (by simp) rfl
    have hinsert : (environment.insert entry.1 entry.2).entries = environment.entries ++ [entry] :=
      assign_of_not_mem hnew
    rw [List.foldl_cons, ih, hinsert, List.append_assoc, List.singleton_append]
    rw [hinsert, List.append_assoc, List.singleton_append]
    exact h

theorem ext_entries {first second : Environment} (h : first.entries = second.entries) :
    first = second := by
  cases first
  cases second
  cases h
  rfl

theorem ofList_entries (environment : Environment) : ofList environment.entries = environment := by
  apply ext_entries
  rw [ofList, entries_foldl_insert (by simpa using environment.nodup)]
  rfl

theorem ofJson?_toJson (environment : Environment) :
    ofJson? environment.toJson = some environment := by
  have hentries : (environment.entries.map fun entry => (entry.1, Json.text entry.2)).mapM
      assignment? = some environment.entries :=
    mapM_map_eq_some fun _ _ => rfl
  rw [toJson, Json.record, ofJson?, Json.namedMembers?_record, Option.bind_some, hentries,
    Option.map_some, ofList_entries]

theorem wellSpelled_toJson (environment : Environment) : environment.toJson.WellSpelled := by
  apply Json.wellSpelled_record
  intro member hmember
  obtain ⟨entry, -, rfl⟩ := List.mem_map.1 hmember
  exact Json.wellSpelled_text entry.2

theorem lookup_eq_some_iff {entries : List (String × String)} (h : (entries.map (·.1)).Nodup)
    {name value : String} : entries.lookup name = some value ↔ (name, value) ∈ entries := by
  induction entries with
  | nil => simp
  | cons entry entries ih =>
    obtain ⟨key, held⟩ := entry
    rw [List.map_cons, List.nodup_cons] at h
    rw [List.lookup_cons, List.mem_cons, Prod.mk.injEq]
    by_cases hname : name = key
    · subst hname
      have hnone : (name, value) ∉ entries := fun hmem => h.1 (List.mem_map.2 ⟨_, hmem, rfl⟩)
      simpa [hnone] using eq_comm
    · have hne : (name == key) = false := by simpa using hname
      rw [hne, ih h.2]
      simp [hname]

theorem value?_of_perm {first second : Environment} (h : first.entries.Perm second.entries)
    (name : String) : first.value? name = second.value? name := by
  apply Option.ext
  intro value
  rw [value?, value?, lookup_eq_some_iff first.nodup, lookup_eq_some_iff second.nodup, h.mem_iff]

end Environment

namespace Settings

theorem wellSpelled_toJson (settings : Settings) : settings.toJson.WellSpelled := by
  apply Json.wellSpelled_record
  intro member hmember
  simp only [nodeMember, List.cons_append, List.mem_cons, List.mem_append, Option.mem_toList,
    Option.map_eq_some_iff, List.not_mem_nil, or_false] at hmember
  rcases hmember with rfl | ⟨node, -, rfl⟩ | rfl | rfl | rfl | rfl
  · exact Json.wellSpelled_text _
  · exact Json.wellSpelled_text _
  · exact Json.wellSpelled_texts _
  · exact settings.env.wellSpelled_toJson
  · exact Json.wellSpelled_natural _
  · exact Json.wellSpelled_texts _

theorem port?_natural (port : UInt16) : port? (.natural port.toNat) = some port := by
  rw [port?, Json.natural?_natural port.toNat_lt_size, Option.map_some, UInt16.ofNat_toNat]

theorem ofJson?_toJson (settings : Settings) :
    ofJson? settings.toJson = some { settings with root := none } := by
  rw [toJson, Json.record, ofJson?, Json.namedMembers?_record, Option.bind_some]
  cases hnode : settings.nodePath with
  | none =>
    simp [ofMembers?, nodeMember, hnode, Json.readMember?, Json.valuesOf, Json.text, Json.text?,
      Json.texts?_texts, Environment.ofJson?_toJson, port?_natural]
  | some node =>
    simp [ofMembers?, nodeMember, hnode, Json.readMember?, Json.valuesOf, Json.text, Json.text?,
      Json.nullable?, Json.texts?_texts, Environment.ofJson?_toJson, port?_natural]

theorem parse?_render (settings : Settings) :
    parse? settings.render = some { settings with root := none } := by
  rw [parse?, render, Json.parse?_pretty settings.wellSpelled_toJson, Option.bind_some,
    ofJson?_toJson]

theorem load_of_parse? {workspace : Workspace} {path : Path} {text : String} {settings : Settings}
    (hread : workspace.read path = .ok text) (hparse : parse? text = some settings) :
    load workspace path = .ok { settings with root := path.parent? } := by
  rw [load, hread, Fault.ofFile_ok, bind_eq_ok_iff]
  exact ⟨text, rfl, by rw [hparse]⟩

/-- Settings that were saved are loaded again, with the directory of the file as their root and with
the same value for every variable, in whatever order the variables were written. -/
theorem load_of_save {settings : Settings} {enumerated : Environment}
    {workspace written : Workspace} {path : Path}
    (henv : enumerated.entries.Perm settings.env.entries)
    (hsave : save { settings with env := enumerated } workspace path = .ok written) :
    load written path = .ok { settings with env := enumerated, root := path.parent? } ∧
      ∀ name, enumerated.value? name = settings.env.value? name := by
  refine ⟨?_, Environment.value?_of_perm henv⟩
  have hread := Workspace.read_of_write (Fault.ofFile_eq_ok_iff.1 hsave)
  exact load_of_parse? hread (parse?_render _)

def everyField : Settings where
  mochaPath := "m\"\\"
  nodePath := some ""
  mochaArgs := ["\x00\x7f", "é\n"]
  env := .ofList [("B", ""), ("A", "\t")]
  debugPort := 65535
  testFilePatterns := []
  root := some ⟨"/elsewhere"⟩

theorem load_everyField :
    ∃ enumerated : Environment, enumerated.entries = [("A", "\t"), ("B", "")] ∧
      enumerated.entries.Perm everyField.env.entries ∧
      ∃ written, save { everyField with env := enumerated } ⟨.empty, []⟩ ⟨"./c.json"⟩ =
          .ok written ∧
        load written ⟨"./c.json"⟩ =
          .ok { everyField with env := enumerated, root := some ⟨"."⟩ } := by
  let enumerated : Environment := .ofList [("A", "\t"), ("B", "")]
  have henv : enumerated.entries.Perm everyField.env.entries := by decide
  obtain ⟨written, hsave⟩ : ∃ written, save { everyField with env := enumerated } ⟨.empty, []⟩
      ⟨"./c.json"⟩ = .ok written :=
    ⟨_, rfl⟩
  exact ⟨enumerated, by decide, henv, written, hsave, (load_of_save henv hsave).1⟩

end Settings

end TestOutline
