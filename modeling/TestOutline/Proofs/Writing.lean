import Mathlib.Tactic.ByContra
import Mathlib.Tactic.SplitIfs
import TestOutline.Fault
import TestOutline.Workspace

/-! What is written to a path is read from it. Writing puts a file in the place of a file or of
nothing, so every way through directories that was there before is still there; in particular the
way to the place where the file was put. -/

namespace TestOutline

theorem bind_eq_ok_iff {ε α β : Type} {first : Except ε α} {rest : α → Except ε β} {result : β} :
    first >>= rest = .ok result ↔ ∃ value, first = .ok value ∧ rest value = .ok result := by
  cases first with
  | error error => simp [bind, Except.bind]
  | ok value => simp [bind, Except.bind]

theorem Fault.ofFile_eq_ok_iff {α : Type} {result : Except FileError α} {value : α} :
    ofFile result = .ok value ↔ result = .ok value := by
  cases result <;> simp

namespace FileTree

variable {tree : FileTree} {here place next : Location} {path : Path}

theorem step_eq_ok_iff {segment : List Char} :
    tree.step here segment = .ok next ↔ tree.lookup here = some .directory ∧
      (Path.isFiller segment = true ∧ next = here ∨
        Path.isFiller segment = false ∧ Path.isUp segment = true ∧ next = here.tail ∨
        Path.isFiller segment = false ∧ Path.isUp segment = false ∧
          (String.ofList segment).utf8ByteSize ≤ nameLimit ∧
          (tree.lookup (.ofList segment :: here)).isSome = true ∧
          next = .ofList segment :: here) := by
  rw [step]
  cases hhere : tree.lookup here with
  | none => simp
  | some entry =>
    cases entry with
    | file text => simp
    | directory =>
      cases hfiller : Path.isFiller segment with
      | true => simpa using eq_comm
      | false =>
        cases hup : Path.isUp segment with
        | true => simpa using eq_comm
        | false =>
          by_cases hlength : (String.ofList segment).utf8ByteSize ≤ nameLimit
          · cases hentry : (tree.lookup (.ofList segment :: here)).isSome with
            | true => simpa [hlength, Nat.not_lt.2 hlength] using eq_comm
            | false => simp [Nat.not_lt.2 hlength]
          · simp [hlength, Nat.not_le.1 hlength]

theorem isSome_lookup_update (content : Option String) {other : Location}
    (h : (tree.lookup other).isSome = true) :
    ((tree.update place (some (.file content))).lookup other).isSome = true := by
  by_cases heq : other = place
  · simp [heq]
  · rwa [lookup_update_of_ne tree _ heq]

theorem step_update (hplace : tree.lookup place ≠ some .directory) (content : Option String)
    {segment : List Char} (h : tree.step here segment = .ok next) :
    (tree.update place (some (.file content))).step here segment = .ok next := by
  rw [step_eq_ok_iff] at h ⊢
  obtain ⟨hhere, hnext⟩ := h
  have hne : here ≠ place := by
    rintro rfl
    exact hplace hhere
  refine ⟨by rw [lookup_update_of_ne tree _ hne, hhere], ?_⟩
  rcases hnext with hstay | hup | ⟨hfiller, hup, hlength, hentry, hdown⟩
  · exact .inl hstay
  · exact .inr (.inl hup)
  · exact .inr (.inr ⟨hfiller, hup, hlength, isSome_lookup_update content hentry, hdown⟩)

theorem walk_cons_eq_ok_iff {segment : List Char} {segments : List (List Char)} :
    tree.walk here (segment :: segments) = .ok next ↔
      ∃ between, tree.step here segment = .ok between ∧ tree.walk between segments = .ok next := by
  rw [walk, List.foldlM_cons, bind_eq_ok_iff]
  rfl

theorem walk_append_eq_ok_iff {first rest : List (List Char)} :
    tree.walk here (first ++ rest) = .ok next ↔
      ∃ between, tree.walk here first = .ok between ∧ tree.walk between rest = .ok next := by
  rw [walk_append, bind_eq_ok_iff]

theorem walk_update (hplace : tree.lookup place ≠ some .directory) (content : Option String)
    {segments : List (List Char)} (h : tree.walk here segments = .ok next) :
    (tree.update place (some (.file content))).walk here segments = .ok next := by
  induction segments generalizing here with
  | nil => exact h
  | cons segment segments ih =>
    rw [walk_cons_eq_ok_iff] at h ⊢
    obtain ⟨between, hstep, hwalk⟩ := h
    exact ⟨between, step_update hplace content hstep, ih hwalk⟩

theorem walkInto_eq_ok_iff {segments : List (List Char)} :
    tree.walkInto here segments = .ok next ↔
      tree.walk here segments = .ok next ∧ tree.lookup next = some .directory := by
  rw [walkInto, walk_append_eq_ok_iff]
  simp only [walk_cons_eq_ok_iff, step_eq_ok_iff, walk_nil, Except.ok.injEq]
  constructor
  · rintro ⟨between, hwalk, last, ⟨hdirectory, hlast⟩, rfl⟩
    have hstay : last = between := by simpa [Path.isFiller] using hlast
    exact hstay ▸ ⟨hwalk, hdirectory⟩
  · rintro ⟨hwalk, hdirectory⟩
    exact ⟨next, hwalk, next, ⟨hdirectory, .inl ⟨rfl, rfl⟩⟩, rfl⟩

theorem step_name {segment : List Char} (hhere : tree.lookup here = some .directory)
    (hfiller : Path.isFiller segment = false) (hup : Path.isUp segment = false) :
    tree.step here segment =
      if nameLimit < (String.ofList segment).utf8ByteSize then .error .nameTooLong
      else if (tree.lookup (.ofList segment :: here)).isSome then .ok (.ofList segment :: here)
      else .error .notFound := by
  simp [step, hhere, hfiller, hup]

theorem eq_of_written_name {segment : List Char} (hhere : tree.lookup here = some .directory)
    (hfiller : Path.isFiller segment = false) (hup : Path.isUp segment = false)
    (h : (match tree.step here segment with
      | .ok found => if tree.lookup found = some .directory then .error .isDirectory else .ok found
      | .error .notFound => .ok (.ofList segment :: here)
      | .error error => .error error) = (.ok place : Except FileError Location)) :
    tree.lookup place ≠ some .directory ∧
      (String.ofList segment).utf8ByteSize ≤ nameLimit ∧ place = .ofList segment :: here := by
  rw [step_name hhere hfiller hup] at h
  by_cases hlength : nameLimit < (String.ofList segment).utf8ByteSize
  · simp [hlength] at h
  · rw [if_neg hlength] at h
    cases hentry : tree.lookup (.ofList segment :: here) with
    | none =>
      simp only [hentry, Option.isSome_none, Bool.false_eq_true, if_false, Except.ok.injEq] at h
      rw [← h, hentry]
      exact ⟨by simp, Nat.not_lt.1 hlength, rfl⟩
    | some entry =>
      simp only [hentry, Option.isSome_some, if_true] at h
      split at h
      · simp at h
      · next hfile =>
        rw [Except.ok.injEq] at h
        rw [← h, hentry]
        exact ⟨hfile, Nat.not_lt.1 hlength, rfl⟩

theorem eq_of_dropWhile_isEmpty {segments before : List (List Char)} {last : List Char}
    (h : segments.reverse.dropWhile (·.isEmpty) = last :: before)
    (hlast : segments.getLast? ≠ some []) : segments = before.reverse ++ [last] := by
  rw [← List.head?_reverse] at hlast
  have hkept : segments.reverse = last :: before := by
    rw [← h]
    cases hsegments : segments.reverse with
    | nil => rfl
    | cons segment rest =>
      rw [hsegments, List.head?_cons, ne_eq, Option.some.injEq] at hlast
      rw [List.dropWhile_cons_of_neg (by simpa using hlast)]
  rw [← List.reverse_reverse segments, hkept, List.reverse_cons]

theorem exists_of_destination (h : tree.destination here path = .ok place) :
    checkPath path = .ok () ∧ tree.lookup place ≠ some .directory ∧
      ∃ before last directory, path.segments = before ++ [last] ∧
        tree.walk (start here path) before = .ok directory ∧
        tree.lookup directory = some .directory ∧
        Path.isFiller last = false ∧ Path.isUp last = false ∧
        (String.ofList last).utf8ByteSize ≤ nameLimit ∧ place = .ofList last :: directory := by
  rw [destination, bind_eq_ok_iff] at h
  obtain ⟨_, hcheck, h⟩ := h
  split at h
  · simp at h
  · next last before hbefore =>
    rw [bind_eq_ok_iff] at h
    obtain ⟨directory, hdirectory, h⟩ := h
    obtain ⟨hwalk, hentry⟩ := walkInto_eq_ok_iff.1 hdirectory
    split at h
    · simp at h
    · next hname =>
      simp only [Bool.or_eq_true, decide_eq_true_eq, not_or, Bool.not_eq_true] at hname
      obtain ⟨⟨hfiller, hup⟩, hslash⟩ := hname
      have hsegments := eq_of_dropWhile_isEmpty hbefore hslash
      obtain ⟨hplace, hlength, heq⟩ := eq_of_written_name hentry hfiller hup h
      exact ⟨hcheck, hplace, before.reverse, last, directory, hsegments, hwalk, hentry, hfiller,
        hup, hlength, heq⟩

theorem locate_update (content : Option String) (h : tree.destination here path = .ok place) :
    (tree.update place (some (.file content))).locate here path = .ok place := by
  obtain ⟨hcheck, hplace, before, last, directory, hsegments, hwalk, hdirectory, hfiller, hup,
    hlength, rfl⟩ := exists_of_destination h
  have hne : directory ≠ .ofList last :: directory := (List.cons_ne_self _ _).symm
  rw [locate, hcheck, hsegments, bind_eq_ok_iff]
  refine ⟨(), rfl, walk_append_eq_ok_iff.2 ⟨directory, walk_update hplace content hwalk, ?_⟩⟩
  rw [walk_cons_eq_ok_iff]
  refine ⟨_, step_eq_ok_iff.2 ⟨?_, .inr (.inr ⟨hfiller, hup, hlength, ?_, rfl⟩)⟩, rfl⟩
  · rw [lookup_update_of_ne tree _ hne, hdirectory]
  · simp

end FileTree

namespace Workspace

variable {workspace written : Workspace} {path : Path}

theorem read_of_write {text : String} (h : workspace.write path (some text) = .ok written) :
    written.read path = .ok text := by
  rw [write, bind_eq_ok_iff] at h
  obtain ⟨place, hplace, hwritten⟩ := h
  rw [Except.ok.injEq] at hwritten
  subst hwritten
  rw [read, bind_eq_ok_iff]
  refine ⟨place, FileTree.locate_update (some text) hplace, ?_⟩
  simp

end Workspace

end TestOutline
