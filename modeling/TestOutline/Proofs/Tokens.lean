import TestOutline.Json.Parser

/-! The tokens of a JSON value, and their reader. Whatever containers are open around a value, its
tokens are taken in one after the other and leave the reader with the value put where it belongs; so
the reader gives back the value that a sequence of tokens writes. -/

namespace TestOutline.Json

mutual

def tokens : Json → List Token
  | .null => [.scalar .null]
  | .bool value => [.scalar (.bool value)]
  | .number spelling => [.scalar (.number spelling)]
  | .string text => [.literal text]
  | .array [] => [.openArray, .closeArray]
  | .array (item :: items) => .openArray :: tokens item ++ itemTokens items ++ [.closeArray]
  | .object [] => [.openObject, .closeObject]
  | .object ((key, value) :: members) =>
    .openObject :: .literal key :: .colon :: tokens value ++ memberTokens members ++ [.closeObject]

def itemTokens : List Json → List Token
  | [] => []
  | item :: items => .comma :: tokens item ++ itemTokens items

def memberTokens : List (Option String × Json) → List Token
  | [] => []
  | (key, value) :: members =>
    .comma :: .literal key :: .colon :: tokens value ++ memberTokens members

end

namespace Progress

theorem read_firstItem {token : Token} (h : token ≠ .closeArray) (frames : List Frame) :
    read .firstItem frames token = startValue frames token := by
  rw [read.eq_def]
  split <;> simp_all

theorem exists_first_token (value : Json) :
    ∃ token rest, value.tokens = token :: rest ∧ token ≠ .closeArray := by
  match value with
  | .null | .bool _ | .number _ | .string _ => exact ⟨_, [], by rw [tokens], by simp⟩
  | .array [] | .object [] => exact ⟨_, _, by rw [tokens], by simp⟩
  | .array (_ :: _) | .object (_ :: _) => exact ⟨_, _, by rw [tokens]; rfl, by simp⟩

theorem foldlM_firstItem (value : Json) (frames : List Frame) :
    value.tokens.foldlM step (.reading frames .firstItem) =
      value.tokens.foldlM step (.reading frames .value) := by
  obtain ⟨token, rest, htokens, hclose⟩ := exists_first_token value
  rw [htokens, List.foldlM_cons, List.foldlM_cons, step, step, read_firstItem hclose, read]

mutual

theorem foldlM_tokens (value : Json) (frames : List Frame) :
    value.tokens.foldlM step (.reading frames .value) = deliver value frames := by
  -- By recursion on the value; an item or member is read with one frame more around it.
  match value with
  | .null | .bool _ | .number _ | .string _ => simp [tokens, step, read, startValue]
  | .array [] | .object [] => simp [tokens, step, read, startValue]
  | .array (item :: items) =>
    have hitem := foldlM_tokens item (.items [] :: frames)
    have hitems := foldlM_itemTokens items [item] frames
    simp [tokens, List.foldlM_append, step, read, startValue, foldlM_firstItem, hitem, deliver,
      hitems]
  | .object ((key, value) :: members) =>
    have hvalue := foldlM_tokens value (.member [] key :: frames)
    have hmembers := foldlM_memberTokens members [(key, value)] frames
    simp [tokens, List.foldlM_append, step, read, startValue, hvalue, deliver, hmembers]

theorem foldlM_itemTokens (items done : List Json) (frames : List Frame) :
    (itemTokens items).foldlM step (.reading (.items done :: frames) .separator) =
      some (.reading (.items (items.reverse ++ done) :: frames) .separator) := by
  match items with
  | [] => rfl
  | item :: items =>
    have hitem := foldlM_tokens item (.items done :: frames)
    have hitems := foldlM_itemTokens items (item :: done) frames
    simp [itemTokens, List.foldlM_append, step, read, hitem, deliver, hitems]

theorem foldlM_memberTokens (members done : List (Option String × Json)) (frames : List Frame) :
    (memberTokens members).foldlM step (.reading (.members done :: frames) .separator) =
      some (.reading (.members (members.reverse ++ done) :: frames) .separator) := by
  match members with
  | [] => rfl
  | (key, value) :: members =>
    have hvalue := foldlM_tokens value (.member done key :: frames)
    have hmembers := foldlM_memberTokens members ((key, value) :: done) frames
    simp [memberTokens, List.foldlM_append, step, read, hvalue, deliver, hmembers]

end

end Progress

theorem ofTokens?_tokens (value : Json) : ofTokens? value.tokens = some value := by
  rw [ofTokens?, Progress.foldlM_tokens]
  rfl

end TestOutline.Json
