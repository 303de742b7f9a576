import TestOutline.Json.Token

/-!
Reading JSON. The reader takes one token at a time and keeps the containers that are still open, so
it needs no bound on the depth of nesting. A text is one value and nothing else.
-/

namespace TestOutline.Json

/-- A container that is still open. What it holds so far is kept in reverse. -/
inductive Frame where
  | items (done : List Json)
  | members (done : List (Option String × Json))
  | member (done : List (Option String × Json)) (key : Option String)

inductive Expectation where
  | value
  /-- A value, or the end of the array that was opened just now. -/
  | firstItem
  | key
  /-- A key, or the end of the object that was opened just now. -/
  | firstKey
  | colon (key : Option String)
  /-- A comma or the end of the innermost container; outside all containers the end of the text. -/
  | separator

inductive Progress where
  | reading (frames : List Frame) (next : Expectation)
  | finished (value : Json)

namespace Progress

def deliver (value : Json) : List Frame → Option Progress
  | [] => some (.finished value)
  | .items done :: frames => some (.reading (.items (value :: done) :: frames) .separator)
  | .member done key :: frames =>
    some (.reading (.members ((key, value) :: done) :: frames) .separator)
  | .members _ :: _ => none

def startValue (frames : List Frame) : Token → Option Progress
  | .scalar value => deliver value frames
  | .literal text => deliver (.string text) frames
  | .openArray => some (.reading (.items [] :: frames) .firstItem)
  | .openObject => some (.reading (.members [] :: frames) .firstKey)
  | _ => none

def read : Expectation → List Frame → Token → Option Progress
  | .value, frames, token => startValue frames token
  | .firstItem, .items [] :: frames, .closeArray => deliver (.array []) frames
  | .firstItem, frames, token => startValue frames token
  | .key, frames, .literal text => some (.reading frames (.colon text))
  | .firstKey, .members [] :: frames, .closeObject => deliver (.object []) frames
  | .firstKey, frames, .literal text => some (.reading frames (.colon text))
  | .colon key, .members done :: frames, .colon =>
    some (.reading (.member done key :: frames) .value)
  | .separator, .items done :: frames, .comma => some (.reading (.items done :: frames) .value)
  | .separator, .items done :: frames, .closeArray => deliver (.array done.reverse) frames
  | .separator, .members done :: frames, .comma => some (.reading (.members done :: frames) .key)
  | .separator, .members done :: frames, .closeObject => deliver (.object done.reverse) frames
  | _, _, _ => none

def step : Progress → Token → Option Progress
  | .reading frames next, token => read next frames token
  | .finished _, _ => none

def value? : Progress → Option Json
  | .finished value => some value
  | .reading _ _ => none

end Progress

def ofTokens? (tokens : List Token) : Option Json :=
  (tokens.foldlM Progress.step (.reading [] .value)).bind Progress.value?

def parse? (text : String) : Option Json :=
  (Token.tokens? text.toList).bind ofTokens?

end TestOutline.Json
