import LockElision.Json.Token

/-!
# JSON values

A JSON text as a tree. The tokens are taken one by one; the containers still open wait on a stack,
innermost first, so a text of any depth is read in one pass over its tokens. Members keep their
order and may repeat a key.
-/

namespace LockElision

inductive Json where
  | null
  | bool (b : Bool)
  | number (n : Numeral)
  | string (text : Option String)
  | array (items : List Json)
  | object (members : List (Option String × Json))

namespace Json

/-- A container that is still open; what it holds so far stands in reverse. -/
inductive Frame where
  | items (done : List Json)
  | members (done : List (Option String × Json))
  /-- An object with a key whose value has not come yet. -/
  | member (done : List (Option String × Json)) (key : Option String)

/-- What may come next. -/
inductive Expect where
  | value
  | valueOrClose
  | keyOrClose
  | key
  | colon
  | separator

inductive Progress where
  | reading (stack : List Frame) (expect : Expect)
  | finished (value : Json)

/-- Hands a finished value to the container around it. -/
def deliver (v : Json) : List Frame → Option Progress
  | [] => some (.finished v)
  | .items done :: stack => some (.reading (.items (v :: done) :: stack) .separator)
  | .member done key :: stack => some (.reading (.members ((key, v) :: done) :: stack) .separator)
  | .members _ :: _ => none

/-- The beginning of a value. -/
def beginValue (stack : List Frame) : Token → Option Progress
  | .null => deliver .null stack
  | .bool b => deliver (.bool b) stack
  | .number n => deliver (.number n) stack
  | .string text => deliver (.string text) stack
  | .openArray => some (.reading (.items [] :: stack) .valueOrClose)
  | .openObject => some (.reading (.members [] :: stack) .keyOrClose)
  | _ => none

/-- The end of the innermost container. -/
def close : List Frame → Token → Option Progress
  | .items done :: stack, .closeArray => deliver (.array done.reverse) stack
  | .members done :: stack, .closeObject => deliver (.object done.reverse) stack
  | _, _ => none

def beginMember : List Frame → Token → Option Progress
  | .members done :: stack, .string key => some (.reading (.member done key :: stack) .colon)
  | _, _ => none

def advance : Progress → Token → Option Progress
  | .finished _, _ => none
  | .reading stack .value, token => beginValue stack token
  | .reading stack .valueOrClose, token => (close stack token).or (beginValue stack token)
  | .reading stack .keyOrClose, token => (close stack token).or (beginMember stack token)
  | .reading stack .key, token => beginMember stack token
  | .reading stack .colon, .colon => some (.reading stack .value)
  | .reading _ .colon, _ => none
  | .reading stack .separator, .comma =>
    match stack with
    | .items _ :: _ => some (.reading stack .value)
    | .members _ :: _ => some (.reading stack .key)
    | _ => none
  | .reading stack .separator, token => close stack token

/-- The value of a text that holds one value and nothing else. -/
def parse? (text : String) : Option Json := do
  match ← (← tokens text.toList).foldlM advance (.reading [] .value) with
  | .finished v => some v
  | .reading _ _ => none

end Json

end LockElision
