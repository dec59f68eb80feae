import ModuleBundler.Json.Token

/-!
# Reading JSON

The tokens of a text are read from left to right. What stands around the current value is kept as a
stack of frames, one for each array or object that is not closed yet, and `Need` says what may come
next. Each token moves this state by one step, so reading ends with the text and knows no
bound on how deep values stand in each other.
-/

namespace ModuleBundler.JsonValue

/-- An array or object that is not closed, up to the value that is read now. What comes before is
kept in reverse. -/
inductive Frame where
  /-- An array. -/
  | items (before : List JsonValue)
  /-- An object, and the key of the value. -/
  | members (before : List (JsonString × JsonValue)) (key : JsonString)
  deriving Repr

/-- What may come next. -/
inductive Need where
  /-- A value. -/
  | value
  /-- A value, or the end of an array that has none. -/
  | firstItem
  /-- A key of an object with the given members; the end of the object too, if it has none. -/
  | key (before : List (JsonString × JsonValue))
  /-- The colon behind a key. -/
  | colon (before : List (JsonString × JsonValue)) (key : JsonString)
  /-- What follows a complete value. -/
  | after (value : JsonValue)
  deriving Repr

/-- Where a reading stands. -/
structure Reading where
  /-- The open arrays and objects, the innermost first. -/
  frames : List Frame := []
  /-- What may come next. -/
  need : Need := .value
  deriving Repr

namespace Reading

/-- The reading that goes on with the start of a value. -/
def startValue (frames : List Frame) : JsonToken → Option Reading
  | .scalar value => some ⟨frames, .after value⟩
  | .mark '[' => some ⟨.items [] :: frames, .firstItem⟩
  | .mark '\x7b' => some ⟨frames, .key []⟩
  | .mark _ => none

/-- The reading that goes on behind a complete value in the innermost frame. -/
def endValue (value : JsonValue) : List Frame → Char → Option Reading
  | .items before :: frames, ',' => some ⟨.items (value :: before) :: frames, .value⟩
  | .items before :: frames, ']' => some ⟨frames, .after (.array (value :: before).reverse)⟩
  | .members before key :: frames, ',' => some ⟨frames, .key ((key, value) :: before)⟩
  | .members before key :: frames, '\x7d' =>
    some ⟨frames, .after (.object ((key, value) :: before).reverse)⟩
  | _, _ => none

/-- The reading after one more token. -/
def step (r : Reading) (token : JsonToken) : Option Reading :=
  match r.need, token with
  | .value, token => startValue r.frames token
  | .firstItem, .mark ']' =>
    match r.frames with
    | .items _ :: frames => some ⟨frames, .after (.array [])⟩
    | _ => none
  | .firstItem, token => startValue r.frames token
  | .key before, .scalar (.string key) => some ⟨r.frames, .colon before key⟩
  | .key [], .mark '\x7d' => some ⟨r.frames, .after (.object [])⟩
  | .colon before key, .mark ':' => some ⟨.members before key :: r.frames, .value⟩
  | .after value, .mark c => endValue value r.frames c
  | _, _ => none

/-- The value that was read, if nothing is missing. -/
def result? (r : Reading) : Option JsonValue :=
  match r.frames, r.need with
  | [], .after value => some value
  | _, _ => none

end Reading

/-- The value that a text writes. -/
def read? (text : String) : Option JsonValue := do
  let tokens ← JsonToken.tokens text.toList
  let reading ← tokens.foldlM Reading.step {}
  reading.result?

end ModuleBundler.JsonValue
