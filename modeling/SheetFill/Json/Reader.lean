import SheetFill.Json.Token

/-!
# Reading JSON

A JSON text is read token by token. The containers that are open are kept on a stack, the innermost
first, together with what may come next, so reading is one pass over the tokens. Containers may be
nested 127 deep. Of members with equal keys the last one counts.

## Main definitions

* `Expected`, `step` — what may come next, and what a token does.
* `Value.read?` — the value of a text, if the whole text is one value.
-/

namespace SheetFill.Json

/-- A container that is open. -/
inductive Open where
  /-- An array, with its items so far, the last first. -/
  | array (items : List Value)
  /-- An object, with its members so far. -/
  | object (members : List (String × Value))
  /-- An object that waits for the value of a key. -/
  | member (members : List (String × Value)) (key : String)

/-- What may come next. -/
inductive Expected where
  | value
  | itemOrEnd
  | keyOrEnd
  | key
  | colon
  /-- A comma or the end of the innermost container. -/
  | next
  /-- Nothing: the value is complete. -/
  | done (value : Value)

/-- The largest number of containers inside each other. -/
def maxNesting : Nat := 127

/-- Puts a complete value into the innermost container. -/
def deliver (v : Value) : List Open → List Open × Expected
  | [] => ([], .done v)
  | .array items :: outer => (.array (v :: items) :: outer, .next)
  | .object members :: outer => (.object members :: outer, .next)
  | .member members key :: outer => (.object (Value.insertMember key v members) :: outer, .next)

/-- Opens a container. -/
def openContainer (container : Open) (expected : Expected) (stack : List Open) :
    Option (List Open × Expected) :=
  if stack.length < maxNesting then some (container :: stack, expected) else none

/-- What a token does where a value may come. -/
def stepValue (t : Token) (stack : List Open) : Option (List Open × Expected) :=
  match t with
  | .scalar v => some (deliver v stack)
  | .string cs => some (deliver (.string (String.ofList cs)) stack)
  | .openArray => openContainer (.array []) .itemOrEnd stack
  | .openObject => openContainer (.object []) .keyOrEnd stack
  | _ => none

/-- What a token does where a key may come. -/
def stepKey (t : Token) (stack : List Open) : Option (List Open × Expected) :=
  match t, stack with
  | .string cs, .object members :: outer =>
    some (.member members (String.ofList cs) :: outer, .colon)
  | _, _ => none

/-- What a token does where the innermost container may end. -/
def stepEnd (t : Token) (stack : List Open) : Option (List Open × Expected) :=
  match t, stack with
  | .closeArray, .array items :: outer => some (deliver (.array items.reverse) outer)
  | .closeObject, .object members :: outer => some (deliver (.object members) outer)
  | _, _ => none

/-- What a token does, if it may come. -/
def step (t : Token) (stack : List Open) : Expected → Option (List Open × Expected)
  | .value => stepValue t stack
  | .itemOrEnd => (stepEnd t stack).or (stepValue t stack)
  | .keyOrEnd => (stepEnd t stack).or (stepKey t stack)
  | .key => stepKey t stack
  | .colon => match t with
    | .colon => some (stack, .value)
    | _ => none
  | .next => match t, stack with
    | .comma, .array _ :: _ => some (stack, .value)
    | .comma, .object _ :: _ => some (stack, .key)
    | t, stack => stepEnd t stack
  | .done _ => none

/-- Reads tokens to their end. -/
def run : List Token → List Open → Expected → Option Value
  | [], [], .done v => some v
  | [], _, _ => none
  | t :: ts, stack, expected =>
    match step t stack expected with
    | none => none
    | some (stack, expected) => run ts stack expected

/-- The value of a JSON text. -/
def Value.read? (text : String) : Option Value :=
  (tokens text.toList).bind fun ts => run ts [] .value

end SheetFill.Json
