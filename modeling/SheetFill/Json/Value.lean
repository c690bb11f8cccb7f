import SheetFill.Json.Number

/-!
# JSON values

A JSON value is a nested value over texts and numbers. The members of an object are a list; a value
that was read has them by ascending keys, without repetition, and a value that is to be written may
have them in any order.
-/

namespace SheetFill.Json

/-- A JSON value. -/
inductive Value where
  | null
  | bool (b : Bool)
  | number (n : Number)
  | string (s : String)
  | array (items : List Value)
  | object (members : List (String × Value))
  deriving Repr, Inhabited

namespace Value

/-- Puts a member in its place among members by ascending keys; one of the same key is replaced. -/
def insertMember (key : String) (value : Value) : List (String × Value) → List (String × Value)
  | [] => [(key, value)]
  | (k, v) :: members =>
    if key = k then (key, value) :: members
    else if key < k then (key, value) :: (k, v) :: members
    else (k, v) :: insertMember key value members

/-- The value of a key among members. -/
def lookup (key : String) : List (String × Value) → Option Value
  | [] => none
  | (k, v) :: members => if k = key then some v else lookup key members

/-- The member of an object. -/
def member? (key : String) : Value → Option Value
  | .object members => lookup key members
  | _ => none

/-- Does the object have the key? -/
def hasMember (key : String) (v : Value) : Bool := (v.member? key).isSome

/-- The text of a scalar. A null and a container have none, which shows as the empty text. -/
def scalarText : Value → String
  | .string s => s
  | .number n => n.text
  | .bool true => "true"
  | .bool false => "false"
  | .null | .array _ | .object _ => ""

end Value

end SheetFill.Json
