import SheetFill.Json.Value
import SheetFill.Text.Cut

/-!
# JSON pointers

A pointer names a place in a document by the steps that lead to it from the root: keys of objects and
indices of arrays. In its text every step follows a slash; a slash inside a step is written `~1`, and a
tilde `~0`. The empty text names the root. A text that is not empty and does not start with a slash is
malformed and names nothing.

An index is written in digits without a sign and without leading zeros.

## Main definitions

* `Pointer.ofText`, `Pointer.text` — the text of a pointer; every text is the text of one.
* `Pointer.key`, `Pointer.index` — one step further.
* `Pointer.resolve` — the value at the place, if there is one.
-/

namespace SheetFill.Json

open Text

/-- A place in a document. -/
inductive Pointer where
  /-- The steps from the root, as they are written. -/
  | steps (tokens : List (List Char))
  | malformed (text : String)
  deriving DecidableEq, Repr, Inhabited

namespace Pointer

/-- The root of a document. -/
def root : Pointer := .steps []

/-- The pointer with the given text. -/
def ofText (text : String) : Pointer :=
  match text.toList with
  | [] => .root
  | c :: cs => if c = '/' then .steps (cut '/' cs) else .malformed text

/-- The text of a pointer. -/
def text : Pointer → String
  | .steps tokens => String.ofList (tokens.flatMap ('/' :: ·))
  | .malformed text => text

/-! ## Steps -/

/-- A key as it is written in a step. -/
def escapeStep (key : List Char) : List Char :=
  key.flatMap fun c => if c = '~' then ['~', '0'] else if c = '/' then ['~', '1'] else [c]

/-- Replaces every `~d` by `c`. -/
def unescapeWith (d c : Char) : List Char → List Char
  | [] => []
  | [x] => [x]
  | x :: y :: rest =>
    if x = '~' ∧ y = d then c :: unescapeWith d c rest else x :: unescapeWith d c (y :: rest)

/-- The key that a step stands for. -/
def unescapeStep (token : List Char) : List Char :=
  unescapeWith '0' '~' (unescapeWith '1' '/' token)

/-- The index that a step stands for. -/
def stepIndex? (token : List Char) : Option Nat :=
  if token.isEmpty || token.any (fun c => !c.isDigit) then none
  else if token.head? = some '0' ∧ token.length ≠ 1 then none
  else some (digitsValue token)

/-- One step further. A malformed pointer stays malformed. -/
def push (p : Pointer) (token : List Char) : Pointer :=
  match p with
  | .steps tokens => .steps (tokens ++ [token])
  | .malformed text => .malformed (text ++ String.ofList ('/' :: token))

/-- The place of a member. -/
def key (p : Pointer) (k : String) : Pointer := p.push (escapeStep k.toList)

/-- The place of an item. -/
def index (p : Pointer) (i : Nat) : Pointer := p.push (decimalDigits i)

/-! ## Resolution -/

/-- The value one step below a value. -/
def child? (v : Value) (token : List Char) : Option Value :=
  match v with
  | .object _ => v.member? (String.ofList (unescapeStep token))
  | .array items => (stepIndex? (unescapeStep token)).bind fun i => items[i]?
  | _ => none

/-- The value some steps below a value. -/
def descend (v : Value) : List (List Char) → Option Value
  | [] => some v
  | token :: tokens => (child? v token).bind fun w => descend w tokens

/-- The value at the place in a document. -/
def resolve (p : Pointer) (document : Value) : Option Value :=
  match p with
  | .steps tokens => descend document tokens
  | .malformed _ => none

end Pointer

end SheetFill.Json
