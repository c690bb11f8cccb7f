import SheetFill.Cell.Reference

/-!
# Cell bodies: literal text with references in it

The body of a cell is read once into its parts. What the cell does in its sheet follows from its first
group reference: with none it is an ordinary cell, otherwise it ends a group if that reference is an
end word, and starts one if not.

## Main definitions

* `Body.parse` — the parts of a text.
* `Body.fill` — the text with given values in place of the references.
* `Body.value` — the text with the references resolved in a scope.
* `Ending` — the two ways to end a group.
-/

namespace SheetFill.Cell

/-- What happens to rows beyond those that a group reserves. -/
inductive Ending where
  /-- They are dropped. -/
  | fixed
  /-- Rows are inserted for them. -/
  | grow
  deriving DecidableEq, Repr, Inhabited

namespace Ending

/-- The word that ends a group this way. -/
def word : Ending → String
  | .fixed => "end"
  | .grow => "grow"

/-- The ending that a word stands for; case matters. -/
def ofWord? (word : String) : Option Ending :=
  if word = "end" then some .fixed else if word = "grow" then some .grow else none

/-- The name of the ending. -/
def name : Ending → String
  | .fixed => "fixed"
  | .grow => "grow"

end Ending

/-- A part of a cell body. -/
inductive Part where
  | literal (text : String)
  | slot (reference : Reference)
  deriving DecidableEq, Repr

namespace Part

/-- The reference in a slot. -/
def reference? : Part → Option Reference
  | .literal _ => none
  | .slot reference => some reference

/-- Reads a token. -/
def ofToken : Token → Except FillError Part
  | .text chars => .ok (.literal (String.ofList chars))
  | .reference mode body => (Reference.parse mode body).map .slot

end Part

/-- A cell text and its parts. -/
structure Body where
  raw : String
  parts : List Part
  deriving DecidableEq, Repr

namespace Body

/-- Reads a cell text; the leftmost faulty reference is reported. -/
def parse (text : String) : Except FillError Body := do
  let parts ← (tokenize text.toList).mapM Part.ofToken
  return { raw := text, parts }

/-- The references, in order. -/
def references (b : Body) : List Reference := b.parts.filterMap Part.reference?

/-- Has the cell no references? -/
def isConst (b : Body) : Bool := b.references.isEmpty

/-- The reference that decides what the cell does: the first group reference. -/
def firstGroup? (b : Body) : Option Reference := b.references.find? Reference.isGroup

/-- Does the cell take part in a group? -/
def isGroup (b : Body) : Bool := b.firstGroup?.isSome

/-- Does the cell start a group? -/
def isGroupStart (b : Body) : Bool :=
  match b.firstGroup? with
  | none => false
  | some r => r.endWord?.isNone

/-- Does the cell hold the row number, and nothing else? -/
def isRowNumber (b : Body) : Bool :=
  match b.references with
  | [only] => only.isRowNumber
  | _ => false

/-- How the cell ends a group, if it does. -/
def ending? (b : Body) : Option Ending :=
  if b.isGroup && !b.isGroupStart then
    b.firstGroup?.bind fun r => r.endWord?.bind Ending.ofWord?
  else none

/-- The location that the cell belongs to: that of its first group reference, or of its first one. -/
def maxLocation (b : Body) : String :=
  match b.firstGroup? with
  | some r => r.maxLocation
  | none => match b.references with
    | r :: _ => r.maxLocation
    | [] => ""

/-- Writes the values into the slots, from left to right. -/
def fillParts : List Part → List String → String
  | [], _ => ""
  | .literal text :: parts, values => text ++ fillParts parts values
  | .slot _ :: parts, [] => fillParts parts []
  | .slot _ :: parts, v :: values => v ++ fillParts parts values

/-- The text with the values in its slots. A text without slots takes no notice of them. -/
def fill (b : Body) (values : List String) : Except FillError String :=
  if b.references.isEmpty then .ok (fillParts b.parts [])
  else if values.length = b.references.length then .ok (fillParts b.parts values)
  else .error (.structural (.valueCount b.raw b.references.length values.length))

section Value

variable {σ ν : Type} [Lookup σ ν]

/-- The text in a scope. Cells of a group see bound nodes only, whatever search is allowed. -/
def value (b : Body) (s : σ) (search : Bool) : String :=
  fillParts b.parts (b.references.map fun r => r.value s (search && !b.isGroup))

end Value

end Body

end SheetFill.Cell
