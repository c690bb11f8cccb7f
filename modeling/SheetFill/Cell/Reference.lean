import SheetFill.Cell.Span
import SheetFill.Error
import SheetFill.Scope
import SheetFill.Text.Cut

/-!
# References: a chain of alternatives

The body of a reference is a list of alternatives separated by bars, tried from left to right. An
alternative is a path of elements separated by dots: the last element is a key, the elements before it
the location that has it. A dot directly after an at sign belongs to its element, so keys such as
`@.id` can be named.

An alternative of one element refers to no data: it stands for its own text, and closes the chain with
a literal.

## Main definitions

* `Alternative.parse`, `Reference.parse` — the grammar, with the first fault from the left.
* `Reference.maxLocation` — the deepest location of the chain, by which a group iterates.
* `Reference.value` — the first alternative that yields a text.
-/

namespace SheetFill.Cell

open Text

/-- The key of an alternative that stands for its own text. -/
def selfKey : String := "."

/-- One alternative of a reference. -/
structure Alternative where
  /-- The elements before the key, joined by slashes. -/
  location : String
  key : String
  deriving DecidableEq, Repr, Inhabited

/-- A parsed reference: a chain of at least one alternative. -/
structure Reference where
  mode : Mode
  /-- The body without blanks around it. -/
  source : String
  first : Alternative
  rest : List Alternative
  deriving DecidableEq, Repr, Inhabited

namespace Alternative

/-- Does the alternative stand for its own text? -/
def isSelf (a : Alternative) : Bool := a.key == selfKey

/-- The number of slashes in the location. -/
def depth (a : Alternative) : Nat := a.location.toList.count '/'

/-- The pieces of a text between the dots that do not directly follow an at sign. -/
def elementsFrom (afterAt : Bool) : List Char → List (List Char)
  | [] => [[]]
  | c :: cs =>
    if c = '.' ∧ afterAt = false then [] :: elementsFrom false cs
    else match elementsFrom (c == '@') cs with
      | [] => [[c]]
      | element :: elements => (c :: element) :: elements

/-- The elements of a path. -/
def elements (segment : List Char) : List (List Char) := elementsFrom false segment

/-- Reads one alternative, already trimmed. -/
def parse (segment : List Char) : Except SyntaxFault Alternative :=
  if segment.isEmpty then .error .emptyAlternative
  else if (elements segment).any allBlank then .error .emptyElement
  else match (elements segment).reverse with
    | key :: element :: front =>
      .ok {
        location := String.ofList (joinWith ['/'] ((element :: front).reverse.map trim))
        key := String.ofList (trim key) }
    | _ => .ok { location := String.ofList segment, key := selfKey }

end Alternative

namespace Reference

/-- All alternatives, in the order in which they are tried. -/
def alternatives (r : Reference) : List Alternative := r.first :: r.rest

/-- Reads the body of a reference. A blank plain body stands for the empty text. -/
def parse (mode : Mode) (body : List Char) : Except FillError Reference :=
  if mode = .plain ∧ allBlank body = true then
    .ok { mode, source := "", first := { location := "", key := selfKey }, rest := [] }
  else match (cut '|' body).mapM fun segment => Alternative.parse (trim segment) with
    | .error fault => .error (.malformed (String.ofList body) fault)
    | .ok [] => .error (.malformed (String.ofList body) .emptyAlternative)
    | .ok (first :: rest) => .ok { mode, source := String.ofList (trim body), first, rest }

/-- Is it a group reference? -/
def isGroup (r : Reference) : Bool := r.mode == .group

/-- Is the text `no`, whatever the case of its letters? -/
def isNo (cs : List Char) : Bool := cs.map Char.toLower == ['n', 'o']

/-- Does the reference stand for the number of the row, as `#no#` and `#items.no#` do? -/
def isRowNumber (r : Reference) : Bool :=
  r.isGroup &&
    (isNo ((cut '/' r.first.location.toList).headD []) ||
      (!r.first.isSelf && isNo r.first.key.toList))

/-- The word that ends a group, if the reference is one: its first location is `end` or `grow`. -/
def endWord? (r : Reference) : Option String :=
  if r.first.location = "end" ∨ r.first.location = "grow" then some r.first.location else none

/-- The deepest of the locations; of equally deep ones the first. -/
def maxLocation (r : Reference) : String :=
  (r.rest.foldl (fun best a => if best.depth < a.depth then a else best) r.first).location

section Value

variable {σ ν : Type} [Lookup σ ν]

/-- The text of the first alternative that has one. -/
def firstText (s : σ) (search : Bool) : List Alternative → String
  | [] => ""
  | a :: rest =>
    if a.isSelf then a.location
    else
      let text := Lookup.text s a.location a.key search
      if text.isEmpty then firstText s search rest else text

/-- The text that a reference stands for. -/
def value (r : Reference) (s : σ) (search : Bool) : String := firstText s search r.alternatives

end Value

end Reference

end SheetFill.Cell
