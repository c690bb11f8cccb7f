import SheetFill.Cell.Body
import SheetFill.Text.Alphanumeric

/-!
# Filters of a cell

A cell text may be followed by filters, such as `~pad($g.width$, 0)`: a name and arguments in
parentheses, each argument a cell body of its own. Filters are not run here. A cell's filters are
resolved to invocations, whose arguments are plain texts, and whoever writes the sheet applies them.

## Main definitions

* `FilterCall.parse` — one filter.
* `FilterCall.invoke` — its invocation in a scope.
-/

namespace SheetFill.Cell

open Text

/-- A filter as it is written in a cell. -/
structure FilterCall where
  name : String
  args : List Body
  deriving DecidableEq, Repr

/-- A filter with its arguments resolved. -/
structure FilterInvocation where
  name : String
  args : List String
  deriving DecidableEq, Repr, Inhabited

namespace FilterCall

/-- May the character stand in a filter's name? -/
def isNameChar (c : Char) : Bool := isAlphanumeric c || c == '_'

/-- The text between an opening parenthesis at the start and a closing one at the end. -/
def unparenthesize : List Char → Option (List Char)
  | '(' :: cs => if cs.getLast? = some ')' then some cs.dropLast else none
  | _ => none

/-- Reads the arguments between the parentheses; commas inside spans do not separate. -/
def parseArgs (inner : List Char) : Except FillError (List Body) :=
  if allBlank inner then .ok []
  else (splitOutside ',' inner).mapM fun arg => Body.parse (String.ofList (trim arg))

/-- Reads a filter; blanks around it are ignored. -/
def parse (cs : List Char) : Except FillError FilterCall :=
  let text := trim cs
  let name := text.takeWhile isNameChar
  if name.isEmpty then .error (.malformed (String.ofList text) .missingFilterName)
  else match unparenthesize (trimStart (text.dropWhile isNameChar)) with
    | none => .error (.malformed (String.ofList text) .missingParentheses)
    | some inner => do
      let args ← parseArgs inner
      return { name := String.ofList name, args }

section Value

variable {σ ν : Type} [Lookup σ ν]

/-- The filter with its arguments resolved in a scope. -/
def invoke (f : FilterCall) (s : σ) : FilterInvocation :=
  { name := f.name, args := f.args.map fun arg => arg.value s true }

end Value

end FilterCall

end SheetFill.Cell
