import SheetFill.Error
import SheetFill.Output.Sheet

/-!
# Applying filters

A filter turns a text and some arguments into a text, or fails. A `FilterSet` holds filters under
their names, by ascending names; registering a name again replaces its filter. The invocations of a
cell are applied to its value from left to right.

## Main definitions

* `FilterSet.register`, `FilterSet.apply`.
* `CellWrite.filtered` — the value after all filters of the cell.
* `upperCase`, `wrap`, `join`, `refuse` — a few filters to start from.
-/

namespace SheetFill.Output

open Cell

/-- A filter: its value and its arguments give a text, or a failure. -/
abbrev Filter := String → List String → Except FillError String

/-- Filters under their names, by ascending names. -/
structure FilterSet where
  entries : List (String × Filter)

namespace FilterSet

/-- No filters. -/
def empty : FilterSet := ⟨[]⟩

/-- Puts a filter in its place; a filter of the same name is replaced. -/
def insertEntry (name : String) (filter : Filter) : List (String × Filter) → List (String × Filter)
  | [] => [(name, filter)]
  | (n, f) :: entries =>
    if name = n then (name, filter) :: entries
    else if name < n then (name, filter) :: (n, f) :: entries
    else (n, f) :: insertEntry name filter entries

/-- Registers a filter. -/
def register (set : FilterSet) (name : String) (filter : Filter) : FilterSet :=
  ⟨insertEntry name filter set.entries⟩

/-- The registered names. -/
def names (set : FilterSet) : List String := set.entries.map (·.1)

/-- The filter of a name. -/
def get? (set : FilterSet) (name : String) : Option Filter :=
  (set.entries.find? fun entry => entry.1 == name).map (·.2)

/-- Is the name registered? -/
def contains (set : FilterSet) (name : String) : Bool := (set.get? name).isSome

/-- Applies the filter of a name. -/
def apply (set : FilterSet) (name value : String) (args : List String) : Except FillError String :=
  match set.get? name with
  | none => .error (.unknownFilter name)
  | some filter => filter value args

end FilterSet

/-- The value of a cell after its filters. -/
def CellWrite.filtered (c : CellWrite) (set : FilterSet) : Except FillError String :=
  c.filters.foldlM (fun value invocation => set.apply invocation.name value invocation.args) c.value

namespace Filter

/-- Turns the ASCII letters into capitals. -/
def upperCase : Filter := fun value _ => .ok (String.ofList (value.toList.map Char.toUpper))

/-- Puts the value between two arguments, or between brackets where they are missing. -/
def wrap : Filter := fun value args =>
  .ok ((args[0]?.getD "[") ++ value ++ (args[1]?.getD "]"))

/-- Puts the arguments behind the value. -/
def join : Filter := fun value args => .ok (value ++ ":" ++ ",".intercalate args)

/-- Fails on every value. -/
def refuse : Filter := fun value _ =>
  .error (.structural (.other ("filter failed on '" ++ value ++ "'")))

end Filter

end SheetFill.Output
