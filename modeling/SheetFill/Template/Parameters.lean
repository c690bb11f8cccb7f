import SheetFill.Template.Plan

/-!
# Direct parameters

Values that a caller passes besides the data proper stand at the location `g`. The direct parameters of
a plan are the keys under `g` that its cells outside groups refer to, in their bodies or in the
arguments of their filters.
-/

namespace SheetFill.Template

open Cell

/-- The location of the values that a caller passes. -/
def parameterLocation : String := "g"

/-- The key of an alternative that refers to a parameter. -/
def parameter? (a : Alternative) : Option String :=
  if a.location = parameterLocation ∧ a.isSelf = false then some a.key else none

/-- The parameters that a formula refers to. -/
def parametersOf (f : Formula) : List String :=
  let bodies := f.body :: f.filters.flatMap (·.args)
  let alternatives := (bodies.flatMap Body.references).flatMap Reference.alternatives
  alternatives.filterMap parameter?

/-- The parameters that the cells outside groups refer to, ascending and without repetition. -/
def Plan.parameters (p : Plan) : List String :=
  let all := (p.sheets.flatMap (·.flat)).flatMap fun c => parametersOf c.formula
  (Order.inOrder (fun a b => decide (a ≤ b)) all).eraseDups

end SheetFill.Template
