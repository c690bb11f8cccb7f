import SheetFill.Error
import SheetFill.Text.Blank

/-!
# Settings

How templates are read and output is written. Settings are validated once; what is found first is
reported: an unusable filter separator, a nesting limit of zero, a size limit of zero.
-/

namespace SheetFill

/-- The formats in which output sheets are written. -/
inductive Format where
  | json
  | xml
  deriving DecidableEq, Repr, Inhabited

/-- How templates are read and output is written. -/
structure Settings where
  /-- The character between a cell body and its filters. -/
  separator : Char
  /-- The largest number of tiers of a group. -/
  maxDepth : Nat
  /-- The filters that templates may use, where that is restricted. -/
  knownFilters : Option (List String)
  /-- Are sheet names cut to length and made unique? -/
  normalizeNames : Bool
  /-- The largest size of a template file in bytes. -/
  maxTemplateSize : Nat
  format : Format
  deriving DecidableEq, Repr

namespace Settings

/-- The settings that hold unless something else is asked for. -/
def default : Settings :=
  { separator := '~', maxDepth := 16, knownFilters := none, normalizeNames := true,
    maxTemplateSize := 268435456, format := .json }

/-- The characters with a meaning of their own in cell texts. -/
def reservedChars : List Char := ['$', '#', '|', ',', '(', ')']

/-- Can the character separate filters? -/
def isSeparator (c : Char) : Bool := !(Text.isBlank c || reservedChars.contains c)

/-- The settings, if they make sense. -/
def validate (s : Settings) : Except ConfigFault Settings :=
  if !isSeparator s.separator then .error (.invalidSeparator s.separator)
  else if s.maxDepth = 0 then .error .noNesting
  else if s.maxTemplateSize = 0 then .error .noTemplateSize
  else .ok s

end Settings

end SheetFill
