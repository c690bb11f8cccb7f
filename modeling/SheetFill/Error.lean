import SheetFill.Coordinate

/-!
# Failures

Everything that can go wrong is a value of `FillError`, by cause. A cause keeps what its message
quotes, so the wording is settled in one place, by the `message` functions of this module.

Missing data is not a failure: a path that leads nowhere gives the empty text, or no nodes.
-/

namespace SheetFill

open Text

/-- Why a reference or a filter inside a cell text cannot be read. -/
inductive SyntaxFault where
  /-- One of the alternatives between the bars is blank. -/
  | emptyAlternative
  /-- A path has a blank element between its dots. -/
  | emptyElement
  /-- A filter starts with no name. -/
  | missingFilterName
  /-- A filter's name is not followed by arguments in parentheses. -/
  | missingParentheses
  deriving DecidableEq, Repr

/-- Why a template sheet is refused. -/
inductive TemplateFault where
  /-- A reference or filter cannot be read. -/
  | malformed (text : String) (fault : SyntaxFault)
  /-- A filter is none of the known ones. -/
  | unknownFilter (name : String)
  /-- A cell belongs to a group and neither starts nor ends one. -/
  | unrecognizedEnd
  /-- A group end stands in a column where no group is open. -/
  | unmatchedEnd (raw : String)
  /-- A group iterates over more locations than allowed. -/
  | nestingTooDeep (depth max : Nat)
  /-- A group starts in the column where another one is still open. -/
  | columnPending (start : Coordinate)
  /-- A group starts while another one is still open elsewhere. -/
  | overlap (start : Coordinate)
  /-- A group has no end. -/
  | unclosedStart
  deriving DecidableEq, Repr

/-- Where in a template sheet a fault was found. -/
inductive Place where
  | sheetName
  | cell (position : Coordinate)
  deriving DecidableEq, Repr

/-- What breaks the structure of a template or of a document. -/
inductive StructuralFault where
  /-- A text is no cell reference. -/
  | coordinate (fault : CoordinateFault)
  /-- A cell text was given too many or too few values. -/
  | valueCount (raw : String) (expected got : Nat)
  /-- Rows are inserted before rows that were inserted earlier. -/
  | boundaryOrder (boundary last : Nat)
  /-- More rows are inserted than a sheet can have. -/
  | insertedRowsOverflow
  /-- A fault described by whoever found it. -/
  | other (text : String)
  deriving DecidableEq, Repr

/-- Why a configuration is refused. -/
inductive ConfigFault where
  | invalidSeparator (separator : Char)
  | noNesting
  | noTemplateSize
  deriving DecidableEq, Repr

/-- Whatever can go wrong between reading a template and writing the instructions. -/
inductive FillError where
  /-- Reading or writing failed. -/
  | io (text : String)
  /-- The bytes are no spreadsheet. -/
  | workbook
  /-- A template sheet is refused. -/
  | template (sheet : String) (place : Place) (fault : TemplateFault)
  /-- A reference or filter cannot be read, and its cell is not known. -/
  | malformed (text : String) (fault : SyntaxFault)
  /-- The structure of a template or of a document is broken. -/
  | structural (fault : StructuralFault)
  /-- The configuration is refused. -/
  | config (fault : ConfigFault)
  /-- The data is no JSON document, or a JSON document could not be written. -/
  | json
  /-- An XML document could not be written. -/
  | xml
  /-- A filter is not registered. -/
  | unknownFilter (name : String)
  /-- The template file is too large. -/
  | templateTooLarge (size max : Nat)
  deriving DecidableEq, Repr

namespace SyntaxFault

def message : SyntaxFault → String
  | .emptyAlternative => "empty fallback alternative"
  | .emptyElement => "empty path element"
  | .missingFilterName => "missing filter name"
  | .missingParentheses => "filter arguments must be enclosed in parentheses"

end SyntaxFault

namespace TemplateFault

def message : TemplateFault → String
  | .malformed text fault => fault.message ++ " in '" ++ text ++ "'"
  | .unknownFilter name => "Unknown filter '" ++ name ++ "'"
  | .unrecognizedEnd => "Unrecognized group terminator"
  | .unmatchedEnd raw => "Group end '" ++ raw ++ "' has no matching start"
  | .nestingTooDeep depth max =>
    "Group nesting depth " ++ decimal depth ++ " exceeds maximum of " ++ decimal max
  | .columnPending start => "Column already has a pending group started at " ++ start.toA1
  | .overlap start => "Group block overlaps the group started at " ++ start.toA1
  | .unclosedStart => "Group start has no matching end"

end TemplateFault

namespace Place

def text : Place → String
  | .sheetName => "name"
  | .cell position => position.toA1

end Place

namespace StructuralFault

def message : StructuralFault → String
  | .coordinate fault => fault.message
  | .valueCount raw expected got =>
    "Macro '" ++ raw ++ "' expects " ++ decimal expected ++ " values, got " ++ decimal got
  | .boundaryOrder boundary last =>
    "Row insertion at " ++ decimal boundary ++ " recorded after a later boundary " ++ decimal last
  | .insertedRowsOverflow => "Inserted row count overflow"
  | .other text => text

end StructuralFault

namespace ConfigFault

def message : ConfigFault → String
  | .invalidSeparator separator =>
    "Invalid filter separator: '" ++ String.singleton separator ++ "'"
  | .noNesting => "Max nesting depth must be at least 1"
  | .noTemplateSize => "Max template size must be greater than 0"

end ConfigFault

namespace FillError

/-- The message of a failure. What a file format reports in detail is left to its reader. -/
def message : FillError → Option String
  | .io text => some ("IO error: " ++ text)
  | .template sheet place fault =>
    some ("Template syntax error at sheet '" ++ sheet ++ "', cell " ++ place.text ++ ": " ++
      fault.message)
  | .malformed text fault => some ("Malformed macro '" ++ text ++ "': " ++ fault.message)
  | .structural fault => some ("Structural error: " ++ fault.message)
  | .config fault => some ("Configuration error: " ++ fault.message)
  | .unknownFilter name => some ("Unknown filter '" ++ name ++ "'")
  | .templateTooLarge size max =>
    some ("Template size " ++ decimal size ++ " bytes exceeds maximum of " ++ decimal max ++
      " bytes")
  | .workbook | .json | .xml => none

/-- Adds the place to a failure that does not know it yet; others stay as they are. -/
def located (sheet : String) (place : Place) : FillError → FillError
  | .malformed text fault => .template sheet place (.malformed text fault)
  | error => error

end FillError

end SheetFill
