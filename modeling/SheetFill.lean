import SheetFill.Json.Document
import SheetFill.Output.Filters
import SheetFill.Proofs.Cell.Alternatives
import SheetFill.Proofs.Cell.Writing
import SheetFill.Proofs.Group.Abandoned
import SheetFill.Proofs.Group.Expansion
import SheetFill.Proofs.Group.LexicalRows
import SheetFill.Proofs.Group.Literals
import SheetFill.Proofs.Group.TierOrder
import SheetFill.Proofs.Group.Vacancies
import SheetFill.Proofs.Json.Bracket
import SheetFill.Proofs.Json.Environment
import SheetFill.Proofs.Json.Layering
import SheetFill.Proofs.Json.Queries
import SheetFill.Proofs.Json.StackRemovals
import SheetFill.Proofs.Output.ReadBack
import SheetFill.Proofs.Output.SheetNames
import SheetFill.Proofs.Output.XmlReadBack
import SheetFill.Proofs.Template.Clearings
import SheetFill.Proofs.Template.Collisions
import SheetFill.Proofs.Template.Completion
import SheetFill.Proofs.Template.GroupWrites
import SheetFill.Proofs.Template.Isolation
import SheetFill.Proofs.Template.KnownFilters
import SheetFill.Proofs.Template.Placement
import SheetFill.Proofs.Template.Siblings
import SheetFill.Proofs.Template.WellMatched
import SheetFill.Template.Parameters
import SheetFill.Workbook.Compile
import SheetFill.Proofs.Cell.A1Notation
import SheetFill.Proofs.Output.RecordHistory
import SheetFill.Proofs.Output.Streams
import SheetFill.Proofs.Json.Scalars
import SheetFill.Proofs.Template.ParameterReads
import SheetFill.Proofs.Template.NullItems
