import Worksheet.Action.Apply
import Worksheet.Action.Check
import Worksheet.Action.Json
import Worksheet.Calculator
import Worksheet.Formula.Error.Json
import Worksheet.Formula.Sandbox
import Worksheet.Main
import Worksheet.Outcome
import Worksheet.Program
import Worksheet.Storage.Session
import Worksheet.Proofs.Lookup
import Worksheet.Proofs.Sheet.Step
import Worksheet.Proofs.Sheet.TagCache
import Worksheet.Proofs.Calculator.Cache
import Worksheet.Proofs.Calculator.Transparent
import Worksheet.Proofs.Calculator.Reruns
import Worksheet.Proofs.Sheet.Frame
import Worksheet.Proofs.Storage.Operation
import Worksheet.Proofs.Storage.Queue
import Worksheet.Proofs.Storage.Replica
import Worksheet.Proofs.Decimal.Notation
import Worksheet.Proofs.Decimal.Rounding
import Worksheet.Proofs.Text.Trimmed
import Worksheet.Proofs.Formula.Name
import Worksheet.Proofs.Formula.TextLiteral
import Worksheet.Proofs.Decimal.ReadBack
import Worksheet.Proofs.Formula.Cutting
import Worksheet.Proofs.Formula.NumberLiteral
import Worksheet.Proofs.Formula.Datum
import Worksheet.Proofs.Formula.Declaration
import Worksheet.Proofs.Formula.Encoding
import Worksheet.Proofs.Formula.RowData
import Worksheet.Proofs.Storage.Course
import Worksheet.Proofs.Storage.Order
import Worksheet.Proofs.Storage.Delivery
import Worksheet.Proofs.Storage.Pending
import Worksheet.Proofs.Storage.Sending
import Worksheet.Proofs.Storage.Journal
import Worksheet.Proofs.Formula.ScriptLines
import Worksheet.Proofs.Sheet.Skeleton
import Worksheet.Proofs.Sheet.Reach
import Worksheet.Proofs.Sheet.EditOrder
import Worksheet.Proofs.Sheet.Independent
import Worksheet.Proofs.Sheet.Inert
import Worksheet.Proofs.Sheet.Reuse
import Worksheet.Proofs.Calculator.Inert
import Worksheet.Proofs.Decimal.Range
import Worksheet.Proofs.Json.Text
import Worksheet.Proofs.Json.ReadBack
import Worksheet.Proofs.Json.Reordered
import Worksheet.Proofs.Stamp.Notation
import Worksheet.Proofs.Sheet.Json
import Worksheet.Proofs.Action.Json
import Worksheet.Proofs.Formula.Lexeme
import Worksheet.Proofs.Formula.ExpressionText
import Worksheet.Proofs.Formula.Header
import Worksheet.Proofs.Formula.Returning
import Worksheet.Proofs.Formula.UserTokens
import Worksheet.Proofs.Formula.Position
import Worksheet.Proofs.Action.Check
import Worksheet.Proofs.Action.FreshOption
import Worksheet.Proofs.Sheet.Options
import Worksheet.Proofs.Sheet.Tags
import Worksheet.Proofs.Sheet.TagRename
import Worksheet.Proofs.Formula.Comments
import Worksheet.Proofs.Formula.ValueLine
import Worksheet.Proofs.Sheet.Splitting
import Worksheet.Proofs.Decimal.Canonical
import Worksheet.Proofs.Sheet.NumberCells
import Worksheet.Proofs.Formula.NumberShown
import Worksheet.Proofs.Formula.Running
import Worksheet.Proofs.Formula.Library
import Worksheet.Proofs.Formula.Searching
import Worksheet.Proofs.Formula.Addressing
import Worksheet.Proofs.Formula.Opening
import Worksheet.Proofs.Formula.Keeping
import Worksheet.Proofs.Formula.Tables
import Worksheet.Proofs.Formula.ColumnCalls
import Worksheet.Proofs.Formula.Dropdowns
import Worksheet.Proofs.Formula.Identifier
import Worksheet.Proofs.Formula.Variables
import Worksheet.Proofs.Sheet.TagText
import Worksheet.Proofs.Calculator.Overlay
import Worksheet.Proofs.Storage.Listing
import Worksheet.Proofs.Sheet.Undoing
import Worksheet.Proofs.Formula.ErrorPlace
import Worksheet.Proofs.Program.Report
