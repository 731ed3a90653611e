import RecordQuery.Command.Arguments
import RecordQuery.Command.Help
import RecordQuery.Command.Run
import RecordQuery.Command.Settings
import RecordQuery.Csv.Row
import RecordQuery.Double.Arithmetic
import RecordQuery.Double.Basic
import RecordQuery.Double.Decimal
import RecordQuery.Double.Power
import RecordQuery.Double.Rounding
import RecordQuery.Expr.Basic
import RecordQuery.Expr.Calls
import RecordQuery.Expr.Evaluation
import RecordQuery.Expr.Literal
import RecordQuery.Expr.Parser
import RecordQuery.Expr.SyntaxError
import RecordQuery.Failure
import RecordQuery.Fault
import RecordQuery.Flow
import RecordQuery.Function.Basic
import RecordQuery.Function.Numeric
import RecordQuery.Function.Object
import RecordQuery.Function.Reduction
import RecordQuery.Function.Sequence
import RecordQuery.Function.Standard
import RecordQuery.Function.String
import RecordQuery.Json.Reader
import RecordQuery.Json.Token
import RecordQuery.Json.Writer
import RecordQuery.Log
import RecordQuery.Main
import RecordQuery.Number.Arithmetic
import RecordQuery.Number.Basic
import RecordQuery.Number.Order
import RecordQuery.Operator
import RecordQuery.Plan
import RecordQuery.Record.Basic
import RecordQuery.Record.Results
import RecordQuery.Row.Column
import RecordQuery.Row.Distinct
import RecordQuery.Row.Group
import RecordQuery.Row.Join
import RecordQuery.Row.Limit
import RecordQuery.Row.Reducer
import RecordQuery.Row.Sort
import RecordQuery.Text.Basic
import RecordQuery.Text.Case
import RecordQuery.Text.CaseTable
import RecordQuery.Text.Character
import RecordQuery.Text.Identifier
import RecordQuery.Text.IdentifierTable
import RecordQuery.Text.Lines
import RecordQuery.Text.Quoted
import RecordQuery.Text.Ranges
import RecordQuery.Text.Search
import RecordQuery.Text.Utf8
import RecordQuery.Token.Basic
import RecordQuery.Token.Scan
import RecordQuery.Value.Access
import RecordQuery.Value.Arithmetic
import RecordQuery.Value.Basic
import RecordQuery.Value.Comparison
import RecordQuery.Value.Display
import RecordQuery.Value.Fields
import RecordQuery.Value.Key
import RecordQuery.Value.Order
import RecordQuery.Value.Rank
import RecordQuery.Proofs.Attempt
import RecordQuery.Proofs.Command.Refusal
import RecordQuery.Proofs.Command.Replay
import RecordQuery.Proofs.Command.WellFormed
import RecordQuery.Proofs.Double.Decimal
import RecordQuery.Proofs.Double.Fraction
import RecordQuery.Proofs.Double.Integer
import RecordQuery.Proofs.Double.Nearest
import RecordQuery.Proofs.Double.Rounding
import RecordQuery.Proofs.Csv.Row
import RecordQuery.Proofs.Double.Text
import RecordQuery.Proofs.Double.Value
import RecordQuery.Proofs.Expr.Calls
import RecordQuery.Proofs.Expr.Completeness
import RecordQuery.Proofs.Expr.Grammar
import RecordQuery.Proofs.Expr.Integer
import RecordQuery.Proofs.Expr.Literal
import RecordQuery.Proofs.Expr.Lookahead
import RecordQuery.Proofs.Expr.Scope
import RecordQuery.Proofs.Expr.Soundness
import RecordQuery.Proofs.Expr.Source
import RecordQuery.Proofs.Expr.Spelling
import RecordQuery.Proofs.Expr.WellFormed
import RecordQuery.Proofs.Flow
import RecordQuery.Proofs.Function.Position
import RecordQuery.Proofs.Function.Reduction
import RecordQuery.Proofs.Function.Selection
import RecordQuery.Proofs.Function.String
import RecordQuery.Proofs.Function.Sum
import RecordQuery.Proofs.Function.WellFormed
import RecordQuery.Proofs.Json.Line
import RecordQuery.Proofs.Json.Number
import RecordQuery.Proofs.Json.Reader
import RecordQuery.Proofs.Json.RoundTrip
import RecordQuery.Proofs.Number.Arithmetic
import RecordQuery.Proofs.Number.Key
import RecordQuery.Proofs.Number.Order
import RecordQuery.Proofs.Plan.Outcome
import RecordQuery.Proofs.Plan.Refusal
import RecordQuery.Proofs.Plan.Start
import RecordQuery.Proofs.Plan.Started
import RecordQuery.Proofs.Plan.WellFormed
import RecordQuery.Proofs.Record.Failure
import RecordQuery.Proofs.Record.Names
import RecordQuery.Proofs.Record.Results
import RecordQuery.Proofs.Record.Row
import RecordQuery.Proofs.Record.WellFormed
import RecordQuery.Proofs.Row.Class
import RecordQuery.Proofs.Row.Column
import RecordQuery.Proofs.Row.Distinct
import RecordQuery.Proofs.Row.Exchange
import RecordQuery.Proofs.Row.Group
import RecordQuery.Proofs.Row.Join
import RecordQuery.Proofs.Row.Limit
import RecordQuery.Proofs.Row.Reducer
import RecordQuery.Proofs.Row.Reorder
import RecordQuery.Proofs.Row.Sort
import RecordQuery.Proofs.Row.Stable
import RecordQuery.Proofs.Row.WellFormed
import RecordQuery.Proofs.Text.Character
import RecordQuery.Proofs.Text.Decimal
import RecordQuery.Proofs.Text.Delimited
import RecordQuery.Proofs.Text.Identifier
import RecordQuery.Proofs.Text.Lines
import RecordQuery.Proofs.Text.Order
import RecordQuery.Proofs.Text.Quoted
import RecordQuery.Proofs.Text.Search
import RecordQuery.Proofs.Text.Stream
import RecordQuery.Proofs.Text.Utf8
import RecordQuery.Proofs.Token.Name
import RecordQuery.Proofs.Token.Spelling
import RecordQuery.Proofs.Value.Fields
import RecordQuery.Proofs.Value.Key
import RecordQuery.Proofs.Value.Lists
import RecordQuery.Proofs.Value.Objects
import RecordQuery.Proofs.Value.Order
import RecordQuery.Proofs.Value.Selection
import RecordQuery.Proofs.Row.Abbreviation
import RecordQuery.Proofs.Function.Integer
import RecordQuery.Proofs.Double.Quotient
import RecordQuery.Proofs.Function.Range
import RecordQuery.Proofs.Double.Error
import RecordQuery.Proofs.Double.RoundEven
import RecordQuery.Proofs.Double.Power
import RecordQuery.Proofs.Function.Round
import RecordQuery.Proofs.Function.LookUp
import RecordQuery.Proofs.Value.Merge
import RecordQuery.Proofs.Value.Slice
import RecordQuery.Proofs.Json.Grammar
import RecordQuery.Proofs.Record.Merge
import RecordQuery.Proofs.Json.Literal
import RecordQuery.Proofs.Expr.Comparison
import RecordQuery.Proofs.Value.Arithmetic
import RecordQuery.Proofs.Flow.Upstream
import RecordQuery.Proofs.Plan.Demand
import RecordQuery.Proofs.Command.Spelling
import RecordQuery.Proofs.Command.Line
import RecordQuery.Proofs.Text.Front
import RecordQuery.Proofs.Token.Front
import RecordQuery.Proofs.Token.Tiling
import RecordQuery.Proofs.Text.IdentifierForm
import RecordQuery.Proofs.Record.FieldName
