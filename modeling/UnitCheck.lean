import UnitCheck.AllowedUnits
import UnitCheck.CommandLine.Arguments
import UnitCheck.CommandLine.Command
import UnitCheck.CommandLine.Run
import UnitCheck.Context
import UnitCheck.Conversion
import UnitCheck.Dimension
import UnitCheck.Expr.Basic
import UnitCheck.Expr.Literal
import UnitCheck.Expr.ValueType
import UnitCheck.Expr.Walk
import UnitCheck.Factor.Basic
import UnitCheck.Factor.Checked
import UnitCheck.Factor.Reader
import UnitCheck.Factor.Terms
import UnitCheck.FilterError
import UnitCheck.Json.Number
import UnitCheck.Json.Reader
import UnitCheck.Json.Record
import UnitCheck.Json.Text
import UnitCheck.Json.Value
import UnitCheck.Json.Writer
import UnitCheck.Main
import UnitCheck.Method
import UnitCheck.Number.Binary
import UnitCheck.Number.Decimal
import UnitCheck.Number.Float
import UnitCheck.Number.Notation
import UnitCheck.Number.Reader
import UnitCheck.Number.Shortest
import UnitCheck.Parser.Action
import UnitCheck.Parser.Expression
import UnitCheck.Parser.Literal
import UnitCheck.Proofs.Chains
import UnitCheck.Proofs.Grammar
import UnitCheck.Proofs.Legible
import UnitCheck.Proofs.Lexing
import UnitCheck.Proofs.NodeUnit
import UnitCheck.Proofs.Literal
import UnitCheck.Proofs.Number.Decimal
import UnitCheck.Proofs.Number.Float
import UnitCheck.Proofs.Number.Nearest
import UnitCheck.Proofs.Number.Notation
import UnitCheck.Proofs.Number.Shortest
import UnitCheck.Proofs.Numeral
import UnitCheck.Proofs.Parser.Action
import UnitCheck.Proofs.Parser.Completeness
import UnitCheck.Proofs.Parser.Literal
import UnitCheck.Proofs.Parser.Soundness
import UnitCheck.Proofs.Parser.Steps
import UnitCheck.Proofs.Quotation
import UnitCheck.Proofs.Rendering
import UnitCheck.Proofs.Rereading
import UnitCheck.Proofs.Resolution
import UnitCheck.Proofs.Scanning
import UnitCheck.Proofs.Sentences
import UnitCheck.Proofs.Walk
import UnitCheck.Proofs.Words
import UnitCheck.Quantity
import UnitCheck.Registry.Basic
import UnitCheck.Registry.Configuration
import UnitCheck.Registry.Convert
import UnitCheck.Registry.International
import UnitCheck.Resolution
import UnitCheck.Text.Alphabetic
import UnitCheck.Text.Blank
import UnitCheck.Text.Escape
import UnitCheck.Text.Numeric
import UnitCheck.Text.Span
import UnitCheck.Token.Basic
import UnitCheck.Token.Lexer
import UnitCheck.Token.Numeral
import UnitCheck.UnitError
import UnitCheck.Proofs.RoundTrip
import UnitCheck.Proofs.Conversion
import UnitCheck.Proofs.Dimension
import UnitCheck.Proofs.Height
import UnitCheck.Proofs.Registry.Coherence
import UnitCheck.Proofs.Factor.Powers
import UnitCheck.Proofs.Factor.Arithmetic
import UnitCheck.Proofs.Factor.Substitution
import UnitCheck.Proofs.Registry.Canonical
import UnitCheck.Proofs.Registry.BaseUnits
import UnitCheck.Proofs.Registry.Equivalence
import UnitCheck.Proofs.Registry.NormalForm
import UnitCheck.Proofs.Registry.Acceptance
import UnitCheck.Proofs.Registry.Configuration
import UnitCheck.Proofs.Registry.Inclusion
import UnitCheck.Proofs.Registry.Order
import UnitCheck.Proofs.Factor.Spelling
import UnitCheck.Proofs.Registry.EntryOrder
import UnitCheck.Proofs.Registry.Spelling
import UnitCheck.Proofs.Parser.Numbering
import UnitCheck.Proofs.Parser.Validation
import UnitCheck.Proofs.Places
import UnitCheck.Proofs.Registry.Failures
import UnitCheck.Proofs.Symbols
import UnitCheck.Proofs.NumberToken
import UnitCheck.Proofs.Registry.Scales
import UnitCheck.Proofs.Factor.Text
import UnitCheck.Proofs.UnitTexts
import UnitCheck.Proofs.Registry.Stored
import UnitCheck.Proofs.Number.Order
import UnitCheck.Proofs.Factor.Capped
import UnitCheck.Proofs.Spacing
import UnitCheck.Proofs.Factor.Checked
import UnitCheck.Proofs.Iteration
import UnitCheck.Proofs.Products
import UnitCheck.Proofs.Parser.Depth
import UnitCheck.Proofs.Parser.Deeper
import UnitCheck.Proofs.Enclosed
import UnitCheck.Proofs.Number.Signed
import UnitCheck.Proofs.Quantity
import UnitCheck.Proofs.Visits
import UnitCheck.Proofs.Parser.Watched
import UnitCheck.Proofs.Parser.Nesting
import UnitCheck.Proofs.Parser.Discipline
