import DataLiteral.Text.Position
import DataLiteral.Text.Diff
import DataLiteral.Source
import DataLiteral.Expr.OfValue
import DataLiteral.Declaration.Constant
import DataLiteral.Declaration.TypeAlias
import DataLiteral.Recording
import DataLiteral.Proofs.Script.StringLiteral
import DataLiteral.Proofs.Quote.Escape
import DataLiteral.Proofs.Decimal.Numeral
import DataLiteral.Proofs.Script.Token
import DataLiteral.Proofs.Script.Lexing
import DataLiteral.Proofs.Quote.Scan
import DataLiteral.Proofs.Decimal.Notation
import DataLiteral.Proofs.Decimal.Shortest
import DataLiteral.Proofs.Number.Literal
import DataLiteral.Proofs.Expr.Reading
import DataLiteral.Proofs.Binary64.Rounding
import DataLiteral.Proofs.Decimal.Nearest
import DataLiteral.Proofs.Script.Evaluation
import DataLiteral.Proofs.Number.Value
import DataLiteral.Proofs.Value.Evaluation
import DataLiteral.Proofs.Json.Numeral
import DataLiteral.Proofs.Binary64.Closeness
import DataLiteral.Proofs.Expr.Restating
import DataLiteral.Proofs.Value.Prune
import DataLiteral.Proofs.Quote.Verbatim
import DataLiteral.Proofs.Script.Escaped
import DataLiteral.Proofs.Declaration.Documentation
import DataLiteral.Proofs.Quote.Meaning
import DataLiteral.Proofs.Json.Double
import DataLiteral.Proofs.Text.Position
import DataLiteral.Proofs.Json.Label
import DataLiteral.Proofs.Json.Shared
import DataLiteral.Proofs.Json.Integer
import DataLiteral.Proofs.Json.Spelling
import DataLiteral.Proofs.Json.Decoded
import DataLiteral.Proofs.Toml.Decoded
import DataLiteral.Proofs.Value.Complete
import DataLiteral.Proofs.Value.Decoded
import DataLiteral.Proofs.Json.Printed
import DataLiteral.Proofs.Quote.Agreement
import DataLiteral.Proofs.Layout.Run
import DataLiteral.Proofs.Expr.Characters
import DataLiteral.Proofs.Layout.Margin
import DataLiteral.Proofs.Expr.Writing
import DataLiteral.Proofs.Layout.Embedding
import DataLiteral.Proofs.Expr.Mirror
import DataLiteral.Proofs.Value.Places
import DataLiteral.Proofs.Recording.Accounting
import DataLiteral.Proofs.Recording.Agreement
import DataLiteral.Proofs.Entries
import DataLiteral.Proofs.Value.Address
import DataLiteral.Proofs.Toml.View
import DataLiteral.Proofs.Toml.Mention
import DataLiteral.Proofs.Toml.Order
import DataLiteral.Proofs.Toml.Keys
import DataLiteral.Proofs.Json.Locality
import DataLiteral.Proofs.Json.Members
import DataLiteral.Proofs.Value.Keys
import DataLiteral.Proofs.Layout.Lines
import DataLiteral.Proofs.Binary64.Nearest
import DataLiteral.Proofs.Decimal.Fewest
import DataLiteral.Proofs.Json.Whole
import DataLiteral.Proofs.Number.Spelling
import DataLiteral.Proofs.Number.Whole
import DataLiteral.Proofs.Style.Setting
import DataLiteral.Proofs.Style.Refusal
import DataLiteral.Proofs.Style.Configuration
import DataLiteral.Proofs.Value.Distinct
import DataLiteral.Proofs.Value.Equality
import DataLiteral.Proofs.Value.Change
import DataLiteral.Proofs.Expr.Agreement
import DataLiteral.Proofs.Value.Pruned
import DataLiteral.Proofs.Declaration.Comments
import DataLiteral.Proofs.Text.Diff
import DataLiteral.Proofs.Declaration.Draft
import DataLiteral.Proofs.Quote.Template
