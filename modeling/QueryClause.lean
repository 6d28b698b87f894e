import QueryClause.Binary64
import QueryClause.Binary64.Shortest
import QueryClause.Column
import QueryClause.Command
import QueryClause.Command.Arguments
import QueryClause.Command.Session
import QueryClause.CommandError
import QueryClause.CompileError
import QueryClause.ConfigError
import QueryClause.Decimal
import QueryClause.Decimal.Reader
import QueryClause.Dictionary
import QueryClause.Expr
import QueryClause.FieldMap
import QueryClause.Filter
import QueryClause.Fragment
import QueryClause.Journal
import QueryClause.Json
import QueryClause.Json.Number
import QueryClause.Json.Reader
import QueryClause.Json.Result
import QueryClause.Lexeme
import QueryClause.Main
import QueryClause.Operator
import QueryClause.OrderBy
import QueryClause.ParseError
import QueryClause.Parser
import QueryClause.Proofs.Alike
import QueryClause.Proofs.CanonicalStability
import QueryClause.Proofs.Characters
import QueryClause.Proofs.ClosedSql
import QueryClause.Proofs.CollectedDigits
import QueryClause.Proofs.ColumnTexts
import QueryClause.Proofs.Compiles
import QueryClause.Proofs.Context
import QueryClause.Proofs.Correspondence
import QueryClause.Proofs.DateTimeContext
import QueryClause.Proofs.DateTimePattern
import QueryClause.Proofs.Delimiters
import QueryClause.Proofs.Diagnostics
import QueryClause.Proofs.EarliestRefusal
import QueryClause.Proofs.ErrorPositions
import QueryClause.Proofs.Faults
import QueryClause.Proofs.FieldMaps
import QueryClause.Proofs.Grammar
import QueryClause.Proofs.Isolated
import QueryClause.Proofs.JsonNumbers
import QueryClause.Proofs.Layout
import QueryClause.Proofs.Lookahead
import QueryClause.Proofs.Margins
import QueryClause.Proofs.Moved
import QueryClause.Proofs.NamedFields
import QueryClause.Proofs.NestingDepth
import QueryClause.Proofs.NumberTexts
import QueryClause.Proofs.Numbering
import QueryClause.Proofs.Parameters
import QueryClause.Proofs.ParserCompleteness
import QueryClause.Proofs.ParserRuns
import QueryClause.Proofs.ParserSoundness
import QueryClause.Proofs.Pieces
import QueryClause.Proofs.Productions
import QueryClause.Proofs.QuotedNames
import QueryClause.Proofs.Refusal
import QueryClause.Proofs.Relabel
import QueryClause.Proofs.ReusedParser
import QueryClause.Proofs.RoundTrip
import QueryClause.Proofs.Rounding
import QueryClause.Proofs.Scanned
import QueryClause.Proofs.ScannedContext
import QueryClause.Proofs.Scripts
import QueryClause.Proofs.ShortestDigits
import QueryClause.Proofs.SignedNumbers
import QueryClause.Proofs.Slices
import QueryClause.Proofs.SortClauses
import QueryClause.Proofs.Spans
import QueryClause.Proofs.Splice
import QueryClause.Proofs.StringLiterals
import QueryClause.Proofs.Submission
import QueryClause.Proofs.Tiling
import QueryClause.Proofs.Unambiguity
import QueryClause.Proofs.UniqueReading
import QueryClause.Proofs.UnnamedFields
import QueryClause.Proofs.Walk
import QueryClause.Proofs.WholeTimestamps
import QueryClause.Proofs.Writing
import QueryClause.Span
import QueryClause.Text.Alphabetic
import QueryClause.Text.Blank
import QueryClause.Text.Numeric
import QueryClause.Text.Pieces
import QueryClause.Text.Ranges
import QueryClause.Token
import QueryClause.Token.DateTime
import QueryClause.Token.Numeral
import QueryClause.Token.Quoted
import QueryClause.Token.Scan
import QueryClause.Token.Word
import QueryClause.Value
