import QueryTree.Calendar.Date
import QueryTree.Calendar.DateTime
import QueryTree.Calendar.Scan
import QueryTree.CommandLine.Arguments
import QueryTree.CommandLine.Files
import QueryTree.CommandLine.Run
import QueryTree.Config
import QueryTree.Decimal.Printed
import QueryTree.Decimal.Read
import QueryTree.Decimal.Shortest
import QueryTree.Dialect
import QueryTree.Error
import QueryTree.Json.Basic
import QueryTree.Json.Decode
import QueryTree.Json.Draft
import QueryTree.Json.Printer
import QueryTree.Outline
import QueryTree.Scalar
import QueryTree.Scalar.Codec
import QueryTree.Statement
import QueryTree.Template
import QueryTree.Terminal
import QueryTree.Text.Blank
import QueryTree.Text.Hex
import QueryTree.Text.Hidden
import QueryTree.Text.Quoted
import QueryTree.Toml.Basic
import QueryTree.Toml.Document
import QueryTree.Toml.Lexeme
import QueryTree.Tree.Basic
import QueryTree.Tree.Build
import QueryTree.Tree.Decode
import QueryTree.Tree.Encode
import QueryTree.Tree.Same
import QueryTree.Main
import QueryTree.Proofs.Outcomes
import QueryTree.Proofs.Layout
import QueryTree.Proofs.Compilation
import QueryTree.Proofs.Scalars
import QueryTree.Proofs.Subquery
import QueryTree.Proofs.Wording
import QueryTree.Proofs.Numerals
import QueryTree.Proofs.Placeholders
import QueryTree.Proofs.Relabeling
import QueryTree.Proofs.Quoting
import QueryTree.Proofs.Json.Reading
import QueryTree.Proofs.Json.Texts
import QueryTree.Proofs.Doubles
import QueryTree.Proofs.Magnitudes
import QueryTree.Proofs.Shortest
import QueryTree.Proofs.Json.Legibility
import QueryTree.Proofs.Json.Decoding
import QueryTree.Proofs.Json.Scalars
import QueryTree.Proofs.Rereading
import QueryTree.Proofs.Exchange
import QueryTree.Proofs.Templates
import QueryTree.Proofs.Additions
import QueryTree.Proofs.Substitution
import QueryTree.Proofs.Grouping
import QueryTree.Proofs.Json.Drafts
import QueryTree.Proofs.Json.Yields
import QueryTree.Proofs.Json.Settled
import QueryTree.Proofs.Survival
import QueryTree.Proofs.Unwrapping
import QueryTree.Proofs.Calendar.Scanning
import QueryTree.Proofs.Calendar.Texts
import QueryTree.Proofs.Retention
import QueryTree.Proofs.Origins
import QueryTree.Proofs.FrontEnds
import QueryTree.Proofs.Clauses
import QueryTree.Proofs.Parentheses
import QueryTree.Proofs.Calendar.Spellings
import QueryTree.Proofs.Calendar.Days
import QueryTree.Proofs.Outlines
import QueryTree.Proofs.Json.Rearrangement
import QueryTree.Proofs.Json.Written
import QueryTree.Proofs.MemberOrder
import QueryTree.Proofs.Toml.Integers
import QueryTree.Proofs.Toml.Tables
import QueryTree.Proofs.Configuration
import QueryTree.Proofs.Frame
import QueryTree.Proofs.Nesting
import QueryTree.Proofs.Classification
