import QueryTree.Attempt
import QueryTree.Compile.Alias
import QueryTree.Compile.Clause
import QueryTree.Compile.Constant
import QueryTree.Compile.Draft
import QueryTree.Compile.Edit
import QueryTree.Compile.Editing
import QueryTree.Compile.Emit
import QueryTree.Compile.Error
import QueryTree.Compile.Method
import QueryTree.Compile.Raw
import QueryTree.Compile.Render
import QueryTree.Compile.Rendering
import QueryTree.Compile.Row
import QueryTree.Compile.Scalar
import QueryTree.Compile.Shape
import QueryTree.Compile.Write
import QueryTree.Decimal.Binary
import QueryTree.Decimal.Notation
import QueryTree.Decimal.Power
import QueryTree.Decimal.Shortest
import QueryTree.Dialect.Basic
import QueryTree.Dialect.Profile
import QueryTree.Dsn.Duration
import QueryTree.Dsn.Escape
import QueryTree.Dsn.MySql
import QueryTree.Dsn.Url
import QueryTree.ErrorClass
import QueryTree.Expr.Arithmetic
import QueryTree.Expr.Basic
import QueryTree.Expr.Build
import QueryTree.Expr.Eval
import QueryTree.Expr.EvalError
import QueryTree.Expr.Fluent
import QueryTree.Expr.Operator
import QueryTree.Expr.Replace
import QueryTree.Graph.Dot
import QueryTree.Main
import QueryTree.Mapping.Entity
import QueryTree.Mapping.Naming
import QueryTree.Mapping.Registry
import QueryTree.Prelude
import QueryTree.Proofs.AliasNames
import QueryTree.Proofs.AliasSearch
import QueryTree.Proofs.Aliases
import QueryTree.Proofs.Arithmetic
import QueryTree.Proofs.Balanced
import QueryTree.Proofs.BoundStrings
import QueryTree.Proofs.Chains
import QueryTree.Proofs.Characters
import QueryTree.Proofs.ClauseEnds
import QueryTree.Proofs.Clauses
import QueryTree.Proofs.Closed
import QueryTree.Proofs.Coherent
import QueryTree.Proofs.Comments
import QueryTree.Proofs.Complement
import QueryTree.Proofs.Concatenation
import QueryTree.Proofs.Conjunction
import QueryTree.Proofs.Consulted
import QueryTree.Proofs.Counterpart
import QueryTree.Proofs.Declarations
import QueryTree.Proofs.DeclaredTypes
import QueryTree.Proofs.Deletions
import QueryTree.Proofs.Denied
import QueryTree.Proofs.Dialects
import QueryTree.Proofs.DraftPairs
import QueryTree.Proofs.Edited
import QueryTree.Proofs.Emitted
import QueryTree.Proofs.EmptyLists
import QueryTree.Proofs.Escapes
import QueryTree.Proofs.Evaluated
import QueryTree.Proofs.Folding
import QueryTree.Proofs.Forest
import QueryTree.Proofs.Formula
import QueryTree.Proofs.Frames
import QueryTree.Proofs.Grammar
import QueryTree.Proofs.GraphLabels
import QueryTree.Proofs.GraphText
import QueryTree.Proofs.Grouping
import QueryTree.Proofs.Guarded
import QueryTree.Proofs.Hazards
import QueryTree.Proofs.InPlace
import QueryTree.Proofs.Inlining
import QueryTree.Proofs.InsertedRows
import QueryTree.Proofs.Integers
import QueryTree.Proofs.Interpolated
import QueryTree.Proofs.Involution
import QueryTree.Proofs.ItemNames
import QueryTree.Proofs.KeyFilter
import QueryTree.Proofs.Keywords
import QueryTree.Proofs.Kinds
import QueryTree.Proofs.Legible
import QueryTree.Proofs.Lexicon
import QueryTree.Proofs.Literals
import QueryTree.Proofs.Locality
import QueryTree.Proofs.MapRows
import QueryTree.Proofs.Marks
import QueryTree.Proofs.Mirrored
import QueryTree.Proofs.Nesting
import QueryTree.Proofs.NormalLines
import QueryTree.Proofs.NullTests
import QueryTree.Proofs.Numerals
import QueryTree.Proofs.Opaque
import QueryTree.Proofs.Outline
import QueryTree.Proofs.Paging
import QueryTree.Proofs.Paired
import QueryTree.Proofs.Parts
import QueryTree.Proofs.Phrases
import QueryTree.Proofs.Pieces
import QueryTree.Proofs.Placeholder
import QueryTree.Proofs.Promotion
import QueryTree.Proofs.Quoted
import QueryTree.Proofs.RawLists
import QueryTree.Proofs.RawNames
import QueryTree.Proofs.Readable
import QueryTree.Proofs.Reading
import QueryTree.Proofs.Refused
import QueryTree.Proofs.Renamed
import QueryTree.Proofs.Rendered
import QueryTree.Proofs.Rewriting
import QueryTree.Proofs.RoundTrip
import QueryTree.Proofs.RowReading
import QueryTree.Proofs.RowSources
import QueryTree.Proofs.RowTexts
import QueryTree.Proofs.Scanned
import QueryTree.Proofs.SelectLists
import QueryTree.Proofs.Sessions
import QueryTree.Proofs.SideBySide
import QueryTree.Proofs.Silence
import QueryTree.Proofs.Simulated
import QueryTree.Proofs.StatementMarks
import QueryTree.Proofs.StatementNames
import QueryTree.Proofs.States
import QueryTree.Proofs.Substituted
import QueryTree.Proofs.Terms
import QueryTree.Proofs.Titles
import QueryTree.Proofs.Unclosed
import QueryTree.Proofs.Vacuous
import QueryTree.Proofs.Variation
import QueryTree.Proofs.Woven
import QueryTree.Proofs.Wrapped
import QueryTree.Proofs.Written
import QueryTree.Proofs.Yield
import QueryTree.Sample.Conditions
import QueryTree.Sample.Functions
import QueryTree.Sample.Sessions
import QueryTree.Sample.Types
import QueryTree.Shell.Change
import QueryTree.Shell.Command
import QueryTree.Shell.CommandLine
import QueryTree.Shell.Completion
import QueryTree.Shell.Database
import QueryTree.Shell.Definition
import QueryTree.Shell.Error
import QueryTree.Shell.Grammar
import QueryTree.Shell.Literal
import QueryTree.Shell.Plan
import QueryTree.Shell.Plugins
import QueryTree.Shell.Query
import QueryTree.Shell.Report
import QueryTree.Shell.Run
import QueryTree.Shell.Schema
import QueryTree.Shell.Script
import QueryTree.Shell.Session
import QueryTree.Shell.State
import QueryTree.Shell.Table
import QueryTree.Shell.Token
import QueryTree.Shell.World
import QueryTree.Sql.Literal
import QueryTree.Sql.Negation
import QueryTree.Sql.Quoting
import QueryTree.Stateful
import QueryTree.Statement.Basic
import QueryTree.Statement.Compile
import QueryTree.Statement.Error
import QueryTree.Statement.Transform
import QueryTree.Text.Basic
import QueryTree.Text.CaseTable
import QueryTree.Text.Class
import QueryTree.Text.LetterTable
import QueryTree.Text.Number
import QueryTree.Text.PrintTable
import QueryTree.Text.Quoted
import QueryTree.Text.Title
import QueryTree.Text.Utf8
import QueryTree.Time
import QueryTree.Type.Basic
import QueryTree.Type.Member
import QueryTree.Type.Printed
import QueryTree.Type.Reader
import QueryTree.Type.Record
import QueryTree.Value.Basic
import QueryTree.Value.Clock
import QueryTree.Value.Convert
import QueryTree.Value.Display
import QueryTree.Value.Slot
import QueryTree.Yaml.Node
import QueryTree.Yaml.Scalar
import QueryTree.Yaml.Token
