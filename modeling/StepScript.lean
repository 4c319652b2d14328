import StepScript.Binary64.Arithmetic
import StepScript.Binary64.Basic
import StepScript.Block
import StepScript.Builtin
import StepScript.Cli.Arguments
import StepScript.Cli.Command
import StepScript.Cli.Console
import StepScript.Cli.Desk
import StepScript.Config
import StepScript.Decimal.Shortest
import StepScript.Decimal.Text
import StepScript.Dict
import StepScript.Env
import StepScript.Eval
import StepScript.Expr.Basic
import StepScript.Expr.Parser
import StepScript.Expr.Token
import StepScript.Fault
import StepScript.Host.Basic
import StepScript.Host.Demo
import StepScript.Host.Library
import StepScript.Host.Mathematics
import StepScript.Issue
import StepScript.Json
import StepScript.Json.Record
import StepScript.Kind
import StepScript.Machine.Action
import StepScript.Machine.Assignment
import StepScript.Machine.Basic
import StepScript.Machine.Step
import StepScript.Machine.World
import StepScript.Main
import StepScript.Method
import StepScript.Operator
import StepScript.Place
import StepScript.Program.Basic
import StepScript.Program.Check
import StepScript.Program.Document
import StepScript.Program.Lint
import StepScript.Program.Parser
import StepScript.Program.Structure
import StepScript.Setting
import StepScript.Statement.Basic
import StepScript.Statement.Document
import StepScript.Statement.Line
import StepScript.Statement.Parser
import StepScript.SyntaxFault
import StepScript.Table
import StepScript.Text.Blank
import StepScript.Text.Case
import StepScript.Text.CaseTable
import StepScript.Text.Digits
import StepScript.Text.Repeat
import StepScript.Text.Search
import StepScript.Toml.Basic
import StepScript.Toml.Moment
import StepScript.Toml.Parser
import StepScript.Value.Arithmetic
import StepScript.Value.Basic
import StepScript.Value.Display
import StepScript.Value.Equality
import StepScript.Value.Order
import StepScript.Proofs.Moves
import StepScript.Proofs.FrameOrder
import StepScript.Proofs.Nesting
import StepScript.Proofs.Enclosing
import StepScript.Proofs.Refinement
import StepScript.Proofs.Operands
import StepScript.Proofs.Followers
import StepScript.Proofs.Arguments
import StepScript.Proofs.Forms
import StepScript.Proofs.Spelling
import StepScript.Proofs.Lines
import StepScript.Proofs.Grammar
import StepScript.Proofs.Brackets
import StepScript.Proofs.Precedence
import StepScript.Proofs.SourceText
import StepScript.Proofs.WellFormed
import StepScript.Proofs.Atomicity
import StepScript.Proofs.ValueOrder
import StepScript.Proofs.ComparisonSort
import StepScript.Proofs.Sorting
import StepScript.Proofs.Rounding
import StepScript.Proofs.Comparison
import StepScript.Proofs.Inside
import StepScript.Proofs.Equality
import StepScript.Proofs.Rearrangement
import StepScript.Proofs.Derivation
import StepScript.Proofs.Readable
import StepScript.Proofs.Dictionary
import StepScript.Proofs.Literals
import StepScript.Proofs.Reading
import StepScript.Proofs.Bindings
import StepScript.Proofs.Termination
import StepScript.Proofs.Phrases
import StepScript.Proofs.Assignments
import StepScript.Proofs.Integers
import StepScript.Proofs.Collections
import StepScript.Proofs.Agreement
import StepScript.Proofs.Parts
import StepScript.Proofs.Places
import StepScript.Proofs.Updates
import StepScript.Proofs.Overflow
import StepScript.Proofs.WholeNumbers
import StepScript.Proofs.Passes
import StepScript.Proofs.Handouts
import StepScript.Proofs.Splicing
import StepScript.Proofs.Imports
import StepScript.Proofs.Printing
import StepScript.Proofs.ListStatements
import StepScript.Proofs.Callables
import StepScript.Proofs.Denotation
import StepScript.Proofs.Functions
import StepScript.Proofs.Resolution
import StepScript.Proofs.Provenance
import StepScript.Proofs.Walks
import StepScript.Proofs.Ranges
import StepScript.Proofs.Slices
import StepScript.Proofs.Matching
import StepScript.Proofs.Linting
import StepScript.Proofs.Isolation
