import RandomTables.Assoc
import RandomTables.Config
import RandomTables.Content
import RandomTables.Dice.Basic
import RandomTables.Dice.Roll
import RandomTables.Directive.Basic
import RandomTables.Directive.Form
import RandomTables.Directive.Parser
import RandomTables.Directive.Switch
import RandomTables.Document.Basic
import RandomTables.Document.Inheritance
import RandomTables.Document.Integrity
import RandomTables.Document.Load
import RandomTables.Document.Reader
import RandomTables.Document.Writer
import RandomTables.Engine.Basic
import RandomTables.Engine.Listing
import RandomTables.Engine.Request
import RandomTables.Engine.Writer
import RandomTables.Error
import RandomTables.Evaluation.Answer
import RandomTables.Evaluation.Conditionals
import RandomTables.Evaluation.Context
import RandomTables.Evaluation.Directive
import RandomTables.Evaluation.Monad
import RandomTables.Evaluation.Pattern
import RandomTables.Evaluation.Roll
import RandomTables.Evaluation.Segment
import RandomTables.Evaluation.Variables
import RandomTables.Export.Bundle
import RandomTables.Expr.Basic
import RandomTables.Expr.Eval
import RandomTables.Expr.Parser
import RandomTables.Expr.Token
import RandomTables.Json.Basic
import RandomTables.Json.Reader
import RandomTables.Json.Utf8
import RandomTables.Json.Writer
import RandomTables.Log
import RandomTables.Number.Arithmetic
import RandomTables.Number.Binary
import RandomTables.Number.Power
import RandomTables.Number.Reading
import RandomTables.Number.Text
import RandomTables.Pattern.Span
import RandomTables.Proofs.Dice.Accounting
import RandomTables.Proofs.Directive.Forms
import RandomTables.Proofs.Directive.Kinds
import RandomTables.Proofs.Directive.Modifiers
import RandomTables.Proofs.Directive.Naming
import RandomTables.Proofs.Directive.Reading
import RandomTables.Proofs.Directive.Refusals
import RandomTables.Proofs.Directive.Separators
import RandomTables.Proofs.Directive.Switching
import RandomTables.Proofs.Document.Authored
import RandomTables.Proofs.Document.Overriding
import RandomTables.Proofs.Document.Reloading
import RandomTables.Proofs.Document.Rewriting
import RandomTables.Proofs.Document.Settling
import RandomTables.Proofs.Engine.AtHome
import RandomTables.Proofs.Engine.Caching
import RandomTables.Proofs.Engine.Completing
import RandomTables.Proofs.Engine.Descriptions
import RandomTables.Proofs.Engine.FailFast
import RandomTables.Proofs.Engine.Importing
import RandomTables.Proofs.Engine.Isolation
import RandomTables.Proofs.Engine.Limit
import RandomTables.Proofs.Engine.Links
import RandomTables.Proofs.Engine.Listing
import RandomTables.Proofs.Engine.Mirror
import RandomTables.Proofs.Engine.Reachable
import RandomTables.Proofs.Engine.Readiness
import RandomTables.Proofs.Engine.Rewriting
import RandomTables.Proofs.Evaluation.Alarm
import RandomTables.Proofs.Evaluation.Balance
import RandomTables.Proofs.Evaluation.Breakdown
import RandomTables.Proofs.Evaluation.Budget
import RandomTables.Proofs.Evaluation.Caught
import RandomTables.Proofs.Evaluation.Collecting
import RandomTables.Proofs.Evaluation.ComposedPatterns
import RandomTables.Proofs.Evaluation.Directing
import RandomTables.Proofs.Evaluation.Displacement
import RandomTables.Proofs.Evaluation.Drawing
import RandomTables.Proofs.Evaluation.Entering
import RandomTables.Proofs.Evaluation.Hosted
import RandomTables.Proofs.Evaluation.HostedPatterns
import RandomTables.Proofs.Evaluation.Hosting
import RandomTables.Proofs.Evaluation.Instances
import RandomTables.Proofs.Evaluation.Levels
import RandomTables.Proofs.Evaluation.Lockstep
import RandomTables.Proofs.Evaluation.LockstepPatterns
import RandomTables.Proofs.Evaluation.Monad
import RandomTables.Proofs.Evaluation.Nesting
import RandomTables.Proofs.Evaluation.Occurring
import RandomTables.Proofs.Evaluation.Origin
import RandomTables.Proofs.Evaluation.Publishing
import RandomTables.Proofs.Evaluation.Reading
import RandomTables.Proofs.Evaluation.Recalling
import RandomTables.Proofs.Evaluation.Rendering
import RandomTables.Proofs.Evaluation.Repetition
import RandomTables.Proofs.Evaluation.Rerolling
import RandomTables.Proofs.Evaluation.Rolling
import RandomTables.Proofs.Evaluation.Segments
import RandomTables.Proofs.Evaluation.SimpleRoll
import RandomTables.Proofs.Evaluation.Simulation
import RandomTables.Proofs.Evaluation.Spellings
import RandomTables.Proofs.Evaluation.Tracking
import RandomTables.Proofs.Evaluation.Uniform
import RandomTables.Proofs.Evaluation.Unique
import RandomTables.Proofs.Evaluation.UniqueEntries
import RandomTables.Proofs.Evaluation.UniqueSources
import RandomTables.Proofs.Export.Closure
import RandomTables.Proofs.Export.Packing
import RandomTables.Proofs.Expr.Grammar
import RandomTables.Proofs.Expr.Lexemes
import RandomTables.Proofs.Expr.Parsing
import RandomTables.Proofs.Expr.Printing
import RandomTables.Proofs.Expr.Reading
import RandomTables.Proofs.Expr.Scanning
import RandomTables.Proofs.Expr.Tokenizing
import RandomTables.Proofs.Json.Parts
import RandomTables.Proofs.Json.Quoting
import RandomTables.Proofs.Json.RoundTrip
import RandomTables.Proofs.Number.Integers
import RandomTables.Proofs.Number.Rounding
import RandomTables.Proofs.Pattern.Leftmost
import RandomTables.Proofs.Pattern.Tiling
import RandomTables.Proofs.Regex.Reading
import RandomTables.Proofs.Registry.Aliases
import RandomTables.Proofs.Registry.Breadth
import RandomTables.Proofs.Registry.Declaring
import RandomTables.Proofs.Registry.Inheritance
import RandomTables.Proofs.Registry.Inheriting
import RandomTables.Proofs.Registry.Links
import RandomTables.Proofs.Registry.Local
import RandomTables.Proofs.Registry.Material
import RandomTables.Proofs.Registry.Nearest
import RandomTables.Proofs.Registry.Paths
import RandomTables.Proofs.Registry.Ranges
import RandomTables.Proofs.Registry.Reaching
import RandomTables.Proofs.Registry.Rewriting
import RandomTables.Proofs.Registry.Rows
import RandomTables.Proofs.Registry.Wiring
import RandomTables.Proofs.Selection.Bare
import RandomTables.Proofs.Selection.Chances
import RandomTables.Proofs.Selection.Counts
import RandomTables.Proofs.Selection.Entries
import RandomTables.Proofs.Selection.Exhaustion
import RandomTables.Proofs.Selection.Points
import RandomTables.Proofs.Selection.Pool
import RandomTables.Proofs.Selection.Ranges
import RandomTables.Proofs.Selection.Weights
import RandomTables.Proofs.Shared.Assigning
import RandomTables.Proofs.Shared.Frozen
import RandomTables.Proofs.Shared.Keeping
import RandomTables.Proofs.Shared.Measure
import RandomTables.Proofs.Shared.Order
import RandomTables.Proofs.Text.Brackets
import RandomTables.Proofs.Text.Cutting
import RandomTables.Proofs.Text.Splitting
import RandomTables.Proofs.Trace.Forest
import RandomTables.Proofs.Trace.Tracing
import RandomTables.Random.Source
import RandomTables.Random.Twister
import RandomTables.Regex.Basic
import RandomTables.Regex.Match
import RandomTables.Regex.Parser
import RandomTables.Registry.Basic
import RandomTables.Registry.Inheritance
import RandomTables.Registry.Lookup
import RandomTables.Registry.Reach
import RandomTables.Schema.Basic
import RandomTables.Schema.Content
import RandomTables.Schema.Reading
import RandomTables.Selection.Basic
import RandomTables.Selection.Weight
import RandomTables.Shared.Store
import RandomTables.Text.Basic
import RandomTables.Text.Case
import RandomTables.Text.Digit
import RandomTables.Text.Letter
import RandomTables.Text.Printable
import RandomTables.Text.Range
import RandomTables.Text.Split
import RandomTables.Text.Surrogate
import RandomTables.Trace.Open
import RandomTables.Trace.Step
