import AtomicCss.Binary64
import AtomicCss.ClassName
import AtomicCss.Compile
import AtomicCss.Context
import AtomicCss.Decimal.Basic
import AtomicCss.Decimal.Layout
import AtomicCss.Decimal.Reader
import AtomicCss.Decimal.Shortest
import AtomicCss.Declaration
import AtomicCss.Json.Basic
import AtomicCss.Json.Document
import AtomicCss.Json.Reader
import AtomicCss.Json.Record
import AtomicCss.Json.Writer
import AtomicCss.KeyMap
import AtomicCss.Keyframes.Basic
import AtomicCss.Keyframes.Selector
import AtomicCss.Lint.Diagnostic
import AtomicCss.Lint.Rule
import AtomicCss.Lint.Sheet
import AtomicCss.Main
import AtomicCss.Merge
import AtomicCss.Options.Loader
import AtomicCss.Plan
import AtomicCss.Priority
import AtomicCss.Project.Arguments
import AtomicCss.Project.Circumstances
import AtomicCss.Project.Command
import AtomicCss.Project.Compile
import AtomicCss.Project.Config
import AtomicCss.Project.Directory
import AtomicCss.Project.Lint
import AtomicCss.Project.Path
import AtomicCss.Project.Program
import AtomicCss.Project.Report
import AtomicCss.Project.StyleFile
import AtomicCss.Project.Task
import AtomicCss.Property.Grammar
import AtomicCss.Property.Known
import AtomicCss.Property.Name
import AtomicCss.Property.Shorthand
import AtomicCss.Pseudo
import AtomicCss.Rule
import AtomicCss.Sheet.Basic
import AtomicCss.Sheet.Loader
import AtomicCss.Store
import AtomicCss.StyleObject
import AtomicCss.Stylesheet
import AtomicCss.Text.Affix
import AtomicCss.Text.Blank
import AtomicCss.Text.Hidden
import AtomicCss.Text.Quoted
import AtomicCss.Token.Basic
import AtomicCss.Token.Lexer
import AtomicCss.Token.Number
import AtomicCss.Value.Basic
import AtomicCss.Value.Dimension
import AtomicCss.Value.Error
import AtomicCss.Value.Normalize
import AtomicCss.Value.Number
import AtomicCss.Value.Printer
import AtomicCss.Json.Ordered
import AtomicCss.Proofs.Merge.Json
import AtomicCss.Proofs.Merge.Meaning
import AtomicCss.Proofs.Store.Emissions
import AtomicCss.Proofs.Compile.Plan
import AtomicCss.Build
import AtomicCss.Proofs.Build.Order
import AtomicCss.Proofs.Property.Covers
import AtomicCss.Proofs.Compile.Objects
import AtomicCss.Proofs.Compile.Authored
import AtomicCss.Proofs.Declaration.Identity
import AtomicCss.Proofs.Build.Held
import AtomicCss.Proofs.Cascade.Override
import AtomicCss.Proofs.Compile.Meaning
import AtomicCss.Proofs.Compile.Correspondence
import AtomicCss.Proofs.Compile.Rejected
import AtomicCss.Proofs.Compile.Rearranged
import AtomicCss.Proofs.Store.Accepted
import AtomicCss.Origin
import AtomicCss.Proofs.Build.Emitted
import AtomicCss.Proofs.Build.Collision
import AtomicCss.Proofs.Property.Resets
import AtomicCss.Proofs.Cascade.Position
import AtomicCss.Proofs.Stylesheet.Repeats
import AtomicCss.Proofs.Build.Union
import AtomicCss.Proofs.Merge.RoundTrip
import AtomicCss.Proofs.Lint.Clean
import AtomicCss.Proofs.Token.Reads
import AtomicCss.Proofs.Decimal.Numeral
import AtomicCss.Proofs.Token.Numeric
import AtomicCss.Proofs.Text.Lowercase
import AtomicCss.Proofs.Binary64.Rounding
import AtomicCss.Proofs.Binary64.Decimals
import AtomicCss.Proofs.Decimal.Shortest
import AtomicCss.Proofs.Value.Number
import AtomicCss.Proofs.Value.Printed
import AtomicCss.Proofs.Value.Source
import AtomicCss.Proofs.Value.Contained
import AtomicCss.Proofs.Value.Relexed
import AtomicCss.Proofs.Value.Settled
import AtomicCss.Proofs.Value.Idempotent
import AtomicCss.Proofs.Value.Respelled
import AtomicCss.Proofs.Token.Readable
import AtomicCss.Proofs.Value.Marks
import AtomicCss.Proofs.Compile.Declarations
import AtomicCss.Proofs.Lint.Walk
import AtomicCss.Proofs.Lint.Compiled
import AtomicCss.Proofs.Lint.Emitted
import AtomicCss.Proofs.Json.Objects
import AtomicCss.Proofs.Project.Turns
import AtomicCss.Proofs.Project.Faulty
import AtomicCss.Proofs.Token.Boundary
import AtomicCss.Proofs.Token.Trimmed
import AtomicCss.Proofs.Token.Spacing
import AtomicCss.Proofs.Context.Prelude
import AtomicCss.Proofs.Value.Groups
import AtomicCss.Proofs.Value.Accepted
import AtomicCss.Proofs.Value.ZeroLengths
import AtomicCss.Proofs.Value.Respaced
import AtomicCss.Proofs.Stylesheet.Canonical
import AtomicCss.Sheet.Grammar
import AtomicCss.Proofs.Sheet.Loaded
import AtomicCss.Proofs.Value.Quoted
import AtomicCss.Proofs.Value.Finite
import AtomicCss.Proofs.Property.Naming
import AtomicCss.Proofs.Context.Decorated
import AtomicCss.Proofs.Keyframes.Canonical
import AtomicCss.Proofs.Token.Lossless
import AtomicCss.Proofs.Value.Dimension
