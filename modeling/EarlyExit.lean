import EarlyExit.Batch
import EarlyExit.CommandLine.Argument
import EarlyExit.CommandLine.CommaList
import EarlyExit.CommandLine.Command
import EarlyExit.CommandLine.Execute
import EarlyExit.CommandLine.Flags
import EarlyExit.CommandLine.Release
import EarlyExit.Container.Kind
import EarlyExit.Container.Registry
import EarlyExit.Data.Basic
import EarlyExit.Data.Reader
import EarlyExit.Data.Writer
import EarlyExit.Decimal.Notation
import EarlyExit.Decimal.Shortest
import EarlyExit.Defect
import EarlyExit.Diagnostic
import EarlyExit.Document.Reader
import EarlyExit.Document.Schema
import EarlyExit.Document.Storage
import EarlyExit.Document.Version
import EarlyExit.Document.Writer
import EarlyExit.Eval.Failure
import EarlyExit.Eval.Host
import EarlyExit.Eval.Interpreter
import EarlyExit.Eval.Operation
import EarlyExit.Eval.Outcome
import EarlyExit.Eval.Store
import EarlyExit.Eval.Value
import EarlyExit.Expansion.Expand
import EarlyExit.Expansion.Hoist
import EarlyExit.Expansion.Lift
import EarlyExit.Expansion.Names
import EarlyExit.Expansion.Placement
import EarlyExit.Expansion.Site
import EarlyExit.Expansion.Splice
import EarlyExit.Expansion.Step
import EarlyExit.Expansion.Trace
import EarlyExit.Files
import EarlyExit.Main
import EarlyExit.Settings.Basic
import EarlyExit.Settings.Load
import EarlyExit.Settings.LogLevel
import EarlyExit.Settings.Reader
import EarlyExit.Source.Position
import EarlyExit.Syntax.Build
import EarlyExit.Syntax.Edit
import EarlyExit.Syntax.Index
import EarlyExit.Syntax.Node
import EarlyExit.Syntax.Operator
import EarlyExit.Syntax.Printer
import EarlyExit.Syntax.Spine
import EarlyExit.Syntax.Tree
import EarlyExit.Text.Base64
import EarlyExit.Text.Blank
import EarlyExit.Text.LetterCase
import EarlyExit.Text.Numeral
import EarlyExit.Text.Printable
import EarlyExit.Text.Quoted
import EarlyExit.Yaml.Content
import EarlyExit.Yaml.Cursor
import EarlyExit.Yaml.Node
import EarlyExit.Yaml.Scalar
import EarlyExit.Yaml.Scan
import EarlyExit.Yaml.Token
import EarlyExit.Yaml.Word
import EarlyExit.Proofs.Tree.Swap
import EarlyExit.Proofs.Expansion.Outlook
import EarlyExit.Proofs.Expansion.Climb
import EarlyExit.Proofs.Expansion.Depth
import EarlyExit.Proofs.Expansion.Splice
import EarlyExit.Proofs.Expansion.Live
import EarlyExit.Proofs.Expansion.Hoisting
import EarlyExit.Proofs.Expansion.Cleared
import EarlyExit.Proofs.Expansion.Fresh
import EarlyExit.Proofs.Expansion.Gather
import EarlyExit.Proofs.Expansion.Turns
import EarlyExit.Proofs.Expansion.Census
import EarlyExit.Proofs.Expansion.Moves
import EarlyExit.Proofs.Expansion.Move
import EarlyExit.Proofs.Expansion.Workload
import EarlyExit.Proofs.Expansion.Fate
import EarlyExit.Proofs.Expansion.Runs
import EarlyExit.Proofs.Expansion.Stability
import EarlyExit.Proofs.Expansion.Termination
import EarlyExit.Proofs.Expansion.Exits
import EarlyExit.Proofs.Expansion.Acceptance
import EarlyExit.Proofs.Expansion.Steady
import EarlyExit.Proofs.Expansion.Rows
import EarlyExit.Proofs.Expansion.Mentions
import EarlyExit.Proofs.Expansion.Scope
import EarlyExit.Proofs.Expansion.Temporaries
import EarlyExit.Proofs.Expansion.Guards
import EarlyExit.Proofs.Expansion.Hygiene
import EarlyExit.Proofs.Document.Accepted
import EarlyExit.Proofs.Document.Returns
import EarlyExit.Proofs.Document.Expanded
import EarlyExit.Proofs.Eval.Comparison
import EarlyExit.Proofs.Eval.Growth
import EarlyExit.Proofs.Eval.Lifting
import EarlyExit.Proofs.Eval.Quiet
import EarlyExit.Proofs.Container.Registry
import EarlyExit.Proofs.Eval.Members
import EarlyExit.Proofs.Tree.Change
import EarlyExit.Proofs.Tree.Postorder
import EarlyExit.Proofs.Expansion.Spliced
import EarlyExit.Proofs.Expansion.Selected
import EarlyExit.Proofs.Eval.Wrapping
import EarlyExit.Proofs.Eval.Operands
import EarlyExit.Proofs.Eval.Leaving
import EarlyExit.Proofs.Eval.Sites
import EarlyExit.Proofs.Eval.Staging
import EarlyExit.Proofs.Document.Complete
import EarlyExit.Proofs.Document.Retained
import EarlyExit.Proofs.Printer.AffixForms
import EarlyExit.Proofs.Printer.InfixForms
import EarlyExit.Proofs.Eval.Amends
import EarlyExit.Proofs.Eval.Anchored
import EarlyExit.Proofs.Eval.Preserved
import EarlyExit.Proofs.Container.Compatible
import EarlyExit.Proofs.Eval.Captured
import EarlyExit.Proofs.Eval.Rerun
import EarlyExit.Proofs.Expansion.Dangling
import EarlyExit.Proofs.Tree.Child
import EarlyExit.Proofs.Tree.Numbering
import EarlyExit.Proofs.Eval.Grid
import EarlyExit.Proofs.CommandLine.Emitted
import EarlyExit.Proofs.Eval.Session
import EarlyExit.Proofs.Container.TypeName
import EarlyExit.Proofs.Expansion.FreeNumbers
import EarlyExit.Proofs.Expansion.Methods
