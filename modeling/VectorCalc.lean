import VectorCalc.Arithmetic
import VectorCalc.Arithmetic.Rounding
import VectorCalc.Arithmetic.Width
import VectorCalc.Bindings
import VectorCalc.Bindings.Edit
import VectorCalc.Expr
import VectorCalc.Expr.Parse
import VectorCalc.Fault
import VectorCalc.Host
import VectorCalc.Machine
import VectorCalc.Machine.Evaluate
import VectorCalc.Machine.Kernels
import VectorCalc.Machine.Pool
import VectorCalc.Main
import VectorCalc.Operator
import VectorCalc.Proofs.Arithmetic.Rounding
import VectorCalc.Proofs.Bindings
import VectorCalc.Proofs.Bindings.History
import VectorCalc.Proofs.Expr.Agreement
import VectorCalc.Proofs.Expr.Beginning
import VectorCalc.Proofs.Expr.Blame
import VectorCalc.Proofs.Expr.Completeness
import VectorCalc.Proofs.Expr.Continuation
import VectorCalc.Proofs.Expr.Diagnosis
import VectorCalc.Proofs.Expr.Grammar
import VectorCalc.Proofs.Expr.Normal
import VectorCalc.Proofs.Expr.Numeral
import VectorCalc.Proofs.Expr.Range
import VectorCalc.Proofs.Expr.Recognition
import VectorCalc.Proofs.Expr.Refusal
import VectorCalc.Proofs.Expr.Rendering
import VectorCalc.Proofs.Expr.Retraction
import VectorCalc.Proofs.Expr.Run
import VectorCalc.Proofs.Expr.Scope
import VectorCalc.Proofs.Expr.Soundness
import VectorCalc.Proofs.Expr.Spacing
import VectorCalc.Proofs.Expr.Stage
import VectorCalc.Proofs.Expr.TokenList
import VectorCalc.Proofs.Fault
import VectorCalc.Proofs.Machine.Atomic
import VectorCalc.Proofs.Machine.Composition
import VectorCalc.Proofs.Machine.Coupled
import VectorCalc.Proofs.Machine.Effects
import VectorCalc.Proofs.Machine.Holdings
import VectorCalc.Proofs.Machine.Isolation
import VectorCalc.Proofs.Machine.Itemwise
import VectorCalc.Proofs.Machine.Kernels
import VectorCalc.Proofs.Machine.Memory
import VectorCalc.Proofs.Machine.Narrow
import VectorCalc.Proofs.Machine.Power
import VectorCalc.Proofs.Machine.Preparing
import VectorCalc.Proofs.Machine.Printed
import VectorCalc.Proofs.Machine.Progress
import VectorCalc.Proofs.Machine.Reduction
import VectorCalc.Proofs.Machine.Scope
import VectorCalc.Proofs.Machine.Shapes
import VectorCalc.Proofs.Outcome
import VectorCalc.Proofs.Shell.Endurance
import VectorCalc.Proofs.Shell.Reports
import VectorCalc.Proofs.Shell.Skipping
import VectorCalc.Proofs.Shell.Sources
import VectorCalc.Proofs.Text.Utf8
import VectorCalc.Proofs.Token.Gaps
import VectorCalc.Proofs.Token.Glyphs
import VectorCalc.Proofs.Token.Marks
import VectorCalc.Proofs.Token.Places
import VectorCalc.Proofs.Token.Regular
import VectorCalc.Proofs.Token.Rereading
import VectorCalc.Proofs.Token.Rewinding
import VectorCalc.Proofs.Token.Spelling
import VectorCalc.Proofs.Token.Tiling
import VectorCalc.Proofs.Token.Words
import VectorCalc.Proofs.Value.Related
import VectorCalc.Settings
import VectorCalc.Shell
import VectorCalc.Shell.Command
import VectorCalc.Shell.Folder
import VectorCalc.Shell.Options
import VectorCalc.Text.Blank
import VectorCalc.Text.DecimalDigit
import VectorCalc.Text.Hex
import VectorCalc.Text.Integer
import VectorCalc.Text.Lines
import VectorCalc.Text.Printable
import VectorCalc.Text.Quoted
import VectorCalc.Text.Ranges
import VectorCalc.Text.Utf8
import VectorCalc.Token
import VectorCalc.Token.Cursor
import VectorCalc.Token.Source
import VectorCalc.Token.Tape
import VectorCalc.Value
import VectorCalc.Value.Offered
