import Keymap.Main
import Keymap.Proofs.Text.Words
import Keymap.Proofs.Value.Fields
import Keymap.Proofs.Value.Merge
import Keymap.Proofs.Value.Json
import Keymap.Proofs.Sequence.Code
import Keymap.Proofs.Binding.Content
import Keymap.Proofs.Binding.Table
import Keymap.Proofs.Binding.Steps
import Keymap.Proofs.Binding.Docs
import Keymap.Proofs.Binding.Fallback
import Keymap.Proofs.Mode.Table
import Keymap.Proofs.Sequence.Places
import Keymap.Proofs.Sequence.Known
import Keymap.Proofs.Sequence.Steps
import Keymap.Proofs.Sequence.Duplicates
import Keymap.Proofs.Sequence.Copies
import Keymap.Proofs.Sequence.Growth
import Keymap.Proofs.Sequence.Moves
import Keymap.Proofs.Key.Normal
import Keymap.Proofs.Key.Macro
import Keymap.Proofs.Noted
import Keymap.Proofs.Schema.Specification
import Keymap.Proofs.Schema.Binding
import Keymap.Proofs.Expr.Filling
import Keymap.Proofs.Expr.Dependence
import Keymap.Proofs.Expr.Recording
import Keymap.Proofs.Expr.Substitution
import Keymap.Proofs.Entry.Foreach
import Keymap.Proofs.Entry.Expansion
import Keymap.Proofs.Entry.Reordering
import Keymap.Proofs.Entry.Relevance
import Keymap.Proofs.Entry.Defaults
import Keymap.Proofs.Legacy.Arguments
import Keymap.Proofs.Legacy.Upgrade
import Keymap.Proofs.Legacy.Walk
import Keymap.Proofs.Legacy.Current
import Keymap.Proofs.Legacy.Layout
import Keymap.Proofs.Legacy.Names
import Keymap.Proofs.Legacy.Braces
import Keymap.Proofs.Legacy.Placeholders
import Keymap.Proofs.Schema.Refusal
import Keymap.Proofs.Compile.Stages
import Keymap.Proofs.Compile.Places
import Keymap.Proofs.Compile.Fallback
import Keymap.Proofs.Compile.Entries
import Keymap.Proofs.Compile.Failures
import Keymap.Proofs.Compile.Concrete
import Keymap.Proofs.Compile.Reports
import Keymap.Proofs.Compile.Outcome
import Keymap.Proofs.Binding.Account
import Keymap.Proofs.Binding.Precedence
import Keymap.Proofs.Compile.Priority
import Keymap.Proofs.Compile.Labels
import Keymap.Proofs.Compile.Documentation
import Keymap.Proofs.Compile.Reordering
import Keymap.Proofs.Expr.RoundTrip
import Keymap.Proofs.Expr.Acceptance
import Keymap.Proofs.Expr.Spacing
import Keymap.Proofs.Binding.Conjunction
import Keymap.Proofs.Binding.ModeGuard
import Keymap.Proofs.Mode.Settled
import Keymap.Proofs.Mode.Selection
import Keymap.Proofs.Value.Agreement
import Keymap.Proofs.Expr.Equality
import Keymap.Proofs.Number.Binary
import Keymap.Proofs.Number.Rounding
import Keymap.Proofs.Number.Nearest
import Keymap.Proofs.Number.Division
import Keymap.Proofs.Expr.Arithmetic
import Keymap.Proofs.Sequence.Spelling
import Keymap.Proofs.Sequence.Handed
import Keymap.Proofs.Compile.Isolation
import Keymap.Proofs.Schema.Condition
import Keymap.Proofs.Key.Lasting
import Keymap.Proofs.Schema.Keys
import Keymap.Proofs.Compile.Keys
import Keymap.Proofs.Legacy.Doubling
import Keymap.Proofs.Entry.Definition
import Keymap.Proofs.CommandLine.Status
import Keymap.Proofs.Entry.Unset
import Keymap.Proofs.Compile.Unset
