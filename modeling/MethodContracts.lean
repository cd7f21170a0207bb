import MethodContracts.Clause
import MethodContracts.Clause.Error
import MethodContracts.Clause.Text
import MethodContracts.Clause.ThroughCall
import MethodContracts.Codec.Clause
import MethodContracts.Codec.Descriptor
import MethodContracts.Codec.Expr
import MethodContracts.Codec.Session
import MethodContracts.CommandLine.Command
import MethodContracts.CommandLine.Options
import MethodContracts.CommandLine.Report
import MethodContracts.Constraint
import MethodContracts.Constraint.Text
import MethodContracts.Decimal
import MethodContracts.Decimal.Binary64
import MethodContracts.Decimal.Shortest
import MethodContracts.Descriptor
import MethodContracts.Domain
import MethodContracts.Domain.Difference
import MethodContracts.Expr
import MethodContracts.Expr.Locate
import MethodContracts.Expr.SideEffects
import MethodContracts.Facts
import MethodContracts.Json
import MethodContracts.Json.Escape
import MethodContracts.Json.Fields
import MethodContracts.Json.Reader
import MethodContracts.Json.Token
import MethodContracts.Json.Writer
import MethodContracts.Main
import MethodContracts.NormalForm
import MethodContracts.Outcome
import MethodContracts.Outcome.Text
import MethodContracts.Proofs.Behaviour
import MethodContracts.Proofs.Clause.Grammar
import MethodContracts.Proofs.Clause.ListGrammar
import MethodContracts.Proofs.Clause.Negation
import MethodContracts.Proofs.Clause.PassedParameter
import MethodContracts.Proofs.Clause.Passing
import MethodContracts.Proofs.Clause.Text
import MethodContracts.Proofs.Codec.Records
import MethodContracts.Proofs.Codec.RoundTrip
import MethodContracts.Proofs.Codec.Trees
import MethodContracts.Proofs.CommandLine.Normalization
import MethodContracts.Proofs.Descriptor.Leaves
import MethodContracts.Proofs.Domain.Difference
import MethodContracts.Proofs.Domain.Meaning
import MethodContracts.Proofs.Domain.Order
import MethodContracts.Proofs.Domain.Requirements
import MethodContracts.Proofs.Expr.Occurrences
import MethodContracts.Proofs.Expr.Within
import MethodContracts.Proofs.Json.Layout
import MethodContracts.Proofs.Json.Text
import MethodContracts.Proofs.Json.Token
import MethodContracts.Proofs.NormalForm.Agreement
import MethodContracts.Proofs.NormalForm.Carving
import MethodContracts.Proofs.NormalForm.Normal
import MethodContracts.Proofs.NormalForm.Provenance
import MethodContracts.Proofs.NormalForm.Reading
import MethodContracts.Proofs.NormalForm.Reordering
import MethodContracts.Proofs.NormalForm.Repetition
import MethodContracts.Proofs.NormalForm.Restarts
import MethodContracts.Proofs.NormalForm.Scan
import MethodContracts.Proofs.NormalForm.Shadowing
import MethodContracts.Proofs.NormalForm.Symmetry
import MethodContracts.Proofs.Resolution.Arity
import MethodContracts.Proofs.Resolution.Calls
import MethodContracts.Proofs.Resolution.Contribution
import MethodContracts.Proofs.Resolution.Delegation
import MethodContracts.Proofs.Resolution.Dependence
import MethodContracts.Proofs.Resolution.Inheritance
import MethodContracts.Proofs.Resolution.NegatedReading
import MethodContracts.Proofs.Resolution.Negation
import MethodContracts.Proofs.Resolution.Stages
import MethodContracts.Proofs.Session.Entries
import MethodContracts.Proofs.Session.Inference
import MethodContracts.Proofs.Session.Invariant
import MethodContracts.Proofs.Session.Loading
import MethodContracts.Proofs.Session.Meaning
import MethodContracts.Proofs.Session.Order
import MethodContracts.Proofs.Session.Pinning
import MethodContracts.Proofs.Session.SideEffects
import MethodContracts.Proofs.Session.Soundness
import MethodContracts.Proofs.Session.TwoRuns
import MethodContracts.Proofs.Text.Grammar
import MethodContracts.Proofs.Text.Pieces
import MethodContracts.Resolution
import MethodContracts.Session
import MethodContracts.Signature
import MethodContracts.Text.Blank
import MethodContracts.Text.Decimal
import MethodContracts.Text.Separated
import MethodContracts.Value
