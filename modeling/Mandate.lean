import Mandate.Cache
import Mandate.Capability.Basic
import Mandate.Capability.Caveat
import Mandate.Capability.Headroom
import Mandate.Capability.Reader
import Mandate.Capability.Writer
import Mandate.Command.Arguments
import Mandate.Command.Documents
import Mandate.Command.Grammar
import Mandate.Command.Inspect
import Mandate.Command.Report
import Mandate.Command.Run
import Mandate.Command.Task
import Mandate.Command.Verify
import Mandate.Document.Field
import Mandate.Fault.Chain
import Mandate.Fault.Failure
import Mandate.Fault.Format
import Mandate.Fault.Reason
import Mandate.Files.Basic
import Mandate.Files.Path
import Mandate.Files.Tree
import Mandate.Host
import Mandate.Invocation.Basic
import Mandate.Json.Literal
import Mandate.Json.Printer
import Mandate.Json.Reader
import Mandate.Json.Value
import Mandate.Log.Correlation
import Mandate.Log.Event
import Mandate.Log.Hierarchy
import Mandate.Log.Identifier
import Mandate.Log.Level
import Mandate.Log.Record
import Mandate.Log.Setup
import Mandate.Log.Template
import Mandate.Log.Thresholds
import Mandate.Main
import Mandate.Number.Basic
import Mandate.Number.Binary64
import Mandate.Number.Places
import Mandate.Number.Shortest
import Mandate.Purpose.Controller
import Mandate.Purpose.Created
import Mandate.Resolver.Cached
import Mandate.Resolver.Remote
import Mandate.Resolver.Store
import Mandate.Settings.Assignment
import Mandate.Settings.Basic
import Mandate.Settings.Numeral
import Mandate.Settings.Variables
import Mandate.Table
import Mandate.Text.Basic
import Mandate.Text.Blank
import Mandate.Text.Decode
import Mandate.Text.Digit
import Mandate.Text.Encode
import Mandate.Text.Hexadecimal
import Mandate.Text.Lines
import Mandate.Text.Printable
import Mandate.Text.Quoted
import Mandate.Text.Split
import Mandate.Time.Calendar
import Mandate.Time.Iso
import Mandate.Time.Span
import Mandate.Time.Stamp
import Mandate.Verification.Chain
import Mandate.Verification.Verdict
import Mandate.Verification.Verifier
import Mandate.Proofs.Success
import Mandate.Proofs.Verification.Phases
import Mandate.Proofs.Verification.Acceptance
import Mandate.Proofs.Verification.InlineRoot
import Mandate.Proofs.Capability.Reading
import Mandate.Proofs.Resolver.Store
import Mandate.Proofs.Verification.Delegation
import Mandate.Proofs.Verification.TrustAnchor
import Mandate.Proofs.History
import Mandate.Proofs.Cache.Run
import Mandate.Proofs.Cache.Recency
import Mandate.Proofs.Cache.Ledger
import Mandate.Proofs.Cache.Expiry
import Mandate.Proofs.Resolver.Cached
import Mandate.Proofs.Time.Written
import Mandate.Proofs.Capability.RoundTrip
import Mandate.Proofs.Capability.Assembled
import Mandate.Proofs.Verification.Verdicts
import Mandate.Proofs.Capability.Grammar
import Mandate.Proofs.Purpose.BuiltIn
import Mandate.Proofs.Verification.Attenuation
import Mandate.Proofs.Resolver.Faithful
import Mandate.Proofs.Capability.Rezoned
import Mandate.Proofs.Verification.Record
import Mandate.Proofs.Verification.Rezoned
import Mandate.Proofs.Verification.Rewriting
import Mandate.Proofs.Verification.SubmittedRoot
import Mandate.Proofs.Verification.Instants
import Mandate.Proofs.Verification.Effects
import Mandate.Proofs.Verification.Failures
import Mandate.Proofs.Verification.Agreement
import Mandate.Proofs.Purpose.Controller
import Mandate.Proofs.Json.Reading
import Mandate.Proofs.Resolver.Remote
import Mandate.Proofs.Command.Loading
import Mandate.Proofs.Command.Exit
import Mandate.Proofs.Capability.NormalForm
import Mandate.Proofs.Log.Ancestry
import Mandate.Proofs.Command.Decision
import Mandate.Proofs.Log.Template
import Mandate.Proofs.Log.Decorated
import Mandate.Proofs.Table
import Mandate.Proofs.Text.Parts
import Mandate.Proofs.Log.Specification
import Mandate.Proofs.Log.Applied
import Mandate.Proofs.Number.Rounding
import Mandate.Proofs.Number.Shortest
import Mandate.Proofs.Json.Numeral
import Mandate.Proofs.Json.Escaped
import Mandate.Proofs.Json.Written
import Mandate.Proofs.Json.Held
import Mandate.Proofs.Log.Line
