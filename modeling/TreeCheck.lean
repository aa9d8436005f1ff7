import TreeCheck.Diagnostic.FromJson
import TreeCheck.Json.Raw
import TreeCheck.Main
import TreeCheck.Report.KindNames
import TreeCheck.Report.ProgressView
import TreeCheck.Report.TableJson
import TreeCheck.Scope.Patch
import TreeCheck.Trace.FromJson
import TreeCheck.Trace.Nesting
import TreeCheck.Types.Relation
import TreeCheck.Proofs.Check.Keys
import TreeCheck.Proofs.Check.Protocol
import TreeCheck.Proofs.Check.Replay
import TreeCheck.Proofs.Loading.Failures
import TreeCheck.Proofs.Loading.Wholeness
import TreeCheck.Proofs.Pipeline.Candidates
import TreeCheck.Proofs.Pipeline.GivingUp
import TreeCheck.Proofs.Pipeline.Waiting
import TreeCheck.Proofs.Reporting.Repeats
import TreeCheck.Proofs.Rules.Finality
import TreeCheck.Proofs.Rules.Unions
import TreeCheck.Proofs.Scoping.Flattening
import TreeCheck.Proofs.Scoping.Signatures
import TreeCheck.Proofs.Trace.Ring
import TreeCheck.Proofs.Types.Inference
import TreeCheck.Proofs.Types.Returning
import TreeCheck.Proofs.Types.Unknown
import TreeCheck.Proofs.Wire.RoundTrip
