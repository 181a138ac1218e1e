import SyncAccounting.Attempt
import SyncAccounting.Attempt.Statistics
import SyncAccounting.Backlog
import SyncAccounting.Binary64
import SyncAccounting.Binary64.Shortest
import SyncAccounting.Budget
import SyncAccounting.CommandLine
import SyncAccounting.CommandLine.Arguments
import SyncAccounting.Count
import SyncAccounting.Emission
import SyncAccounting.Estimates
import SyncAccounting.Event
import SyncAccounting.Failure
import SyncAccounting.Fault
import SyncAccounting.Fingerprint
import SyncAccounting.Json.Codec
import SyncAccounting.Json.Printer
import SyncAccounting.Json.ReadError
import SyncAccounting.Json.Record
import SyncAccounting.Json.Tagged
import SyncAccounting.Json.Token
import SyncAccounting.Json.Tree
import SyncAccounting.Json.Value
import SyncAccounting.Latency
import SyncAccounting.Ledger
import SyncAccounting.Main
import SyncAccounting.MergedCheckpoint
import SyncAccounting.Message
import SyncAccounting.Proofs.Alarms
import SyncAccounting.Proofs.Alignment
import SyncAccounting.Proofs.Attempt.Access
import SyncAccounting.Proofs.Attempt.Committed
import SyncAccounting.Proofs.Attempt.Delays
import SyncAccounting.Proofs.Attempt.Estimates
import SyncAccounting.Proofs.Attempt.Intake
import SyncAccounting.Proofs.Attempt.Reflection
import SyncAccounting.Proofs.Attempt.Step
import SyncAccounting.Proofs.Attempt.Survival
import SyncAccounting.Proofs.Ceiling
import SyncAccounting.Proofs.CheckpointGaps
import SyncAccounting.Proofs.CommittedCounts
import SyncAccounting.Proofs.Conservation
import SyncAccounting.Proofs.CrossCheck
import SyncAccounting.Proofs.EstimateContract
import SyncAccounting.Proofs.FailClosed
import SyncAccounting.Proofs.FailureCondition
import SyncAccounting.Proofs.FirstErrors
import SyncAccounting.Proofs.History
import SyncAccounting.Proofs.Interleaving
import SyncAccounting.Proofs.Json.Compact
import SyncAccounting.Proofs.Json.Lossless
import SyncAccounting.Proofs.Json.Members
import SyncAccounting.Proofs.Json.NormalForm
import SyncAccounting.Proofs.Json.Pretty
import SyncAccounting.Proofs.Json.Provenance
import SyncAccounting.Proofs.Json.Rearrangement
import SyncAccounting.Proofs.Json.Records
import SyncAccounting.Proofs.Json.Scanning
import SyncAccounting.Proofs.Json.Steadiness
import SyncAccounting.Proofs.Json.SteadyKinds
import SyncAccounting.Proofs.Json.Tags
import SyncAccounting.Proofs.Json.TrailingSpace
import SyncAccounting.Proofs.Latency.Calls
import SyncAccounting.Proofs.Latency.Coverage
import SyncAccounting.Proofs.Latency.Means
import SyncAccounting.Proofs.Ledger.Balance
import SyncAccounting.Proofs.Ledger.Calls
import SyncAccounting.Proofs.Ledger.Coalescing
import SyncAccounting.Proofs.Ledger.Folding
import SyncAccounting.Proofs.Ledger.Holdings
import SyncAccounting.Proofs.Ledger.Intake
import SyncAccounting.Proofs.Ledger.Refinement
import SyncAccounting.Proofs.Ledger.Resemblance
import SyncAccounting.Proofs.MergedStreams
import SyncAccounting.Proofs.Noninterference
import SyncAccounting.Proofs.Observation
import SyncAccounting.Proofs.OpaquePayloads
import SyncAccounting.Proofs.OrderIndependence
import SyncAccounting.Proofs.References
import SyncAccounting.Proofs.Registry
import SyncAccounting.Proofs.ResumePoint
import SyncAccounting.Proofs.Rows
import SyncAccounting.Proofs.Saturation
import SyncAccounting.Proofs.SelfConsistency
import SyncAccounting.Proofs.SortedList
import SyncAccounting.Proofs.Spans
import SyncAccounting.Proofs.StateFile
import SyncAccounting.Proofs.Text.ByteOrder
import SyncAccounting.Proofs.Text.Bytes
import SyncAccounting.Proofs.Transcript.Lines
import SyncAccounting.Proofs.Transcript.Replay
import SyncAccounting.Proofs.Wire.MemberOrder
import SyncAccounting.Proofs.Wire.RoundTrip
import SyncAccounting.Registry
import SyncAccounting.Settings
import SyncAccounting.Settings.Mapping
import SyncAccounting.Settings.Source
import SyncAccounting.Settings.Template
import SyncAccounting.SortedList
import SyncAccounting.StreamKey
import SyncAccounting.Summary
import SyncAccounting.Tally
import SyncAccounting.Text.Blank
import SyncAccounting.Transcript
import SyncAccounting.Wire.Message
import SyncAccounting.Wire.Report
import SyncAccounting.Wire.Settings
