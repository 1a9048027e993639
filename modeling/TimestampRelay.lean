/-
Event timestamps relayed through three stages that run side by side: a source feeds descriptors with
truncated timestamps into a ring, an extender rebuilds the full timestamps and feeds them into a second
ring, and a sink delivers them.
-/
import TimestampRelay.Pipeline
import TimestampRelay.Recorder
import TimestampRelay.Ring.Queue
import TimestampRelay.Ring.Text
import TimestampRelay.Ring.Traffic
import TimestampRelay.Run.Holdings
import TimestampRelay.Run.Schedule
import TimestampRelay.Feed.Synthetic
import TimestampRelay.Proofs.Counter.Clock
import TimestampRelay.Proofs.Ring.Histories
import TimestampRelay.Proofs.Ring.Queue
import TimestampRelay.Proofs.Feed.Course
import TimestampRelay.Proofs.Run.Attempts
import TimestampRelay.Proofs.Run.Lifecycle
import TimestampRelay.Proofs.Run.Report
import TimestampRelay.Proofs.Run.Schedule
import TimestampRelay.Proofs.Lone.Source
import TimestampRelay.Proofs.Lone.Extender
import TimestampRelay.Proofs.Lone.Sink
import TimestampRelay.Proofs.Counter.Nearest
import TimestampRelay.Proofs.Counter.Retrace
import TimestampRelay.Proofs.Ring.Batch
import TimestampRelay.Proofs.Lone.Break
import TimestampRelay.Proofs.Ring.Alone
import TimestampRelay.Proofs.Ring.Occupancy
import TimestampRelay.Proofs.Config.Rules
import TimestampRelay.Proofs.Recorder.Summary
import TimestampRelay.Proofs.Ring.Checked
import TimestampRelay.Proofs.Memory.Pages
