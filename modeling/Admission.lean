import Admission.Bucket.Basic
import Admission.Codec.Algorithm
import Admission.Codec.Quota
import Admission.Session.Basic
import Admission.Store.Remote
import Admission.Proofs.Binary64.Rounding
import Admission.Proofs.Binary64.Nearest
import Admission.Proofs.Binary64.Value
import Admission.Proofs.Binary64.Ties
import Admission.Proofs.Binary64.Range
import Admission.Proofs.Binary64.Order
import Admission.Proofs.Binary64.Decimal
import Admission.Proofs.Binary64.Blur
import Admission.Proofs.Binary64.Shortest
import Admission.Proofs.Time.Seconds
import Admission.Proofs.Time.Covering
import Admission.Proofs.Time.Tight
import Admission.Proofs.Json.Spelling
import Admission.Proofs.Json.Numeral
import Admission.Proofs.Json.Scaling
import Admission.Proofs.Json.Record
import Admission.Proofs.Codec.Double
import Admission.Proofs.Codec.Reread
import Admission.Proofs.Codec.Time
import Admission.Proofs.Codec.Standing
import Admission.Proofs.Codec.RoundTrip
import Admission.Proofs.Codec.Quota
import Admission.Proofs.Store.Remote
import Admission.Proofs.Bucket.Decision
import Admission.Proofs.Bucket.Account
import Admission.Proofs.Bucket.Bounds
import Admission.Proofs.Bucket.Retry
import Admission.Proofs.Bucket.Repeated
import Admission.Proofs.Bucket.Remaining
import Admission.Proofs.Bucket.Standstill
import Admission.Proofs.Bucket.Regression
import Admission.Proofs.Bucket.Capacity
import Admission.Proofs.Bucket.Finite
import Admission.Proofs.Bucket.Expiry
import Admission.Proofs.Bucket.Monotone
import Admission.Proofs.Bucket.Rehearsal
import Admission.Proofs.Bucket.Sound
import Admission.Proofs.Bucket.Rest
import Admission.Proofs.Bucket.Refill
import Admission.Proofs.Limiter.Effect
import Admission.Proofs.Limiter.Lifecycle
import Admission.Proofs.Limiter.Interleaving
import Admission.Proofs.Limiter.Serial
import Admission.Proofs.Limiter.Failure
import Admission.Proofs.Limiter.Remote
import Admission.Proofs.Limiter.Retelling
import Admission.Proofs.Sink.Taking
import Admission.Proofs.Sink.Worker
import Admission.Proofs.Telemetry.Waiting
import Admission.Proofs.Telemetry.Outbox
import Admission.Proofs.Telemetry.Outgoing
import Admission.Proofs.Sink.FanOut
import Admission.Proofs.Sink.Arms
import Admission.Proofs.Session.Concurrent
import Admission.Proofs.Session.Failure
import Admission.Proofs.Session.Independence
import Admission.Proofs.Session.Guard
import Admission.Proofs.Session.Reporting
import Admission.Proofs.Sink.EventLog
import Admission.Proofs.Sink.Metrics
import Admission.Proofs.Sink.Registration
import Admission.Proofs.Store.Keyspace
import Admission.Proofs.Algorithm
