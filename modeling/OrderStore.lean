import OrderStore.Benchmark.Audit
import OrderStore.Main
import OrderStore.Proofs.Record.RoundTrip
import OrderStore.Store.Call
import OrderStore.Proofs.Buffer.Arena
import OrderStore.Proofs.Buffer.Region
import OrderStore.Proofs.Optimistic.Alone
import OrderStore.Proofs.Segmented.Alone
import OrderStore.Proofs.Segmented.Recycle
import OrderStore.Proofs.Store.Segments
import OrderStore.Proofs.Store.AtRest
import OrderStore.Proofs.Store.Interchange
import OrderStore.Proofs.Store.ReadBack
import OrderStore.Proofs.Optimistic.Threads
import OrderStore.Proofs.Optimistic.Sound
import OrderStore.Proofs.Optimistic.Stamps
import OrderStore.Proofs.Optimistic.Copies
import OrderStore.Proofs.Optimistic.TrustedRead
import OrderStore.Proofs.Optimistic.Claims
import OrderStore.Proofs.Optimistic.Defeats
import OrderStore.Proofs.Optimistic.Allocation
import OrderStore.Proofs.Segmented.Layout
import OrderStore.Proofs.Store.Room
import OrderStore.Proofs.Segmented.Threads
import OrderStore.Proofs.Segmented.Contention
import OrderStore.Proofs.Segmented.Placement
import OrderStore.Proofs.Segmented.Turns
import OrderStore.Proofs.Store.Overwriting
import OrderStore.Proofs.Buffer.Alike
import OrderStore.Proofs.Store.Alike
import OrderStore.Proofs.Store.Reset
import OrderStore.Proofs.Store.RingWrite
import OrderStore.Proofs.Optimistic.Alike
import OrderStore.Proofs.Store.StaleBytes
import OrderStore.Proofs.Optimistic.GivingUp
import OrderStore.Proofs.Record.Faithful
import OrderStore.Proofs.Record.Canonical
import OrderStore.Proofs.Utf8
import OrderStore.Proofs.Record.Grammar
import OrderStore.Proofs.Latency.Merging
import OrderStore.Proofs.Benchmark.Synthetic
import OrderStore.Proofs.Benchmark.Workload
import OrderStore.Proofs.Benchmark.Outcome
import OrderStore.Proofs.Segmented.Partition
import OrderStore.Proofs.Segmented.Reachable
import OrderStore.Proofs.Store.Batch
import OrderStore.Proofs.Segmented.RoundRobin
import OrderStore.Proofs.Buffer.Build
import OrderStore.Proofs.Optimistic.Build
import OrderStore.Proofs.Segmented.Build
import OrderStore.Proofs.Store.Build
import OrderStore.Proofs.Latency.Accuracy
import OrderStore.Proofs.Latency.Clamping
import OrderStore.Proofs.Latency.NearestRank
import OrderStore.Proofs.Latency.Summaries
import OrderStore.Proofs.Benchmark.Joining
import OrderStore.Proofs.Benchmark.Numbering
import OrderStore.Proofs.Benchmark.Sweep
import OrderStore.Proofs.Json.Grammar
import OrderStore.Proofs.Json.Skip
import OrderStore.Proofs.Json.Scalars
import OrderStore.Proofs.Json.Schema
import OrderStore.Proofs.Config.Text
import OrderStore.Proofs.Binary64.Decimal
import OrderStore.Proofs.Buffer.ByteLog
import OrderStore.Proofs.Latency.Text
