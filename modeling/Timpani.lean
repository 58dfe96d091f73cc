import Timpani.Barrier.AllOrNothing
import Timpani.Barrier.Ownership
import Timpani.Bpf.Frame
import Timpani.Bpf.Replenish
import Timpani.Bpf.Supply
import Timpani.Cpp.Double
import Timpani.Cpp.Float
import Timpani.Cpp.Loop
import Timpani.Cpp.Parse
import Timpani.Cpp.Sort
import Timpani.Node.Activations
import Timpani.Node.CpuMask
import Timpani.Node.Gaps
import Timpani.Node.Gpdata
import Timpani.Node.Lifecycle
import Timpani.Node.Servers
import Timpani.Node.Throttled
import Timpani.Orchestrator.Cluster
import Timpani.Orchestrator.Convergence
import Timpani.Orchestrator.FaultLoop
import Timpani.Orchestrator.NodeStream
import Timpani.Orchestrator.Redundancy
import Timpani.Packing.WorstFit
import Timpani.Run.Basic
import Timpani.Rust.Delivery
import Timpani.Rust.Rejection
import Timpani.Scheduler.Admission
import Timpani.Scheduler.Bandwidth
import Timpani.Scheduler.Completeness
import Timpani.Scheduler.ConfigRoundTrip
import Timpani.Scheduler.Dedicated
import Timpani.Scheduler.Gaps
import Timpani.Scheduler.Isolation
import Timpani.Scheduler.Periodicity
import Timpani.Scheduler.Validity
import Timpani.Store.Addition
import Timpani.Store.Coherence
import Timpani.Store.Ledger
import Timpani.Store.Nodes
import Timpani.Store.Overflow
import Timpani.Store.Removal
import Timpani.Trpc.Stack
import Timpani.Ttsched.Release
