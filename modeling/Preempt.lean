import Preempt.Action
import Preempt.Board
import Preempt.Core
import Preempt.Fault
import Preempt.Frame.Architectures
import Preempt.Frame.Image
import Preempt.Frame.Layout
import Preempt.Frame.RegisterFile
import Preempt.Indexed
import Preempt.Kernel.Basic
import Preempt.Kernel.Creation
import Preempt.Kernel.Deletion
import Preempt.Kernel.Engine
import Preempt.Kernel.Interrupts
import Preempt.Kernel.Lifecycle
import Preempt.Lock
import Preempt.Machine
import Preempt.Nesting
import Preempt.Proofs.Architectures
import Preempt.Proofs.BringUp
import Preempt.Proofs.Calls
import Preempt.Proofs.Contexts
import Preempt.Proofs.Engine
import Preempt.Proofs.Epilogues
import Preempt.Proofs.Frame.Calls
import Preempt.Proofs.Frame.Contexts
import Preempt.Proofs.Frame.Preemption
import Preempt.Proofs.Frame.RoundTrip
import Preempt.Proofs.Frame.Saving
import Preempt.Proofs.Frame.Starting
import Preempt.Proofs.Halting
import Preempt.Proofs.Interplay.Advance
import Preempt.Proofs.Interplay.Callouts
import Preempt.Proofs.Interplay.Checks
import Preempt.Proofs.Interplay.Engine
import Preempt.Proofs.Interplay.Handlers
import Preempt.Proofs.Interplay.Moves
import Preempt.Proofs.Interplay.Outcomes
import Preempt.Proofs.Interplay.Protection
import Preempt.Proofs.Interplay.Requests
import Preempt.Proofs.Interplay.Rounds
import Preempt.Proofs.Interplay.Signals
import Preempt.Proofs.Isolation.Calls
import Preempt.Proofs.Isolation.Contexts
import Preempt.Proofs.Isolation.Cores
import Preempt.Proofs.Isolation.Footprint
import Preempt.Proofs.Lock.Exclusion
import Preempt.Proofs.Lock.Turns
import Preempt.Proofs.Masks
import Preempt.Proofs.Nesting
import Preempt.Proofs.Runs
import Preempt.Proofs.Sections
import Preempt.Proofs.Segment.Audit
import Preempt.Proofs.Segment.Chains
import Preempt.Proofs.Segment.Collecting
import Preempt.Proofs.Segment.Contexts
import Preempt.Proofs.Segment.Custody
import Preempt.Proofs.Segment.Deletion
import Preempt.Proofs.Segment.Depth
import Preempt.Proofs.Segment.Footprint
import Preempt.Proofs.Segment.FreeList
import Preempt.Proofs.Segment.GivingBack
import Preempt.Proofs.Segment.Handover
import Preempt.Proofs.Segment.Joining
import Preempt.Proofs.Segment.Keeping
import Preempt.Proofs.Segment.Ledger
import Preempt.Proofs.Segment.Matching
import Preempt.Proofs.Segment.Operations
import Preempt.Proofs.Segment.Queueing
import Preempt.Proofs.Segment.Reclaiming
import Preempt.Proofs.Segment.Reentry
import Preempt.Proofs.Segment.Retirement
import Preempt.Proofs.Segment.Runs
import Preempt.Proofs.Segment.Sharing
import Preempt.Proofs.Segment.Shedding
import Preempt.Proofs.Segment.Splicing
import Preempt.Proofs.Segment.Starting
import Preempt.Proofs.Segment.Transparency
import Preempt.Proofs.Segment.Visiting
import Preempt.Proofs.Steady
import Preempt.Proofs.Tick.Timekeeping
import Preempt.Proofs.Undisturbed
import Preempt.RoundRobin
import Preempt.Segment.Banks
import Preempt.Segment.Chain
import Preempt.Segment.DeletionQueue
import Preempt.Segment.Link
import Preempt.Segment.Pool.Basic
import Preempt.Segment.Pool.Runs
import Preempt.Segment.Suspension
import Preempt.Settings
import Preempt.Storage
import Preempt.Tasks.Basic
import Preempt.Tasks.Blocks
import Preempt.Tick.Rate
import Preempt.Tick.Service
import Preempt.Tick.Timer
import Preempt.Trace
import Preempt.Word
