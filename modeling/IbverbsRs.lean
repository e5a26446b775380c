import IbverbsRs.Channel.Account
import IbverbsRs.Channel.CachedCompletionQueue
import IbverbsRs.Channel.Closing
import IbverbsRs.Channel.Delivery
import IbverbsRs.Channel.Evolution
import IbverbsRs.Channel.Ledger
import IbverbsRs.Channel.PendingWork
import IbverbsRs.Channel.PollingScope
import IbverbsRs.Channel.Registry
import IbverbsRs.Channel.ScopeOutcome
import IbverbsRs.Channel.ScopeSafety
import IbverbsRs.Channel.SpinBound
import IbverbsRs.Channel.Spinning
import IbverbsRs.Channel.Tracking
import IbverbsRs.Framework.ByteMemory
import IbverbsRs.Framework.ByteOrder
import IbverbsRs.Framework.ChunkedStream
import IbverbsRs.Framework.Framing
import IbverbsRs.Framework.Gathering
import IbverbsRs.Framework.GlobalOrder
import IbverbsRs.Framework.GroupCalls
import IbverbsRs.Framework.Lists
import IbverbsRs.Framework.Loans
import IbverbsRs.Framework.Ownership
import IbverbsRs.Framework.Refinement
import IbverbsRs.Framework.Results
import IbverbsRs.Framework.RootedTree
import IbverbsRs.Framework.Segments
import IbverbsRs.Framework.Signalling
import IbverbsRs.Framework.Slots
import IbverbsRs.Framework.TransitionSystem
import IbverbsRs.Ibverbs.CompletionQueue
import IbverbsRs.Ibverbs.Error
import IbverbsRs.Ibverbs.Memory.MemoryRegion
import IbverbsRs.Ibverbs.Memory.Navigation
import IbverbsRs.Ibverbs.Memory.Registration
import IbverbsRs.Ibverbs.Memory.RemoteMemoryRegion
import IbverbsRs.Ibverbs.Memory.ScatterGatherElement
import IbverbsRs.Ibverbs.QueuePair.Builder
import IbverbsRs.Ibverbs.QueuePair.Config
import IbverbsRs.Ibverbs.QueuePair.Delivery
import IbverbsRs.Ibverbs.QueuePair.FabricInvariant
import IbverbsRs.Ibverbs.QueuePair.MinRnrTimer
import IbverbsRs.Ibverbs.QueuePair.OneSided
import IbverbsRs.Ibverbs.QueuePair.Ops
import IbverbsRs.Ibverbs.QueuePair.QueueInvariant
import IbverbsRs.Ibverbs.QueuePair.Transfer
import IbverbsRs.Ibverbs.QueuePair.UsageSafety
import IbverbsRs.Ibverbs.ResourceSafety
import IbverbsRs.Ibverbs.Resources
import IbverbsRs.Ibverbs.Typing
import IbverbsRs.Math.BinarySearch
import IbverbsRs.Math.PowerOfTwo
import IbverbsRs.Math.Usize
import IbverbsRs.MultiChannel.Builder
import IbverbsRs.MultiChannel.CallInvariant
import IbverbsRs.MultiChannel.CallOutcome
import IbverbsRs.MultiChannel.CallReturn
import IbverbsRs.MultiChannel.CallSteps
import IbverbsRs.MultiChannel.PolledOps
import IbverbsRs.MultiChannel.RemoteMemoryRegion
import IbverbsRs.MultiChannel.UnpolledOps
import IbverbsRs.MultiChannel.UnpolledOutcome
import IbverbsRs.MultiChannel.UnpolledReturn
import IbverbsRs.MultiChannel.WorkRequest
import IbverbsRs.Network.Barrier.BinaryTree
import IbverbsRs.Network.Barrier.Bounds
import IbverbsRs.Network.Barrier.ByteBarriers
import IbverbsRs.Network.Barrier.ByteRefinement
import IbverbsRs.Network.Barrier.ByteWorld
import IbverbsRs.Network.Barrier.Call
import IbverbsRs.Network.Barrier.Classification
import IbverbsRs.Network.Barrier.Deadline
import IbverbsRs.Network.Barrier.Dissemination
import IbverbsRs.Network.Barrier.DisseminationSchedule
import IbverbsRs.Network.Barrier.Epochs
import IbverbsRs.Network.Barrier.Error
import IbverbsRs.Network.Barrier.History
import IbverbsRs.Network.Barrier.Linear
import IbverbsRs.Network.Barrier.Memory
import IbverbsRs.Network.Barrier.Node
import IbverbsRs.Network.Barrier.Notify
import IbverbsRs.Network.Barrier.Poisoning
import IbverbsRs.Network.Barrier.Program
import IbverbsRs.Network.Barrier.Progress
import IbverbsRs.Network.Barrier.Region
import IbverbsRs.Network.Barrier.Safety
import IbverbsRs.Network.Barrier.SlotOwnership
import IbverbsRs.Network.Barrier.Timeouts
import IbverbsRs.Network.Barrier.TreeShape
import IbverbsRs.Network.Barrier.World
import IbverbsRs.Network.Builder
import IbverbsRs.Network.Config
import IbverbsRs.Network.Ownership
import IbverbsRs.Network.Startup
import IbverbsRs.Network.TcpExchanger.Agreement
import IbverbsRs.Network.TcpExchanger.Await
import IbverbsRs.Network.TcpExchanger.ChunkedExchange
import IbverbsRs.Network.TcpExchanger.Connecting
import IbverbsRs.Network.TcpExchanger.Dialing
import IbverbsRs.Network.TcpExchanger.Exchange
import IbverbsRs.Network.TcpExchanger.Invariant
import IbverbsRs.Network.TcpExchanger.Json
import IbverbsRs.Network.TcpExchanger.Links
import IbverbsRs.Network.TcpExchanger.Serving
import IbverbsRs.Network.TcpExchanger.Stream
import IbverbsRs.Network.Validation
