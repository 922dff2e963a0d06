import FStackLite.Foundation.Loop
import FStackLite.Foundation.TimerQueue
import FStackLite.Timeout.State
import FStackLite.Timeout.Wheel
import FStackLite.Timeout.Invariant
import FStackLite.Timeout.Operations
import FStackLite.Timeout.Refinement
import FStackLite.Timeout.StopProtocol
import FStackLite.Timeout.Runs
import FStackLite.Timeout.Softclock
import FStackLite.Timeout.Hardclock
import FStackLite.Timeout.Laws
import FStackLite.Kqueue.Deadline
import FStackLite.Kqueue.PeriodicTimer
import FStackLite.Kqueue.TimerClient
import FStackLite.Kqueue.AbsoluteDeadline
import FStackLite.Foundation.Arena
import FStackLite.Foundation.Chain
import FStackLite.Packet.Convert
import FStackLite.Packet.Release
import FStackLite.Packet.Receive
import FStackLite.Packet.ReceiveOwnership
import FStackLite.Packet.ReceiveLifetime
import FStackLite.Packet.ReceiveReturn
import FStackLite.Packet.ReceiveContent
import FStackLite.Foundation.Chunks
import FStackLite.Packet.CopyData
import FStackLite.Packet.Transmit
import FStackLite.Packet.TransmitOwnership
import FStackLite.Packet.TransmitContent
import FStackLite.Foundation.Placement
import FStackLite.Ipc.Ownership
import FStackLite.Foundation.Span
import FStackLite.Marshal.Message
import FStackLite.Marshal.Request
import FStackLite.Marshal.PoolInvariant
import FStackLite.Sockaddr.Input
import FStackLite.Sockaddr.Output
import FStackLite.Dispatch.Conservation
import FStackLite.Foundation.Toeplitz
import FStackLite.Rss.Toeplitz
import FStackLite.Rss.Agreement
import FStackLite.Epoll.Kqueue
import FStackLite.Epoll.Control
import FStackLite.Epoll.Atomicity
import FStackLite.Epoll.Interest
import FStackLite.Config.Ini
import FStackLite.Config.Lists
import FStackLite.Config.Load
import FStackLite.Config.QueueCoverage
import FStackLite.Foundation.Bytes
import FStackLite.Route.MsgBuffer
import FStackLite.Route.Ioctl
import FStackLite.Route.CopyBack
import FStackLite.Filter.Protocol
import FStackLite.Filter.Reads
import FStackLite.Filter.ExtensionChain
import FStackLite.Filter.PortList
import FStackLite.Foundation.Slots
import FStackLite.Ipc.Reply
import FStackLite.TxQueue.Table
import FStackLite.TxQueue.Ledger
import FStackLite.TxQueue.Order
import FStackLite.TxQueue.Ownership
import FStackLite.PageArray.ZeroCopy
import FStackLite.Dispatch.Broadcast
import FStackLite.Foundation.Copies
import FStackLite.Vectored.Entry
import FStackLite.Marshal.Netgraph
import FStackLite.Sockaddr.RoundTrip
import FStackLite.Filter.PortLoop
import FStackLite.Marshal.Ipfw
import FStackLite.Epoll.UserData
import FStackLite.Route.Sizing
import FStackLite.Route.RoundTrip
import FStackLite.Foundation.Ring
import FStackLite.PageArray.TxRing
import FStackLite.PageArray.TxRingDelay
import FStackLite.PageArray.TxRingPop
import FStackLite.PageArray.Pages
import FStackLite.Config.CoreMask
import FStackLite.Config.ListStore
import FStackLite.Config.NumberList
import FStackLite.Config.Arguments
import FStackLite.Config.ArraySafety
import FStackLite.Packet.DeepClone
import FStackLite.Packet.CloneOutcome
import FStackLite.Foundation.Queue
import FStackLite.Slab.PageHash
import FStackLite.Timeout.Legacy
import FStackLite.Timeout.LegacyTable
import FStackLite.Config.Membership
import FStackLite.PageArray.Allocator
import FStackLite.Epoll.CopyOut
import FStackLite.Host.Random
import FStackLite.Kni.Accounting
import FStackLite.MainLoop.Load
import FStackLite.Timeout.Timecounter
import FStackLite.Pcap.Capture
import FStackLite.Foundation.Program
import FStackLite.Netgraph.State
import FStackLite.Netgraph.Connect
import FStackLite.Netgraph.Destroy
import FStackLite.Netgraph.Message
import FStackLite.Netgraph.Join
import FStackLite.Netgraph.Lookup
import FStackLite.Netgraph.Resolve
import FStackLite.Netgraph.Runs
