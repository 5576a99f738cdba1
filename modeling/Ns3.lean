import Ns3.Core.Assert
import Ns3.Core.CalendarScheduler.Basic
import Ns3.Core.CalendarScheduler.Refinement
import Ns3.Core.CalendarScheduler.Resize
import Ns3.Core.CalendarScheduler.Search
import Ns3.Core.DefaultSimulatorImpl.Basic
import Ns3.Core.DefaultSimulatorImpl.Execution
import Ns3.Core.DefaultSimulatorImpl.Order
import Ns3.Core.HeapScheduler.Basic
import Ns3.Core.HeapScheduler.Refinement
import Ns3.Core.Int64x64.Basic
import Ns3.Core.Int64x64.Division
import Ns3.Core.Int64x64.Inverse
import Ns3.Core.Scheduler
import Ns3.Internet.ArpL3Protocol.Resolution
import Ns3.Internet.GlobalRouting.Basic
import Ns3.Internet.GlobalRouting.EqualCost
import Ns3.Internet.GlobalRouting.Exits
import Ns3.Internet.GlobalRouting.OneLink
import Ns3.Internet.GlobalRouting.Routes
import Ns3.Internet.GlobalRouting.Search
import Ns3.Internet.GlobalRouting.ShortestPaths
import Ns3.Internet.GlobalRouting.StubNode
import Ns3.Internet.Ipv4AddressGenerator
import Ns3.Internet.Ipv4EndPointDemux.Basic
import Ns3.Internet.Ipv4EndPointDemux.Unambiguous
import Ns3.Internet.Ipv4GlobalRouting
import Ns3.Internet.Ipv4L3Protocol.Basic
import Ns3.Internet.Ipv4L3Protocol.Delivery
import Ns3.Internet.Ipv4L3Protocol.Fragmentation
import Ns3.Internet.Ipv4L3Protocol.Overlap
import Ns3.Internet.Ipv4L3Protocol.Reassembly
import Ns3.Internet.Ipv4L3Protocol.Timely
import Ns3.Internet.Ipv4StaticRouting.Basic
import Ns3.Internet.Ipv4StaticRouting.Lookup
import Ns3.Internet.RttEstimator
import Ns3.Internet.TcpCerl.Basic
import Ns3.Internet.TcpCerl.Estimates
import Ns3.Internet.TcpCerl.FirstSample
import Ns3.Internet.TcpCerl.Fork
import Ns3.Internet.TcpCerl.Recovery
import Ns3.Internet.TcpCerl.Statistics
import Ns3.Internet.TcpHeader.Basic
import Ns3.Internet.TcpOption.Basic
import Ns3.Internet.TcpPrrRecovery
import Ns3.Internet.TcpRateOps.Accounting
import Ns3.Internet.TcpRateOps.Basic
import Ns3.Internet.TcpRateOps.Delivered
import Ns3.Internet.TcpRecoveryOps
import Ns3.Internet.TcpRxBuffer.Arranged
import Ns3.Internet.TcpRxBuffer.Basic
import Ns3.Internet.TcpRxBuffer.BeyondFin
import Ns3.Internet.TcpRxBuffer.Blank
import Ns3.Internet.TcpRxBuffer.Delivery
import Ns3.Internet.TcpRxBuffer.Fin
import Ns3.Internet.TcpRxBuffer.Fragments
import Ns3.Internet.TcpRxBuffer.Reassembly
import Ns3.Internet.TcpRxBuffer.Sack
import Ns3.Internet.TcpRxBuffer.Window
import Ns3.Internet.TcpSocketBase.Acceptance
import Ns3.Internet.TcpSocketBase.Handshake
import Ns3.Internet.TcpSocketBase.Listener
import Ns3.Internet.TcpSocketBase.Options
import Ns3.Internet.TcpSocketBase.Receiver.AfterFin
import Ns3.Internet.TcpSocketBase.Receiver.Basic
import Ns3.Internet.TcpSocketBase.Receiver.DelayWindow
import Ns3.Internet.TcpSocketBase.Receiver.Fin
import Ns3.Internet.TcpSocketBase.Receiver.Frame
import Ns3.Internet.TcpSocketBase.Receiver.Range
import Ns3.Internet.TcpSocketBase.RttHistory
import Ns3.Internet.TcpSocketBase.Sender.Basic
import Ns3.Internet.TcpSocketBase.Sender.CongestionState
import Ns3.Internet.TcpSocketBase.Sender.Deliveries
import Ns3.Internet.TcpSocketBase.Sender.Frame
import Ns3.Internet.TcpSocketBase.Sender.Persist
import Ns3.Internet.TcpSocketBase.Sender.Send
import Ns3.Internet.TcpSocketBase.Sender.Transitions
import Ns3.Internet.TcpSocketBase.WindowScale
import Ns3.Internet.TcpTxBuffer.Basic
import Ns3.Internet.TcpTxBuffer.BlockOrder
import Ns3.Internet.TcpTxBuffer.BytesInFlight
import Ns3.Internet.TcpTxBuffer.Capacity
import Ns3.Internet.TcpTxBuffer.Consistency
import Ns3.Internet.TcpTxBuffer.Copy
import Ns3.Internet.TcpTxBuffer.Counters
import Ns3.Internet.TcpTxBuffer.Discard
import Ns3.Internet.TcpTxBuffer.DupThresh
import Ns3.Internet.TcpTxBuffer.Flags
import Ns3.Internet.TcpTxBuffer.LossRule
import Ns3.Internet.TcpTxBuffer.Marks
import Ns3.Internet.TcpTxBuffer.OneMark
import Ns3.Internet.TcpTxBuffer.Pipe
import Ns3.Internet.TcpTxBuffer.Pointed
import Ns3.Internet.TcpTxBuffer.Ranges
import Ns3.Internet.TcpTxBuffer.Retransmit
import Ns3.Internet.TcpTxBuffer.Scoreboard
import Ns3.Internet.TcpTxBuffer.Segments
import Ns3.Internet.TcpTxBuffer.Steps
import Ns3.Internet.TcpTxBuffer.Stream
import Ns3.Internet.TcpTxBuffer.TopSacked
import Ns3.Internet.TcpTxBuffer.WellFormed
import Ns3.Internet.TcpTxBuffer.Wrap
import Ns3.Library.BinaryHeap
import Ns3.Library.BitField
import Ns3.Library.Chain
import Ns3.Library.Contract
import Ns3.Library.Division
import Ns3.Library.Extended
import Ns3.Library.Extremes
import Ns3.Library.Frames
import Ns3.Library.InverseSqrt
import Ns3.Library.OrderedList
import Ns3.Library.PaddedJoin
import Ns3.Library.Run
import Ns3.Library.ShortestPath
import Ns3.Library.Span
import Ns3.Lte.LteRlcAm.Partition
import Ns3.Lte.LteRlcAm.StatusSize
import Ns3.Lte.LteRlcAmHeader.DataPdu
import Ns3.Lte.LteRlcHeader
import Ns3.Lte.LteRlcUm.Discard
import Ns3.Lte.LteRlcUm.Exact
import Ns3.Lte.LteRlcUm.InOrder
import Ns3.Lte.LteRlcUm.Receive
import Ns3.Lte.LteRlcUm.Reordering
import Ns3.Lte.LteRlcUm.Sending
import Ns3.Lte.LteRlcUm.Transmit
import Ns3.Lte.LteRlcUm.Window
import Ns3.Network.Buffer.Adding
import Ns3.Network.Buffer.Append
import Ns3.Network.Buffer.Appending
import Ns3.Network.Buffer.Basic
import Ns3.Network.Buffer.FullCopy
import Ns3.Network.Buffer.Iterator
import Ns3.Network.Buffer.Sharing
import Ns3.Network.NixVector.Basic
import Ns3.Network.NixVector.Stack
import Ns3.Network.Packet
import Ns3.Network.PacketTagList.Basic
import Ns3.Network.PacketTagList.Independence
import Ns3.Network.PacketTagList.Operations
import Ns3.Network.PacketTagList.Sharing
import Ns3.Network.PacketTagList.Traversal
import Ns3.Network.SequenceNumber
import Ns3.Network.SequenceOrder
import Ns3.TrafficControl.CoDelQueueDisc.Basic
import Ns3.TrafficControl.CoDelQueueDisc.NewtonRange
import Ns3.TrafficControl.CoDelQueueDisc.NullItem
import Ns3.TrafficControl.CoDelQueueDisc.TimeShift
import Ns3.TrafficControl.FqCoDelQueueDisc.Basic
import Ns3.TrafficControl.FqCoDelQueueDisc.Fairness
import Ns3.TrafficControl.FqCoDelQueueDisc.Lists
import Ns3.TrafficControl.QueueDisc.Accounting
import Ns3.TrafficControl.QueueDisc.Basic
import Ns3.TrafficControl.QueueDisc.Conservation
import Ns3.TrafficControl.QueueDisc.Statistics
import Ns3.TrafficControl.QueueDisc.Transmission
import Ns3.TrafficControl.TbfQueueDisc
import Ns3.Wifi.BlockAckManager.Order
import Ns3.Wifi.BlockAckWindow
import Ns3.Wifi.CtrlBAckResponseHeader
import Ns3.Wifi.MacRxMiddle.Basic
import Ns3.Wifi.MacRxMiddle.Defragmentation
import Ns3.Wifi.MsduAggregator
import Ns3.Wifi.OriginatorBlockAckAgreement.Basic
import Ns3.Wifi.OriginatorBlockAckAgreement.Refinement
import Ns3.Wifi.RecipientBlockAckAgreement.Basic
import Ns3.Wifi.RecipientBlockAckAgreement.Bitmap
import Ns3.Wifi.RecipientBlockAckAgreement.Flush
import Ns3.Wifi.RecipientBlockAckAgreement.Reordering
