import SocketChat.Lib.Runs
import SocketChat.Lib.LossyFifo
import SocketChat.TestCode.TcpFT.Model
import SocketChat.TestCode.TcpFT.Upload
import SocketChat.TestCode.FileTransfer.Model
import SocketChat.TestCode.FileTransfer.Send
import SocketChat.MoreLearning.UdpFile.Invariant
import SocketChat.MoreLearning.UdpFile.Transfer
import SocketChat.MoreLearning.UdpFile.Acknowledgment
import SocketChat.Lib.Room
import SocketChat.Lib.SlotTable
import SocketChat.MoreLearning.SelectChat.Model
import SocketChat.MoreLearning.SelectChat.Table
import SocketChat.MoreLearning.SelectChat.Recipients
import SocketChat.Lib.Deliveries
import SocketChat.Lib.Postings
import SocketChat.TestCode.ArbitraryChat.Model
import SocketChat.TestCode.ArbitraryChat.Threads
import SocketChat.TestCode.ArbitraryChat.Turns
import SocketChat.TestCode.ArbitraryChat.Delivery
import SocketChat.TestCode.ArbitraryChat.Isolation
import SocketChat.Lib.FirstComers
import SocketChat.Lib.Lines
import SocketChat.MoreLearning.UdpBroadcast.Model
import SocketChat.MoreLearning.UdpBroadcast.Table
import SocketChat.MoreLearning.UdpBroadcast.Silence
import SocketChat.MoreLearning.UdpBroadcast.Destination
import SocketChat.Lib.Sides
import SocketChat.UdpTurns.Model
import SocketChat.UdpTurns.Integrity
import SocketChat.UdpTurns.Farewell
import SocketChat.TestCode.TcpTurns.Model
import SocketChat.TestCode.TcpTurns.Deadlock
import SocketChat.MoreLearning.TcpTurns.Model
import SocketChat.MoreLearning.TcpTurns.Alternation
import SocketChat.MoreLearning.TcpOneWay.Loss
import SocketChat.Socket.Farewell
import SocketChat.TestCode.ArbitraryChat.Membership
import SocketChat.Socket.Deadlock
import SocketChat.MoreLearning.TcpFile.Loss
import SocketChat.TestCode.UdpBroadcast.Feedback
import SocketChat.TestCode.TcpFT.Bounds
import SocketChat.TestCode.TcpFT.Parser
import SocketChat.TestCode.TcpFT.Honesty
import SocketChat.Lib.Merging
import SocketChat.Lib.Mutex
import SocketChat.Lib.Packed
import SocketChat.TestCode.BroadcastChat.Model
import SocketChat.TestCode.BroadcastChat.Threads
import SocketChat.TestCode.BroadcastChat.Listing
import SocketChat.TestCode.BroadcastChat.Turns
import SocketChat.TestCode.BroadcastChat.Stream
import SocketChat.Lib.Transducer
import SocketChat.TestCode.Echo.Model
import SocketChat.TestCode.Echo.Agreement
import SocketChat.TestCode.Echo.Client
import SocketChat.TestCode.Echo.RoundTrip
import SocketChat.TestCode.FileTransfer.Receive
import SocketChat.Lib.Words
import SocketChat.TestCode.FileTransfer.Request
import SocketChat.TestCode.FileTransfer.Prompt
import SocketChat.TestCode.FileTransfer.Truncation
import SocketChat.Lib.Forwarding
import SocketChat.Lib.History
import SocketChat.MoreLearning.SelectChat.Payload
import SocketChat.MoreLearning.SelectChat.Readiness
import SocketChat.TestCode.ArbitraryChat.Payload
import SocketChat.MoreLearning.UdpBroadcast.Failures
import SocketChat.Lib.Resending
import SocketChat.MoreLearning.TcpArbitrary.Endless
import SocketChat.MoreLearning.TcpArbitrary.Model
import SocketChat.MoreLearning.UdpBroadcast.Endless
import SocketChat.Lib.LineBlocks
import SocketChat.TestCode.BroadcastChat.Client
import SocketChat.Lib.Transfer
import SocketChat.TestCode.TcpFT.AllOrNothing
import SocketChat.TestCode.Echo.Children
import SocketChat.TestCode.Echo.Iterative
import SocketChat.TestCode.UdpEcho.Model
import SocketChat.TestCode.UdpEcho.RoundTrip
import SocketChat.Lib.Services
import SocketChat.TestCode.Echo.Serial
import SocketChat.TestCode.Echo.Multiplexing
import SocketChat.TestCode.Echo.Constrained
import SocketChat.TestCode.Echo.Family
import SocketChat.TestCode.ArbitraryChat.Client
import SocketChat.TestCode.ArbitraryChat.Chat
import SocketChat.Socket.Integrity
import SocketChat.MoreLearning.TcpArbitrary.Pair
import SocketChat.Lib.Buffered
import SocketChat.MoreLearning.SelectChat.Client
import SocketChat.MoreLearning.UdpFile.Ending
import SocketChat.MoreLearning.UdpBroadcast.Chat
import SocketChat.Lib.Patch
import SocketChat.TestCode.FileTransfer.Children
import SocketChat.TestCode.FileTransfer.Uploads
import SocketChat.TestCode.FileTransfer.Downloads
import SocketChat.Lib.Conversation
import SocketChat.MoreLearning.SelectChat.Chat
import SocketChat.TestCode.TcpTurns.Integrity
import SocketChat.Lib.Responder
import SocketChat.TestCode.Uppercase.Udp
import SocketChat.TestCode.UdpEcho.Clients
import SocketChat.TestCode.Uppercase.Tcp
import SocketChat.TestCode.BroadcastChat.Provenance
import SocketChat.TestCode.BroadcastChat.Chat
import SocketChat.MoreLearning.TcpTurns.Conservation
import SocketChat.TestCode.UdpBroadcast.Hearing
