import Tcpeen.QueueSpscThreads
import Tcpeen.BufferFifo
import Tcpeen.BufferPool
import Tcpeen.ServiceThread
import Tcpeen.ConnectionCodec
import Tcpeen.ConnectionLifecycle
import Tcpeen.ReceiveStreams
import Tcpeen.ServiceReplies
import Tcpeen.ServiceHandles
import Tcpeen.ServiceRoom
import Tcpeen.EchoLoss
import Tcpeen.QueueSpscConsumer
import Tcpeen.BufferSeek
import Tcpeen.ChannelFraming
import Tcpeen.ConnectionResync
import Tcpeen.ConnectionStatistics
import Tcpeen.ConnectionHistory
import Tcpeen.ConnectionWrites
import Tcpeen.ConnectionReuse
import Tcpeen.ConnectionRetry
import Tcpeen.SendAlone
import Tcpeen.ListAgreement
import Tcpeen.QueueSpscSizing
import Tcpeen.QueueSpscCount
import Tcpeen.ReceiveRelease
import Tcpeen.Map
import Tcpeen.LoadGeneratorPace
import Tcpeen.CmdArgs
import Tcpeen.Fslog
import Tcpeen.ConnectionLoop
import Tcpeen.EndpointArgument
import Tcpeen.EchoClient
import Tcpeen.UnityService
import Tcpeen.ServiceLoop
import Tcpeen.Library.Ownership
import Tcpeen.Tcpserv
import Tcpeen.TcpservEcho
import Tcpeen.HashTableMap
