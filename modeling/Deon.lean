import Deon.Library.Run
import Deon.Library.Find
import Deon.Strings
import Deon.Util
import Deon.Decimal
import Deon.Http.Header
import Deon.Http.Connection
import Deon.Http.Steps
import Deon.Http.Interest
import Deon.Http.Responses
import Deon.Http.EndOfStream
import Deon.Http.Faults
import Deon.Http.Pipelining
import Deon.Http.Cuts
import Deon.Http.CutsExact
import Deon.Http.Chunking
import Deon.Logging.AsyncLogging
import Deon.Logging.Ownership
import Deon.Logging.Order
import Deon.Logging.Stop
import Deon.Library.Doorbell
import Deon.Net.EpollPoller
import Deon.Net.EventLoop
import Deon.Net.Wakeup
import Deon.Http.HeaderBlock
import Deon.Http.RequestLine
import Deon.Library.Batches
import Deon.Net.Functors
import Deon.Net.EventLoopThread
import Deon.Net.Registration
import Deon.Library.Wrapping
import Deon.Net.Timer
import Deon.Net.Armed
import Deon.Net.Owned
import Deon.Net.Timeouts
import Deon.Net.Removal
import Deon.Net.Sweep
import Deon.Library.Heap
import Deon.Net.TimerManager
import Deon.Net.Enforcement
import Deon.Net.Refused
import Deon.Http.Answered
import Deon.Http.HeaderAccepted
import Deon.Http.LineAccepted
import Deon.Library.Paths
import Deon.Http.Served
import Deon.Http.ContentType
import Deon.Http.KeepAlive
import Deon.Http.Renamed
import Deon.Http.Spelling
import Deon.WritenRaw
import Deon.Buffered
import Deon.Logging.Convert
import Deon.Logging.LogStream
import Deon.Logging.Logger
import Deon.Http.Framing
import Deon.Http.Resting
import Deon.Http.Terminal
import Deon.Http.Reuse
import Deon.Library.Rounds
import Deon.Net.EventLoopThreadPool
import Deon.Net.Server
import Deon.Logging.FileUtil
import Deon.Http.HeaderBounds
import Deon.Http.LineBounds
import Deon.Library.Monitor
import Deon.Threading.CountDownLatch
import Deon.Threading.MutexLock
import Deon.Library.Related
import Deon.Http.Twins
import Deon.Net.Isolation
import Deon.Net.Accepting
import Deon.Http.Draining
import Deon.Http.Exchange
import Deon.Logging.Durable
import Deon.Net.Startup
import Deon.Logging.Statements
import Deon.Net.Clients
import Deon.Logging.Lag
import Deon.Net.Lineage
import Deon.Net.Main
import Deon.Net.Service
import Deon.Net.Lifetimes
import Deon.Net.Backlog
