import MiniMuduo.Lib.StepSystem
import MiniMuduo.Lib.InfiniteRun
import MiniMuduo.Lib.Wire
import MiniMuduo.Lib.RoundRobin
import MiniMuduo.Lib.Fallible
import MiniMuduo.Lib.Search
import MiniMuduo.Lib.Resumable
import MiniMuduo.Lib.Ordered
import MiniMuduo.Lib.History
import MiniMuduo.Lib.DenseTable
import MiniMuduo.Lib.Refinement
import MiniMuduo.Lib.MachineNumbers
import MiniMuduo.TimeUtil
import MiniMuduo.Timer.TimerQueue
import MiniMuduo.Timer.Invariant
import MiniMuduo.Timer.Agenda
import MiniMuduo.Timer.Refinement
import MiniMuduo.Timer.Schedule
import MiniMuduo.Timer.Arming
import MiniMuduo.Buffer
import MiniMuduo.ByteQueue
import MiniMuduo.BufferSpace
import MiniMuduo.Buffer64
import MiniMuduo.Net.EPoller
import MiniMuduo.Net.ChannelTable
import MiniMuduo.Net.Poller
import MiniMuduo.Net.PollerIndex
import MiniMuduo.Net.SharedLoop
import MiniMuduo.Net.Wakeup
import MiniMuduo.Net.LoopProgress
import MiniMuduo.Net.EventLoopThread
import MiniMuduo.Net.TcpConnection
import MiniMuduo.Net.Calls
import MiniMuduo.Net.Session
import MiniMuduo.Net.Lifecycle
import MiniMuduo.Net.Closing
import MiniMuduo.Net.OutputStream
import MiniMuduo.Net.SendPaths
import MiniMuduo.Net.HalfClose
import MiniMuduo.Net.Program
import MiniMuduo.Net.FlowControl
import MiniMuduo.Net.TcpServer
import MiniMuduo.Net.ServerBooks
import MiniMuduo.Net.ServerSessions
import MiniMuduo.Net.ServerRuns
import MiniMuduo.Net.EventLoopThreadPool
import MiniMuduo.Net.Lifetimes
import MiniMuduo.Net.InputStream
import MiniMuduo.Net.EndOfStream
import MiniMuduo.Net.Pipe
import MiniMuduo.Net.Answering
import MiniMuduo.Net.Echo
import MiniMuduo.Net.Connector
import MiniMuduo.Net.ConnectorSockets
import MiniMuduo.Net.TcpClient
import MiniMuduo.Net.ClientReuse
import MiniMuduo.Net.Reconnecting
import MiniMuduo.Net.Backoff
import MiniMuduo.Net.OwnerLoop
import MiniMuduo.Net.OwnerRuns
import MiniMuduo.Http.HttpRequest
import MiniMuduo.Http.HttpContext
import MiniMuduo.Http.Incremental
import MiniMuduo.Http.RoundTrip
import MiniMuduo.Http.RequestLine
import MiniMuduo.Http.Framing
import MiniMuduo.Http.HttpResponse
import MiniMuduo.Http.Message
import MiniMuduo.Http.ResponseText
import MiniMuduo.Http.HttpServer
import MiniMuduo.Http.Segmentation
import MiniMuduo.Http.Rejection
import MiniMuduo.Http.Termination
import MiniMuduo.Http.Isolation
import MiniMuduo.Http.ServerProgram
import MiniMuduo.Http.Responses
import MiniMuduo.Http.Served
