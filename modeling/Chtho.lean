import Chtho.Lib.CondVar
import Chtho.Logging.AsyncLogging.Output
import Chtho.Logging.AsyncLogging.Recycle
import Chtho.Logging.AsyncLogging.Stop
import Chtho.Logging.ConvertExact
import Chtho.Logging.FileUtil
import Chtho.Logging.LogFile
import Chtho.Logging.LogFile.Rolling
import Chtho.Logging.LogStream
import Chtho.Logging.Logger
import Chtho.Logging.Loggers.Files
import Chtho.Net.Acceptor.Backlog
import Chtho.Net.BufferInt
import Chtho.Net.BufferMemory
import Chtho.Net.BufferQueue
import Chtho.Net.BufferShrink
import Chtho.Net.ConnName
import Chtho.Net.CrossThreadSend
import Chtho.Net.Dispatch.Live
import Chtho.Net.EventLoopThread
import Chtho.Net.EventLoopThreadPool
import Chtho.Net.FlowControl
import Chtho.Net.GracefulShutdown
import Chtho.Net.Http.Delivery
import Chtho.Net.Http.Framing
import Chtho.Net.Http.Incremental
import Chtho.Net.Http.OverTcp
import Chtho.Net.Http.Pipeline
import Chtho.Net.Http.RequestLine
import Chtho.Net.Http.RoundTrip
import Chtho.Net.Http.Session
import Chtho.Net.Http.Termination
import Chtho.Net.ManySenders
import Chtho.Net.OutputStream
import Chtho.Net.PendingFuncs
import Chtho.Net.Poller.Active
import Chtho.Net.Poller.Agreement
import Chtho.Net.Poller.Batch
import Chtho.Net.Poller.Control
import Chtho.Net.ServerDestruction
import Chtho.Net.StringPiece
import Chtho.Net.TcpClient.Backoff
import Chtho.Net.TcpClient.Destruction
import Chtho.Net.TcpClient.Ownership
import Chtho.Net.TcpClient.Stop
import Chtho.Net.TimerQueue.Cancel
import Chtho.Net.TimerQueue.Stale
import Chtho.Net.TimerQueue.Timerfd
import Chtho.Net.Wakeup
import Chtho.Threads.Thread
import Chtho.Threads.ThreadPool
import Chtho.Threads.ThreadPool.Discipline
import Chtho.Threads.ThreadPool.Stop
