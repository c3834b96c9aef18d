import Reyao.ByteArrayRoom
import Reyao.ByteArrayRoundTrip
import Reyao.Rpc.Client
import Reyao.Rpc.Dispatch
import Reyao.Rpc.Bounds
import Reyao.Rpc.HostOrder
import Reyao.Rpc.Exchange
import Reyao.EpollTimeout
import Reyao.AsyncLogStop
import Reyao.LogAppenders
import Reyao.LogPattern
import Reyao.Http.Server
import Reyao.Http.Chunked
import Reyao.Http.ResponseText
import Reyao.Http.HeaderOrder
import Reyao.Http.Buffering
import Reyao.Http.Servlet
import Reyao.Http.Reparse
import Reyao.SendAll
import Reyao.EpollerRun
import Reyao.FdManagerRun
import Reyao.Socket
import Reyao.HookConnect
import Reyao.HookSockopt
import Reyao.HookSleep
import Reyao.SchedulerRun
import Reyao.SchedulerStop
import Reyao.CountDownLatch
import Reyao.SchedulerTasks
import Reyao.Http.Conversation
import Reyao.SchedulerJoin
import Reyao.CoroutineCondition
import Reyao.SpinLock
import Reyao.ByteArrayLengths
import Reyao.TimerFront
import Reyao.Http.ParserSteps
import Reyao.DescriptorTables
import Reyao.LogFile
import Reyao.Logger
