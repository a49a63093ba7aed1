import MuduoCpp11.Base.BlockingQueue
import MuduoCpp11.Base.Logging
import MuduoCpp11.Base.ThreadPool
import MuduoCpp11.Base.ThreadPool.Notify
import MuduoCpp11.Base.ThreadPool.Release
import MuduoCpp11.Base.Timestamp
import MuduoCpp11.Examples.Echo
import MuduoCpp11.Lib.Condition
import MuduoCpp11.Lib.Decimal
import MuduoCpp11.Lib.Endian
import MuduoCpp11.Lib.Fields
import MuduoCpp11.Lib.History
import MuduoCpp11.Lib.OrderedSet
import MuduoCpp11.Lib.Outcome
import MuduoCpp11.Lib.Run
import MuduoCpp11.Lib.Search
import MuduoCpp11.Lib.SwapRemove
import MuduoCpp11.Net.Acceptor
import MuduoCpp11.Net.Buffer
import MuduoCpp11.Net.Buffer.NetworkInts
import MuduoCpp11.Net.Buffer.ReadFd
import MuduoCpp11.Net.Buffer.Refine
import MuduoCpp11.Net.Buffer.SizeT
import MuduoCpp11.Net.Channel
import MuduoCpp11.Net.Connector
import MuduoCpp11.Net.Connector.Attempts
import MuduoCpp11.Net.Connector.Backoff
import MuduoCpp11.Net.Connector.Ownership
import MuduoCpp11.Net.EventLoop
import MuduoCpp11.Net.EventLoop.Dispatch
import MuduoCpp11.Net.EventLoop.FirstPoll
import MuduoCpp11.Net.EventLoop.Loop
import MuduoCpp11.Net.EventLoop.Quit
import MuduoCpp11.Net.EventLoop.Wakeup
import MuduoCpp11.Net.EventLoopThread
import MuduoCpp11.Net.EventLoopThreadPool
import MuduoCpp11.Net.Http.Grammar
import MuduoCpp11.Net.Http.Headers
import MuduoCpp11.Net.Http.HttpContext
import MuduoCpp11.Net.Http.HttpResponse
import MuduoCpp11.Net.Http.HttpServer
import MuduoCpp11.Net.Http.Incremental
import MuduoCpp11.Net.Http.KeepAlive
import MuduoCpp11.Net.Http.Parse
import MuduoCpp11.Net.Http.Pipeline
import MuduoCpp11.Net.Http.RequestLine
import MuduoCpp11.Net.Http.Served
import MuduoCpp11.Net.Http.Session
import MuduoCpp11.Net.Http.Termination
import MuduoCpp11.Net.InetAddress
import MuduoCpp11.Net.Poller
import MuduoCpp11.Net.Poller.ActiveChannels
import MuduoCpp11.Net.Poller.Agree
import MuduoCpp11.Net.Poller.Assertions
import MuduoCpp11.Net.Poller.EPollPoller
import MuduoCpp11.Net.Poller.EPollWait
import MuduoCpp11.Net.Poller.Kernel
import MuduoCpp11.Net.Poller.PollPoller
import MuduoCpp11.Net.SocketsOps
import MuduoCpp11.Net.TcpClient
import MuduoCpp11.Net.TcpClient.Again
import MuduoCpp11.Net.TcpClient.Destroy
import MuduoCpp11.Net.TcpClient.RemoveConnector
import MuduoCpp11.Net.TcpClient.Stop
import MuduoCpp11.Net.TcpConnection
import MuduoCpp11.Net.TcpConnection.CloseOnce
import MuduoCpp11.Net.TcpConnection.Delivered
import MuduoCpp11.Net.TcpConnection.Destroy
import MuduoCpp11.Net.TcpConnection.LifeCycle
import MuduoCpp11.Net.TcpConnection.Lifetime
import MuduoCpp11.Net.TcpConnection.Notifications
import MuduoCpp11.Net.TcpConnection.Output
import MuduoCpp11.Net.TcpConnection.Phase
import MuduoCpp11.Net.TcpConnection.SendBuffer
import MuduoCpp11.Net.TcpConnection.Senders
import MuduoCpp11.Net.TcpConnection.Served
import MuduoCpp11.Net.TcpConnection.Shutdown
import MuduoCpp11.Net.TcpServer
import MuduoCpp11.Net.TcpServer.HandOver
import MuduoCpp11.Net.TimerQueue
import MuduoCpp11.Net.TimerQueue.Batch
import MuduoCpp11.Net.TimerQueue.Cancel
import MuduoCpp11.Net.TimerQueue.Expired
import MuduoCpp11.Net.TimerQueue.GetTimeout
import MuduoCpp11.Net.TimerQueue.Invariant
import MuduoCpp11.Net.TimerQueue.Ledger
import MuduoCpp11.Net.TimerQueue.Rate
import MuduoCpp11.Net.TimerQueue.Reachable
import MuduoCpp11.Net.TimerQueue.Schedule
import MuduoCpp11.Net.TimerQueue.Stale
import MuduoCpp11.Net.TimerQueue.Threads
import MuduoCpp11.Net.TimerQueue.Timerfd
