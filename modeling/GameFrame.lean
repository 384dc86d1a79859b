import GameFrame.Lib.Run
import GameFrame.Lib.Volumes
import GameFrame.Lib.BigEndian
import GameFrame.Lib.Decimal
import GameFrame.Lib.Feed
import GameFrame.Lib.Ring
import GameFrame.Lib.OrderedSet
import GameFrame.Lib.Interest
import GameFrame.Lib.Lines
import GameFrame.Util.Buffer
import GameFrame.Util.RawBuffer
import GameFrame.Util.LengthPrefixedCodec
import GameFrame.Util.MPSCQueue
import GameFrame.Util.QueueThreads
import GameFrame.Rpc.RpcMessage
import GameFrame.Net.EventLoop
import GameFrame.Net.LoopSignals
import GameFrame.Net.EventLoopThread
import GameFrame.Net.TimerQueue
import GameFrame.Net.TimerSpec
import GameFrame.Net.TimerThreads
import GameFrame.Net.Channel
import GameFrame.Net.Connection
import GameFrame.Net.TcpServer
import GameFrame.Net.Reactor
import GameFrame.Net.Teardown
import GameFrame.Net.TcpClient
import GameFrame.Net.ClientLoop
import GameFrame.Net.ConnectDispatch
import GameFrame.Net.Registration
import GameFrame.Net.Session
import GameFrame.Net.SessionEvents
import GameFrame.LogSender.LogSender
import GameFrame.LogSender.SenderLoop
import GameFrame.LogSender.SenderLife
import GameFrame.LogSender.Logging
import GameFrame.LogServer.LogServer
import GameFrame.LogServer.LogFile
import GameFrame.Http.HttpRequest
import GameFrame.Http.HttpContext
import GameFrame.Http.HttpResponse
import GameFrame.Http.HttpServer
import GameFrame.Http.HttpDemo
import GameFrame.Proofs.BufferQueue
import GameFrame.Proofs.Framing
import GameFrame.Proofs.FramingWrap
import GameFrame.Proofs.RpcStream
import GameFrame.Proofs.RpcInverse
import GameFrame.Proofs.QueueFifo
import GameFrame.Proofs.QueueWakeup
import GameFrame.Proofs.LoopQuit
import GameFrame.Proofs.LoopWakeup
import GameFrame.Proofs.LoopSignals
import GameFrame.Proofs.LoopThreadJoin
import GameFrame.Proofs.TimerWakeup
import GameFrame.Proofs.TimerCancel
import GameFrame.Proofs.TimerPasses
import GameFrame.Proofs.TimerOrder
import GameFrame.Proofs.TimerDeadline
import GameFrame.Net.TimerCalls
import GameFrame.Echo.EchoLoop
import GameFrame.Echo.EchoPeer
import GameFrame.Proofs.EchoIdle
import GameFrame.Proofs.ConnectionLoops
import GameFrame.Proofs.ConnectionClose
import GameFrame.Proofs.ConnectionStream
import GameFrame.Proofs.ConnectionPrefix
import GameFrame.Proofs.ConnectionMoves
import GameFrame.Proofs.ConnectionChannel
import GameFrame.Proofs.ConnectionWriting
import GameFrame.Proofs.ConnectionTable
import GameFrame.Proofs.EdgeDrain
import GameFrame.Proofs.ClientState
import GameFrame.Proofs.ClientRetry
import GameFrame.Proofs.ClientCalls
import GameFrame.Proofs.ClientSockets
import GameFrame.Proofs.ConnectSettled
import GameFrame.Proofs.RegistrationSole
import GameFrame.Proofs.ServerCallbacks
import GameFrame.Proofs.LoopShares
import GameFrame.Proofs.ReactorDispatch
import GameFrame.Proofs.TeardownClose
import GameFrame.Proofs.SendBatch
import GameFrame.Proofs.ConnectionCalls
import GameFrame.Proofs.SenderThread
import GameFrame.Proofs.TickTimer
import GameFrame.Proofs.LogDelivery
import GameFrame.Proofs.SenderLinks
import GameFrame.Proofs.SendRow
import GameFrame.Proofs.SenderStop
import GameFrame.Proofs.SenderPacing
import GameFrame.Proofs.SenderPaused
import GameFrame.Proofs.SenderBrake
import GameFrame.Proofs.SenderMark
import GameFrame.Proofs.SenderCalls
import GameFrame.Proofs.SenderLife
import GameFrame.Proofs.SessionBatches
import GameFrame.Proofs.SessionStream
import GameFrame.Proofs.EchoStream
import GameFrame.Proofs.LogGrouping
import GameFrame.Proofs.LogMemory
import GameFrame.Proofs.LogAccepted
import GameFrame.Proofs.LogNames
import GameFrame.Proofs.LogVolumes
import GameFrame.Proofs.LogTargets
import GameFrame.Proofs.LogRecord
import GameFrame.Proofs.LogRolling
import GameFrame.Proofs.LogKept
import GameFrame.Proofs.SenderWire
import GameFrame.Proofs.LogPipeline
import GameFrame.Proofs.SenderProgress
import GameFrame.Proofs.LogStatements
import GameFrame.LogServer.LogCollector
import GameFrame.Proofs.LogCollected
import GameFrame.Echo.EchoLog
import GameFrame.Proofs.LogGenuine
import GameFrame.LogServer.LogProcess
import GameFrame.Proofs.LogFlush
import GameFrame.Proofs.HttpLines
import GameFrame.Proofs.HttpChunks
import GameFrame.Proofs.HttpText
import GameFrame.Proofs.HttpRoundTrip
import GameFrame.Proofs.HttpSpelling
import GameFrame.Proofs.HttpClose
import GameFrame.Proofs.HttpReader
import GameFrame.Proofs.HttpLast
import GameFrame.Proofs.HttpPipeline
import GameFrame.Proofs.HttpAnswers
import GameFrame.Proofs.HttpExchange
import GameFrame.Proofs.HttpPages
