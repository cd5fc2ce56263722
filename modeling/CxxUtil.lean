import CxxUtil.Foundations.Runs
import CxxUtil.Queue.ProducerConsumerQueue
import CxxUtil.Queue.Reentrancy
import CxxUtil.Queue.Delivery
import CxxUtil.Foundations.PegParser
import CxxUtil.Foundations.Decimal
import CxxUtil.Foundations.Lexicographic
import CxxUtil.Version.Core
import CxxUtil.Version.Grammar
import CxxUtil.Version.Language
import CxxUtil.Version.Acceptance
import CxxUtil.Version.RoundTrip
import CxxUtil.Version.Precedence
import CxxUtil.Foundations.EventLoop
import CxxUtil.Asio.ErrorCode
import CxxUtil.Asio.SetSerialPortOptions
import CxxUtil.Asio.SerialPortOpener
import CxxUtil.Asio.SerialPortAccounting
import CxxUtil.Asio.SerialPortHistories
import CxxUtil.Asio.SerialPortClose
import CxxUtil.Asio.SerialPortFailure
import CxxUtil.Asio.SerialPortRetry
import CxxUtil.Foundations.WhileLoop
import CxxUtil.Ws.MessageQueue
import CxxUtil.Ws.MessageQueuePairing
import CxxUtil.Ws.MessageQueueClose
import CxxUtil.Ws.Connector
import CxxUtil.Ws.ConnectorAnswers
import CxxUtil.Foundations.BoundedDeque
import CxxUtil.Ring.PotRingbuffer
import CxxUtil.Ring.RingRefinement
import CxxUtil.Foundations.StrictOrders
import CxxUtil.Version.TotalOrder
import CxxUtil.Version.Fields
import CxxUtil.Version.FailedParse
import CxxUtil.Asio.SerialPortSuccess
import CxxUtil.Ws.Acceptor
import CxxUtil.Ws.AcceptorSuccess
import CxxUtil.Foundations.Handles
import CxxUtil.Asio.Operation
import CxxUtil.Asio.OperationCompletes
import CxxUtil.Asio.TransparentService
import CxxUtil.Asio.TransparentLifetime
import CxxUtil.Ws.MessageQueueErrors
import CxxUtil.Ws.MessageQueueReuse
import CxxUtil.Ring.Capacities
import CxxUtil.Ring.Publication
import CxxUtil.Ws.MessageQueueDrain
import CxxUtil.Text.ToHexString
import CxxUtil.Variants.Unbounded
import CxxUtil.Variants.Ledger
import CxxUtil.Variants.ValueSemantics
import CxxUtil.Ws.AcceptorQueue
import CxxUtil.Ws.AcceptorSteps
import CxxUtil.Ws.AcceptorClose
import CxxUtil.Ws.AcceptorConnections
import CxxUtil.Composed.OneOwner
import CxxUtil.Foundations.Attempts
import CxxUtil.Foundations.Holdings
import CxxUtil.Asio.TenaciousSetOption
import CxxUtil.Foundations.SharedLoop
import CxxUtil.Ws.Endpoint
import CxxUtil.Ws.MessageQueueStream
import CxxUtil.Ws.Duplex
import CxxUtil.Ws.Pipe
import CxxUtil.Ring.PotQueue
import CxxUtil.Ring.Overruns
import CxxUtil.Asio.IoThread
import CxxUtil.Shared.Global
import CxxUtil.Foundations.Lifecycle
import CxxUtil.Composed.HandlerMemory
import CxxUtil.Foundations.FixedWidth
import CxxUtil.Text.LogSafely
import CxxUtil.Text.LogRecords
import CxxUtil.Foundations.CallTraces
import CxxUtil.Text.LogOptions
import CxxUtil.Text.ProgramPath
import CxxUtil.Composed.AsyncRun
import CxxUtil.Asio.OperationCalls
import CxxUtil.Asio.ForkedTask
import CxxUtil.Asio.RpcTest
import CxxUtil.Asio.EchoOp
import CxxUtil.Composed.Invocations
import CxxUtil.Composed.TestHandler
import CxxUtil.Composed.TestOp
import CxxUtil.Foundations.Ownership
import CxxUtil.Ws.Lifetime
import CxxUtil.Ws.LifetimeSteps
import CxxUtil.Ws.Leaks
import CxxUtil.Ws.Connecting
import CxxUtil.Ws.ConnectedQueues
