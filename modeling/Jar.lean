import Jar.Lib.Machine
import Jar.Lib.Tally
import Jar.Lib.CondVar
import Jar.Lib.Monitor
import Jar.Concurrency.Queue
import Jar.Lib.Client
import Jar.Concurrency.RrScheduler
import Jar.Concurrency.Transfer
import Jar.Concurrency.Cancellation
import Jar.Concurrency.ThreadPool
import Jar.Concurrency.Conservation
import Jar.Concurrency.SharedState
import Jar.Concurrency.Future
import Jar.Concurrency.Promise
import Jar.Concurrency.Sender
import Jar.Concurrency.CallbackReceiver
import Jar.Concurrency.Settlement
import Jar.Lib.Linearization
import Jar.Concurrency.Fifo
import Jar.Concurrency.Waiters
import Jar.Concurrency.FirstWins
import Jar.Concurrency.Latch
import Jar.Concurrency.IdleWorkers
import Jar.Concurrency.Schedulers
import Jar.System.BasicHandle
import Jar.Concurrency.ThrowingMoves
import Jar.Concurrency.Delivery
import Jar.Concurrency.ThrowingHandlers
import Jar.Concurrency.CallbackCalls
import Jar.Concurrency.LatchCount
import Jar.Lib.Uncontended
import Jar.Lib.WrappingCounter
import Jar.Concurrency.Scanning
import Jar.Concurrency.Placement
import Jar.Concurrency.Retention
import Jar.Concurrency.Adapter
import Jar.Concurrency.ThrowingItems
import Jar.Core.Contract
import Jar.Lib.CString
import Jar.System.IpcAddress
import Jar.Com.DatagramSocket
import Jar.Com.Bind
import Jar.Com.Timeouts
import Jar.Concurrency.Rest
import Jar.Concurrency.StepBounds
import Jar.Concurrency.Shutdown
import Jar.Concurrency.Attempts
import Jar.Concurrency.Sequential
import Jar.Concurrency.Construction
import Jar.Concurrency.Outcome
import Jar.Concurrency.SharedBag
import Jar.Concurrency.Chains
import Jar.Com.Sockets
import Jar.Com.NonBlocking
import Jar.Com.Datagrams
