import ZeroRPC.Serial.RoundTrip
import ZeroRPC.Serial.Swapped
import ZeroRPC.Serial.Scan
import ZeroRPC.Rpc.Package
import ZeroRPC.Rpc.Handler
import ZeroRPC.Rpc.Call
import ZeroRPC.Rpc.Arguments
import ZeroRPC.Rpc.CrossEndian
import ZeroRPC.Rpc.Untrusted
import ZeroRPC.Rpc.Correlation
import ZeroRPC.Library.Transition
import ZeroRPC.Core.Buffer
import ZeroRPC.Core.Channel
import ZeroRPC.Core.Reassembly
import ZeroRPC.Core.Readers
import ZeroRPC.Library.Mutex
import ZeroRPC.Core.ServerSend
import ZeroRPC.Core.ClientSend
import ZeroRPC.Core.ThreadPool
import ZeroRPC.Core.PoolCounts
import ZeroRPC.Core.PoolWakeups
import ZeroRPC.Core.Timer
import ZeroRPC.Core.WriteInterest
import ZeroRPC.Core.SubReactor
import ZeroRPC.Core.ReceiveRoom
import ZeroRPC.Core.ConnectionTables
import ZeroRPC.Rpc.UserManager
import ZeroRPC.Rpc.UsersPresent
import ZeroRPC.Rpc.Sweep
import ZeroRPC.Core.Fifo
import ZeroRPC.Core.CopyLoop
import ZeroRPC.Core.BatchSizes
import ZeroRPC.Core.ParseLoop
import ZeroRPC.Core.SendErrors
import ZeroRPC.Core.Sendable
import ZeroRPC.Core.ServerLoops
import ZeroRPC.Rpc.Failure
import ZeroRPC.Serial.Replace
import ZeroRPC.Core.PoolShutdown
import ZeroRPC.Core.PoolTeardown
import ZeroRPC.Core.ThrowingTask
import ZeroRPC.Serial.Checks
import ZeroRPC.Serial.Retry
import ZeroRPC.Serial.Load
import ZeroRPC.Rpc.EvaluationOrder
import ZeroRPC.Core.ClientRead
import ZeroRPC.Core.Decodable
import ZeroRPC.Core.TimerLoop
import ZeroRPC.Core.TimerCallbacks
import ZeroRPC.Core.TimerExecutor
import ZeroRPC.Core.Decompress
import ZeroRPC.Core.HeaderCodec
import ZeroRPC.Library.Doubling
import ZeroRPC.Serial.Growth
import ZeroRPC.Library.Since
import ZeroRPC.Rpc.Inactivity
import ZeroRPC.Rpc.Compression
import ZeroRPC.Core.FrontPop
import ZeroRPC.Rpc.CallExits
import ZeroRPC.Core.Traffic
import ZeroRPC.Core.Downlink
import ZeroRPC.Library.Holders
import ZeroRPC.Core.Attended
import ZeroRPC.Core.Uplink
import ZeroRPC.Core.OneReader
import ZeroRPC.Rpc.Session
import ZeroRPC.Core.Compress
import ZeroRPC.Core.LockedCalls
import ZeroRPC.Library.Guarded
import ZeroRPC.Library.LockOrder
import ZeroRPC.Library.Refinement
import ZeroRPC.Rpc.Locking
import ZeroRPC.Rpc.Watch
import ZeroRPC.Core.PeriodicTask
import ZeroRPC.Rpc.KeepAlive
import ZeroRPC.Rpc.RemoteCalls
