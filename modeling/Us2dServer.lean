import Us2dServer.Lib.Transition
import Us2dServer.Lib.ByteStore
import Us2dServer.Lib.Custody
import Us2dServer.Lib.SubQueues
import Us2dServer.Lib.Parties
import Us2dServer.Lib.Reads
import Us2dServer.Lib.PrefixCode
import Us2dServer.Lib.Linearization
import Us2dServer.Lib.Composition
import Us2dServer.Lib.SharedLock
import Us2dServer.MapLock
import Us2dServer.PoolGrowth
import Us2dServer.LightweightSemaphore
import Us2dServer.SemaphoreLaw
import Us2dServer.SemaphoreCounter
import Us2dServer.Lib.Tickets
import Us2dServer.ConcurrentQueue
import Us2dServer.ConcurrentQueueInv
import Us2dServer.ConcurrentQueueCustody
import Us2dServer.ConcurrentQueueLaw
import Us2dServer.ConcurrentQueueSolo
import Us2dServer.BlockIndex
import Us2dServer.BlockIndexRing
import Us2dServer.BlockIndexInv
import Us2dServer.BlockIndexSteps
import Us2dServer.BlockIndexLaw
import Us2dServer.Lib.Chain
import Us2dServer.MemoryPool
import Us2dServer.MemoryPoolInv
import Us2dServer.PoolThreads
import Us2dServer.LockFreeStack
import Us2dServer.LockFreeStackInv
import Us2dServer.LockFreeStackLaw
import Us2dServer.LockFreeProgress
import Us2dServer.LockFreePool
import Us2dServer.PacketHeader
import Us2dServer.Connection
import Us2dServer.FrameReader
import Us2dServer.Tcp
import Us2dServer.RequestQueue
import Us2dServer.BlockingDequeue
import Us2dServer.Dispatcher
import Us2dServer.Server
import Us2dServer.ServerEffects
import Us2dServer.AcceptChain
import Us2dServer.Registry
import Us2dServer.ServerPool
import Us2dServer.ConnectionEnd
import Us2dServer.ServerPackets
import Us2dServer.RequestFlow
import Us2dServer.Shutdown
import Us2dServer.GameEngine
import Us2dServer.DispatchLoop
import Us2dServer.DispatchLaw
import Us2dServer.DispatchRefinement
import Us2dServer.FlatBuffers
import Us2dServer.Protocol
import Us2dServer.FlatBufferBuilder
import Us2dServer.TableLayout
import Us2dServer.VerifierLaw
import Us2dServer.TableReading
import Us2dServer.ProtocolCodec
import Us2dServer.ClientPackets
