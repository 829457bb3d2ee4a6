import Mutiny.Lib.Wrap
import Mutiny.Lib.Ticket
import Mutiny.Lib.Machine
import Mutiny.AtomicMove
import Mutiny.AtomicMoveInv
import Mutiny.AtomicMoveSafety
import Mutiny.AtomicMoveSpurious
import Mutiny.FullSyncMove
import Mutiny.AtomicMoveSolo
import Mutiny.StreamsManager
import Mutiny.MutinyStream
import Mutiny.AtomicMoveWatch
import Mutiny.UniAtomic
import Mutiny.UniFullSync
import Mutiny.MultiAtomic
import Mutiny.MultiFullSync
import Mutiny.OgreAlloc
import Mutiny.SyncedStreams
import Mutiny.MultiOgreArc
import Mutiny.MultiPanic
import Mutiny.Lib.Broadcast
import Mutiny.MultiListeners
import Mutiny.Lib.Tally
import Mutiny.StreamRegistry
import Mutiny.MultiSendRace
import Mutiny.BoundedFifo
import Mutiny.OgreHandles
import Mutiny.ZeroCopy
import Mutiny.ArrayPool
import Mutiny.BlockingQueue
import Mutiny.AbandonedSend
import Mutiny.GracefulClose
import Mutiny.GracefulCloseAtomic
import Mutiny.MMapMeta
import Mutiny.SlotReserve
import Mutiny.FullSyncUnleak
import Mutiny.AtomicMoveIndex
import Mutiny.AtomicMoveChecked
import Mutiny.AtomicMoveLen
import Mutiny.Lib.TwoLoads
import Mutiny.FullSyncSteps
import Mutiny.LenObserver
import Mutiny.ReservedSend
import Mutiny.ZeroCopySolo
import Mutiny.SlotContents
import Mutiny.NonBlockingQueue
import Mutiny.ZeroCopyDrops
import Mutiny.MultiOgreArcDrop
import Mutiny.MmapLog
import Mutiny.MultiExecutors
import Mutiny.StreamCalls
import Mutiny.LogTopic
import Mutiny.SharedSubscriber
import Mutiny.LogPending
import Mutiny.LogPublish
import Mutiny.BlockingSolo
import Mutiny.BlockingStack
import Mutiny.MultiCrossbeam
import Mutiny.UniExecutors
import Mutiny.Lib.CasLoop
import Mutiny.IncrementalAverages
import Mutiny.SlotRefs
import Mutiny.StreamExecutor
import Mutiny.StreamAccounting
import Mutiny.StreamCompletion
import Mutiny.Lib.Linear
import Mutiny.LinearQueues
import Mutiny.Lib.Lock
import Mutiny.NonBlockingStack
import Mutiny.UniCrossbeam
import Mutiny.OgreSync
import Mutiny.StreamWakes
import Mutiny.StreamsGrow
import Mutiny.CrossbeamStreams
import Mutiny.LogStreams
import Mutiny.LogWakes
import Mutiny.AtomicZeroCopy
