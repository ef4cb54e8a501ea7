import Npoller.Outcome
import Npoller.Segments
import Npoller.SizeT
import Npoller.MemContainer
import Npoller.IoBuffer
import Npoller.IoBufferSpec
import Npoller.ByteDeque
import Npoller.IoBufferTransfer
import Npoller.TransferRules
import Npoller.BlockMoves
import Npoller.SelfTransfer
import Npoller.PairTransfer
import Npoller.DirectIo
import Npoller.DirectIoSpec
import Npoller.BufferWorld
import Npoller.IoWrite
import Npoller.WriteStream
import Npoller.WriteCompletion
import Npoller.EventLoop
import Npoller.WakeUp
import Npoller.Shutdown
import Npoller.TaskAccount
import Npoller.Mpsc
import Npoller.MpscOrder
import Npoller.MpscGate
import Npoller.MpscFifo
import Npoller.PoolTasks
import Npoller.PoolShutdown
import Npoller.DoubleChecked
import Npoller.CoroutinePool
import Npoller.CoroutineLocks
import Npoller.ResumeReady
import Npoller.TcpRace
import Npoller.TcpFinal
import Npoller.TcpRelease
import Npoller.ResumeOnce
import Npoller.TcpLoop
import Npoller.TcpOps
import Npoller.ReadOrder
import Npoller.WriteResume
import Npoller.CloseCleanup
import Npoller.BufferCalls
import Npoller.ReentrantLock
import Npoller.SpinLock
import Npoller.Logger
import Npoller.ContainerRace
import Npoller.IoMap
import Npoller.Dispatch
import Npoller.TcpChanges
import Npoller.ConnectCallback
import Npoller.InterestMask
import Npoller.HalfClosed
import Npoller.ReadStage
import Npoller.StrandedReads
import Npoller.CopyingPops
import Npoller.ByteAccess
import Npoller.ReadCalls
import Npoller.PromiseWaiters
import Npoller.AddIoAnswer
import Npoller.CasLoop
import Npoller.IoFlags
import Npoller.PoolBound
import Npoller.ConnectPeer
import Npoller.InitialSize
import Npoller.LogRotation
import Npoller.WriteCount
import Npoller.LogReopening
import Npoller.BufferSequences
import Npoller.Pipeline
import Npoller.Relay
import Npoller.Monitor
import Npoller.BufferHandles
import Npoller.LogFiles
import Npoller.IoCreation
import Npoller.PlainEvents
import Npoller.PlainWrites
import Npoller.AcceptLoop
import Npoller.Descriptors
import Npoller.IoFactory
import Npoller.ProcessorLife
