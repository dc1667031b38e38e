import CopaNgscope.RunInvariant
import CopaNgscope.RingLog
import CopaNgscope.CircularDistance
import CopaNgscope.Scatter
import CopaNgscope.ByteMemory
import CopaNgscope.NgscopeUtil
import CopaNgscope.NgscopeDci
import CopaNgscope.NgscopeDciRing
import CopaNgscope.NgscopeDciPoll
import CopaNgscope.NgscopeDciClock
import CopaNgscope.NgscopeDciRecv
import CopaNgscope.NgscopeDciRecvCases
import CopaNgscope.NgscopeDciRecvReject
import CopaNgscope.NgscopeDciRecvBounds
import CopaNgscope.NgscopeDciRecvCells
import CopaNgscope.NgscopeDciRecvOwnBytes
import CopaNgscope.NgscopeDciWire
import CopaNgscope.NgscopeDciStream
import CopaNgscope.NgscopeCAHeader
import CopaNgscope.NgscopeReTx
import CopaNgscope.NgscopeReTxTrace
import CopaNgscope.NgscopeReTxRecency
import CopaNgscope.NgscopeReTxIncremental
import CopaNgscope.NgscopeCAWindow
import CopaNgscope.NgscopeCATrace
import CopaNgscope.NgscopeCAMerge
import CopaNgscope.NgscopePacketList
import CopaNgscope.NgscopePacketArrays
import CopaNgscope.LinkedHeap
import CopaNgscope.NgscopePacketHeap
import CopaNgscope.NgscopeClient
import CopaNgscope.NgscopeClientEcho
import CopaNgscope.NgscopeClientLoop
import CopaNgscope.NgscopeClientClock
import CopaNgscope.NgscopeReorderingBuf
import CopaNgscope.NgscopeTtiSpan
import CopaNgscope.Receiver
import CopaNgscope.ReceiverClock
import CopaNgscope.MonotoneDeque
import CopaNgscope.RttWindow
import CopaNgscope.RttWindowOrder
import CopaNgscope.SenderAck
import CopaNgscope.RttCorrection
import CopaNgscope.Estimators
import CopaNgscope.OrderedMap
import CopaNgscope.MarkovianCC
import CopaNgscope.MarkovianCCConfig
import CopaNgscope.MarkovianCCCases
import CopaNgscope.MarkovianCCAccounting
import CopaNgscope.MarkovianCCDelta
import CopaNgscope.MarkovianCCSafe
import CopaNgscope.MarkovianCCStartUp
import CopaNgscope.MarkovianCCIsolation
import CopaNgscope.RemyCC
import CopaNgscope.SenderTrain
import CopaNgscope.BatchReceiver
import CopaNgscope.SendData
import CopaNgscope.FlowNetwork
import CopaNgscope.OwnAcks
import CopaNgscope.FirstMin
import CopaNgscope.ByteColumn
import CopaNgscope.NgscopeSync
import CopaNgscope.NgscopeBurstStart
import CopaNgscope.NgscopeUlTrace
import CopaNgscope.NgscopeCARxTime
import CopaNgscope.NgscopeReTxBurst
import CopaNgscope.NgscopeReTxFound
import CopaNgscope.Drain
import CopaNgscope.NgscopeRevertDelay
import CopaNgscope.SlidingWindow
import CopaNgscope.RttWindowExtreme
import CopaNgscope.RttWindowConstant
import CopaNgscope.MarkovianCCMode
import CopaNgscope.CellPartition
import CopaNgscope.Memory
import CopaNgscope.WhiskerSearch
import CopaNgscope.WhiskerTree
import CopaNgscope.WhiskerTreePartition
import CopaNgscope.WhiskerTreeDna
import CopaNgscope.RemyRules
import CopaNgscope.UdpSocket
import CopaNgscope.BatchEcho
import CopaNgscope.SendDataTimeout
import CopaNgscope.RttWindowSample
import CopaNgscope.MarkovianCCMinRtt
import CopaNgscope.MarkovianCCPacing
import CopaNgscope.MarkovianCCVelocity
import CopaNgscope.BinaryRounding
import CopaNgscope.Doubles
import CopaNgscope.MarkovianCCAccepted
import CopaNgscope.NgscopeTtiOrder
import CopaNgscope.NgscopeOverlap
import CopaNgscope.NgscopeListDelete
import CopaNgscope.NgscopeListPrune
import CopaNgscope.MemoryEquality
import CopaNgscope.DefaultCC
import CopaNgscope.LossRateEstimate
import CopaNgscope.StepIntegral
import CopaNgscope.WindowAverage
import CopaNgscope.TopSelection
import CopaNgscope.CyclicList
import CopaNgscope.PercentileQuery
import CopaNgscope.ComparatorSort
import CopaNgscope.NgscopeReTxSorted
import CopaNgscope.SenderMain
import CopaNgscope.SenderPacing
import CopaNgscope.SenderFinish
import CopaNgscope.SenderInFlight
import CopaNgscope.SenderCopa
import CopaNgscope.CopaFlow
import CopaNgscope.CopaCounts
import CopaNgscope.Handshake
import CopaNgscope.Session
import CopaNgscope.SessionCopa
import CopaNgscope.MarkovianCCCompete
import CopaNgscope.SenderSimulation
import CopaNgscope.SenderRemy
import CopaNgscope.TrafficParams
import CopaNgscope.RunTotal
import CopaNgscope.NgscopeRevertRuns
import CopaNgscope.LastMax
import CopaNgscope.WhiskerTreeCounts
import CopaNgscope.WhiskerTreeQueries
import CopaNgscope.Prober
import CopaNgscope.PlainReceiver
import CopaNgscope.RemyFlow
