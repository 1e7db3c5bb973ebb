import Tqos.Lib.Run
import Tqos.Lib.DeadlineQueue
import Tqos.Lib.Traced
import Tqos.Lib.Bytes
import Tqos.Lib.LastWrite
import Tqos.Lib.BlockMode
import Tqos.Tserver.Crypto
import Tqos.Spp.Config
import Tqos.Spp.Comm
import Tqos.Tserver.Nl
import Tqos.Spp.Settings
import Tqos.Tserver.State
import Tqos.Tserver.Clients
import Tqos.Tserver.Json
import Tqos.Tserver.Diag
import Tqos.Tserver.Qos
import Tqos.Tserver.Requests
import Tqos.Tserver.System
import Tqos.Tserver.QosRuns
import Tqos.Tserver.Leases
import Tqos.Tserver.Receive
import Tqos.Tserver.JsonText
import Tqos.Tserver.Reply
import Tqos.Lib.SlotTable
import Tqos.Spp.Addresses
import Tqos.Tserver.Mirror
import Tqos.Tserver.Failures
import Tqos.Spp.Dedup
import Tqos.Spp.Kernel
import Tqos.Spp.Wrap
import Tqos.Spp.Copies
import Tqos.Spp.Delays
import Tqos.Lib.Heap
import Tqos.Lib.RedBlack
import Tqos.Tserver.RbTree
import Tqos.Tserver.RbCells
import Tqos.Tserver.RbInsert
import Tqos.Tserver.RbRepair
import Tqos.Tserver.RbDelete
import Tqos.Tserver.TimerTree
import Tqos.Spp.IpTables
import Tqos.Tserver.Stopping
import Tqos.Lib.RingWindow
import Tqos.Tserver.DiagRuns
import Tqos.Tserver.QosCache
import Tqos.Tserver.Recovery
import Tqos.Tserver.Agenda
import Tqos.Tserver.Timers
import Tqos.Lib.Paths
import Tqos.Lib.Tokens
import Tqos.Ltm.SplitLine
import Tqos.Ltm.Unpack
import Tqos.Ltm.Package
import Tqos.Ltm.Accepted
import Tqos.Ltm.Update
import Tqos.Ltm.PackGenerate
import Tqos.Tserver.LimitList
import Tqos.Tserver.OpenQosNumbers
import Tqos.Tserver.OpenSpp
import Tqos.Tserver.TokenTable
import Tqos.Tserver.TrafficFlow
import Tqos.Ltm.Http
import Tqos.Ltm.Exchanges
import Tqos.Ltm.Download
import Tqos.Lib.Owners
import Tqos.Spp.Datagram
import Tqos.Spp.Frames
import Tqos.Tserver.DiagOwners
import Tqos.Tserver.Popen
import Tqos.Ltm.UnpackMemory
import Tqos.Ltm.RequestBuffer
import Tqos.Ltm.ResponseBuffer
import Tqos.Ltm.StatusLine
import Tqos.Lib.BinaryHeap
import Tqos.Spp.HashEntries
import Tqos.Spp.Heap
import Tqos.Lib.Buffered
import Tqos.Ltm.Endecry
import Tqos.Ltm.Md5
import Tqos.Ltm.DownloadCheck
import Tqos.Ltm.HeaderLines
import Tqos.Ltm.DownloadRun
import Tqos.Tserver.RequestOwners
import Tqos.Tserver.Router
import Tqos.Tserver.Registry
import Tqos.Tserver.Sources
import Tqos.Ltm.Engine
import Tqos.Ltm.Delivery
import Tqos.Ltm.Record
import Tqos.Lib.ByteField
import Tqos.Lib.Rijndael
import Tqos.Tserver.AesStandard
import Tqos.Lib.CounterMode
import Tqos.Tserver.AesCtr
import Tqos.Tserver.AesCcm
import Tqos.Lib.EdgeQueue
import Tqos.Tserver.EventLoop
