import SdPlane.Lib.Run
import SdPlane.Lib.Loop
import SdPlane.Lib.Refs
import SdPlane.Lib.Probe
import SdPlane.Lib.Increasing
import SdPlane.Key
import SdPlane.RibFib
import SdPlane.HashTable
import SdPlane.Nexthop
import SdPlane.NexthopSpec
import SdPlane.NexthopFill
import SdPlane.NexthopInfo
import SdPlane.NexthopPools
import SdPlane.NexthopIndex
import SdPlane.RibInfo
import SdPlane.RibConf
import SdPlane.Routing
import SdPlane.RoutingSpec
import SdPlane.RibManager
import SdPlane.RibManagerSpec
import SdPlane.RibConfSpec
import SdPlane.Neigh
import SdPlane.NeighMap
import SdPlane.NeighReplica
import SdPlane.NeighLoss
import SdPlane.RibPublish
import SdPlane.RibFamily
import SdPlane.NexthopRefs
import SdPlane.Fdb
import SdPlane.FdbOnce
import SdPlane.FdbLearn
import SdPlane.Lib.Entries
import SdPlane.Wiring
import SdPlane.Wired
import SdPlane.Frame
import SdPlane.Ingress
import SdPlane.VlanSwitch
import SdPlane.PortRefs
import SdPlane.CrossRefs
import SdPlane.Classified
import SdPlane.Repeater
import SdPlane.L2Switch
import SdPlane.Forwarding
import SdPlane.Lib.Checksum
import SdPlane.Routed
import SdPlane.Lib.DoWhile
import SdPlane.Tlp
import SdPlane.TlpRange
import SdPlane.DmaRequest
import SdPlane.PsmemBounds
import SdPlane.NetlinkMultipath
import SdPlane.NetlinkTables
import SdPlane.Punted
import SdPlane.RibCheck
import SdPlane.Interfaces
import SdPlane.Outcome
import SdPlane.StopFlags
import SdPlane.QueueConf
import SdPlane.RingOwnership
import SdPlane.QueuesFit
import SdPlane.Handled
import SdPlane.NoFault
import SdPlane.Vswitches
import SdPlane.Detach
import SdPlane.RouteRefcnt
import SdPlane.NexthopAtomic
import SdPlane.NexthopCounts
import SdPlane.NexthopUndo
import SdPlane.RouteTrace
import SdPlane.RouteCancel
import SdPlane.StoppedPorts
import SdPlane.SetThread
import SdPlane.QueueArrays
import SdPlane.RouterIfAddrs
import SdPlane.Lib.Dot1q
import SdPlane.Egress
import SdPlane.Lib.Access
import SdPlane.Srv6
import SdPlane.Srv6Router
import SdPlane.ControlPacket
import SdPlane.RibDelete
import SdPlane.RibPruned
import SdPlane.Lib.Oracle
import SdPlane.FibFailure
import SdPlane.TrieReads
import SdPlane.Lib.Snprintf
import SdPlane.NexthopFormat
import SdPlane.Telnet
import SdPlane.CommandLine
import SdPlane.Formatters
import SdPlane.CommandTree
import SdPlane.Lib.KeyTree
import SdPlane.CommandPattern
import SdPlane.Lib.Strto
import SdPlane.CommandMatch
import SdPlane.CommandOrder
import SdPlane.Lib.Crash
import SdPlane.Lib.Simulation
import SdPlane.Lib.Ring
import SdPlane.Queue
import SdPlane.PtrVector
import SdPlane.Lib.Comparison
import SdPlane.VectorSearch
import SdPlane.VectorIter
import SdPlane.Lib.BigEndian
import SdPlane.StreamBuf
import SdPlane.CommandHistory
import SdPlane.Lib.Strstr
import SdPlane.Lib.Buffer
import SdPlane.Shell
import SdPlane.ShellFormat
import SdPlane.ShellWords
import SdPlane.ShellEditor
import SdPlane.Lib.Numeral
import SdPlane.RangeArgs
import SdPlane.Lib.BitString
import SdPlane.Lib.Patricia
import SdPlane.Ptree
import SdPlane.PtreeShape
import SdPlane.PtreeGraft
import SdPlane.PtreeAdd
import SdPlane.PtreeSearch
import SdPlane.PtreeRemove
import SdPlane.PtreeNext
import SdPlane.CommandExecute
import SdPlane.Lib.CommonPrefix
import SdPlane.CommandComplete
import SdPlane.HashTableMap
import SdPlane.Lib.Qsbr
import SdPlane.RibReaders
import SdPlane.NexthopContent
import SdPlane.RoutesServed
import SdPlane.QueueOwners
import SdPlane.Journeys
import SdPlane.SegmentPath
import SdPlane.NexthopTypes
import SdPlane.AsAnnounced
import SdPlane.PsmemMemory
import SdPlane.CommandGrammar
import SdPlane.Lib.Screen
import SdPlane.ShellScreen
import SdPlane.NetlinkRead
import SdPlane.NetlinkNews
import SdPlane.NetlinkTold
import SdPlane.NetlinkEncode
import SdPlane.NetlinkNeighbors
