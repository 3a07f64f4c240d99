import Nynn.Library.LinkedRing
import Nynn.Library.LittleEndian
import Nynn.Library.Program
import Nynn.Storage.Types
import Nynn.Storage.SubgraphStorage
import Nynn.Storage.VertexLists
import Nynn.Storage.Environment
import Nynn.Storage.FlatStore
import Nynn.Storage.Following
import Nynn.Storage.FreeList
import Nynn.Storage.FreePool
import Nynn.Storage.Rings
import Nynn.Storage.Deques
import Nynn.Storage.SubgraphRuns
import Nynn.Storage.OverflowTable
import Nynn.Storage.UsablePointers
import Nynn.Storage.Transparency
import Nynn.Storage.TableRuns
import Nynn.Storage.TableStore
import Nynn.Storage.MappedGroups
import Nynn.Library.Hexadecimal
import Nynn.Library.Transition
import Nynn.Storage.SubgraphSet
import Nynn.Cache.Buckets
import Nynn.Library.Recency
import Nynn.Cache.Ownership
import Nynn.Cache.CacheCalls
import Nynn.Cache.CacheRefinement
import Nynn.Agent.GraphRead
import Nynn.Storage.OwnedBlocks
import Nynn.Library.Loads
import Nynn.Placement.GraphTable
import Nynn.Placement.TableCalls
import Nynn.Placement.AccessLoad
import Nynn.Placement.StorageLoad
import Nynn.Placement.Balance
import Nynn.Producer.Replication
import Nynn.Storage.Twins
import Nynn.Storage.Reopening
import Nynn.Library.RWLock
import Nynn.Producer.VertexLocks
import Nynn.Producer.Convergence
import Nynn.Agent.Coherence
import Nynn.Placement.Corruption
import Nynn.Agent.Routing
import Nynn.Storage.Formatting
import Nynn.Storage.ReadMany
import Nynn.Storage.Growth
import Nynn.Storage.FailedInsertions
import Nynn.Storage.StaleBlocks
import Nynn.Daemon.NetworkConfig
import Nynn.Daemon.LinkSetup
import Nynn.Daemon.Hoses
import Nynn.Daemon.Segments
import Nynn.Daemon.SegmentLedger
import Nynn.Daemon.Framing
import Nynn.Library.BinaryHeap
import Nynn.Placement.ReplicaSelection
import Nynn.Placement.InversePairs
import Nynn.Placement.Reelection
import Nynn.Daemon.ConfigFile
import Nynn.Daemon.MessageSizes
import Nynn.Common.MmapRange
import Nynn.Common.TupleArray
import Nynn.Common.Timestamps
import Nynn.Daemon.Node
import Nynn.Daemon.NodeLedger
import Nynn.Daemon.Network
import Nynn.Daemon.Delivery
import Nynn.Library.Monitor
import Nynn.Daemon.BlockingCalls
import Nynn.Cache.Hits
import Nynn.Library.Wire
import Nynn.Rpc.Protocol
import Nynn.Rpc.BinaryProtocol
import Nynn.Rpc.Connections
import Nynn.Provider.CreatedSubgraphs
import Nynn.Provider.ProviderCalls
import Nynn.Provider.ProviderStore
