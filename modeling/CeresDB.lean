import CeresDB.IdAllocator.Basic
import CeresDB.IdAllocator.Concurrent
import CeresDB.Write.Basic
import CeresDB.Write.Splitter
import CeresDB.Write.MemTable
import CeresDB.Write.Routing
import CeresDB.Write.Writer
import CeresDB.Write.Run
import CeresDB.Write.WriteAhead
import CeresDB.Write.Flush
import CeresDB.Cluster.ShardTables
import CeresDB.Cluster.Topology
import CeresDB.Cluster.ClusterImpl
import CeresDB.Server.Http
