import MantaIndexer.Indexer.ShardedCache
import MantaIndexer.Mirror.Aliases
import MantaIndexer.Mirror.Arithmetic
import MantaIndexer.Mirror.Atomic
import MantaIndexer.Mirror.Completeness
import MantaIndexer.Mirror.Continues
import MantaIndexer.Mirror.Converges
import MantaIndexer.Mirror.Cursors
import MantaIndexer.Mirror.Delivery
import MantaIndexer.Mirror.DenseForm
import MantaIndexer.Mirror.EndToEnd
import MantaIndexer.Mirror.Failures
import MantaIndexer.Mirror.Gate
import MantaIndexer.Mirror.Greedy
import MantaIndexer.Mirror.Initialization
import MantaIndexer.Mirror.Inserts
import MantaIndexer.Mirror.Limits
import MantaIndexer.Mirror.Races
import MantaIndexer.Mirror.Reread
import MantaIndexer.Mirror.Shutdown
import MantaIndexer.Mirror.Snapshot
import MantaIndexer.Mirror.Walking
import MantaIndexer.Mirror.Walks
import MantaIndexer.Mirror.Warm
import MantaIndexer.Relayer.Isolation
import MantaIndexer.Relayer.Leaks
import MantaIndexer.Relayer.RelayServer
