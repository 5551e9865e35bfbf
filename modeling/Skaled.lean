import Skaled.State.Destruction
import Skaled.State.RetriedCommit
import Skaled.State.Isolation
import Skaled.Executive.Bounded
import Skaled.Evm.StaticCalls
import Skaled.Block.CatchUp
import Skaled.Block.LastBlockHashes
import Skaled.Snapshot.DatabaseHash
import Skaled.Snapshot.HashVoting
import Skaled.Snapshot.ScheduleRuns
import Skaled.Storage.BatchedDeletion
import Skaled.Storage.RotationRuns
import Skaled.Storage.RotationReads
import Skaled.Storage.BlockImportRuns
import Skaled.Queue.CategoryRuns
import Skaled.Queue.Effects
import Skaled.Queue.OrderRuns
import Skaled.Rpc.GappedIndexCache
import Skaled.LruCache
import Skaled.Transaction.BlockBody
import Skaled.FileStorage.Chunks
import Skaled.FileStorage.Confinement
import Skaled.FileStorage.NestedRollback
import Skaled.Trie.Roots
import Skaled.Unddos.Bans
import Skaled.Unddos.Connections
import Skaled.Unddos.Wildcards
import Skaled.Block.BloomIndex
import Skaled.Rpc.GasEstimate
import Skaled.Executive.Modexp
import Skaled.State.Balances
import Skaled.Storage.SplitDatabases
