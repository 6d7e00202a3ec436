import OpenGauss.BigInteger.Convert.RoundTrip
import OpenGauss.BigInteger.Output.Lemmas
import OpenGauss.Bloom.Intersect
import OpenGauss.Cfs.Recycle.Crash
import OpenGauss.Cfs.Repair.Sound
import OpenGauss.Cstore.AllocSpace.Runs
import OpenGauss.Cstore.Compress.Lemmas.Ascale
import OpenGauss.Cstore.Compress.Lemmas.Xor
import OpenGauss.Cstore.MinMax.Lemmas
import OpenGauss.Cstore.NumberString.DeForm
import OpenGauss.Cstore.Spill
import OpenGauss.Heap.XidBase.Lemmas
import OpenGauss.Hll.Memory.Wire
import OpenGauss.Hotkey.Runs
import OpenGauss.Htap.DeltaTable.Lemmas
import OpenGauss.Ledger.Numbers.Runs
import OpenGauss.Mot.GcQueue.Reserve
import OpenGauss.Mot.IndexKey.Null
import OpenGauss.Mot.IndexKey.Order
import OpenGauss.Mot.MatchIndex
import OpenGauss.Mot.Occ.Runs
import OpenGauss.Mot.Occ.UniqueChain
import OpenGauss.Mot.RowPack
import OpenGauss.Partition.ListTable.Lemmas
import OpenGauss.Partition.Pruning.MultiColumn
import OpenGauss.Partition.Pruning.NullTest
import OpenGauss.Replication.DataQueue.Runs
import OpenGauss.Replication.StandbyRead.Progress
import OpenGauss.Replication.StandbyRead.Runs
import OpenGauss.Replication.SyncPaxos.Lemmas
import OpenGauss.Replication.SyncRep.AtomicUpdate
import OpenGauss.Replication.SyncRep.CollectBounds
import OpenGauss.Security.IPRange.Parse.Lemmas
import OpenGauss.Security.IPRange.Search
import OpenGauss.Segment.BlockMap.Capacity
import OpenGauss.Segment.Redo.Lemmas
import OpenGauss.Segment.Space.Lemmas
import OpenGauss.Ustore.AddItem.Potential
import OpenGauss.Ustore.MultiInsert.Lemmas
import OpenGauss.Ustore.Prune.Lemmas
import OpenGauss.Ustore.UndoPayload.Rollback
import OpenGauss.Ustore.UndoRecycle.Runs
import OpenGauss.Ustore.UndoSpace.Runs
import OpenGauss.Ustore.Visibility.Lemmas
import OpenGauss.Ustore.XidBase.Lemmas
import OpenGauss.Xlog.Reserve.Contents
