import Keldra.Consensus.Placement
import Keldra.Consensus.Accounting
import Keldra.Consensus.Restart
import Keldra.Consensus.SnapshotJournal
import Keldra.Consensus.ServingLeaseExclusion
import Keldra.Authz.Closure
import Keldra.AtomicProgram.Expansion
import Keldra.AtomicProgram.PreparedWrites
import Keldra.Index.QueryCompaction
import Keldra.Store.JournalInvariant
import Keldra.Store.ConsumerRetention
import Keldra.Delivery.Exactness
import Keldra.LocalNode.PublicationWindow
import Keldra.LocalNode.SerialBulk
import Keldra.Erasure.Recovery
import Keldra.Cluster.LogicalRecords
import Keldra.Cluster.RealmReconciliation
import Keldra.Cluster.MembershipDrain
import Keldra.Cluster.ReservationSweep
import Keldra.Index.Backfill
import Keldra.Index.Barriers
import Keldra.Index.SortKeys
import Keldra.Index.MemoryCredits
import Keldra.LocalNode.BatchReads
import Keldra.Placement.RankNodes
