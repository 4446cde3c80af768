import OxideMq.Broker.BatchBounds
import OxideMq.Broker.ConcurrentTopics
import OxideMq.Broker.DeleteRecords
import OxideMq.Broker.DepartedMembers
import OxideMq.Broker.DescribedAcls
import OxideMq.Broker.EndTxnRetry
import OxideMq.Broker.Generations
import OxideMq.Broker.HiddenBatches
import OxideMq.Broker.IdempotentAppend
import OxideMq.Broker.Incarnations
import OxideMq.Broker.OffsetUniqueness
import OxideMq.Broker.PartitionCreation
import OxideMq.Broker.PrincipalNames
import OxideMq.Broker.ProduceFencing
import OxideMq.Broker.ProducerEpochs
import OxideMq.Broker.SchemaChecks
import OxideMq.Broker.SchemaValidation
import OxideMq.Broker.ScramLogin
import OxideMq.Broker.TopicAdmin
import OxideMq.Broker.TopicNames
import OxideMq.Protocol.FlexibleRequests
import OxideMq.Protocol.FrameCodec
import OxideMq.Protocol.Varints
import OxideMq.Stream.BlockCacheRuns
import OxideMq.Stream.CacheRuns
import OxideMq.Stream.ColdReads
import OxideMq.Stream.CompactedReads
import OxideMq.Stream.Corruption
import OxideMq.Stream.ObjectIndex
import OxideMq.Stream.ObjectStorage
import OxideMq.Stream.Truncation
import OxideMq.Stream.WalWatermarks
import OxideMq.Wal.EnginesAgree
import OxideMq.Wal.EpochFencing
import OxideMq.Wal.FlushBarrier
import OxideMq.Wal.FrameReads
import OxideMq.Wal.Purge
import OxideMq.Wal.ReconcileExact
