import ErgoNode.Chain.DifficultyBounds
import ErgoNode.Chain.SettingsUpdate
import ErgoNode.Chain.SoftForkLifecycle
import ErgoNode.Chain.StaleLoaders
import ErgoNode.Chain.SyncInfo
import ErgoNode.Fastsync.HeaderIds
import ErgoNode.Light.Bootstrap
import ErgoNode.Mempool.ExpiringCache
import ErgoNode.Mempool.FeeStats
import ErgoNode.Mempool.Outcomes
import ErgoNode.Mining.Assembly
import ErgoNode.Mining.OwnBlock
import ErgoNode.Peers.HandshakeStream
import ErgoNode.Peers.OutboundQueue
import ErgoNode.Peers.Reply
import ErgoNode.Pipeline.OrderIndependence
import ErgoNode.Pipeline.ParentSlots
import ErgoNode.Pipeline.SectionBinding
import ErgoNode.Snapshot.Binding
import ErgoNode.Snapshot.ChunkDownload
import ErgoNode.Snapshot.Protocol
import ErgoNode.Snapshot.Task
import ErgoNode.State.Compaction
import ErgoNode.State.RetainedVersions
import ErgoNode.Sync.Backoff
import ErgoNode.Sync.Delivery
import ErgoNode.Sync.FlushGap
import ErgoNode.Sync.ForkVoteGate
import ErgoNode.Sync.RecomputedParameters
import ErgoNode.Sync.Retention
import ErgoNode.Validation.RejectedBlock
