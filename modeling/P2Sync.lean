import P2Sync.Sync.Deletion
import P2Sync.Sync.Resurrection
import P2Sync.Sync.Freshness
import P2Sync.Sync.Announced
import P2Sync.Sync.Winner
import P2Sync.Sync.Backup
import P2Sync.Sync.Clash
import P2Sync.Sync.Agreement
import P2Sync.Sync.Overwrite
import P2Sync.Sync.Converge
import P2Sync.Sync.Excluded
import P2Sync.Sync.Confined
import P2Sync.Sync.ReadOnly
import P2Sync.Sync.Forward
import P2Sync.Sync.Causal
import P2Sync.Sync.Tracked
import P2Sync.Core.Sound
import P2Sync.Sync.Debounce
import P2Sync.Sync.WriteGuard
import P2Sync.Sync.ChunkLoop
import P2Sync.Sync.Failure
import P2Sync.Sync.Transfer
import P2Sync.Net.ShortId
import P2Sync.Net.Channels
import P2Sync.Net.Watcher
import P2Sync.Support.Notices
import P2Sync.Sync.Follow
import P2Sync.Sync.Echo
import P2Sync.Sync.Fitting
import P2Sync.Core.Refine
import P2Sync.Core.Difference
import P2Sync.Core.Rebuild
import P2Sync.Sync.Served
import P2Sync.Sync.Together
import P2Sync.Sync.Published
import P2Sync.Sync.Preserved
import P2Sync.Sync.Reported
import P2Sync.Sync.Versions
import P2Sync.Sync.Mirrored
import P2Sync.Core.ClockOrder
import P2Sync.Sync.Verdicts
import P2Sync.Core.BackupName
import P2Sync.Core.Tiling
import P2Sync.Core.Frame
import P2Sync.Sync.Links
import P2Sync.Net.Realised
import P2Sync.Net.Drain
import P2Sync.Sync.Provenance
import P2Sync.Sync.Grounds
import P2Sync.Net.Settle
import P2Sync.Sync.Paced
import P2Sync.Net.Decode
import P2Sync.Sync.Stable
import P2Sync.Sync.Graves
import P2Sync.Support.Defaults
import P2Sync.App.Monitor
import P2Sync.App.Config
import P2Sync.App.Sealed
import P2Sync.Sync.Receiving
