import P2Sync.Net.Engine

/-!
# One peer

A peer holds an index, a folder and a list of tasks. Notifications and reconciliations
run as tasks of their own, so that any number of them is between two of its steps at any
moment; file events are handled one after another. A step of the model is one stretch of
the code between two points where other code can run: a request goes out, an answer is
put together over what the file holds then, the result is written, and the index is
brought up to date, in four steps of one task (`Stage`).

Everything a step depends on that is not in the state is part of its action: the answer
that arrives, the outcome of system calls, and what a file that can change under the
engine's hands is found to hold.
-/

set_option autoImplicit false

namespace P2Sync

/-- What a file event says happened. -/
inductive FsEvent where
  | created (path : RelPath)
  | modified (path : RelPath)
  | removed (path : RelPath)
deriving DecidableEq

def FsEvent.path : FsEvent → RelPath
  | .created path => path
  | .modified path => path
  | .removed path => path

/-- The clock, time and writer of the version a fetch brings. -/
structure RemoteOrigin where
  clock : VectorClock
  timestamp : Nat
  peer : PeerId

/-- Which call of `fetch_and_apply` a fetch is, with the hash of the announced version.
Nothing the engine does depends on it. -/
inductive Cause where
  | accepted (hash : Hash)
  | lost (hash : Hash)
  | kept (hash : Hash)
  | reconciled

/-- The arguments of `fetch_and_apply`, its path past the guard. -/
structure Fetch (ι : Type) where
  source : ι
  path : SafePath
  chunkIndices : List Nat
  origin : RemoteOrigin
  cause : Cause

/-- Where a task stands between two of its steps. -/
inductive Stage (ι : Type) where
  | idle
  /-- The file of a tombstone is removed, the index still lists it. -/
  | removed (tombstone : Tombstone) (path : SafePath)
  | asked (fetch : Fetch ι)
  | answered (fetch : Fetch ι) (chunks : List (Nat × Bytes))
  /-- The answer is put together over the file, not yet written. -/
  | loaded (fetch : Fetch ι) (data : Bytes)
  /-- The file is written, the index still has the old one. -/
  | written (fetch : Fetch ι) (data : Bytes)
  | askedRoot (peer : ι)
  | gotRoot (peer : ι) (hash : Hash)
  | askedTree (peer : ι)
  | gotTree (peer : ι) (tree : Node)

/-- A spawned task: its stage, what its loop has left, and what it has counted. -/
structure Task (ι : Type) where
  stage : Stage ι
  todo : List (Walk ι) := []
  filesSynced : Nat := 0

/-- What a peer keeps to tell file events apart. -/
structure Watch where
  syncWriteGuard : EventGuard
  changeDebounce : EventGuard
  fsQueue : List FsEvent
  instant : Nat

/-- The state of a peer; `now` is its wall clock in seconds. -/
structure Peer (ι : Type) where
  index : SyncIndex
  disk : Disk
  tasks : List (Task ι)
  now : Nat
  watch : Watch

/-- Settings of a peer that do not change while it runs. -/
structure Ctx (ι : Type) where
  localId : PeerId
  /-- `short_peer_id`. -/
  shortPeerId : ι → PeerId
  noPush : Bool := false
  noPull : Bool := false
  storage : StorageConfig := {}
  writeGuardTtl : Nat
  debounce : Nat

/-- How the device ends the calls of one step. -/
structure Device where
  copies : Outcome := .succeeds
  removes : Bool := true
  reads : Bool := true
  createsDirs : Bool := true
  writes : Outcome := .succeeds

/-- What the three looks at a changed file find. It can change between them. -/
structure FsReads where
  isFile : Bool
  first : Option Bytes
  second : Option Bytes

/-- What can happen at a peer. -/
inductive Act (ι : Type) where
  | elapse (duration : Nat)
  | setTime (now : Nat)
  /-- Someone else changes the folder. -/
  | user (disk : Disk)
  /-- The watcher thread passes an event on, unless the write guard stops it. -/
  | watched (event : FsEvent)
  /-- The engine takes the next file event. -/
  | fsEvent (reads : FsReads)
  | notified (source : ι) (notification : SyncNotification) (device : Device)
  | discovered (peer : ι)
  /-- The request of a task is answered, or fails. -/
  | respond (task : Nat) (response : Option SyncResponse)
  | resume (task : Nat) (device : Device)

namespace SyncIndex

variable [Blake3]

/-- The index after `fetch_and_apply` has written a file. -/
def fetched (index : SyncIndex) (path : RelPath) (data : Bytes) (chunkSize : Nat)
    (origin : RemoteOrigin) : SyncIndex :=
  { index with
    tree := Merkle.updateFileWithChunkSize index.tree path data chunkSize
    fileMeta := index.fileMeta.insert path
      ⟨(index.clockOf path).merge origin.clock, origin.timestamp, origin.peer⟩ }

/-- The index after the file of a tombstone was removed. -/
def remotelyDeleted (index : SyncIndex) (path : RelPath) (tombstone : Tombstone) : SyncIndex :=
  { index with
    tree := (Merkle.removePath index.tree path).2
    fileMeta := index.fileMeta.erase path
    tombstones := index.tombstones ++ [tombstone] }

/-- An applied fetch merges its clock into the one recorded. -/
theorem clockOf_fetched (index : SyncIndex) (path : RelPath) (data : Bytes) (chunkSize : Nat)
    (origin : RemoteOrigin) (query : RelPath) :
    (index.fetched path data chunkSize origin).clockOf query =
      if query = path then (index.clockOf path).merge origin.clock else index.clockOf query := by
  have inserted : (index.fetched path data chunkSize origin).fileMeta =
      index.fileMeta.insert path
        ⟨(index.clockOf path).merge origin.clock, origin.timestamp, origin.peer⟩ := rfl
  exact clockOf_of_insert inserted query

/-- A remote deletion forgets the clock of its path. -/
theorem clockOf_remotelyDeleted (index : SyncIndex) (path : RelPath) (tombstone : Tombstone)
    (query : RelPath) :
    (index.remotelyDeleted path tombstone).clockOf query =
      if query = path then .new else index.clockOf query :=
  clockOf_of_erase rfl query

end SyncIndex

namespace Peer

variable {ι : Type} [Blake3] (ctx : Ctx ι) (device : Device) (peer : Peer ι)

/-! ## Handlers -/

omit [Blake3] in
/-- Start a task. -/
def spawn (stage : Stage ι) : Peer ι := { peer with tasks := peer.tasks ++ [{ stage := stage }] }

omit [Blake3] in
/-- `fetch_and_apply` up to its request: the path is checked, then the exclude patterns. -/
def startFetch (source : ι) (path : Str) (chunkIndices : List Nat) (origin : RemoteOrigin)
    (cause : Cause) : Stage ι :=
  match SafePath.of? path with
  | none => .idle
  | some path =>
      if peer.index.isExcluded path.rel then .idle
      else .asked ⟨source, path, chunkIndices, origin, cause⟩

omit [Blake3] in
/-- Remember a write of the engine's own. -/
def markWrite (path : RelPath) : Peer ι :=
  { peer with
    watch := { peer.watch with
      syncWriteGuard := peer.watch.syncWriteGuard.mark path peer.watch.instant } }

omit [Blake3] in
/-- The folder with the parents of a path created, as far as that succeeds. -/
def makeParents (path : RelPath) : Disk :=
  if device.createsDirs then (peer.disk.createDirAll path.dropLast).getD peer.disk else peer.disk

omit [Blake3] in
/-- What `fetch_and_apply` reads of the old file before it applies an answer. -/
def oldData (path : RelPath) : Bytes :=
  if device.reads then (peer.disk.read path).getD [] else []

omit [Blake3] in
/-- Copy a losing file beside itself. -/
def backUp (path : SafePath) (loser : PeerId) : Peer ι :=
  if peer.disk.pathExists path.rel then
    { peer with disk := (device.copies.copy path.rel (path.backup loser).rel peer.disk).2 }
  else peer

omit [Blake3] in
/-- `handle_notification`, up to the first request it makes. -/
def handleNotification (source : ι) : SyncNotification → Peer ι
  | .fileChanged path hash chunksChanged remoteClock remoteTs remotePeer =>
      if remotePeer = ctx.localId then peer
      else match SafePath.of? path with
      | none => peer
      | some path =>
          let chunkIndices := chunksChanged.map ChunkMeta.index
          let origin : RemoteOrigin := ⟨remoteClock, remoteTs, remotePeer⟩
          match resolve (peer.index.clockOf path.rel) remoteClock
              (peer.index.lastModifiedOf path.rel) remoteTs remotePeer ctx.localId with
          | .accept =>
              (peer.markWrite path.rel).spawn
                (peer.startFetch source path.raw chunkIndices origin (.accepted hash))
          | .reject => peer
          | .conflict loserPeer =>
              if loserPeer = ctx.localId then
                (peer.backUp device path loserPeer).spawn
                  (peer.startFetch source path.raw chunkIndices origin (.lost hash))
              else
                peer.spawn (peer.startFetch source (conflictFilename path.raw loserPeer)
                  chunkIndices origin (.kept hash))
  | .fileDeleted tombstone =>
      if tombstone.deletedBy = ctx.localId then peer
      else match SafePath.of? tombstone.path with
      | none => peer
      | some path =>
          let disk :=
            if peer.disk.pathExists path.rel && device.removes then
              (peer.disk.removeFile path.rel).getD peer.disk
            else peer.disk
          { peer with disk := disk }.spawn (.removed tombstone path)
  | .peerJoined _ => peer

/-- `handle_fs_event` for a created or modified file. -/
def handleTouched (reads : FsReads) (path : RelPath) : Peer ι × Option SyncNotification :=
  let (suppressed, syncWriteGuard) :=
    peer.watch.syncWriteGuard.isSuppressed path peer.watch.instant ctx.writeGuardTtl
  let peer := { peer with watch := { peer.watch with syncWriteGuard := syncWriteGuard } }
  if suppressed then (peer, none)
  else
    let (suppressed, changeDebounce) :=
      peer.watch.changeDebounce.isSuppressed path peer.watch.instant ctx.debounce
    let peer := { peer with watch := { peer.watch with changeDebounce := changeDebounce } }
    if suppressed then (peer, none)
    else
      let peer := { peer with watch := { peer.watch with
        changeDebounce := peer.watch.changeDebounce.mark path peer.watch.instant } }
      if conflictMark <:+: path.toStringLossy then (peer, none)
      else if !reads.isFile then (peer, none)
      else if peer.index.isExcluded path then (peer, none)
      else match peer.index.localFileChanged path reads.first peer.now with
      | none => (peer, none)
      | some index =>
          let peer := { peer with index := index }
          match index.fileMeta.lookup path, reads.second with
          | some fileMeta, some data =>
              let chunksMeta := Chunk.metadata data ctx.storage.chunkSize
              (peer, path.toWire.map fun path =>
                .fileChanged path (Chunk.fileHash chunksMeta) chunksMeta fileMeta.clock
                  fileMeta.lastModified ctx.localId)
          | _, _ => (peer, none)

/-- `handle_fs_event`, with the notification it publishes. A path that is not UTF-8 does
not serialise and is not published. -/
def handleFsEvent (reads : FsReads) : FsEvent → Peer ι × Option SyncNotification
  | .created path => peer.handleTouched ctx reads path
  | .modified path => peer.handleTouched ctx reads path
  | .removed path =>
      let index := peer.index.localFileDeleted path peer.now
      ({ peer with index := index }, index.tombstones.getLast?.map .fileDeleted)

/-- One stretch of a task: the peer and the task after it, or `none` while the task waits
for an answer or has ended. -/
def runTask (task : Task ι) : Option (Peer ι × Task ι) :=
  match task.stage with
  | .idle =>
      match task.todo with
      | [] => none
      | .counted files :: rest =>
          some (peer, { task with todo := rest, filesSynced := task.filesSynced + files })
      | .fetchFile source path chunkCount :: rest =>
          some (peer, { task with
            todo := rest
            stage := peer.startFetch source path (List.range chunkCount)
              ⟨.new, peer.now, ctx.shortPeerId source⟩ .reconciled })
  | .removed tombstone path =>
      some ({ peer with index := peer.index.remotelyDeleted path.rel tombstone },
        { task with stage := .idle })
  | .asked _ => none
  | .answered fetch chunks =>
      match applyChunks ctx.storage chunks (peer.oldData device fetch.path.rel) with
      | some data => some (peer, { task with stage := .loaded fetch data })
      | none => some (peer, { task with stage := .idle })
  | .loaded fetch data =>
      let (success, disk) :=
        device.writes.write fetch.path.rel data (peer.makeParents device fetch.path.rel)
      some ({ peer.markWrite fetch.path.rel with disk := disk },
        { task with stage := if success then .written fetch data else .idle })
  | .written fetch data =>
      some ({ peer with index :=
          peer.index.fetched fetch.path.rel data ctx.storage.chunkSize fetch.origin },
        { task with stage := .idle })
  | .askedRoot _ => none
  | .gotRoot source hash =>
      some (peer, { task with
        stage := if peer.index.tree.hash = hash then .idle else .askedTree source })
  | .askedTree _ => none
  | .gotTree source tree =>
      some (peer, { task with
        stage := .idle, todo := walkDiff source ctx.noPull peer.index.tree tree })

omit [Blake3] in
/-- Whether `handle_fs_event` goes on to update the index for a touched path. -/
def picksUp (reads : FsReads) (path : RelPath) : Bool :=
  !(peer.watch.syncWriteGuard.isSuppressed path peer.watch.instant ctx.writeGuardTtl).1 &&
    !(peer.watch.changeDebounce.isSuppressed path peer.watch.instant ctx.debounce).1 &&
    !decide (conflictMark <:+: path.toStringLossy) && reads.isFile &&
    !peer.index.isExcluded path && reads.first.isSome

omit [Blake3] in
/-- The path of the next file event, when it is going to be indexed. -/
def indexed (reads : FsReads) : Option RelPath :=
  match peer.watch.fsQueue with
  | .created path :: _ => if !ctx.noPush && peer.picksUp ctx reads path then some path else none
  | .modified path :: _ => if !ctx.noPush && peer.picksUp ctx reads path then some path else none
  | _ => none

omit [Blake3] in
/-- What an answer makes of a waiting stage; a failed request, an error or an answer of
another kind ends the call. -/
def answer : Stage ι → Option SyncResponse → Option (Stage ι)
  | .asked fetch, some (.chunks _ chunks) => some (.answered fetch chunks)
  | .asked _, _ => some .idle
  | .askedRoot peer, some (.rootHash hash) => some (.gotRoot peer hash)
  | .askedRoot _, _ => some .idle
  | .askedTree peer, some (.tree tree) => some (.gotTree peer tree)
  | .askedTree _, _ => some .idle
  | _, _ => none

/-! ## Steps -/

/-- One step of a peer, with the notification it publishes. -/
def step : Act ι → Option (Peer ι × Option SyncNotification)
  | .elapse duration =>
      some ({ peer with watch := { peer.watch with instant := peer.watch.instant + duration } },
        none)
  | .setTime now => some ({ peer with now := now }, none)
  | .user disk => some ({ peer with disk := disk }, none)
  | .watched event =>
      let (suppressed, syncWriteGuard) :=
        peer.watch.syncWriteGuard.isSuppressed event.path peer.watch.instant ctx.writeGuardTtl
      some ({ peer with watch := { peer.watch with
        syncWriteGuard := syncWriteGuard
        fsQueue := if suppressed then peer.watch.fsQueue else peer.watch.fsQueue ++ [event] } },
          none)
  | .fsEvent reads =>
      match peer.watch.fsQueue with
      | [] => none
      | event :: rest =>
          let peer := { peer with watch := { peer.watch with fsQueue := rest } }
          if ctx.noPush then some (peer, none) else some (peer.handleFsEvent ctx reads event)
  | .notified source notification device =>
      some (if ctx.noPull then peer else peer.handleNotification ctx device source notification,
        none)
  | .discovered source => some (peer.spawn (.askedRoot source), none)
  | .respond task response =>
      peer.tasks[task]?.bind fun entry =>
        (answer entry.stage response).map fun stage =>
          ({ peer with tasks := peer.tasks.set task { entry with stage := stage } }, none)
  | .resume task device =>
      peer.tasks[task]?.bind fun entry =>
        (peer.runTask ctx device entry).map fun (peer, entry) =>
          ({ peer with tasks := peer.tasks.set task entry }, none)

end Peer

end P2Sync
