import P2Sync.Net.Peer
import P2Sync.Support.Run

/-!
# What a step of a peer can do

`Peer.Step` lists the cases of a step, one constructor for each branch that changes the
index, the folder or a task, and `Peer.step_cases` says that the list is complete.
`Peer.Ran` does the same for one stretch of a task (`Peer.run_cases`). What a step leaves
alone is read off its constructor; invariants go through the constructors and never
unfold the step itself.
-/

set_option autoImplicit false

namespace P2Sync

namespace Peer

variable {ι : Type} [Blake3] (ctx : Ctx ι) (device : Device)

/-! ## Cases -/

variable (before : Peer ι)

omit [Blake3] in
/-- The actions that may leave index, folder and tasks as they are: among the file events
those that are not indexed. -/
def passive : Act ι → Bool
  | .elapse _ => true
  | .watched _ => true
  | .fsEvent reads => (before.indexed ctx reads).isNone
  | .notified _ _ _ => true
  | _ => false

/-- The cases of a step. Changes of what tells file events apart are not looked at. -/
inductive Step : Act ι → Peer ι → Option SyncNotification → Prop where
  | quiet (act : Act ι) (watch : Watch) (idle : before.passive ctx act = true) :
      Step act { before with watch := watch } none
  | timeSet (now : Nat) : Step (.setTime now) { before with now := now } none
  | user (disk : Disk) : Step (.user disk) { before with disk := disk } none
  | edited (reads : FsReads) (path : RelPath) (data : Bytes) (watch : Watch)
      (published : Option SyncNotification)
      (picked : before.indexed ctx reads = some path)
      (unmarked : ¬ conflictMark <:+: path.toStringLossy)
      (included : before.index.isExcluded path = false)
      (first : reads.first = some data)
      (announced : ∀ notification, published = some notification → ∃ raw content,
        path.toWire = some raw ∧ reads.second = some content ∧
          notification = .fileChanged raw
            (Chunk.fileHash (Chunk.metadata content ctx.storage.chunkSize))
            (Chunk.metadata content ctx.storage.chunkSize)
            ((before.index.clockOf path).tick before.index.localPeer) before.now ctx.localId) :
      Step (.fsEvent reads)
        { before with index := before.index.ticked path data before.now, watch := watch } published
  | erased (reads : FsReads) (path : RelPath) (rest : List FsEvent) (watch : Watch)
      (next : before.watch.fsQueue = .removed path :: rest) :
      Step (.fsEvent reads)
        { before with index := before.index.localFileDeleted path before.now, watch := watch }
        (some (.fileDeleted ⟨path.toStringLossy, before.index.localPeer,
          before.index.clockOf path, before.now⟩))
  | accepted (source : ι) (path : SafePath) (hash : Hash) (chunks : List ChunkMeta)
      (clock : VectorClock) (timestamp : Nat) (writer : PeerId) (device : Device) (watch : Watch)
      (foreign : writer ≠ ctx.localId)
      (newer : (before.index.clockOf path.rel).counter < clock.counter) :
      Step (.notified source (.fileChanged path.raw hash chunks clock timestamp writer) device)
        ({ before with watch := watch }.spawn
          (before.startFetch source path.raw (chunks.map ChunkMeta.index)
            ⟨clock, timestamp, writer⟩ (.accepted hash))) none
  | lost (source : ι) (path : SafePath) (hash : Hash) (chunks : List ChunkMeta)
      (clock : VectorClock) (timestamp : Nat) (writer : PeerId) (device : Device)
      (foreign : writer ≠ ctx.localId)
      (concurrent : (before.index.clockOf path.rel).compare clock = .concurrent)
      (wins : remoteWins (before.index.lastModifiedOf path.rel) timestamp writer ctx.localId) :
      Step (.notified source (.fileChanged path.raw hash chunks clock timestamp writer) device)
        ((before.backUp device path ctx.localId).spawn
          (before.startFetch source path.raw (chunks.map ChunkMeta.index)
            ⟨clock, timestamp, writer⟩ (.lost hash))) none
  | kept (source : ι) (path : SafePath) (hash : Hash) (chunks : List ChunkMeta)
      (clock : VectorClock) (timestamp : Nat) (writer : PeerId) (device : Device)
      (foreign : writer ≠ ctx.localId)
      (concurrent : (before.index.clockOf path.rel).compare clock = .concurrent)
      (loses : ¬ remoteWins (before.index.lastModifiedOf path.rel) timestamp writer ctx.localId) :
      Step (.notified source (.fileChanged path.raw hash chunks clock timestamp writer) device)
        (before.spawn
          (before.startFetch source (path.backup writer).raw (chunks.map ChunkMeta.index)
            ⟨clock, timestamp, writer⟩ (.kept hash))) none
  | unlinked (source : ι) (tombstone : Tombstone) (path : SafePath) (device : Device) (disk : Disk)
      (named : tombstone.path = path.raw) (foreign : tombstone.deletedBy ≠ ctx.localId)
      (removed : disk = before.disk ∨ before.disk.removeFile path.rel = some disk) :
      Step (.notified source (.fileDeleted tombstone) device)
        ({ before with disk := disk }.spawn (.removed tombstone path)) none
  | discovered (source : ι) : Step (.discovered source) (before.spawn (.askedRoot source)) none
  | answered (task : Nat) (response : Option SyncResponse) (entry : Task ι) (stage : Stage ι)
      (found : before.tasks[task]? = some entry)
      (reply : answer entry.stage response = some stage) :
      Step (.respond task response)
        { before with tasks := before.tasks.set task { entry with stage := stage } } none
  | resumed (task : Nat) (device : Device) (entry : Task ι) (after : Peer ι) (entry' : Task ι)
      (found : before.tasks[task]? = some entry)
      (ran : before.runTask ctx device entry = some (after, entry')) :
      Step (.resume task device) { after with tasks := after.tasks.set task entry' } none

/-- The cases of one stretch of a task. -/
inductive Ran (task : Task ι) : Peer ι → Task ι → Prop where
  | counted (files : Nat) (rest : List (Walk ι)) (ended : task.stage = .idle)
      (next : task.todo = .counted files :: rest) :
      Ran task before { task with todo := rest, filesSynced := task.filesSynced + files }
  | started (source : ι) (path : Str) (chunkCount : Nat) (rest : List (Walk ι))
      (ended : task.stage = .idle) (next : task.todo = .fetchFile source path chunkCount :: rest) :
      Ran task before { task with
        todo := rest
        stage := before.startFetch source path (List.range chunkCount)
          ⟨.new, before.now, ctx.shortPeerId source⟩ .reconciled }
  | forgotten (tombstone : Tombstone) (path : SafePath)
      (unlinked : task.stage = .removed tombstone path) :
      Ran task { before with index := before.index.remotelyDeleted path.rel tombstone }
        { task with stage := .idle }
  | refused (fetch : Fetch ι) (chunks : List (Nat × Bytes))
      (answered : task.stage = .answered fetch chunks)
      (large : applyChunks ctx.storage chunks (before.oldData device fetch.path.rel) = none) :
      Ran task before { task with stage := .idle }
  | loaded (fetch : Fetch ι) (chunks : List (Nat × Bytes)) (data : Bytes)
      (answered : task.stage = .answered fetch chunks)
      (applied :
        applyChunks ctx.storage chunks (before.oldData device fetch.path.rel) = some data) :
      Ran task before { task with stage := .loaded fetch data }
  | failed (fetch : Fetch ι) (data : Bytes) (disk : Disk) (watch : Watch)
      (ready : task.stage = .loaded fetch data)
      (failure :
        device.writes.write fetch.path.rel data (before.makeParents device fetch.path.rel) =
        (false, disk)) :
      Ran task { before with disk := disk, watch := watch } { task with stage := .idle }
  | wrote (fetch : Fetch ι) (data : Bytes) (disk : Disk) (watch : Watch)
      (ready : task.stage = .loaded fetch data)
      (success :
        device.writes.write fetch.path.rel data (before.makeParents device fetch.path.rel) =
        (true, disk)) :
      Ran task { before with disk := disk, watch := watch }
        { task with stage := .written fetch data }
  | committed (fetch : Fetch ι) (data : Bytes) (stored : task.stage = .written fetch data) :
      Ran task
        { before with
          index := before.index.fetched fetch.path.rel data ctx.storage.chunkSize fetch.origin }
        { task with stage := .idle }
  | compared (source : ι) (hash : Hash) (asked : task.stage = .gotRoot source hash) :
      Ran task before { task with
        stage := if before.index.tree.hash = hash then .idle else .askedTree source }
  | walked (source : ι) (tree : Node) (asked : task.stage = .gotTree source tree) :
      Ran task before { task with
        stage := .idle, todo := walkDiff source ctx.noPull before.index.tree tree }

variable {ctx device before}

/-- **The cases of one stretch of a task are complete.** -/
theorem run_cases {task task' : Task ι} {after : Peer ι}
    (ran : before.runTask ctx device task = some (after, task')) :
    Ran ctx device before task after task' := by
  rw [runTask] at ran
  split at ran
  · rename_i ended
    split at ran
    · exact absurd ran (Option.some_ne_none _).symm
    · rename_i files rest next
      cases ran
      exact .counted files rest ended next
    · rename_i source path chunkCount rest next
      cases ran
      exact .started source path chunkCount rest ended next
  · rename_i tombstone path unlinked
    cases ran
    exact .forgotten tombstone path unlinked
  · exact absurd ran (Option.some_ne_none _).symm
  · rename_i fetch chunks answered
    split at ran
    · rename_i data applied
      cases ran
      exact .loaded fetch chunks data answered applied
    · rename_i large
      cases ran
      exact .refused fetch chunks answered large
  · rename_i fetch data ready
    cases written : device.writes.write fetch.path.rel data
        (before.makeParents device fetch.path.rel) with
    | mk success disk =>
        rw [written] at ran
        cases ran
        cases success with
        | true => exact .wrote fetch data disk _ ready written
        | false => exact .failed fetch data disk _ ready written
  · rename_i fetch data stored
    cases ran
    exact .committed fetch data stored
  · exact absurd ran (Option.some_ne_none _).symm
  · rename_i source hash asked
    cases ran
    exact .compared source hash asked
  · exact absurd ran (Option.some_ne_none _).symm
  · rename_i source tree asked
    cases ran
    exact .walked source tree asked

omit [Blake3] in
/-- What an answer makes of a waiting stage. -/
inductive Replied : Stage ι → Option SyncResponse → Stage ι → Prop where
  | chunks (fetch : Fetch ι) (echoed : Str) (chunks : List (Nat × Bytes)) :
      Replied (.asked fetch) (some (.chunks echoed chunks)) (.answered fetch chunks)
  | noChunks (fetch : Fetch ι) (response : Option SyncResponse)
      (other : ∀ echoed chunks, response ≠ some (.chunks echoed chunks)) :
      Replied (.asked fetch) response .idle
  | root (peer : ι) (hash : Hash) :
      Replied (.askedRoot peer) (some (.rootHash hash)) (.gotRoot peer hash)
  | noRoot (peer : ι) (response : Option SyncResponse) : Replied (.askedRoot peer) response .idle
  | tree (peer : ι) (tree : Node) :
      Replied (.askedTree peer) (some (.tree tree)) (.gotTree peer tree)
  | noTree (peer : ι) (response : Option SyncResponse) : Replied (.askedTree peer) response .idle

omit [Blake3] in
/-- **The cases of an answer are complete.** -/
theorem reply_cases {stage stage' : Stage ι} {response : Option SyncResponse}
    (reply : answer stage response = some stage') : Replied stage response stage' := by
  rw [answer.eq_def] at reply
  split at reply
  · cases reply
    exact .chunks _ _ _
  · rename_i other
    cases reply
    exact .noChunks _ _ other
  · cases reply
    exact .root _ _
  · cases reply
    exact .noRoot _ _
  · cases reply
    exact .tree _ _
  · cases reply
    exact .noTree _ _
  · exact absurd reply (Option.some_ne_none stage').symm

/-- A stretch of a task leaves the other tasks to its caller. -/
theorem Ran.tasks {device : Device} {after : Peer ι} {task task' : Task ι}
    (ran : Ran ctx device before task after task') : after.tasks = before.tasks := by
  cases ran <;> rfl

omit [Blake3] in
theorem indexed_eq_some_iff {reads : FsReads} {path : RelPath} :
    before.indexed ctx reads = some path ↔
      (∃ rest, before.watch.fsQueue = .created path :: rest ∨
        before.watch.fsQueue = .modified path :: rest) ∧
          ctx.noPush = false ∧ before.picksUp ctx reads path = true := by
  rw [indexed]
  split
  · rename_i head rest queue
    rw [queue]
    simp only [Option.ite_none_right_eq_some, Option.some.injEq, List.cons.injEq,
      FsEvent.created.injEq, reduceCtorEq, false_and, or_false, Bool.and_eq_true,
      Bool.not_eq_true']
    constructor
    · rintro ⟨⟨pushing, picked⟩, rfl⟩
      exact ⟨⟨rest, rfl, rfl⟩, pushing, picked⟩
    · rintro ⟨⟨_, rfl, _⟩, pushing, picked⟩
      exact ⟨⟨pushing, picked⟩, rfl⟩
  · rename_i head rest queue
    rw [queue]
    simp only [Option.ite_none_right_eq_some, Option.some.injEq, List.cons.injEq,
      FsEvent.modified.injEq, reduceCtorEq, false_and, false_or, Bool.and_eq_true,
      Bool.not_eq_true']
    constructor
    · rintro ⟨⟨pushing, picked⟩, rfl⟩
      exact ⟨⟨rest, rfl, rfl⟩, pushing, picked⟩
    · rintro ⟨⟨_, rfl, _⟩, pushing, picked⟩
      exact ⟨⟨pushing, picked⟩, rfl⟩
  · rename_i notCreated notModified
    refine ⟨fun absurd' => absurd absurd' (Option.some_ne_none path).symm, ?_⟩
    rintro ⟨⟨rest, created | modified⟩, _⟩
    · exact absurd created (notCreated path rest)
    · exact absurd modified (notModified path rest)

omit [Blake3] in
/-- A backup is never indexed. -/
theorem unmarked_of_indexed {reads : FsReads} {path : RelPath}
    (picked : before.indexed ctx reads = some path) : ¬ conflictMark <:+: path.toStringLossy := by
  have picks := (indexed_eq_some_iff.mp picked).2.2
  simp only [picksUp, Bool.and_eq_true, Bool.not_eq_true', decide_eq_false_iff_not] at picks
  exact picks.1.1.1.2

/-- What is published of the second look at a touched file. -/
def publication (ctx : Ctx ι) (before : Peer ι) (reads : FsReads) (path : RelPath) :
    Option SyncNotification :=
  reads.second.bind fun content => path.toWire.map fun raw =>
    .fileChanged raw (Chunk.fileHash (Chunk.metadata content ctx.storage.chunkSize))
      (Chunk.metadata content ctx.storage.chunkSize)
      ((before.index.clockOf path).tick before.index.localPeer) before.now ctx.localId

/-- What `handle_fs_event` does with a touched file: nothing, or an index update with a
notification about the second look at the file. -/
theorem handleTouched_eq (reads : FsReads) (path : RelPath) :
    (before.picksUp ctx reads path = false ∧
        ∃ watch, before.handleTouched ctx reads path = ({ before with watch := watch }, none)) ∨
      before.picksUp ctx reads path = true ∧ ∃ watch data, reads.first = some data ∧
        before.handleTouched ctx reads path =
          ({ before with index := before.index.ticked path data before.now, watch := watch },
            publication ctx before reads path) := by
  obtain ⟨suppressed, syncWriteGuard, guarded⟩ : ∃ suppressed syncWriteGuard,
      before.watch.syncWriteGuard.isSuppressed path before.watch.instant ctx.writeGuardTtl =
        (suppressed, syncWriteGuard) := ⟨_, _, rfl⟩
  obtain ⟨debounced, changeDebounce, recent⟩ : ∃ debounced changeDebounce,
      before.watch.changeDebounce.isSuppressed path before.watch.instant ctx.debounce =
        (debounced, changeDebounce) := ⟨_, _, rfl⟩
  simp only [handleTouched, picksUp, guarded, recent]
  cases suppressed with
  | true => exact Or.inl ⟨rfl, _, rfl⟩
  | false =>
      cases debounced with
      | true => exact Or.inl ⟨rfl, _, rfl⟩
      | false =>
          rw [if_neg Bool.false_ne_true, if_neg Bool.false_ne_true]
          by_cases marked : conflictMark <:+: path.toStringLossy
          · rw [if_pos marked, decide_eq_true marked]
            exact Or.inl ⟨rfl, _, rfl⟩
          · rw [if_neg marked, decide_eq_false marked]
            cases standing : reads.isFile with
            | false => exact Or.inl ⟨rfl, _, rfl⟩
            | true =>
                cases excluded : before.index.isExcluded path with
                | true => exact Or.inl ⟨rfl, _, rfl⟩
                | false =>
                    cases first : reads.first with
                    | none => exact Or.inl ⟨rfl, _, rfl⟩
                    | some data =>
                        refine Or.inr ⟨rfl, ?_⟩
                        simp only [SyncIndex.localFileChanged, Option.map_some, Bool.not_true,
                          Bool.false_eq_true, if_false]
                        have recorded : (before.index.ticked path data before.now).fileMeta.lookup
                            path = some ⟨(before.index.clockOf path).tick before.index.localPeer,
                              before.now, before.index.localPeer⟩ := Finmap.lookup_insert _
                        rw [recorded]
                        rw [publication]
                        cases reads.second with
                        | none => exact ⟨_, data, rfl, rfl⟩
                        | some content => exact ⟨_, data, rfl, rfl⟩

/-- The same, with what a notification says. -/
theorem handleTouched_cases (reads : FsReads) (path : RelPath) :
    (before.picksUp ctx reads path = false ∧
        ∃ watch, before.handleTouched ctx reads path = ({ before with watch := watch }, none)) ∨
      before.picksUp ctx reads path = true ∧ ∃ watch data published,
        before.handleTouched ctx reads path =
          ({ before with index := before.index.ticked path data before.now, watch := watch },
            published) ∧ reads.first = some data ∧
          ∀ notification, published = some notification → ∃ raw content,
            path.toWire = some raw ∧ reads.second = some content ∧
              notification = .fileChanged raw
                (Chunk.fileHash (Chunk.metadata content ctx.storage.chunkSize))
                (Chunk.metadata content ctx.storage.chunkSize)
                ((before.index.clockOf path).tick before.index.localPeer) before.now
                ctx.localId := by
  rcases @handleTouched_eq _ _ ctx before reads path with
    skipped | ⟨picked, watch, data, first, same⟩
  · exact Or.inl skipped
  · refine Or.inr ⟨picked, watch, data, _, same, first, fun notification published => ?_⟩
    obtain ⟨content, second, published⟩ := Option.bind_eq_some_iff.mp published
    obtain ⟨raw, wire, rfl⟩ := Option.map_eq_some_iff.mp published
    exact ⟨raw, content, wire, second, rfl⟩

theorem handleNotification_cases (source : ι) (notification : SyncNotification) :
    Step ctx before (.notified source notification device)
      (before.handleNotification ctx device source notification) none := by
  cases notification with
  | peerJoined peer => exact .quiet _ before.watch rfl
  | fileChanged raw hash chunks clock timestamp writer =>
      rw [handleNotification]
      by_cases own : writer = ctx.localId
      · rw [if_pos own]
        exact .quiet _ before.watch rfl
      · rw [if_neg own]
        cases guarded : SafePath.of? raw with
        | none => exact .quiet _ before.watch rfl
        | some path =>
            obtain rfl := SafePath.of?_eq_some_iff.mp guarded
            dsimp only
            cases resolution : resolve (before.index.clockOf path.rel) clock
                (before.index.lastModifiedOf path.rel) timestamp writer ctx.localId with
            | accept =>
                exact .accepted source path hash chunks clock timestamp writer device _ own
                  (resolve_accept_iff.mp resolution)
            | reject => exact .quiet _ before.watch rfl
            | conflict loser =>
                obtain ⟨concurrent, tie⟩ := resolve_conflict_iff.mp resolution
                dsimp only
                by_cases wins : remoteWins (before.index.lastModifiedOf path.rel) timestamp writer
                    ctx.localId
                · rw [if_pos wins] at tie
                  subst tie
                  rw [if_pos rfl]
                  exact .lost source path hash chunks clock timestamp writer device own concurrent
                    wins
                · rw [if_neg wins] at tie
                  subst tie
                  rw [if_neg own, ← path.backup_raw]
                  exact .kept source path hash chunks clock timestamp loser device own concurrent
                    wins
  | fileDeleted tombstone =>
      rw [handleNotification]
      by_cases own : tombstone.deletedBy = ctx.localId
      · rw [if_pos own]
        exact .quiet _ before.watch rfl
      · rw [if_neg own]
        cases guarded : SafePath.of? tombstone.path with
        | none => exact .quiet _ before.watch rfl
        | some path =>
            refine .unlinked source tombstone path device _
              (SafePath.of?_eq_some_iff.mp guarded).symm own ?_
            split
            · cases removed : before.disk.removeFile path.rel with
              | none => exact Or.inl rfl
              | some disk => exact Or.inr rfl
            · exact Or.inl rfl

theorem handleFsEvent_cases {reads : FsReads} {event : FsEvent} {rest : List FsEvent}
    (queue : before.watch.fsQueue = event :: rest) (pushing : ctx.noPush = false) :
    Step ctx before (.fsEvent reads)
      ({ before with watch := { before.watch with fsQueue := rest } }.handleFsEvent ctx reads
        event).1
      ({ before with watch := { before.watch with fsQueue := rest } }.handleFsEvent ctx reads
        event).2 := by
  have touched : ∀ path, event = .created path ∨ event = .modified path →
      Step ctx before (.fsEvent reads)
        ({ before with watch := { before.watch with fsQueue := rest } }.handleTouched ctx reads
          path).1
        ({ before with watch := { before.watch with fsQueue := rest } }.handleTouched ctx reads
          path).2 := by
    intro path happened
    let next : Peer ι := { before with watch := { before.watch with fsQueue := rest } }
    rcases @handleTouched_cases _ _ ctx next reads path with
      ⟨skipped, watch, unchanged⟩ | ⟨picked, watch, data, published, changed, first, announced⟩
    · rw [unchanged]
      have skipped : before.picksUp ctx reads path = false := skipped
      refine .quiet _ watch ?_
      rcases happened with rfl | rfl <;> simp [passive, indexed, queue, skipped]
    · rw [changed]
      have next : before.indexed ctx reads = some path :=
        indexed_eq_some_iff.mpr ⟨⟨rest, by
          rcases happened with rfl | rfl
          · exact Or.inl queue
          · exact Or.inr queue⟩, pushing, picked⟩
      simp only [picksUp, Bool.and_eq_true, Bool.not_eq_true', decide_eq_false_iff_not] at picked
      exact .edited reads path data watch published next picked.1.1.1.2 picked.1.2 first announced
  cases event with
  | created path => exact touched path (Or.inl rfl)
  | modified path => exact touched path (Or.inr rfl)
  | removed path =>
      rw [handleFsEvent]
      have last : (before.index.localFileDeleted path before.now).tombstones.getLast?.map
          SyncNotification.fileDeleted = some (.fileDeleted ⟨path.toStringLossy,
            before.index.localPeer, before.index.clockOf path, before.now⟩) := by
        rw [SyncIndex.localFileDeleted, List.getLast?_append]
        rfl
      dsimp only
      rw [last]
      exact .erased reads path rest _ queue

/-- **The cases of a step are complete.** -/
theorem step_cases {act : Act ι} {after : Peer ι} {published : Option SyncNotification}
    (stepped : before.step ctx act = some (after, published)) :
    Step ctx before act after published := by
  cases act with
  | elapse duration =>
      cases stepped
      exact .quiet _ _ rfl
  | setTime now =>
      cases stepped
      exact .timeSet now
  | user disk =>
      cases stepped
      exact .user disk
  | watched event =>
      cases stepped
      exact .quiet _ _ rfl
  | fsEvent reads =>
      rw [step] at stepped
      split at stepped
      · exact absurd stepped (Option.some_ne_none _).symm
      · rename_i event rest queue
        dsimp only at stepped
        by_cases pushing : ctx.noPush = true
        · rw [if_pos pushing] at stepped
          cases stepped
          refine .quiet _ _ (Option.isNone_iff_eq_none.mpr ?_)
          rw [Option.eq_none_iff_forall_ne_some]
          intro path picked
          exact absurd ((indexed_eq_some_iff.mp picked).2.1.symm.trans pushing) Bool.false_ne_true
        · rw [if_neg pushing] at stepped
          have covered : Step ctx before (.fsEvent reads) _ _ :=
            handleFsEvent_cases queue (Bool.eq_false_iff.mpr pushing)
          rw [Option.some.inj stepped] at covered
          exact covered
  | notified source notification device =>
      rw [step] at stepped
      cases stepped
      split
      · exact .quiet _ before.watch rfl
      · exact handleNotification_cases source notification
  | discovered source =>
      cases stepped
      exact .discovered source
  | respond task response =>
      rw [step] at stepped
      obtain ⟨entry, found, mapped⟩ := Option.bind_eq_some_iff.mp stepped
      obtain ⟨stage, reply, same⟩ := Option.map_eq_some_iff.mp mapped
      cases same
      exact .answered task response entry stage found reply
  | resume task device =>
      rw [step] at stepped
      obtain ⟨entry, found, mapped⟩ := Option.bind_eq_some_iff.mp stepped
      obtain ⟨⟨after, entry'⟩, ran, same⟩ := Option.map_eq_some_iff.mp mapped
      cases same
      exact .resumed task device entry after entry' found ran

end Peer

end P2Sync
