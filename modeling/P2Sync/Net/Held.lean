import P2Sync.Net.Files
import P2Sync.Net.Flight

/-!
# Versions held and brought

A version of a path is its content under a clock. A peer holds one in its folder and its
index, unless a fetch has written the file and the index still has the old clock; a fetch
brings one from its answer on. A step makes few new versions: an answer brings what its
chunks are put together to, or what they make of the old file (`Step.content`); and what
a peer holds changes with an indexed edit, with a committed fetch, and where something
happens to the file or its entry that is neither (`Step.holding`).
-/

set_option autoImplicit false

namespace P2Sync

/-- The fetch of a stage that has its answer, with the content it brings: until the
answer is put over the old file, what it holds by itself. -/
def Stage.content? {ι : Type} (storage : StorageConfig) : Stage ι → Option (Fetch ι × Bytes)
  | .answered fetch chunks => some (fetch, Overlay.spliceAll 0 [] (keptPieces storage chunks))
  | .loaded fetch data => some (fetch, data)
  | .written fetch data => some (fetch, data)
  | _ => none

theorem Stage.fetch?_of_content {ι : Type} {storage : StorageConfig} {stage : Stage ι}
    {fetch : Fetch ι} {data : Bytes} (content : stage.content? storage = some (fetch, data)) :
    stage.fetch? = some fetch := by
  cases stage <;> cases content <;> rfl

/-- Whether a task has written a path and has not brought the index up to date. -/
def Task.hasWritten {ι : Type} (path : RelPath) (task : Task ι) : Bool :=
  match task.stage with
  | .written fetch _ => decide (fetch.path.rel = path)
  | _ => false

namespace Peer

variable {ι : Type} {peer : Peer ι} {task : Task ι}

theorem hasWritten_iff {path : RelPath} :
    task.hasWritten path = true ↔
      ∃ fetch data, task.stage = .written fetch data ∧ fetch.path.rel = path := by
  rw [Task.hasWritten]
  split
  · rename_i fetch data written
    rw [decide_eq_true_eq]
    constructor
    · exact fun here => ⟨fetch, data, written, here⟩
    · rintro ⟨fetch', data', written', here⟩
      cases written.symm.trans written'
      exact here
  · rename_i other
    refine ⟨fun absurd' => absurd absurd' Bool.false_ne_true, ?_⟩
    rintro ⟨fetch, data, written, _⟩
    exact absurd written (other fetch data)

/-- Every write of the path is in the index. -/
def Committed (path : RelPath) (peer : Peer ι) : Prop :=
  ∀ task ∈ peer.tasks, task.hasWritten path = false

theorem startFetch_content? {storage : StorageConfig} {source : ι} {raw : Str}
    {chunkIndices : List Nat} {origin : RemoteOrigin} {cause : Cause} :
    (peer.startFetch source raw chunkIndices origin cause).content? storage = none := by
  rw [startFetch]
  split
  · rfl
  · split <;> rfl

/-- The answer that brings a content. -/
theorem answer_content {storage : StorageConfig} {stage stage' : Stage ι}
    {response : Option SyncResponse} {fetch : Fetch ι} {data : Bytes}
    (reply : answer stage response = some stage')
    (carried : stage'.content? storage = some (fetch, data)) :
    ∃ raw chunks, stage = .asked fetch ∧ response = some (.chunks raw chunks) ∧
      data = Overlay.spliceAll 0 [] (keptPieces storage chunks) := by
  cases reply_cases reply with
  | chunks fetch' raw chunks =>
      cases carried
      exact ⟨raw, chunks, rfl, rfl, rfl⟩
  | _ => exact absurd carried (Option.some_ne_none _).symm

variable [Blake3] (ctx : Ctx ι) (before : Peer ι)

/-! ## What fetches bring -/

/-- The ways a content comes into flight. -/
inductive Brings : Act ι → Fetch ι → Bytes → Prop where
  | answered (number : Nat) (raw : Str) (chunks : List (Nat × Bytes)) (task : Task ι)
      (fetch : Fetch ι) (found : before.tasks[number]? = some task)
      (asked : task.stage = .asked fetch) :
      Brings (.respond number (some (.chunks raw chunks))) fetch
        (Overlay.spliceAll 0 [] (keptPieces ctx.storage chunks))
  | loaded (number : Nat) (device : Device) (task : Task ι) (fetch : Fetch ι)
      (chunks : List (Nat × Bytes)) (data : Bytes) (found : before.tasks[number]? = some task)
      (answered : task.stage = .answered fetch chunks)
      (applied :
        applyChunks ctx.storage chunks (before.oldData device fetch.path.rel) = some data) :
      Brings (.resume number device) fetch data

variable {ctx before}

/-- **Where the contents in flight come from.** -/
theorem Step.content {act : Act ι} {after : Peer ι} {published : Option SyncNotification}
    {fetch : Fetch ι} {data : Bytes} (stepped : Step ctx before act after published)
    (member : task ∈ after.tasks) (carried : task.stage.content? ctx.storage = some (fetch, data)) :
    (∃ task' ∈ before.tasks, task'.stage.content? ctx.storage = some (fetch, data)) ∨
      Brings ctx before act fetch data := by
  have started : ∀ {source : ι} {raw : Str} {chunkIndices : List Nat} {origin : RemoteOrigin}
      {cause : Cause}, (before.startFetch source raw chunkIndices origin cause).content?
        ctx.storage ≠ some (fetch, data) := by
    intro source raw chunkIndices origin cause carried
    rw [startFetch_content?] at carried
    cases carried
  rcases stepped.task member with old | made
  · exact Or.inl ⟨task, old, carried⟩
  · cases made with
    | accepted => exact absurd carried started
    | lost => exact absurd carried started
    | kept => exact absurd carried started
    | unlinked => cases carried
    | discovered => cases carried
    | answered number response task' stage found reply =>
        obtain ⟨raw, chunks, asked, rfl, rfl⟩ := answer_content reply carried
        exact Or.inr (.answered number raw chunks task' fetch found asked)
    | resumed number device task' _ after' found ran =>
        have old := List.mem_of_getElem? found
        cases run_cases ran with
        | counted files rest ended next => exact Or.inl ⟨task', old, carried⟩
        | started => exact absurd carried started
        | loaded fetch' chunks data' answered applied =>
            cases carried
            exact Or.inr (.loaded number device task' _ chunks _ found answered applied)
        | wrote fetch' data' disk watch ready =>
            refine Or.inl ⟨task', old, ?_⟩
            rw [ready]
            exact carried
        | compared source hash asked =>
            dsimp only at carried
            split at carried <;> cases carried
        | _ => cases carried

/-! ## What a peer holds -/

omit [Blake3] in
/-- Setting a task that has not written the path forgets no write. -/
theorem committed_of_set {path : RelPath} {number : Nat} {new : Task ι} {tasks : List (Task ι)}
    (found : tasks[number]? = some task) (unwritten : task.hasWritten path = false)
    (committed : ∀ other ∈ tasks.set number new, other.hasWritten path = false) :
    ∀ other ∈ tasks, other.hasWritten path = false := by
  intro other member
  obtain ⟨position, at'⟩ := List.mem_iff_getElem?.mp member
  by_cases here : number = position
  · subst here
    cases found.symm.trans at'
    exact unwritten
  · refine committed other (List.mem_iff_getElem?.mpr ⟨position, ?_⟩)
    rw [List.getElem?_set_ne here, at']

variable (ctx before) (path : RelPath)

/-- The ways a peer comes to what it holds at a path once every write of it is in the
index, with the clock and the content. -/
inductive Holding : Act ι → VectorClock → Option Bytes → Prop where
  | same (act : Act ι) (committed : before.Committed path)
      (unindexed : ∀ reads, act = .fsEvent reads → before.indexed ctx reads ≠ some path) :
      Holding act (before.index.clockOf path) (before.disk.read path)
  | user (disk : Disk) (committed : before.Committed path) :
      Holding (.user disk) (before.index.clockOf path) (disk.read path)
  | ticked (reads : FsReads) (committed : before.Committed path)
      (picked : before.indexed ctx reads = some path) :
      Holding (.fsEvent reads) ((before.index.clockOf path).tick before.index.localPeer)
        (before.disk.read path)
  | merged (number : Nat) (device : Device) (task : Task ι) (fetch : Fetch ι) (data : Bytes)
      (found : before.tasks[number]? = some task) (stored : task.stage = .written fetch data)
      (here : fetch.path.rel = path)
      (alone : ∀ other ∈ before.tasks.eraseIdx number, other.hasWritten path = false) :
      Holding (.resume number device) ((before.index.clockOf path).merge fetch.origin.clock)
        (before.disk.read path)
  | copied (source : ι) (losing : SafePath) (hash : Hash) (chunks : List ChunkMeta)
      (clock : VectorClock) (timestamp : Nat) (writer : PeerId) (device : Device)
      (content : Option Bytes) (foreign : writer ≠ ctx.localId)
      (concurrent : (before.index.clockOf losing.rel).compare clock = .concurrent)
      (wins : remoteWins (before.index.lastModifiedOf losing.rel) timestamp writer ctx.localId)
      (here : (losing.backup ctx.localId).rel = path) :
      Holding (.notified source (.fileChanged losing.raw hash chunks clock timestamp writer) device)
        (before.index.clockOf path) content
  | removed (source : ι) (tombstone : Tombstone) (deleted : SafePath) (device : Device)
      (named : tombstone.path = deleted.raw) (here : deleted.rel = path) :
      Holding (.notified source (.fileDeleted tombstone) device) (before.index.clockOf path) none
  | interrupted (number : Nat) (device : Device) (task : Task ι) (fetch : Fetch ι) (data : Bytes)
      (kept : Nat) (content : Option Bytes) (found : before.tasks[number]? = some task)
      (ready : task.stage = .loaded fetch data) (here : fetch.path.rel = path)
      (broken : device.writes = .interrupted kept) :
      Holding (.resume number device) (before.index.clockOf path) content
  | erased (reads : FsReads) (rest : List FsEvent)
      (queue : before.watch.fsQueue = .removed path :: rest) :
      Holding (.fsEvent reads) .new (before.disk.read path)
  | forgotten (number : Nat) (device : Device) (task : Task ι) (tombstone : Tombstone)
      (deleted : SafePath) (found : before.tasks[number]? = some task)
      (unlinked : task.stage = .removed tombstone deleted) (here : deleted.rel = path) :
      Holding (.resume number device) .new (before.disk.read path)

variable {ctx before path}

/-- What a peer holds after a stretch of a task. -/
theorem Ran.holding {number : Nat} {device : Device} {after : Peer ι} {task' : Task ι}
    (found : before.tasks[number]? = some task) (ran : Ran ctx device before task after task')
    (listed : ∀ other ∈ before.tasks.set number task', other.hasWritten path = false) :
    Holding ctx before path (.resume number device) (after.index.clockOf path)
      (after.disk.read path) := by
  have unwritten : task.hasWritten path = false → before.Committed path :=
    fun unwritten => committed_of_set found unwritten listed
  have resuming : ∀ reads, (.resume number device : Act ι) = .fsEvent reads →
      before.indexed ctx reads ≠ some path := fun _ absurd' => by cases absurd'
  cases ran with
  | counted files rest ended =>
      exact .same _ (unwritten (by rw [Task.hasWritten, ended])) resuming
  | started source raw count rest ended =>
      exact .same _ (unwritten (by rw [Task.hasWritten, ended])) resuming
  | forgotten tombstone deleted unlinked =>
      simp only [SyncIndex.clockOf_remotelyDeleted]
      split
      · rename_i here
        exact .forgotten number device task tombstone deleted found unlinked here.symm
      · exact .same _ (unwritten (by rw [Task.hasWritten, unlinked])) resuming
  | refused fetch chunks answered =>
      exact .same _ (unwritten (by rw [Task.hasWritten, answered])) resuming
  | loaded fetch chunks data answered =>
      exact .same _ (unwritten (by rw [Task.hasWritten, answered])) resuming
  | failed fetch data disk watch ready failure =>
      have old := unwritten (by rw [Task.hasWritten, ready])
      change Holding ctx before path _ (before.index.clockOf path) (disk.read path)
      rcases Outcome.read_of_failed failure path with same | ⟨here, kept, broken⟩
      · rw [same, makeParents_read]
        exact .same _ old resuming
      · exact .interrupted number device task fetch data kept _ found ready here.symm broken
  | wrote fetch data disk watch ready success =>
      have old := unwritten (by rw [Task.hasWritten, ready])
      have inside := (List.getElem?_eq_some_iff.mp found).1
      have elsewhere : path ≠ fetch.path.rel := by
        intro here
        have written := listed _ (List.mem_iff_getElem?.mpr
          ⟨number, List.getElem?_set_self inside⟩)
        rw [Task.hasWritten, decide_eq_false_iff_not] at written
        exact written here.symm
      have same := @Outcome.read_write_of_ne device.writes fetch.path.rel path data
        (before.makeParents device fetch.path.rel) elsewhere
      rw [success, makeParents_read] at same
      change Holding ctx before path _ (before.index.clockOf path) (disk.read path)
      rw [same]
      exact .same _ old resuming
  | committed fetch data stored =>
      simp only [SyncIndex.clockOf_fetched]
      split
      · rename_i here
        rw [← here]
        refine .merged number device task fetch data found stored here.symm ?_
        intro other member
        obtain ⟨position, apart, at'⟩ := List.mem_eraseIdx_iff_getElem?.mp member
        refine listed other (List.mem_iff_getElem?.mpr ⟨position, ?_⟩)
        rw [List.getElem?_set_ne apart.symm, at']
      · rename_i elsewhere
        refine .same _ (unwritten ?_) resuming
        rw [Task.hasWritten, stored]
        exact decide_eq_false (Ne.symm elsewhere)
  | compared source hash asked =>
      exact .same _ (unwritten (by rw [Task.hasWritten, asked])) resuming
  | walked source tree asked =>
      exact .same _ (unwritten (by rw [Task.hasWritten, asked])) resuming

/-- **How a peer comes to what it holds.** -/
theorem Step.holding {act : Act ι} {after : Peer ι} {published : Option SyncNotification}
    (stepped : Step ctx before act after published) (committed : after.Committed path) :
    Holding ctx before path act (after.index.clockOf path) (after.disk.read path) := by
  have spawned : ∀ {middle : Peer ι} {stage : Stage ι}, middle.tasks = before.tasks →
      (middle.spawn stage).Committed path → before.Committed path := by
    intro middle stage same committed task member
    refine committed task ?_
    rw [spawn, same]
    exact List.mem_append_left _ member
  cases stepped with
  | quiet act watch idle =>
      refine .same act committed fun reads same => ?_
      subst same
      rw [Option.isNone_iff_eq_none.mp idle]
      exact fun absurd' => Option.some_ne_none path absurd'.symm
  | timeSet now => exact .same _ committed fun _ absurd' => by cases absurd'
  | user disk => exact .user disk committed
  | edited reads edited data watch published picked =>
      by_cases here : path = edited
      · subst here
        simp only [SyncIndex.clockOf_ticked, if_true]
        exact .ticked reads committed picked
      · simp only [SyncIndex.clockOf_ticked, if_neg here]
        refine .same _ committed fun reads' same => ?_
        cases same
        rw [picked]
        exact fun same => here (Option.some.inj same).symm
  | erased reads deleted rest watch queue =>
      by_cases here : path = deleted
      · subst here
        simp only [SyncIndex.clockOf_localFileDeleted, if_true]
        exact .erased reads rest queue
      · simp only [SyncIndex.clockOf_localFileDeleted, if_neg here]
        refine .same _ committed fun reads' same picked => ?_
        obtain ⟨⟨rest', created | modified⟩, _⟩ := indexed_eq_some_iff.mp picked
        · cases queue.symm.trans created
        · cases queue.symm.trans modified
  | accepted => exact .same _ (spawned rfl committed) fun _ absurd' => by cases absurd'
  | lost source losing hash chunks clock timestamp writer device foreign concurrent wins =>
      have old := spawned (before.backUp_tasks device losing ctx.localId) committed
      change Holding ctx before path _
        ((before.backUp device losing ctx.localId).index.clockOf path)
        ((before.backUp device losing ctx.localId).disk.read path)
      rw [backUp_index]
      rcases before.backUp_read device losing ctx.localId path with same | ⟨here, _⟩
      · rw [same]
        exact .same _ old fun _ absurd' => by cases absurd'
      · exact .copied source losing hash chunks clock timestamp writer device _ foreign concurrent
          wins here.symm
  | kept => exact .same _ (spawned rfl committed) fun _ absurd' => by cases absurd'
  | unlinked source tombstone deleted device disk named foreign removed =>
      have old := @spawned { before with disk := disk } _ rfl committed
      change Holding ctx before path _ (before.index.clockOf path) (disk.read path)
      rcases removed with rfl | removed
      · exact .same _ old fun _ absurd' => by cases absurd'
      · rw [Disk.read_removeFile removed path]
        split
        · rename_i here
          exact .removed source tombstone deleted device named here.symm
        · exact .same _ old fun _ absurd' => by cases absurd'
  | discovered => exact .same _ (spawned rfl committed) fun _ absurd' => by cases absurd'
  | answered number response task stage found reply =>
      refine .same _ (committed_of_set found ?_ committed) fun _ absurd' => by cases absurd'
      rw [Bool.eq_false_iff]
      intro stored
      obtain ⟨fetch, data, written, _⟩ := hasWritten_iff.mp stored
      rw [written] at reply
      exact absurd reply (Option.some_ne_none stage).symm
  | resumed number device task after task' found ran =>
      have ran := run_cases ran
      have listed : ∀ other ∈ before.tasks.set number task', other.hasWritten path = false :=
        ran.tasks ▸ committed
      change Holding ctx before path _ (after.index.clockOf path) (after.disk.read path)
      exact ran.holding found listed

end Peer

end P2Sync
