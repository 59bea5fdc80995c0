import P2Sync.Net.Start

/-!
# Fetches in flight

A fetch is in flight from its request to the update of the index. A step leaves the
fetches in flight as they are, ends some, or starts new ones, and the only steps that
start a fetch are an accepted notification, a conflict, and the next file of a
reconciliation (`Step.working`). The clock a fetch will merge is therefore the clock of
a notification, or empty.

The recorded clock of a path changes when an edit is indexed, when a fetch is committed,
and when a deletion drops it (`Step.clockOf`).
-/

set_option autoImplicit false

namespace P2Sync

/-- The fetch a stage is working on. -/
def Stage.fetch? {ι : Type} : Stage ι → Option (Fetch ι)
  | .asked fetch => some fetch
  | .answered fetch _ => some fetch
  | .loaded fetch _ => some fetch
  | .written fetch _ => some fetch
  | _ => none

/-- How many stretches of its fetch a stage has behind it. -/
def Stage.progress {ι : Type} : Stage ι → Nat
  | .answered _ _ => 1
  | .loaded _ _ => 2
  | .written _ _ => 3
  | _ => 0

namespace Peer

variable {ι : Type} {limit : Nat}

/-- A task is working on the fetch, with at most so many stretches behind it. -/
def Working (limit : Nat) (peer : Peer ι) (fetch : Fetch ι) : Prop :=
  ∃ task ∈ peer.tasks, task.stage.fetch? = some fetch ∧ task.stage.progress ≤ limit

/-- A task is working on the fetch. -/
abbrev InFlight (peer : Peer ι) (fetch : Fetch ι) : Prop := peer.Working 3 fetch

/-- A task is working on the fetch and has not written the file. -/
abbrev Unwritten (peer : Peer ι) (fetch : Fetch ι) : Prop := peer.Working 2 fetch

theorem inFlight_of_mem {peer : Peer ι} {task : Task ι} {fetch : Fetch ι}
    (member : task ∈ peer.tasks) (working : task.stage.fetch? = some fetch) :
    peer.InFlight fetch := by
  refine ⟨task, member, working, ?_⟩
  cases task.stage <;> simp [Stage.progress]

theorem working_spawn {peer : Peer ι} {stage : Stage ι} {fetch : Fetch ι}
    (working : (peer.spawn stage).Working limit fetch) :
    peer.Working limit fetch ∨ stage.fetch? = some fetch := by
  obtain ⟨task, member, same, early⟩ := working
  rcases List.mem_append.mp member with old | new
  · exact Or.inl ⟨task, old, same, early⟩
  · rw [List.mem_singleton.mp new] at same
    exact Or.inr same

/-- What a started fetch works on. -/
theorem startFetch_fetch? {peer : Peer ι} {source : ι} {raw : Str} {chunkIndices : List Nat}
    {origin : RemoteOrigin} {cause : Cause} {fetch : Fetch ι} :
    (peer.startFetch source raw chunkIndices origin cause).fetch? = some fetch ↔
      ∃ path, path.raw = raw ∧ peer.index.isExcluded path.rel = false ∧
        fetch = ⟨source, path, chunkIndices, origin, cause⟩ := by
  rw [startFetch]
  cases guarded : SafePath.of? raw with
  | none =>
      refine ⟨fun working => absurd working (Option.some_ne_none fetch).symm, ?_⟩
      rintro ⟨path, named, _⟩
      rw [SafePath.of?_eq_some_iff.mpr named] at guarded
      exact absurd guarded (Option.some_ne_none path)
  | some path =>
      obtain rfl := SafePath.of?_eq_some_iff.mp guarded
      dsimp only
      constructor
      · intro working
        split at working
        · exact absurd working (Option.some_ne_none fetch).symm
        · rename_i included
          exact ⟨path, rfl, Bool.eq_false_iff.mpr included, (Option.some.inj working).symm⟩
      · rintro ⟨path', named, included, rfl⟩
        obtain rfl := SafePath.eq_of_raw named
        rw [if_neg (Bool.eq_false_iff.mp included)]
        rfl

variable [Blake3] (ctx : Ctx ι) (before : Peer ι)

/-- The ways a fetch is started. -/
inductive Starts : Act ι → Fetch ι → Prop where
  | accepted (source : ι) (path : SafePath) (hash : Hash) (chunks : List ChunkMeta)
      (clock : VectorClock) (timestamp : Nat) (writer : PeerId) (device : Device)
      (foreign : writer ≠ ctx.localId)
      (newer : (before.index.clockOf path.rel).counter < clock.counter) :
      Starts (.notified source (.fileChanged path.raw hash chunks clock timestamp writer) device)
        ⟨source, path, chunks.map ChunkMeta.index, ⟨clock, timestamp, writer⟩, .accepted hash⟩
  | lost (source : ι) (path : SafePath) (hash : Hash) (chunks : List ChunkMeta)
      (clock : VectorClock) (timestamp : Nat) (writer : PeerId) (device : Device)
      (foreign : writer ≠ ctx.localId)
      (concurrent : (before.index.clockOf path.rel).compare clock = .concurrent) :
      Starts (.notified source (.fileChanged path.raw hash chunks clock timestamp writer) device)
        ⟨source, path, chunks.map ChunkMeta.index, ⟨clock, timestamp, writer⟩, .lost hash⟩
  | kept (source : ι) (path : SafePath) (hash : Hash) (chunks : List ChunkMeta)
      (clock : VectorClock) (timestamp : Nat) (writer : PeerId) (device : Device)
      (foreign : writer ≠ ctx.localId)
      (concurrent : (before.index.clockOf path.rel).compare clock = .concurrent) :
      Starts (.notified source (.fileChanged path.raw hash chunks clock timestamp writer) device)
        ⟨source, path.backup writer, chunks.map ChunkMeta.index, ⟨clock, timestamp, writer⟩,
          .kept hash⟩
  | reconciled (task : Nat) (device : Device) (source : ι) (path : SafePath) (count : Nat) :
      Starts (.resume task device)
        ⟨source, path, List.range count, ⟨.new, before.now, ctx.shortPeerId source⟩, .reconciled⟩

variable {ctx before}

omit [Blake3] in
/-- A task that was set is one of the old tasks or the new one. -/
theorem working_set {peer : Peer ι} {index : Nat} {new : Task ι} {fetch : Fetch ι}
    (working : ({ peer with tasks := peer.tasks.set index new } : Peer ι).Working limit fetch) :
    peer.Working limit fetch ∨
      new.stage.fetch? = some fetch ∧ new.stage.progress ≤ limit := by
  obtain ⟨task, member, same, early⟩ := working
  rcases List.mem_or_eq_of_mem_set member with old | rfl
  · exact Or.inl ⟨task, old, same, early⟩
  · exact Or.inr ⟨same, early⟩

omit [Blake3] in
/-- An answer does not change what a stage works on. -/
theorem answer_fetch? {stage stage' : Stage ι} {response : Option SyncResponse} {fetch : Fetch ι}
    (reply : answer stage response = some stage') (working : stage'.fetch? = some fetch) :
    stage.fetch? = some fetch ∧ stage.progress ≤ stage'.progress := by
  cases reply_cases reply with
  | chunks => exact ⟨working, Nat.zero_le _⟩
  | _ => exact absurd working (Option.some_ne_none fetch).symm

theorem Ran.working {device : Device} {after : Peer ι} {task task' : Task ι} {number : Nat}
    {fetch : Fetch ι} (ran : Ran ctx device before task after task')
    (working : task'.stage.fetch? = some fetch) :
    (task.stage.fetch? = some fetch ∧ task.stage.progress ≤ task'.stage.progress) ∨
      Starts ctx before (.resume number device) fetch := by
  cases ran with
  | counted files rest ended next => exact Or.inl ⟨working, Nat.le_refl _⟩
  | started source path count rest ended next =>
      obtain ⟨safe, _, _, rfl⟩ := startFetch_fetch?.mp working
      exact Or.inr (.reconciled number device source safe count)
  | forgotten => exact absurd working (Option.some_ne_none fetch).symm
  | refused => exact absurd working (Option.some_ne_none fetch).symm
  | loaded fetch' chunks data answered =>
      rw [answered]
      exact Or.inl ⟨working, by simp [Stage.progress]⟩
  | failed => exact absurd working (Option.some_ne_none fetch).symm
  | wrote fetch' data disk watch ready =>
      rw [ready]
      exact Or.inl ⟨working, by simp [Stage.progress]⟩
  | committed => exact absurd working (Option.some_ne_none fetch).symm
  | compared source hash asked =>
      dsimp only at working
      split at working <;> exact absurd working (Option.some_ne_none fetch).symm
  | walked => exact absurd working (Option.some_ne_none fetch).symm

/-- **Where the fetches in flight come from.** -/
theorem Step.working {act : Act ι} {after : Peer ι} {published : Option SyncNotification}
    {fetch : Fetch ι} (stepped : Step ctx before act after published)
    (working : after.Working limit fetch) :
    before.Working limit fetch ∨ Starts ctx before act fetch := by
  cases stepped with
  | quiet => exact Or.inl working
  | timeSet => exact Or.inl working
  | user => exact Or.inl working
  | edited => exact Or.inl working
  | erased => exact Or.inl working
  | accepted source path hash chunks clock timestamp writer device watch foreign newer =>
      rcases working_spawn working with old | started
      · exact Or.inl old
      · obtain ⟨safe, named, _, rfl⟩ := startFetch_fetch?.mp started
        obtain rfl := SafePath.eq_of_raw named
        exact Or.inr (.accepted source safe hash chunks clock timestamp writer device foreign newer)
  | lost source path hash chunks clock timestamp writer device foreign concurrent =>
      rcases working_spawn working with old | started
      · refine Or.inl ?_
        rw [backUp] at old
        split at old <;> exact old
      · obtain ⟨safe, named, _, rfl⟩ := startFetch_fetch?.mp started
        obtain rfl := SafePath.eq_of_raw named
        exact Or.inr (.lost source safe hash chunks clock timestamp writer device foreign
          concurrent)
  | kept source path hash chunks clock timestamp writer device foreign concurrent =>
      rcases working_spawn working with old | started
      · exact Or.inl old
      · obtain ⟨safe, named, _, rfl⟩ := startFetch_fetch?.mp started
        obtain rfl := SafePath.eq_of_raw named
        exact Or.inr (.kept source path hash chunks clock timestamp writer device foreign
          concurrent)
  | unlinked =>
      rcases working_spawn working with old | started
      · exact Or.inl old
      · exact absurd started (Option.some_ne_none fetch).symm
  | discovered =>
      rcases working_spawn working with old | started
      · exact Or.inl old
      · exact absurd started (Option.some_ne_none fetch).symm
  | answered task response entry stage found reply =>
      rcases working_set working with old | ⟨same, early⟩
      · exact Or.inl old
      · obtain ⟨same, before⟩ := answer_fetch? reply same
        exact Or.inl ⟨entry, List.mem_of_getElem? found, same, le_trans before early⟩
  | resumed task device entry after entry' found ran =>
      have cases := run_cases ran
      rcases working_set working with old | ⟨same, early⟩
      · obtain ⟨other, member, same, early⟩ := old
        rw [cases.tasks] at member
        exact Or.inl ⟨other, member, same, early⟩
      · rcases cases.working same with ⟨same, before⟩ | started
        · exact Or.inl ⟨entry, List.mem_of_getElem? found, same, le_trans before early⟩
        · exact Or.inr started

/-! ## Tasks -/

variable (ctx before) in
/-- The ways a task comes to be as it is. -/
inductive Makes : Act ι → Task ι → Prop where
  | accepted (source : ι) (path : SafePath) (hash : Hash) (chunks : List ChunkMeta)
      (clock : VectorClock) (timestamp : Nat) (writer : PeerId) (device : Device)
      (foreign : writer ≠ ctx.localId)
      (newer : (before.index.clockOf path.rel).counter < clock.counter) :
      Makes (.notified source (.fileChanged path.raw hash chunks clock timestamp writer) device)
        { stage := before.startFetch source path.raw (chunks.map ChunkMeta.index)
            ⟨clock, timestamp, writer⟩ (.accepted hash) }
  | lost (source : ι) (path : SafePath) (hash : Hash) (chunks : List ChunkMeta)
      (clock : VectorClock) (timestamp : Nat) (writer : PeerId) (device : Device)
      (foreign : writer ≠ ctx.localId)
      (concurrent : (before.index.clockOf path.rel).compare clock = .concurrent)
      (wins : remoteWins (before.index.lastModifiedOf path.rel) timestamp writer ctx.localId) :
      Makes (.notified source (.fileChanged path.raw hash chunks clock timestamp writer) device)
        { stage := before.startFetch source path.raw (chunks.map ChunkMeta.index)
            ⟨clock, timestamp, writer⟩ (.lost hash) }
  | kept (source : ι) (path : SafePath) (hash : Hash) (chunks : List ChunkMeta)
      (clock : VectorClock) (timestamp : Nat) (writer : PeerId) (device : Device)
      (foreign : writer ≠ ctx.localId)
      (concurrent : (before.index.clockOf path.rel).compare clock = .concurrent)
      (loses : ¬ remoteWins (before.index.lastModifiedOf path.rel) timestamp writer ctx.localId) :
      Makes (.notified source (.fileChanged path.raw hash chunks clock timestamp writer) device)
        { stage := before.startFetch source (path.backup writer).raw (chunks.map ChunkMeta.index)
            ⟨clock, timestamp, writer⟩ (.kept hash) }
  | unlinked (source : ι) (tombstone : Tombstone) (path : SafePath) (device : Device)
      (named : tombstone.path = path.raw) (foreign : tombstone.deletedBy ≠ ctx.localId) :
      Makes (.notified source (.fileDeleted tombstone) device) { stage := .removed tombstone path }
  | discovered (source : ι) : Makes (.discovered source) { stage := .askedRoot source }
  | answered (number : Nat) (response : Option SyncResponse) (task : Task ι) (stage : Stage ι)
      (found : before.tasks[number]? = some task)
      (reply : answer task.stage response = some stage) :
      Makes (.respond number response) { task with stage := stage }
  | resumed (number : Nat) (device : Device) (task task' : Task ι) (after : Peer ι)
      (found : before.tasks[number]? = some task)
      (ran : before.runTask ctx device task = some (after, task')) :
      Makes (.resume number device) task'

/-- **Where the tasks come from.** -/
theorem Step.task {act : Act ι} {after : Peer ι} {published : Option SyncNotification}
    (stepped : Step ctx before act after published) {task : Task ι} (member : task ∈ after.tasks) :
    task ∈ before.tasks ∨ Makes ctx before act task := by
  have spawned : ∀ {middle : Peer ι} {stage : Stage ι}, middle.tasks = before.tasks →
      task ∈ (middle.spawn stage).tasks → task ∈ before.tasks ∨ task = { stage := stage } := by
    intro middle stage same member
    rw [spawn, same] at member
    exact (List.mem_append.mp member).imp_right List.mem_singleton.mp
  cases stepped with
  | accepted source path hash chunks clock timestamp writer device watch foreign newer =>
      rcases spawned rfl member with old | rfl
      · exact Or.inl old
      · exact Or.inr (.accepted source path hash chunks clock timestamp writer device foreign newer)
  | lost source path hash chunks clock timestamp writer device foreign concurrent wins =>
      rcases spawned (before.backUp_tasks device path ctx.localId) member with old | rfl
      · exact Or.inl old
      · exact Or.inr (.lost source path hash chunks clock timestamp writer device foreign concurrent
          wins)
  | kept source path hash chunks clock timestamp writer device foreign concurrent loses =>
      rcases spawned rfl member with old | rfl
      · exact Or.inl old
      · exact Or.inr (.kept source path hash chunks clock timestamp writer device foreign concurrent
          loses)
  | unlinked source tombstone path device disk named foreign =>
      rcases spawned rfl member with old | rfl
      · exact Or.inl old
      · exact Or.inr (.unlinked source tombstone path device named foreign)
  | discovered source =>
      rcases spawned rfl member with old | rfl
      · exact Or.inl old
      · exact Or.inr (.discovered source)
  | answered number response entry stage found reply =>
      rcases List.mem_or_eq_of_mem_set member with old | rfl
      · exact Or.inl old
      · exact Or.inr (.answered number response entry stage found reply)
  | resumed number device entry after entry' found ran =>
      dsimp only at member
      rw [(run_cases ran).tasks] at member
      rcases List.mem_or_eq_of_mem_set member with old | rfl
      · exact Or.inl old
      · exact Or.inr (.resumed number device entry _ after found ran)
  | _ => exact Or.inl member

/-- A task that is to take a file out of the index comes from a tombstone. -/
theorem Makes.removed {act : Act ι} {task : Task ι} {tombstone : Tombstone} {path : SafePath}
    (made : Makes ctx before act task) (removed : task.stage = .removed tombstone path) :
    ∃ source device, act = .notified source (.fileDeleted tombstone) device ∧
      tombstone.path = path.raw := by
  have started : ∀ {source : ι} {raw : Str} {chunkIndices : List Nat} {origin : RemoteOrigin}
      {cause : Cause}, before.startFetch source raw chunkIndices origin cause ≠
        .removed tombstone path := by
    intro source raw chunkIndices origin cause same
    rw [startFetch] at same
    split at same
    · cases same
    · split at same <;> cases same
  cases made with
  | unlinked source tombstone' path' device named =>
      cases removed
      exact ⟨source, device, rfl, named⟩
  | answered number response task stage found reply =>
      dsimp only at removed
      rw [removed, answer.eq_def] at reply
      split at reply <;> cases reply
  | resumed number device task task' after found ran =>
      cases run_cases ran with
      | counted files rest ended => cases ended.symm.trans removed
      | compared => split at removed <;> cases removed
      | started => exact absurd removed started
      | _ => cases removed
  | discovered => cases removed
  | _ => exact absurd removed started

/-- A task that has nothing else to do than one fetch, of a kind. -/
structure Lone (allowed : Fetch ι → Prop) (task : Task ι) : Prop where
  todo : task.todo = []
  stage : task.stage = .idle ∨ ∃ fetch, task.stage.fetch? = some fetch ∧ allowed fetch

omit [Blake3] in
/-- Whatever such a task fetches is of the kind. -/
theorem Lone.fits {allowed : Fetch ι → Prop} {task : Task ι} {fetch : Fetch ι}
    (lone : Lone allowed task) (working : task.stage.fetch? = some fetch) : allowed fetch := by
  rcases lone.stage with idle | ⟨fetch', working', fits⟩
  · rw [idle] at working
    exact absurd working (Option.some_ne_none fetch).symm
  · obtain rfl := Option.some.inj (working.symm.trans working')
    exact fits

omit [Blake3] in
/-- A task that starts with a fetch has nothing else to do. -/
theorem lone_startFetch {allowed : Fetch ι → Prop} {source : ι} {raw : Str}
    {chunkIndices : List Nat} {origin : RemoteOrigin} {cause : Cause}
    (fits : ∀ path : SafePath, path.raw = raw →
      allowed ⟨source, path, chunkIndices, origin, cause⟩) :
    Lone allowed { stage := before.startFetch source raw chunkIndices origin cause } := by
  refine ⟨rfl, ?_⟩
  rw [startFetch]
  cases guarded : SafePath.of? raw with
  | none => exact Or.inl rfl
  | some path =>
      dsimp only
      split
      · exact Or.inl rfl
      · exact Or.inr ⟨_, rfl, fits path (SafePath.of?_eq_some_iff.mp guarded)⟩

omit [Blake3] in
/-- An answer ends a fetch or leaves it to go on. -/
theorem answer_cases {stage stage' : Stage ι} {response : Option SyncResponse} {fetch : Fetch ι}
    (reply : answer stage response = some stage') (working : stage.fetch? = some fetch) :
    stage' = .idle ∨ stage'.fetch? = some fetch := by
  cases reply_cases reply with
  | chunks => exact Or.inr working
  | noChunks => exact Or.inl rfl
  | _ => exact absurd working (Option.some_ne_none fetch).symm

/-- A stretch ends a fetch or leaves it to go on. -/
theorem Ran.fetch_cases {device : Device} {after : Peer ι} {task task' : Task ι} {fetch : Fetch ι}
    (ran : Ran ctx device before task after task') (working : task.stage.fetch? = some fetch) :
    task'.todo = task.todo ∧ (task'.stage = .idle ∨ task'.stage.fetch? = some fetch) := by
  cases ran with
  | refused => exact ⟨rfl, Or.inl rfl⟩
  | loaded fetch' chunks data answered =>
      rw [answered] at working
      exact ⟨rfl, Or.inr working⟩
  | failed => exact ⟨rfl, Or.inl rfl⟩
  | wrote fetch' data disk watch ready =>
      rw [ready] at working
      exact ⟨rfl, Or.inr working⟩
  | committed => exact ⟨rfl, Or.inl rfl⟩
  | counted files rest idle | started source path count rest idle =>
      rw [idle] at working
      exact absurd working (Option.some_ne_none fetch).symm
  | forgotten tombstone path other | compared source hash other | walked source tree other =>
      rw [other] at working
      exact absurd working (Option.some_ne_none fetch).symm

omit [Blake3] in
theorem Lone.answered {allowed : Fetch ι → Prop} {task : Task ι} {response : Option SyncResponse}
    {stage : Stage ι} (lone : Lone allowed task) (reply : answer task.stage response = some stage) :
    Lone allowed { task with stage := stage } := by
  refine ⟨lone.todo, ?_⟩
  rcases lone.stage with idle | ⟨fetch, working, fits⟩
  · rw [idle] at reply
    exact absurd reply (Option.some_ne_none stage).symm
  · exact (answer_cases reply working).imp_right fun going => ⟨fetch, going, fits⟩

theorem Lone.ran {allowed : Fetch ι → Prop} {device : Device} {after : Peer ι} {task task' : Task ι}
    (lone : Lone allowed task) (ran : before.runTask ctx device task = some (after, task')) :
    Lone allowed task' := by
  rcases lone.stage with idle | ⟨fetch, working, fits⟩
  · rw [runTask, idle, lone.todo] at ran
    exact absurd ran (Option.some_ne_none _).symm
  · obtain ⟨todo, going⟩ := (run_cases ran).fetch_cases working
    exact ⟨todo.trans lone.todo, going.imp_right fun going => ⟨fetch, going, fits⟩⟩

/-! ## Recorded clocks -/

variable (ctx before) (path : RelPath)

/-- The ways the recorded clock of a path changes, with the clock after. -/
inductive Reclocks : Act ι → VectorClock → Prop where
  | ticked (reads : FsReads) (picked : before.indexed ctx reads = some path) :
      Reclocks (.fsEvent reads) ((before.index.clockOf path).tick before.index.localPeer)
  | merged (number : Nat) (device : Device) (task : Task ι) (fetch : Fetch ι) (data : Bytes)
      (found : before.tasks[number]? = some task) (stored : task.stage = .written fetch data)
      (here : fetch.path.rel = path) :
      Reclocks (.resume number device) ((before.index.clockOf path).merge fetch.origin.clock)
  | erased (reads : FsReads) (rest : List FsEvent)
      (queue : before.watch.fsQueue = .removed path :: rest) : Reclocks (.fsEvent reads) .new
  | forgotten (number : Nat) (device : Device) (task : Task ι) (tombstone : Tombstone)
      (deleted : SafePath) (found : before.tasks[number]? = some task)
      (unlinked : task.stage = .removed tombstone deleted) (here : deleted.rel = path) :
      Reclocks (.resume number device) .new

variable {ctx before path}

/-- **How the entry of a path changes.** -/
theorem Step.lookup {act : Act ι} {after : Peer ι} {published : Option SyncNotification}
    (stepped : Step ctx before act after published) :
    after.index.fileMeta.lookup path = before.index.fileMeta.lookup path ∨
      Reclocks ctx before path act (after.index.clockOf path) := by
  cases stepped with
  | edited reads edited data watch published picked =>
      by_cases same : path = edited
      · subst same
        right
        simp only [SyncIndex.clockOf_ticked, if_true]
        exact .ticked reads picked
      · left
        exact Finmap.lookup_insert_of_ne _ same
  | erased reads deleted rest watch queue =>
      by_cases same : path = deleted
      · subst same
        right
        simp only [SyncIndex.clockOf_localFileDeleted, if_true]
        exact .erased reads rest queue
      · left
        exact Finmap.lookup_erase_ne same
  | lost =>
      rw [spawn, backUp_index]
      exact Or.inl rfl
  | resumed number device task after task' found ran =>
      cases run_cases ran with
      | forgotten tombstone deleted unlinked =>
          by_cases same : path = deleted.rel
          · right
            simp only [SyncIndex.clockOf_remotelyDeleted, if_pos same]
            exact .forgotten number device task tombstone deleted found unlinked same.symm
          · left
            exact Finmap.lookup_erase_ne same
      | committed fetch data stored =>
          by_cases same : path = fetch.path.rel
          · right
            simp only [SyncIndex.clockOf_fetched, if_pos same]
            rw [← same]
            exact .merged number device task fetch data found stored same.symm
          · left
            exact Finmap.lookup_insert_of_ne _ same
      | _ => exact Or.inl rfl
  | _ => exact Or.inl rfl

/-- **How the recorded clock of a path changes.** -/
theorem Step.clockOf {act : Act ι} {after : Peer ι} {published : Option SyncNotification}
    (stepped : Step ctx before act after published) :
    after.index.clockOf path = before.index.clockOf path ∨
      Reclocks ctx before path act (after.index.clockOf path) := by
  refine stepped.lookup.imp_left fun same => ?_
  rw [SyncIndex.clockOf, SyncIndex.clockOf, same]

end Peer

end P2Sync
