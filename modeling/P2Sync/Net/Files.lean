import P2Sync.Net.Start

/-!
# What a step does to the files

The bytes read at a path change in four ways: someone else changes the folder, a losing
file is copied to its backup, a deletion removes the file, or a fetch writes it
(`Step.read`).
-/

set_option autoImplicit false

namespace P2Sync

namespace Peer

variable {ι : Type} [Blake3] (ctx : Ctx ι) (before : Peer ι) (query : RelPath)

/-- The ways the bytes at a path change, with what is read there after. -/
inductive Rewrites : Act ι → Option Bytes → Prop where
  | user (disk : Disk) : Rewrites (.user disk) (disk.read query)
  | copied (source : ι) (path : SafePath) (hash : Hash) (chunks : List ChunkMeta)
      (clock : VectorClock) (timestamp : Nat) (writer : PeerId) (device : Device)
      (data content : Bytes) (foreign : writer ≠ ctx.localId)
      (concurrent : (before.index.clockOf path.rel).compare clock = .concurrent)
      (wins : remoteWins (before.index.lastModifiedOf path.rel) timestamp writer ctx.localId)
      (here : (path.backup ctx.localId).rel = query)
      (read : before.disk.read path.rel = some data)
      (stored : device.copies.stored data = some content) :
      Rewrites (.notified source (.fileChanged path.raw hash chunks clock timestamp writer) device)
        (some content)
  | removed (source : ι) (tombstone : Tombstone) (path : SafePath) (device : Device)
      (named : tombstone.path = path.raw) (here : path.rel = query) :
      Rewrites (.notified source (.fileDeleted tombstone) device) none
  | written (number : Nat) (device : Device) (task : Task ι) (fetch : Fetch ι)
      (data content : Bytes) (found : before.tasks[number]? = some task)
      (ready : task.stage = .loaded fetch data) (here : fetch.path.rel = query)
      (stored : device.writes.stored data = some content) :
      Rewrites (.resume number device) (some content)

variable {ctx before query}

omit [Blake3] in
theorem makeParents_read (device : Device) (path query : RelPath) :
    (before.makeParents device path).read query = before.disk.read query := by
  rw [makeParents]
  split
  · cases created : before.disk.createDirAll path.dropLast with
    | none => rfl
    | some disk => exact Disk.read_createDirAll created query
  · rfl

omit [Blake3] in
theorem backUp_read (device : Device) (path : SafePath) (loser : PeerId) (query : RelPath) :
    (before.backUp device path loser).disk.read query = before.disk.read query ∨
      query = (path.backup loser).rel ∧ ∃ data content, before.disk.read path.rel = some data ∧
        device.copies.stored data = some content ∧
          (before.backUp device path loser).disk.read query = some content := by
  rw [backUp]
  split
  · rw [Outcome.copy]
    cases found : before.disk.read path.rel with
    | none => exact Or.inl rfl
    | some data =>
        rcases Outcome.read_write query with same | ⟨here, content, stored, read⟩
        · exact Or.inl same
        · exact Or.inr ⟨here, data, content, rfl, stored, read⟩
  · exact Or.inl rfl

/-- **How the bytes at a path change.** -/
theorem Step.read {act : Act ι} {after : Peer ι} {published : Option SyncNotification}
    (stepped : Step ctx before act after published) (query : RelPath) :
    after.disk.read query = before.disk.read query ∨
      Rewrites ctx before query act (after.disk.read query) := by
  cases stepped with
  | user disk => exact Or.inr (.user disk)
  | lost source path hash chunks clock timestamp writer device foreign concurrent wins =>
      rcases before.backUp_read device path ctx.localId query with
        same | ⟨here, data, content, read, stored, after⟩
      · exact Or.inl same
      · right
        have copied : ((before.backUp device path ctx.localId).spawn
            (before.startFetch source path.raw (chunks.map ChunkMeta.index)
              ⟨clock, timestamp, writer⟩ (.lost hash))).disk.read query = some content := after
        rw [copied]
        exact .copied source path hash chunks clock timestamp writer device data content foreign
          concurrent wins here.symm read stored
  | unlinked source tombstone path device disk named foreign removed =>
      rcases removed with rfl | removed
      · exact Or.inl rfl
      · have read : disk.read query = if query = path.rel then none else before.disk.read query :=
          Disk.read_removeFile removed query
        by_cases here : query = path.rel
        · right
          rw [if_pos here] at read
          have gone : ({ before with disk := disk }.spawn (.removed tombstone path)).disk.read
              query = none := read
          rw [gone]
          exact .removed source tombstone path device named here.symm
        · rw [if_neg here] at read
          exact Or.inl read
  | resumed number device task after' task' found ran =>
      have written : ∀ fetch data, task.stage = .loaded fetch data → ∀ disk,
          disk = (device.writes.write fetch.path.rel data
            (before.makeParents device fetch.path.rel)).2 →
          disk.read query = before.disk.read query ∨
            Rewrites ctx before query (.resume number device) (disk.read query) := by
        rintro fetch data ready disk rfl
        rcases Outcome.read_write query with same | ⟨here, content, stored, read⟩
        · rw [makeParents_read] at same
          exact Or.inl same
        · rw [read]
          exact Or.inr (.written number device task fetch data content found ready here.symm stored)
      cases run_cases ran with
      | failed fetch data disk watch ready failure =>
          exact written fetch data ready disk (congrArg Prod.snd failure).symm
      | wrote fetch data disk watch ready success =>
          exact written fetch data ready disk (congrArg Prod.snd success).symm
      | _ => exact Or.inl rfl
  | _ => exact Or.inl rfl

/-! ## What a change takes -/

variable {after : Peer ι}

/-- A share that takes nothing from other peers ignores every notification. -/
theorem pulls_of_changed {source : ι} {notification : SyncNotification} {device : Device}
    (stepped : before.next ctx (.notified source notification device) = some after)
    (changed : after.disk.read query ≠ before.disk.read query) : ctx.noPull = false := by
  cases pulls : ctx.noPull with
  | false => rfl
  | true =>
      rw [next, step, pulls, if_pos rfl] at stepped
      obtain rfl := Option.some.inj stepped
      exact absurd rfl changed

/-- A tombstone that removes a file is another peer's, and the device lets it. -/
theorem deletes_of_changed {source : ι} {tombstone : Tombstone} {device : Device}
    (stepped : before.next ctx (.notified source (.fileDeleted tombstone) device) = some after)
    (changed : after.disk.read query ≠ before.disk.read query) :
    tombstone.deletedBy ≠ ctx.localId ∧ device.removes = true := by
  rw [next, step, pulls_of_changed stepped changed, if_neg Bool.false_ne_true,
    handleNotification] at stepped
  by_cases own : tombstone.deletedBy = ctx.localId
  · rw [if_pos own] at stepped
    obtain rfl := Option.some.inj stepped
    exact absurd rfl changed
  · refine ⟨own, ?_⟩
    rw [if_neg own] at stepped
    cases removes : device.removes with
    | true => rfl
    | false =>
        cases guarded : SafePath.of? tombstone.path with
        | none =>
            rw [guarded] at stepped
            obtain rfl := Option.some.inj stepped
            exact absurd rfl changed
        | some path =>
            rw [guarded] at stepped
            dsimp only at stepped
            rw [removes, Bool.and_false, if_neg Bool.false_ne_true] at stepped
            obtain rfl := Option.some.inj stepped
            exact absurd rfl changed

end Peer

end P2Sync
