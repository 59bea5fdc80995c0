import P2Sync.Net.Files

/-!
# The write guard

The engine remembers when it was about to write a path, and drops the file events of that
path for a while. A mark and the write it is made for are two moments, and threads of the
watcher, of the engine and of the user run in between (`Split`); taken together they are
the stretch of a task that writes its file (`step_mark_write`, `exists_split_run`).

Whether an event is dropped is decided by the time since the last mark (`guards_iff`), not by
who caused it. A dropped event finds the file with the bytes of the last write of the engine
exactly when nobody who came after that write left others (`holdsOwn_iff`).
-/

set_option autoImplicit false

namespace P2Sync

/-- The fetch a task is about to write, with the content. -/
def Task.ready {ι : Type} (task : Task ι) : Option (Fetch ι × Bytes) :=
  match task.stage with
  | .loaded fetch data => some (fetch, data)
  | _ => none

/-- A peer that marks a path and writes it in two steps; `marked` has the tasks between
them. -/
structure Split (ι : Type) where
  peer : Peer ι
  marked : List Nat := []

/-- What can happen at such a peer. -/
inductive SplitAct (ι : Type) where
  /-- Anything but the stretch of a task that writes its file. -/
  | act (act : Act ι)
  | mark (task : Nat) (device : Device)
  | write (task : Nat) (device : Device)

namespace Peer

variable {ι : Type} (ctx : Ctx ι) (peer : Peer ι)

/-- The action is the stretch of a task that writes its file. -/
def resumesWrite : Act ι → Bool
  | .resume task _ => peer.tasks[task]?.any fun entry => entry.ready.isSome
  | _ => false

/-- Whether the write guard drops the events of a path. -/
def guards (path : RelPath) : Bool :=
  (peer.watch.syncWriteGuard.isSuppressed path peer.watch.instant ctx.writeGuardTtl).1

end Peer

namespace Split

variable {ι : Type} [Blake3] (ctx : Ctx ι) (path : RelPath)

/-- One step. -/
def step (state : Split ι) : SplitAct ι → Option (Split ι)
  | .act act =>
      if state.peer.resumesWrite act then none
      else (state.peer.next ctx act).map fun peer => { state with peer := peer }
  | .mark task device =>
      if task ∈ state.marked then none
      else
        state.peer.tasks[task]?.bind fun entry =>
          entry.ready.map fun (fetch, _) =>
            { peer := { state.peer.markWrite fetch.path.rel with
                disk := state.peer.makeParents device fetch.path.rel }
              marked := task :: state.marked }
  | .write task device =>
      if task ∈ state.marked then
        state.peer.tasks[task]?.bind fun entry =>
          entry.ready.map fun (fetch, data) =>
            let (success, disk) := device.writes.write fetch.path.rel data state.peer.disk
            { peer := { state.peer with
                disk := disk
                tasks := state.peer.tasks.set task { entry with
                  stage := if success then .written fetch data else .idle } }
              marked := state.marked.erase task }
      else none

omit [Blake3] in
/-- An event of the path comes to the write guard: in the thread of the watcher, or in
`handle_fs_event`. -/
def Delivers (state : Split ι) : SplitAct ι → Prop
  | .act (.watched event) => event.path = path
  | .act (.fsEvent _) =>
      ctx.noPush = false ∧
        (state.peer.watch.fsQueue.head? = some (.created path) ∨
          state.peer.watch.fsQueue.head? = some (.modified path))
  | _ => False

omit [Blake3] in
/-- The step marks the path: a fetch is about to write it, or a newer version of it is
accepted. -/
def Marks (state : Split ι) : SplitAct ι → Prop
  | .mark task _ => ∃ fetch data, state.peer.tasks[task]?.bind Task.ready = some (fetch, data) ∧
      fetch.path.rel = path
  | .act (.notified _ (.fileChanged raw _ _ clock timestamp writer) _) =>
      ctx.noPull = false ∧ writer ≠ ctx.localId ∧
        (∃ safe : SafePath, safe.raw = raw ∧ safe.rel = path) ∧
        resolve (state.peer.index.clockOf path) clock (state.peer.index.lastModifiedOf path)
          timestamp writer ctx.localId = .accept
  | _ => False

omit [Blake3] in
/-- The bytes a step of a fetch writes to the path. -/
def wrote (state : Split ι) : SplitAct ι → Option Bytes
  | .write task device =>
      (state.peer.tasks[task]?.bind Task.ready).bind fun (fetch, data) =>
        if fetch.path.rel = path then
          (device.writes.stored data).filter fun content =>
            (state.peer.disk.write path content).isSome
        else none
  | _ => none

/-- A deletion by another peer removes the file at the path. -/
def deletes (peer : Peer ι) (device : Device) (tombstone : Tombstone) : Bool :=
  tombstone.deletedBy ≠ ctx.localId && device.removes &&
    (SafePath.of? tombstone.path).any fun deleted =>
      deleted.rel = path && (peer.disk.removeFile path).isSome

omit [Blake3] in
/-- The bytes of a file that loses against the version of another peer, copied to the path, which is
its backup. -/
def copied (peer : Peer ι) (device : Device) (raw : Str) (clock : VectorClock) (timestamp : Nat)
    (writer : PeerId) : Option Bytes :=
  (SafePath.of? raw).bind fun lost =>
    if writer ≠ ctx.localId ∧ (lost.backup ctx.localId).rel = path ∧
        resolve (peer.index.clockOf lost.rel) clock (peer.index.lastModifiedOf lost.rel) timestamp
          writer ctx.localId = .conflict ctx.localId then
      ((peer.disk.read lost.rel).bind device.copies.stored).filter fun content =>
        (peer.disk.write path content).isSome
    else none

omit [Blake3] in
/-- What a notification leaves at the path: nothing where it brings the deletion of the file there,
a copy where the path is the backup of a file that loses. -/
def notifiedLeaves (peer : Peer ι) (device : Device) :
    SyncNotification → Option (Option Bytes)
  | .fileDeleted tombstone => if deletes ctx path peer device tombstone then some none else none
  | .fileChanged raw _ _ clock timestamp writer =>
      (copied ctx path peer device raw clock timestamp writer).map some
  | .peerJoined _ => none

omit [Blake3] in
/-- What a step leaves at the path when it comes to the file there: the user, a deletion, a
conflict copy or the write of a fetch. -/
def leaves (state : Split ι) : SplitAct ι → Option (Option Bytes)
  | .act (.user disk) => some (disk.read path)
  | .act (.notified _ notification device) =>
      if ctx.noPull then none else notifiedLeaves ctx path state.peer device notification
  | act => (wrote path state act).map some

omit [Blake3] in
/-- The bytes a fetch last wrote to the path. -/
def lastWrote (trace : List (Split ι × SplitAct ι)) : Option Bytes :=
  trace.foldl (fun content entry => (wrote path entry.1 entry.2).or content) none

omit [Blake3] in
/-- What the last of all those who came to the path left there. -/
def lastLeft (first : Split ι) (trace : List (Split ι × SplitAct ι)) : Option Bytes :=
  trace.foldl (fun content entry => (leaves ctx path entry.1 entry.2).getD content)
    (first.peer.disk.read path)

omit [Blake3] in
/-- The write guard drops an event of the path. -/
def Drops (state : Split ι) (act : SplitAct ι) : Prop :=
  Delivers ctx path state act ∧ state.peer.guards ctx path = true

omit [Blake3] in
/-- The file is there, with the bytes that a fetch last wrote. -/
def HoldsOwn (trace : List (Split ι × SplitAct ι)) (state : Split ι) : Prop :=
  ∃ data, state.peer.disk.read path = some data ∧ lastWrote path trace = some data

omit [Blake3] in
/-- Whenever an event is dropped the file holds what a fetch last wrote. -/
def HidesOwn (trace : List (Split ι × SplitAct ι)) : Prop :=
  ∀ earlier entry later, trace = earlier ++ entry :: later →
    Drops ctx path entry.1 entry.2 → HoldsOwn path earlier entry.1

omit [Blake3] in
/-- When an event comes a short while after a mark, the last to have come to the file is a
fetch that wrote it, or left what a fetch last wrote. -/
def Undisturbed (first : Split ι) (trace : List (Split ι × SplitAct ι)) : Prop :=
  ∀ earlier entry later, trace = earlier ++ entry :: later → Delivers ctx path entry.1 entry.2 →
    (∃ mark ∈ earlier, Marks ctx path mark.1 mark.2 ∧
      entry.1.peer.watch.instant - mark.1.peer.watch.instant < ctx.writeGuardTtl) →
    ∃ data, lastLeft ctx path first earlier = some data ∧ lastWrote path earlier = some data

/-! ## Two steps for one -/

variable {ctx path} {state before after : Split ι} {number : Nat} {device : Device}

/-- **The stretch of a task that writes its file** is a mark and a write. -/
theorem step_mark_write {task : Task ι} (found : state.peer.tasks[number]? = some task)
    (ready : task.ready.isSome = true) (unmarked : number ∉ state.marked) :
    ((step ctx state (.mark number device)).bind fun middle =>
        step ctx middle (.write number device)) =
      (state.peer.next ctx (.resume number device)).map fun peer =>
        { state with peer := peer } := by
  obtain ⟨fetch, data, stage⟩ : ∃ fetch data, task.stage = .loaded fetch data := by
    rw [Task.ready] at ready
    split at ready
    · exact ⟨_, _, ‹_›⟩
    · exact absurd ready Bool.false_ne_true
  have taken : task.ready = some (fetch, data) := by rw [Task.ready, stage]
  rw [Peer.next_resume found, Peer.runTask, stage]
  simp only [step, unmarked, found, taken, if_false, Option.bind_some, Option.map_some,
    List.mem_cons_self, if_true, List.erase_cons_head, Peer.markWrite]

/-- Every run of a peer is one in which marks and writes are two steps. -/
theorem exists_split_run {first last : Peer ι} {trace : List (Peer ι × Act ι)}
    (run : Run (Peer.next ctx) first trace last) :
    ∃ split, Run (step ctx) ⟨first, []⟩ split ⟨last, []⟩ := by
  induction run with
  | start => exact ⟨[], .start⟩
  | snoc run stepped ih =>
      rename_i trace before after act
      obtain ⟨split, earlier⟩ := ih
      cases writes : before.resumesWrite act with
      | false =>
          refine ⟨_, earlier.snoc (?_ : step ctx ⟨before, []⟩ (.act act) = some ⟨after, []⟩)⟩
          rw [step, if_neg (Bool.eq_false_iff.mp writes), stepped]
          rfl
      | true =>
          cases act with
          | resume number device =>
              obtain ⟨task, found, ready⟩ := (Option.any_eq_true _ _).mp writes
              have both := @step_mark_write ι _ ctx ⟨before, []⟩ number device task found ready
                List.not_mem_nil
              rw [stepped] at both
              obtain ⟨middle, marked, wrote⟩ := Option.bind_eq_some_iff.mp both
              exact ⟨_, (earlier.snoc marked).snoc wrote⟩
          | _ => exact absurd writes Bool.false_ne_true

/-! ## Cases of a step -/

theorem step_act {act : Act ι} (stepped : step ctx before (.act act) = some after) :
    before.peer.resumesWrite act = false ∧
      ∃ peer, before.peer.next ctx act = some peer ∧ after = { before with peer := peer } := by
  rw [step] at stepped
  split at stepped
  · exact absurd stepped (Option.some_ne_none after).symm
  · rename_i elsewhere
    obtain ⟨peer, taken, rfl⟩ := Option.map_eq_some_iff.mp stepped
    exact ⟨Bool.eq_false_iff.mpr elsewhere, peer, taken, rfl⟩

theorem step_mark (stepped : step ctx before (.mark number device) = some after) :
    ∃ fetch data, before.peer.tasks[number]?.bind Task.ready = some (fetch, data) ∧
      after.peer = { before.peer.markWrite fetch.path.rel with
        disk := before.peer.makeParents device fetch.path.rel } := by
  rw [step] at stepped
  split at stepped
  · exact absurd stepped (Option.some_ne_none after).symm
  · obtain ⟨entry, found, mapped⟩ := Option.bind_eq_some_iff.mp stepped
    obtain ⟨⟨fetch, data⟩, ready, rfl⟩ := Option.map_eq_some_iff.mp mapped
    exact ⟨fetch, data, by rw [found, Option.bind_some, ready], rfl⟩

theorem step_write (stepped : step ctx before (.write number device) = some after) :
    ∃ fetch data, before.peer.tasks[number]?.bind Task.ready = some (fetch, data) ∧
      after.peer.watch = before.peer.watch ∧
        after.peer.disk = (device.writes.write fetch.path.rel data before.peer.disk).2 := by
  rw [step] at stepped
  split at stepped
  · obtain ⟨entry, found, mapped⟩ := Option.bind_eq_some_iff.mp stepped
    obtain ⟨⟨fetch, data⟩, ready, rfl⟩ := Option.map_eq_some_iff.mp mapped
    exact ⟨fetch, data, by rw [found, Option.bind_some, ready], rfl, rfl⟩
  · exact absurd stepped (Option.some_ne_none after).symm

/-! ## Marks -/

/-- What a step does to the mark of a path. -/
structure Remarks (ctx : Ctx ι) (path : RelPath) (before : Split ι) (act : SplitAct ι)
    (after : Split ι) : Prop where
  later : before.peer.watch.instant ≤ after.peer.watch.instant
  marked : Marks ctx path before act →
    after.peer.watch.syncWriteGuard.lookup path = some before.peer.watch.instant
  kept : ¬ Marks ctx path before act →
    after.peer.watch.syncWriteGuard.lookup path = before.peer.watch.syncWriteGuard.lookup path ∨
      after.peer.watch.syncWriteGuard.lookup path = none ∧
        ∀ writtenAt, before.peer.watch.syncWriteGuard.lookup path = some writtenAt →
          ctx.writeGuardTtl ≤ before.peer.watch.instant - writtenAt

omit [Blake3] in
theorem Remarks.of_watch {act : SplitAct ι} (unmarked : ¬ Marks ctx path before act)
    (later : before.peer.watch.instant ≤ after.peer.watch.instant)
    (same : after.peer.watch.syncWriteGuard = before.peer.watch.syncWriteGuard) :
    Remarks ctx path before act after where
  later := later
  marked marks := absurd marks unmarked
  kept _ := Or.inl (by rw [same])

omit [Blake3] in
/-- A check of the guard is no mark. -/
theorem Remarks.of_check {act : SplitAct ι} {checked : RelPath}
    (unmarked : ¬ Marks ctx path before act)
    (later : before.peer.watch.instant ≤ after.peer.watch.instant)
    (same : after.peer.watch.syncWriteGuard =
      (before.peer.watch.syncWriteGuard.isSuppressed checked before.peer.watch.instant
        ctx.writeGuardTtl).2) : Remarks ctx path before act after where
  later := later
  marked marks := absurd marks unmarked
  kept _ := by
    rw [same]
    exact EventGuard.lookup_isSuppressed

/-- A touched file is checked once. -/
theorem handleTouched_watch (peer : Peer ι) (reads : FsReads) (touched : RelPath) :
    (peer.handleTouched ctx reads touched).1.watch.instant = peer.watch.instant ∧
      (peer.handleTouched ctx reads touched).1.watch.syncWriteGuard =
        (peer.watch.syncWriteGuard.isSuppressed touched peer.watch.instant
          ctx.writeGuardTtl).2 := by
  obtain ⟨dropped, guard, guarded⟩ : ∃ dropped guard,
      peer.watch.syncWriteGuard.isSuppressed touched peer.watch.instant ctx.writeGuardTtl =
        (dropped, guard) := ⟨_, _, rfl⟩
  obtain ⟨recent, debounce, debounced⟩ : ∃ recent debounce,
      peer.watch.changeDebounce.isSuppressed touched peer.watch.instant ctx.debounce =
        (recent, debounce) := ⟨_, _, rfl⟩
  simp only [Peer.handleTouched, guarded, debounced]
  repeat' split
  all_goals exact ⟨rfl, rfl⟩

omit [Blake3] in
theorem backUp_watch (peer : Peer ι) (safe : SafePath) (loser : PeerId) :
    (peer.backUp device safe loser).watch = peer.watch := by
  rw [Peer.backUp]
  split <;> rfl

omit [Blake3] in
/-- A notification marks the path of a version it accepts. -/
theorem remarks_notified {source : ι} {notification : SyncNotification}
    (pulls : ctx.noPull = false) (state : Split ι) :
    Remarks ctx path state (.act (.notified source notification device))
      { state with peer := state.peer.handleNotification ctx device source notification } := by
  cases notification with
  | peerJoined joined => exact .of_watch not_false le_rfl rfl
  | fileDeleted tombstone =>
      have same : (state.peer.handleNotification ctx device source
          (.fileDeleted tombstone)).watch = state.peer.watch := by
        rw [Peer.handleNotification]
        split
        · rfl
        · split <;> rfl
      exact .of_watch not_false (by rw [same]) (by rw [same])
  | fileChanged raw hash chunks clock timestamp writer =>
      rw [Peer.handleNotification]
      by_cases own : writer = ctx.localId
      · rw [if_pos own]
        exact .of_watch (fun marks => marks.2.1 own) le_rfl rfl
      rw [if_neg own]
      cases guarded : SafePath.of? raw with
      | none =>
          refine .of_watch (fun marks => ?_) le_rfl rfl
          obtain ⟨_, _, ⟨safe, named, _⟩, _⟩ := marks
          rw [SafePath.of?_eq_some_iff.mpr named] at guarded
          exact absurd guarded (Option.some_ne_none safe)
      | some safe =>
          obtain rfl := SafePath.of?_eq_some_iff.mp guarded
          have resolves : Marks ctx path state (.act (.notified source
              (.fileChanged safe.raw hash chunks clock timestamp writer) device)) →
              safe.rel = path ∧ resolve (state.peer.index.clockOf safe.rel) clock
                (state.peer.index.lastModifiedOf safe.rel) timestamp writer ctx.localId =
                  .accept := by
            rintro ⟨_, _, ⟨other, named, rfl⟩, accepted⟩
            obtain rfl : other = safe :=
              Option.some.inj ((SafePath.of?_eq_some_iff.mpr named).symm.trans guarded)
            exact ⟨rfl, accepted⟩
          dsimp only
          cases resolution : resolve (state.peer.index.clockOf safe.rel) clock
              (state.peer.index.lastModifiedOf safe.rel) timestamp writer ctx.localId with
          | accept =>
              refine ⟨le_rfl, fun marks => ?_, fun unmarked => Or.inl ?_⟩
              · exact EventGuard.lookup_mark.trans (if_pos (resolves marks).1.symm)
              · refine EventGuard.lookup_mark.trans (if_neg ?_)
                rintro rfl
                exact unmarked ⟨pulls, own, ⟨safe, rfl, rfl⟩, resolution⟩
          | reject =>
              refine .of_watch (fun marks => ?_) le_rfl rfl
              exact absurd (resolution.symm.trans (resolves marks).2) (by simp)
          | conflict loser =>
              have unmarked : ¬ Marks ctx path state (.act (.notified source
                  (.fileChanged safe.raw hash chunks clock timestamp writer) device)) :=
                fun marks => absurd (resolution.symm.trans (resolves marks).2) (by simp)
              dsimp only
              split
              · exact .of_watch unmarked (le_of_eq (by rw [Peer.spawn, backUp_watch]))
                  (by rw [Peer.spawn, backUp_watch])
              · exact .of_watch unmarked le_rfl rfl

/-- What the steps of a peer that write no file do to a mark. -/
theorem remarks_act {act : Act ι} {peer : Peer ι}
    (elsewhere : before.peer.resumesWrite act = false)
    (stepped : before.peer.next ctx act = some peer) :
    Remarks ctx path before (.act act) { before with peer := peer } := by
  cases act with
  | elapse duration =>
      cases stepped
      exact .of_watch not_false (Nat.le_add_right _ _) rfl
  | setTime now =>
      cases stepped
      exact .of_watch not_false le_rfl rfl
  | user disk =>
      cases stepped
      exact .of_watch not_false le_rfl rfl
  | watched event =>
      cases stepped
      exact .of_check not_false le_rfl rfl
  | fsEvent reads =>
      rw [Peer.next, Peer.step] at stepped
      split at stepped
      · exact absurd stepped (Option.some_ne_none peer).symm
      · rename_i event rest queue
        dsimp only at stepped
        split at stepped
        · cases stepped
          exact .of_watch not_false le_rfl rfl
        · cases event with
          | removed removed =>
              cases stepped
              exact .of_watch not_false le_rfl rfl
          | created touched | modified touched =>
              obtain ⟨instant, guard⟩ := @handleTouched_watch _ _ ctx
                { before.peer with watch := { before.peer.watch with fsQueue := rest } } reads
                touched
              rw [Peer.handleFsEvent] at stepped
              cases stepped
              exact .of_check not_false (le_of_eq instant.symm) guard
  | notified source notification device =>
      rw [Peer.next, Peer.step] at stepped
      cases pulls : ctx.noPull with
      | true =>
          rw [pulls, if_pos rfl] at stepped
          cases stepped
          refine .of_watch (fun marks => ?_) le_rfl rfl
          cases notification with
          | fileChanged => exact absurd (marks.1.symm.trans pulls) Bool.false_ne_true
          | fileDeleted | peerJoined => exact marks
      | false =>
          rw [pulls, if_neg Bool.false_ne_true] at stepped
          cases stepped
          exact remarks_notified pulls before
  | discovered source =>
      cases stepped
      exact .of_watch not_false le_rfl rfl
  | respond number response =>
      rw [Peer.next, Peer.step] at stepped
      obtain ⟨⟨_, _⟩, mapped, rfl⟩ := Option.map_eq_some_iff.mp stepped
      obtain ⟨entry, _, mapped⟩ := Option.bind_eq_some_iff.mp mapped
      obtain ⟨stage, _, same⟩ := Option.map_eq_some_iff.mp mapped
      cases same
      exact .of_watch not_false le_rfl rfl
  | resume number device =>
      obtain ⟨_, cases⟩ := Peer.next_cases stepped
      cases cases with
      | quiet _ watch idle => exact absurd idle Bool.false_ne_true
      | resumed _ _ entry ran entry' found taken =>
          have unready : ∀ fetch data, entry.stage ≠ .loaded fetch data := by
            intro fetch data stage
            rw [Peer.resumesWrite, found, Option.any_some, Task.ready, stage] at elsewhere
            exact absurd elsewhere.symm Bool.false_ne_true
          cases Peer.run_cases taken with
          | failed fetch data _ _ ready => exact absurd ready (unready fetch data)
          | wrote fetch data _ _ ready => exact absurd ready (unready fetch data)
          | _ => exact .of_watch not_false le_rfl rfl

/-- **What a step does to a mark.** -/
theorem remarks_step {act : SplitAct ι} (stepped : step ctx before act = some after) :
    Remarks ctx path before act after := by
  cases act with
  | act act =>
      obtain ⟨elsewhere, peer, taken, rfl⟩ := step_act stepped
      exact remarks_act elsewhere taken
  | mark number device =>
      obtain ⟨fetch, data, ready, same⟩ := step_mark stepped
      have watch : after.peer.watch = (before.peer.markWrite fetch.path.rel).watch := by rw [same]
      refine ⟨le_of_eq (by rw [watch]; rfl), fun marks => ?_, fun unmarked => Or.inl ?_⟩
      · obtain ⟨fetch', data', ready', here⟩ := marks
        cases ready.symm.trans ready'
        rw [watch]
        exact EventGuard.lookup_mark.trans (if_pos here.symm)
      · rw [watch]
        exact EventGuard.lookup_mark.trans (if_neg fun here =>
          unmarked ⟨fetch, data, ready, here.symm⟩)
  | write number device =>
      obtain ⟨_, _, _, same, _⟩ := step_write stepped
      exact .of_watch not_false (le_of_eq (by rw [same])) (by rw [same])

/-- The marks of a path that a run made, as far as the guard still has to know of them. -/
structure Remembers (ctx : Ctx ι) (path : RelPath) (trace : List (Split ι × SplitAct ι))
    (state : Split ι) : Prop where
  made : ∀ writtenAt, state.peer.watch.syncWriteGuard.lookup path = some writtenAt →
    ∃ entry ∈ trace, Marks ctx path entry.1 entry.2 ∧ entry.1.peer.watch.instant = writtenAt
  recent : ∀ entry ∈ trace, Marks ctx path entry.1 entry.2 →
    entry.1.peer.watch.instant ≤ state.peer.watch.instant ∧
      ((∃ writtenAt, state.peer.watch.syncWriteGuard.lookup path = some writtenAt ∧
          entry.1.peer.watch.instant ≤ writtenAt) ∨
        ctx.writeGuardTtl ≤ state.peer.watch.instant - entry.1.peer.watch.instant)

theorem Remembers.step {trace : List (Split ι × SplitAct ι)} {act : SplitAct ι}
    (remembers : Remembers ctx path trace before)
    (stepped : Split.step ctx before act = some after) :
    Remembers ctx path (trace ++ [(before, act)]) after := by
  have remarks : Remarks ctx path before act after := remarks_step stepped
  have last : (before, act) ∈ trace ++ [(before, act)] :=
    List.mem_append_right _ (List.mem_singleton_self _)
  refine ⟨fun writtenAt found => ?_, fun entry member marks => ?_⟩
  · by_cases marks : Marks ctx path before act
    · cases (remarks.marked marks).symm.trans found
      exact ⟨(before, act), last, marks, rfl⟩
    · rcases remarks.kept marks with same | ⟨gone, _⟩
      · obtain ⟨entry, member, made⟩ := remembers.made writtenAt (same.symm.trans found)
        exact ⟨entry, List.mem_append_left _ member, made⟩
      · exact absurd (found.symm.trans gone) (Option.some_ne_none writtenAt)
  · have later := remarks.later
    rcases List.mem_append.mp member with old | new
    · obtain ⟨past, known⟩ := remembers.recent entry old marks
      refine ⟨past.trans later, ?_⟩
      by_cases again : Marks ctx path before act
      · exact Or.inl ⟨_, remarks.marked again, past⟩
      · rcases known with ⟨writtenAt, found, before'⟩ | expired
        · rcases remarks.kept again with same | ⟨_, out⟩
          · exact Or.inl ⟨writtenAt, same.trans found, before'⟩
          · have out := out writtenAt found
            exact Or.inr (by omega)
        · exact Or.inr (by omega)
    · rw [List.mem_singleton.mp new] at marks ⊢
      exact ⟨later, Or.inl ⟨_, remarks.marked marks, le_rfl⟩⟩

/-- **The guard drops the events of a path** for a while after each mark of it, whoever
causes them. -/
theorem guards_iff {disk : Disk} {patterns : List Str} {now : Nat} {first : Peer ι}
    {last : Split ι} {trace : List (Split ι × SplitAct ι)}
    (started : Peer.start ctx disk patterns now = some first)
    (run : Run (Split.step ctx) ⟨first, []⟩ trace last) :
    last.peer.guards ctx path = true ↔ ∃ entry ∈ trace, Marks ctx path entry.1 entry.2 ∧
      last.peer.watch.instant - entry.1.peer.watch.instant < ctx.writeGuardTtl := by
  have empty : first.watch.syncWriteGuard = ∅ := by
    obtain ⟨index, _, rfl⟩ := Option.map_eq_some_iff.mp started
    rfl
  have remembers : Remembers ctx path trace last :=
    run.history (Remembers ctx path) (fun _ _ _ => True) (fun _ _ _ _ => trivial)
      ⟨fun writtenAt found => absurd found (by simp [empty]),
        fun entry absent => absurd absent List.not_mem_nil⟩
      fun _ _ _ _ held _ stepped => held.step stepped
  rw [Peer.guards, EventGuard.isSuppressed_iff]
  constructor
  · rintro ⟨writtenAt, found, recent⟩
    obtain ⟨entry, member, marks, rfl⟩ := remembers.made writtenAt found
    exact ⟨entry, member, marks, recent⟩
  · rintro ⟨entry, member, marks, recent⟩
    obtain ⟨_, ⟨writtenAt, found, past⟩ | expired⟩ := remembers.recent entry member marks
    · exact ⟨writtenAt, found, by omega⟩
    · omega

/-! ## Contents -/

omit [Blake3] in
/-- A deletion takes away the file at its path. -/
theorem read_deleted {tombstone : Tombstone} {safe : SafePath} (peer : Peer ι)
    (named : SafePath.of? tombstone.path = some safe)
    (foreign : tombstone.deletedBy ≠ ctx.localId) :
    (if peer.disk.pathExists safe.rel && device.removes then
      (peer.disk.removeFile safe.rel).getD peer.disk else peer.disk).read path =
        if deletes ctx path peer device tombstone then none else peer.disk.read path := by
  rw [deletes, named, Option.any_some, decide_eq_true foreign, Bool.true_and]
  cases device.removes with
  | false => rw [Bool.and_false, Bool.false_and, if_neg Bool.false_ne_true,
      if_neg Bool.false_ne_true]
  | true =>
      rw [Bool.and_true, Bool.true_and]
      by_cases here : safe.rel = path
      · subst here
        rw [decide_eq_true rfl, Bool.true_and]
        cases removed : peer.disk.removeFile safe.rel with
        | none => rw [Option.getD_none, ite_self, Option.isSome_none, if_neg Bool.false_ne_true]
        | some disk =>
            obtain ⟨data, there⟩ := Disk.exists_read_of_removeFile removed
            rw [if_pos (Disk.pathExists_of_read there), Option.getD_some,
              Disk.read_removeFile removed, if_pos rfl, Option.isSome_some, if_pos rfl]
      · rw [decide_eq_false here, Bool.false_and, if_neg Bool.false_ne_true]
        split
        · cases removed : peer.disk.removeFile safe.rel with
          | none => rfl
          | some disk =>
              rw [Option.getD_some, Disk.read_removeFile removed, if_neg (Ne.symm here)]
        · rfl

omit [Blake3] in
/-- A file that loses is copied to its backup. -/
theorem read_backUp (peer : Peer ι) (lost : SafePath) (loser : PeerId) :
    (peer.backUp device lost loser).disk.read path =
      (if (lost.backup loser).rel = path then
        ((peer.disk.read lost.rel).bind device.copies.stored).filter fun content =>
          (peer.disk.write path content).isSome
      else none).or (peer.disk.read path) := by
  have absent : peer.disk.read lost.rel = none → (if (lost.backup loser).rel = path then
      ((peer.disk.read lost.rel).bind device.copies.stored).filter fun content =>
        (peer.disk.write path content).isSome else none) = none := by
    intro none
    rw [none, Option.bind_none, Option.filter_none, ite_self]
  rw [Peer.backUp]
  split
  · rw [Outcome.copy]
    cases found : peer.disk.read lost.rel with
    | none =>
        rw [found] at absent
        rw [absent rfl, Option.none_or]
    | some data =>
        rw [Option.bind_some]
        by_cases here : (lost.backup loser).rel = path
        · subst here
          rw [if_pos rfl]
          exact Outcome.read_write_self
        · rw [if_neg here, Option.none_or]
          exact Outcome.read_write_of_ne (Ne.symm here)
  · rename_i gone
    rw [absent, Option.none_or]
    by_contra found
    obtain ⟨data, there⟩ := Option.ne_none_iff_exists'.mp found
    exact gone (Disk.pathExists_of_read there)

omit [Blake3] in
/-- What a notification leaves. -/
theorem read_handleNotification (peer : Peer ι) (source : ι) (notification : SyncNotification) :
    (peer.handleNotification ctx device source notification).disk.read path =
      (notifiedLeaves ctx path peer device notification).getD (peer.disk.read path) := by
  cases notification with
  | peerJoined joined => rfl
  | fileDeleted tombstone =>
      have kept : (notifiedLeaves ctx path peer device (.fileDeleted tombstone)).getD
          (peer.disk.read path) =
            if deletes ctx path peer device tombstone then none else peer.disk.read path := by
        rw [notifiedLeaves]
        split <;> rfl
      rw [kept, Peer.handleNotification]
      by_cases own : tombstone.deletedBy = ctx.localId
      · rw [if_pos own, deletes, decide_eq_false (not_not_intro own)]
        rfl
      · rw [if_neg own]
        cases named : SafePath.of? tombstone.path with
        | none =>
            rw [deletes, named, Option.any_none, Bool.and_false]
            rfl
        | some safe => exact read_deleted peer named own
  | fileChanged raw hash chunks clock timestamp writer =>
      have kept : (notifiedLeaves ctx path peer device
          (.fileChanged raw hash chunks clock timestamp writer)).getD (peer.disk.read path) =
            (copied ctx path peer device raw clock timestamp writer).or (peer.disk.read path) := by
        rw [notifiedLeaves]
        cases copied ctx path peer device raw clock timestamp writer <;> rfl
      rw [kept, copied, Peer.handleNotification]
      cases named : SafePath.of? raw with
      | none =>
          rw [Option.bind_none, Option.none_or]
          split <;> rfl
      | some lost =>
          rw [Option.bind_some]
          dsimp only
          by_cases own : writer = ctx.localId
          · rw [if_pos own, if_neg fun all => all.1 own, Option.none_or]
          · rw [if_neg own]
            cases resolve (peer.index.clockOf lost.rel) clock (peer.index.lastModifiedOf lost.rel)
                timestamp writer ctx.localId with
            | accept => rw [if_neg fun all => Resolution.noConfusion all.2.2]; rfl
            | reject => rw [if_neg fun all => Resolution.noConfusion all.2.2]; rfl
            | conflict loser =>
                by_cases lostHere : loser = ctx.localId
                · subst lostHere
                  dsimp only
                  rw [if_pos rfl]
                  simp only [ne_eq, own, not_false_eq_true, true_and, and_true]
                  exact read_backUp peer lost ctx.localId
                · dsimp only
                  rw [if_neg lostHere,
                    if_neg fun all => lostHere (Resolution.conflict.inj all.2.2)]
                  rfl

/-- **What a step leaves at a path.** -/
theorem read_step {act : SplitAct ι} (stepped : step ctx before act = some after) :
    after.peer.disk.read path =
      (leaves ctx path before act).getD (before.peer.disk.read path) := by
  cases act with
  | act act =>
      obtain ⟨elsewhere, peer, taken, rfl⟩ := step_act stepped
      obtain ⟨_, cases⟩ := Peer.next_cases taken
      cases act with
      | user disk =>
          cases taken
          rfl
      | notified source notification device =>
          cases taken
          rw [leaves]
          cases ctx.noPull with
          | true => rfl
          | false => exact read_handleNotification ..
      | resume number device =>
          rcases cases.read path with same | rewrites
          · exact same
          · generalize peer.disk.read path = content at rewrites
            cases rewrites with
            | written _ _ task fetch data content found ready =>
                rw [Peer.resumesWrite, found, Option.any_some, Task.ready, ready] at elsewhere
                exact absurd elsewhere.symm Bool.false_ne_true
      | _ =>
          rcases cases.read path with same | rewrites
          · exact same
          · exact nomatch rewrites
  | mark number device =>
      obtain ⟨fetch, data, _, same⟩ := step_mark stepped
      rw [same]
      exact Peer.makeParents_read device fetch.path.rel path
  | write number device =>
      obtain ⟨fetch, data, ready, _, same⟩ := step_write stepped
      have left : leaves ctx path before (.write number device) =
          (wrote path before (.write number device)).map some := rfl
      rw [same, left, wrote, ready, Option.bind_some]
      dsimp only
      by_cases here : fetch.path.rel = path
      · subst here
        rw [if_pos rfl, Outcome.read_write_self]
        cases (device.writes.stored data).filter fun content =>
          (before.peer.disk.write fetch.path.rel content).isSome <;> rfl
      · rw [if_neg here]
        exact Outcome.read_write_of_ne (Ne.symm here)

omit [Blake3] in
theorem lastLeft_snoc (first : Split ι) (trace : List (Split ι × SplitAct ι))
    (entry : Split ι × SplitAct ι) :
    lastLeft ctx path first (trace ++ [entry]) =
      (leaves ctx path entry.1 entry.2).getD (lastLeft ctx path first trace) := by
  rw [lastLeft, List.foldl_append]
  rfl

/-- **A path holds what the last of all left there.** -/
theorem lastLeft_eq {first last : Split ι} {trace : List (Split ι × SplitAct ι)}
    (run : Run (step ctx) first trace last) :
    lastLeft ctx path first trace = last.peer.disk.read path := by
  refine run.history (fun trace state => lastLeft ctx path first trace = state.peer.disk.read path)
    (fun _ _ _ => True) (fun _ _ _ _ => trivial) rfl fun trace before act after held _ stepped => ?_
  rw [lastLeft_snoc, held, read_step stepped]

/-- **The write guard hides only the engine's own writes** exactly when every event that
comes a short while after a mark comes while the path has what a fetch last wrote: no user,
deletion or backup came to it after that, or they left the same bytes. -/
theorem hidesOwn_iff {disk : Disk} {patterns : List Str} {now : Nat} {first : Peer ι}
    {last : Split ι} {trace : List (Split ι × SplitAct ι)}
    (started : Peer.start ctx disk patterns now = some first)
    (run : Run (step ctx) ⟨first, []⟩ trace last) :
    HidesOwn ctx path trace ↔ Undisturbed ctx path ⟨first, []⟩ trace := by
  have holds : ∀ earlier entry later, trace = earlier ++ entry :: later →
      (HoldsOwn path earlier entry.1 ↔ ∃ data, lastLeft ctx path ⟨first, []⟩ earlier = some data ∧
        lastWrote path earlier = some data) := by
    intro earlier entry later split
    rw [lastLeft_eq (run.before split), HoldsOwn]
  have guarded : ∀ earlier entry later, trace = earlier ++ entry :: later →
      (entry.1.peer.guards ctx path = true ↔ ∃ mark ∈ earlier, Marks ctx path mark.1 mark.2 ∧
        entry.1.peer.watch.instant - mark.1.peer.watch.instant < ctx.writeGuardTtl) :=
    fun earlier entry later split => guards_iff started (run.before split)
  constructor
  · intro hides earlier entry later split comes recent
    exact (holds earlier entry later split).mp
      (hides earlier entry later split ⟨comes, (guarded earlier entry later split).mpr recent⟩)
  · intro undisturbed earlier entry later split dropped
    exact (holds earlier entry later split).mpr
      (undisturbed earlier entry later split dropped.1
        ((guarded earlier entry later split).mp dropped.2))

/-- A dropped event reaches neither the index nor the other peers. -/
theorem frame_of_drops {act : Act ι} {peer : Peer ι} {published : Option SyncNotification}
    (dropped : Drops ctx path before (.act act))
    (stepped : before.peer.step ctx act = some (peer, published)) :
    peer.index = before.peer.index ∧ published = none ∧
      ∀ event ∈ peer.watch.fsQueue, event ∈ before.peer.watch.fsQueue := by
  obtain ⟨comes, guarded⟩ := dropped
  have guarded : (before.peer.watch.syncWriteGuard.isSuppressed path before.peer.watch.instant
      ctx.writeGuardTtl).1 = true := guarded
  cases act with
  | watched event =>
      obtain rfl : event.path = path := comes
      rw [Peer.step] at stepped
      dsimp only at stepped
      rw [if_pos guarded] at stepped
      cases stepped
      exact ⟨rfl, rfl, fun event member => member⟩
  | fsEvent reads =>
      obtain ⟨pushing, head⟩ := comes
      rw [Peer.step] at stepped
      split at stepped
      · exact absurd stepped (Option.some_ne_none _).symm
      · rename_i event rest queue
        have touched : event = .created path ∨ event = .modified path := by
          rw [queue] at head
          simpa using head
        have handled : ({ before.peer with watch := { before.peer.watch with
            fsQueue := rest } }.handleTouched ctx reads path) =
              (⟨before.peer.index, before.peer.disk, before.peer.tasks, before.peer.now,
                { before.peer.watch with fsQueue := rest }⟩, none) := by
          rw [Peer.handleTouched]
          dsimp only
          rw [if_pos guarded, EventGuard.guard_of_isSuppressed guarded]
        dsimp only at stepped
        rw [if_neg (Bool.eq_false_iff.mp pushing)] at stepped
        have same : some (peer, published) = some _ :=
          stepped.symm.trans (congrArg some (by
            rcases touched with rfl | rfl <;> exact handled))
        cases same
        refine ⟨rfl, rfl, fun event member => ?_⟩
        rw [queue]
        exact List.mem_cons_of_mem _ member
  | _ => exact comes.elim

end Split

/-! ## Concrete runs -/

namespace Sample

/-- Events of a file are dropped for five units of time after a mark. -/
def guarding : Ctx Site := { ctx .one with writeGuardTtl := 5 }

attribute [local instance] blake3

/-- A newer version of `f` is accepted, fetched and written. -/
def fetchesNewer : List (SplitAct Site) :=
  [.act (.notified .two (.fileChanged ['f'] (Blake3.hash []) (Chunk.metadata [7] 2)
      (VectorClock.new.tick (peerId 2)) 5 (peerId 2)) {}),
    .act (.respond 0 (some (.chunks ['f'] [(0, [7])]))),
    .act (.resume 0 {}), .mark 0 {}, .write 0 {}, .act (.resume 0 {}), .act (.elapse 1)]

end Sample

namespace Split

attribute [local instance] Sample.blake3

/-- The user deletes a file a short while after it was fetched, and the event is dropped. -/
theorem exists_deletion_hidden :
    ∃ trace last,
      Peer.start Sample.guarding (Sample.folder [1]) [] 10 = some (Sample.peer .one [1]) ∧
      Run (step Sample.guarding) ⟨Sample.peer .one [1], []⟩ trace last ∧
      trace.map Prod.snd = Sample.fetchesNewer ++
        [.act (.user (.dir [])), .act (.watched (.removed Sample.path))] ∧
      ¬ HidesOwn Sample.guarding Sample.path trace := by
  obtain ⟨trace, last, run, acts, passed⟩ :=
    @exists_run_of_any _ _ (step Sample.guarding) ⟨Sample.peer .one [1], []⟩
      (Sample.fetchesNewer ++ [.act (.user (.dir []))])
      (fun last => decide (last.peer.guards Sample.guarding Sample.path = true ∧
        last.peer.disk.read Sample.path = none)) (by decide +kernel)
  obtain ⟨guarded, gone⟩ := of_decide_eq_true passed
  have stepped : ∃ after, step Sample.guarding last (.act (.watched (.removed Sample.path))) =
      some after := ⟨_, rfl⟩
  obtain ⟨after, stepped⟩ := stepped
  refine ⟨_, after, rfl, run.snoc stepped, by simp [acts], fun hides => ?_⟩
  obtain ⟨data, here, _⟩ := hides trace (last, _) [] rfl ⟨rfl, guarded⟩
  exact absurd (gone.symm.trans here) (Option.some_ne_none data).symm

/-- An event comes while the file has what was last written to it. -/
def undisturbed (earlier : List (Split Sample.Site × SplitAct Sample.Site))
    (entry : Split Sample.Site × SplitAct Sample.Site) : Bool :=
  match entry.2 with
  | .act (.watched _) | .act (.fsEvent _) =>
      decide (lastLeft Sample.guarding Sample.path ⟨Sample.peer .one [1], []⟩ earlier = some [7] ∧
        lastWrote Sample.path earlier = some [7])
  | _ => true

/-- The event of a fetched file is dropped. -/
theorem hidesOwn_iff_sample :
    ∃ trace last, Run (step Sample.guarding) ⟨Sample.peer .one [1], []⟩ trace last ∧
      trace.map Prod.snd = Sample.fetchesNewer ++ [.act (.watched (.modified Sample.path))] ∧
      last.peer.guards Sample.guarding Sample.path = true ∧
      HidesOwn Sample.guarding Sample.path trace := by
  obtain ⟨trace, last, run, acts, passed, guarded⟩ :=
    @exists_history_run _ _ (step Sample.guarding) ⟨Sample.peer .one [1], []⟩
      (Sample.fetchesNewer ++ [.act (.watched (.modified Sample.path))]) undisturbed
      (fun _ last => last.peer.guards Sample.guarding Sample.path) (by decide +kernel)
  have started : Peer.start Sample.guarding (Sample.folder [1]) [] 10 =
      some (Sample.peer .one [1]) := rfl
  refine ⟨trace, last, run, acts, guarded,
    (hidesOwn_iff started run).mpr fun earlier entry later split comes _ => ?_⟩
  have held := passed earlier entry later split
  obtain ⟨state, act⟩ := entry
  cases act with
  | act act =>
      cases act with
      | watched | fsEvent => exact ⟨[7], of_decide_eq_true held⟩
      | _ => exact comes.elim
  | mark | write => exact comes.elim

end Split

end P2Sync
