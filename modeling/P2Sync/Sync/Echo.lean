import P2Sync.Net.Watcher
import P2Sync.Sync.WriteGuard

/-!
# Echoes of remote changes

What a peer does to its folder for others is reported by its own watcher like anything else.
Nothing of it is meant to be published again.

A file that is written for another peer is marked, and its reports are dropped while the mark
is recent; a backup is passed by on account of its name (`Settled.step`). A file that is
removed for another peer is not marked, and a removal that reaches the engine is published
whatever removed the file. So nothing is echoed exactly when each removal that is reported
finds its path marked for another reason (`silent_iff`).
-/

set_option autoImplicit false

namespace P2Sync

/-- A peer with the reports that are on their way to the bridge, each with the time of the
change. -/
structure Echo (ι : Type) where
  peer : Peer ι
  reports : List (FsEvent × Nat)

/-- What can happen while no user is active. -/
inductive EchoAct (ι : Type) where
  | elapse (duration : Nat)
  | setTime (now : Nat)
  /-- The peer does something for others, and the operating system reports it. -/
  | remote (act : Act ι) (reported : List NotifyEvent)
  /-- The next report reaches the bridge. -/
  | bridge
  /-- The engine handles the next file event. -/
  | handle (reads : FsReads)

/-- Whether an action of a peer comes from others. -/
def Act.isRemote {ι : Type} : Act ι → Bool
  | .notified _ _ _ => true
  | .discovered _ => true
  | .respond _ _ => true
  | .resume _ _ => true
  | _ => false

def FsEvent.isRemoval : FsEvent → Bool
  | .created _ => false
  | .modified _ => false
  | .removed _ => true

namespace Peer

variable {ι : Type} (ctx : Ctx ι) (peer : Peer ι)

/-- The file that an action creates or changes, if it does so: the one a fetch writes, or the
backup of a losing file. -/
def writesTo : Act ι → Option RelPath
  | .resume task _ => (peer.tasks[task]?.bind Task.ready).map fun ready => ready.1.path.rel
  | .notified _ (.fileChanged path _ _ _ _ _) _ =>
      (SafePath.of? path).map fun path => (path.backup ctx.localId).rel
  | _ => none

/-- A file event is about a file that an action created, changed or removed. -/
def Causes [Blake3] (act : Act ι) : FsEvent → Prop
  | .created path => peer.writesTo ctx act = some path
  | .modified path => peer.writesTo ctx act = some path
  | .removed path => peer.disk.isFile path = true ∧
      (peer.next ctx act).any (fun after => !after.disk.isFile path) = true

instance decidableCauses [Blake3] (act : Act ι) : ∀ event, Decidable (peer.Causes ctx act event)
  | .created _ => inferInstanceAs (Decidable (_ = _))
  | .modified _ => inferInstanceAs (Decidable (_ = _))
  | .removed _ => inferInstanceAs (Decidable (_ ∧ _))

end Peer

namespace Peer

variable {ι : Type} [Blake3] {ctx : Ctx ι} {before after : Peer ι} {act : Act ι}

/-! ## Steps of the peer -/

/-- What a step does to a mark: it stays, is set anew, or is forgotten when it is old. -/
theorem lookup_of_next (stepped : before.next ctx act = some after) (path : RelPath) :
    before.watch.instant ≤ after.watch.instant ∧
      (after.watch.syncWriteGuard.lookup path = before.watch.syncWriteGuard.lookup path ∨
        after.watch.syncWriteGuard.lookup path = some before.watch.instant ∨
        after.watch.syncWriteGuard.lookup path = none ∧
          ∀ writtenAt, before.watch.syncWriteGuard.lookup path = some writtenAt →
            ctx.writeGuardTtl ≤ before.watch.instant - writtenAt) := by
  cases writes : before.resumesWrite act with
  | false =>
      have remarks := @Split.remarks_act ι _ ctx path ⟨before, []⟩ act after writes stepped
      refine ⟨remarks.later, ?_⟩
      by_cases marks : Split.Marks ctx path ⟨before, []⟩ (.act act)
      · exact Or.inr (Or.inl (remarks.marked marks))
      · exact (remarks.kept marks).imp_right Or.inr
  | true =>
      cases act with
      | resume number device =>
          obtain ⟨task, found, ready⟩ := (Option.any_eq_true _ _).mp writes
          rw [Task.ready] at ready
          split at ready
          · rename_i fetch data stage
            rw [next_loaded stepped found stage]
            refine ⟨le_rfl, ?_⟩
            by_cases same : path = fetch.path.rel
            · exact Or.inr (Or.inl (EventGuard.lookup_mark.trans (if_pos same)))
            · exact Or.inl (EventGuard.lookup_mark.trans (if_neg same))
          · exact absurd ready Bool.false_ne_true
      | _ => exact absurd writes Bool.false_ne_true

/-- A file that a step writes is marked then, or is a backup. -/
theorem marked_of_writesTo {path : RelPath} (stepped : before.next ctx act = some after)
    (writes : before.writesTo ctx act = some path) :
    conflictMark <:+: path.toStringLossy ∨
      after.watch.syncWriteGuard.lookup path = some before.watch.instant := by
  cases act with
  | resume number device =>
      obtain ⟨⟨fetch, data⟩, bound, rfl⟩ := Option.map_eq_some_iff.mp writes
      obtain ⟨task, found, ready⟩ := Option.bind_eq_some_iff.mp bound
      rw [Task.ready] at ready
      split at ready
      · rename_i stage
        cases ready
        rw [next_loaded stepped found stage]
        exact Or.inr (EventGuard.lookup_mark.trans (if_pos rfl))
      · exact absurd ready (Option.some_ne_none _).symm
  | notified source notification device =>
      cases notification with
      | fileChanged raw hash chunks clock timestamp writer =>
          obtain ⟨safe, -, rfl⟩ := Option.map_eq_some_iff.mp writes
          exact Or.inl (safe.backup_rel ctx.localId).2
      | _ => exact absurd writes (Option.some_ne_none _).symm
  | _ => exact absurd writes (Option.some_ne_none _).symm

/-- What others make a peer do queues no file event. -/
theorem fsQueue_of_isRemote (remote : act.isRemote = true)
    (stepped : before.next ctx act = some after) : after.watch.fsQueue = before.watch.fsQueue := by
  cases act with
  | notified source notification device =>
      rw [next, step] at stepped
      cases stepped
      split
      · rfl
      · cases notification with
        | peerJoined joined => rfl
        | fileDeleted tombstone =>
            rw [handleNotification]
            repeat' split
            all_goals rfl
        | fileChanged raw hash chunks clock timestamp writer =>
            rw [handleNotification]
            repeat' split
            all_goals first | rfl | rw [spawn, Split.backUp_watch]
  | discovered source =>
      cases stepped
      rfl
  | respond number response =>
      obtain ⟨published, cases⟩ := next_cases stepped
      cases cases with
      | quiet _ watch idle => exact absurd idle Bool.false_ne_true
      | answered => rfl
  | resume number device =>
      obtain ⟨task, found, -⟩ : ∃ task, before.tasks[number]? = some task ∧ True := by
        rw [next, step] at stepped
        obtain ⟨⟨_, _⟩, bound, -⟩ := Option.map_eq_some_iff.mp stepped
        obtain ⟨task, found, -⟩ := Option.bind_eq_some_iff.mp bound
        exact ⟨task, found, trivial⟩
      rw [next_resume found] at stepped
      obtain ⟨⟨ran, task'⟩, taken, rfl⟩ := Option.map_eq_some_iff.mp stepped
      rw [runTask] at taken
      repeat' split at taken
      all_goals first
        | exact absurd taken (Option.some_ne_none _).symm
        | (cases taken; rfl)
  | _ => exact absurd remote Bool.false_ne_true

/-- Nor does it publish anything. -/
theorem published_of_isRemote {published : Option SyncNotification} (remote : act.isRemote = true)
    (stepped : before.step ctx act = some (after, published)) : published = none := by
  cases step_cases stepped with
  | edited => exact absurd remote Bool.false_ne_true
  | erased => exact absurd remote Bool.false_ne_true
  | _ => rfl

/-- A handled event leaves the queue. -/
theorem fsQueue_of_fsEvent {reads : FsReads}
    (stepped : before.next ctx (.fsEvent reads) = some after) :
    ∃ event, before.watch.fsQueue = event :: after.watch.fsQueue := by
  rw [next, step] at stepped
  split at stepped
  · exact absurd stepped (Option.some_ne_none after).symm
  · rename_i event rest queue
    refine ⟨event, queue.trans (congrArg (event :: ·) ?_)⟩
    dsimp only at stepped
    split at stepped
    · cases stepped
      rfl
    · cases stepped
      cases event with
      | removed path => rfl
      | created path | modified path =>
          simp only [handleFsEvent, handleTouched]
          repeat' split
          all_goals rfl

/-- A handled removal is published, a backup is passed by. -/
theorem published_of_fsEvent {reads : FsReads} {event : FsEvent} {rest : List FsEvent}
    (pushing : ctx.noPush = false) (queue : before.watch.fsQueue = event :: rest)
    (backup : event.isRemoval = false → conflictMark <:+: event.path.toStringLossy) :
    (before.step ctx (.fsEvent reads)).any (fun stepped => stepped.2.isSome) =
      event.isRemoval := by
  rw [step, queue]
  dsimp only
  rw [pushing, if_neg Bool.false_ne_true, Option.any_some]
  let popped : Peer ι := { before with watch := { before.watch with fsQueue := rest } }
  have passed : ∀ path, conflictMark <:+: path.toStringLossy →
      (popped.handleTouched ctx reads path).2 = none := by
    intro path mark
    rcases @handleTouched_cases _ _ ctx popped reads path with ⟨-, watch, unchanged⟩ | ⟨picked, -⟩
    · rw [unchanged]
    · simp only [picksUp, Bool.and_eq_true, Bool.not_eq_true', decide_eq_false_iff_not] at picked
      exact absurd mark picked.1.1.1.2
  cases event with
  | removed path =>
      rw [handleFsEvent, SyncIndex.localFileDeleted, List.getLast?_append]
      rfl
  | created path | modified path =>
      rw [handleFsEvent, passed path (backup rfl)]
      rfl

end Peer

namespace Echo

variable {ι : Type} [Blake3] (ctx : Ctx ι) (root : RelPath) (state : Echo ι)

/-- One step, with the notification it publishes. -/
def step : EchoAct ι → Option (Echo ι × Option SyncNotification)
  | .elapse duration =>
      (state.peer.step ctx (.elapse duration)).map fun (peer, published) =>
        ({ state with peer := peer }, published)
  | .setTime now =>
      (state.peer.step ctx (.setTime now)).map fun (peer, published) =>
        ({ state with peer := peer }, published)
  | .remote act reported =>
      if act.isRemote then
        (state.peer.step ctx act).map fun (peer, published) =>
          ({ peer := peer
             reports := state.reports ++
               (reported.flatMap (watch root state.peer.index.excludePatterns)).map fun event =>
                 (event, state.peer.watch.instant) }, published)
      else none
  | .bridge =>
      match state.reports with
      | [] => none
      | (event, _) :: rest =>
          (state.peer.step ctx (.watched event)).map fun (peer, published) =>
            ({ peer := peer, reports := rest }, published)
  | .handle reads =>
      (state.peer.step ctx (.fsEvent reads)).map fun (peer, published) =>
        ({ state with peer := peer }, published)

/-- A step without what it publishes. -/
def next (state : Echo ι) (act : EchoAct ι) : Option (Echo ι) :=
  (state.step ctx root act).map Prod.fst

/-- The step publishes a notification. -/
def Publishes (act : EchoAct ι) : Prop :=
  (state.step ctx root act).any (fun stepped => stepped.2.isSome) = true

/-- Each file event is about a file that the action created, changed or removed, and a report
reaches the bridge while a mark that was made at the time of its change is recent. -/
def Prompt : EchoAct ι → Prop
  | .remote act reported =>
      ∀ event ∈ reported.flatMap (watch root state.peer.index.excludePatterns),
        state.peer.Causes ctx act event
  | .bridge => ∀ entry ∈ state.reports.head?,
      state.peer.watch.instant - entry.2 < ctx.writeGuardTtl
  | _ => True

instance decidablePublishes (act : EchoAct ι) : Decidable (state.Publishes ctx root act) :=
  inferInstanceAs (Decidable (_ = _))

instance decidablePrompt : ∀ act, Decidable (state.Prompt ctx root act)
  | .remote _ reported => inferInstanceAs (Decidable
      (∀ event ∈ reported.flatMap (watch root state.peer.index.excludePatterns), _))
  | .bridge => inferInstanceAs (Decidable (∀ entry ∈ state.reports.head?, _))
  | .elapse _ => isTrue trivial
  | .setTime _ => isTrue trivial
  | .handle _ => isTrue trivial

omit [Blake3] in
/-- The report of a removed file finds its path marked. -/
def Covered : EchoAct ι → Prop
  | .bridge => ∀ entry ∈ state.reports.head?, entry.1.isRemoval = true →
      state.peer.guards ctx entry.1.path = true
  | _ => True

/-- What is true all along a run of remote activity. -/
structure Settled : Prop where
  past : ∀ entry ∈ state.reports, entry.2 ≤ state.peer.watch.instant
  marked : ∀ entry ∈ state.reports, entry.1.isRemoval = false →
    conflictMark <:+: entry.1.path.toStringLossy ∨
      (∃ writtenAt, state.peer.watch.syncWriteGuard.lookup entry.1.path = some writtenAt ∧
        entry.2 ≤ writtenAt) ∨
      ctx.writeGuardTtl ≤ state.peer.watch.instant - entry.2
  queued : ∀ event ∈ state.peer.watch.fsQueue, event.isRemoval = false →
    conflictMark <:+: event.path.toStringLossy

variable {ctx root state} {after : Echo ι} {act : EchoAct ι}

/-! ## One step -/

theorem next_elapse (duration : Nat) : state.next ctx root (.elapse duration) =
    (state.peer.next ctx (.elapse duration)).map fun peer => { state with peer := peer } := rfl

theorem next_setTime (now : Nat) : state.next ctx root (.setTime now) =
    (state.peer.next ctx (.setTime now)).map fun peer => { state with peer := peer } := rfl

theorem next_handle (reads : FsReads) : state.next ctx root (.handle reads) =
    (state.peer.next ctx (.fsEvent reads)).map fun peer => { state with peer := peer } := by
  rw [next, step, Option.map_map, Peer.next, Option.map_map]
  rfl

theorem next_remote (act : Act ι) (reported : List NotifyEvent) :
    state.next ctx root (.remote act reported) =
      if act.isRemote = true then
        (state.peer.next ctx act).map fun peer =>
          { peer := peer
            reports := state.reports ++
              (reported.flatMap (watch root state.peer.index.excludePatterns)).map fun event =>
                (event, state.peer.watch.instant) }
      else none := by
  rw [next, step]
  split
  · rw [Option.map_map, Peer.next, Option.map_map]
    rfl
  · rfl

theorem next_bridge (stepped : state.next ctx root .bridge = some after) :
    ∃ event changed rest peer, state.reports = (event, changed) :: rest ∧
      state.peer.next ctx (.watched event) = some peer ∧
        after = { peer := peer, reports := rest } := by
  obtain ⟨⟨stepped', published⟩, taken, rfl⟩ := Option.map_eq_some_iff.mp stepped
  rw [step] at taken
  split at taken
  · exact absurd taken (Option.some_ne_none _).symm
  · rename_i event changed rest waiting
    cases taken
    exact ⟨event, changed, rest, _, waiting, rfl, rfl⟩

/-- What an action of the peer does to the reports that wait. -/
theorem Settled.later (settled : Settled ctx state) {peer : Peer ι} {act : Act ι}
    (stepped : state.peer.next ctx act = some peer) {entry : FsEvent × Nat}
    (member : entry ∈ state.reports) :
    entry.2 ≤ peer.watch.instant ∧ (entry.1.isRemoval = false →
      conflictMark <:+: entry.1.path.toStringLossy ∨
        (∃ writtenAt, peer.watch.syncWriteGuard.lookup entry.1.path = some writtenAt ∧
          entry.2 ≤ writtenAt) ∨ ctx.writeGuardTtl ≤ peer.watch.instant - entry.2) := by
  obtain ⟨later, mark⟩ := Peer.lookup_of_next stepped entry.1.path
  have past := settled.past entry member
  refine ⟨past.trans later, fun touched => ?_⟩
  rcases settled.marked entry member touched with backup | ⟨writtenAt, found, before⟩ | overdue
  · exact Or.inl backup
  · rcases mark with same | anew | ⟨-, old⟩
    · exact Or.inr (Or.inl ⟨writtenAt, same.trans found, before⟩)
    · exact Or.inr (Or.inl ⟨_, anew, past⟩)
    · have old := old writtenAt found
      exact Or.inr (Or.inr (by omega))
  · exact Or.inr (Or.inr (by omega))

omit [Blake3] in
/-- What reaches the engine from the bridge is a removal or a backup. -/
theorem Settled.bridged (settled : Settled ctx state) {event : FsEvent} {changed : Nat}
    {rest : List (FsEvent × Nat)} (waiting : state.reports = (event, changed) :: rest)
    (prompt : state.peer.watch.instant - changed < ctx.writeGuardTtl)
    (passes : state.peer.guards ctx event.path = false) (touched : event.isRemoval = false) :
    conflictMark <:+: event.path.toStringLossy := by
  have member : (event, changed) ∈ state.reports := by rw [waiting]; exact List.mem_cons_self
  rcases settled.marked _ member touched with backup | ⟨writtenAt, found, before⟩ | overdue
  · exact backup
  · have dropped : state.peer.guards ctx event.path = true :=
      EventGuard.isSuppressed_iff.mpr ⟨writtenAt, found, by omega⟩
    exact absurd (dropped.symm.trans passes) Bool.noConfusion
  · exact absurd prompt (Nat.not_lt.mpr overdue)

theorem fsQueue_of_watched {peer : Peer ι} {event : FsEvent}
    (stepped : state.peer.next ctx (.watched event) = some peer) :
    peer.watch.fsQueue = if state.peer.guards ctx event.path = true then
      state.peer.watch.fsQueue else state.peer.watch.fsQueue ++ [event] := by
  cases stepped
  rfl

/-- **One step of remote activity.** -/
theorem Settled.step (settled : Settled ctx state) (prompt : state.Prompt ctx root act)
    (stepped : state.next ctx root act = some after) : Settled ctx after := by
  cases act with
  | elapse duration =>
      rw [next_elapse] at stepped
      obtain ⟨peer, moved, rfl⟩ := Option.map_eq_some_iff.mp stepped
      refine ⟨fun entry member => (settled.later moved member).1,
        fun entry member => (settled.later moved member).2, ?_⟩
      cases moved
      exact settled.queued
  | setTime now =>
      rw [next_setTime] at stepped
      obtain ⟨peer, moved, rfl⟩ := Option.map_eq_some_iff.mp stepped
      cases moved
      exact ⟨settled.past, settled.marked, settled.queued⟩
  | remote act reported =>
      rw [next_remote, Option.ite_none_right_eq_some] at stepped
      obtain ⟨remote, stepped⟩ := stepped
      obtain ⟨peer, moved, rfl⟩ := Option.map_eq_some_iff.mp stepped
      refine ⟨fun entry member => ?_, fun entry member touched => ?_, ?_⟩
      · rcases List.mem_append.mp member with old | new
        · exact (settled.later moved old).1
        · obtain ⟨event, -, rfl⟩ := List.mem_map.mp new
          exact (Peer.lookup_of_next moved event.path).1
      · rcases List.mem_append.mp member with old | new
        · exact (settled.later moved old).2 touched
        · obtain ⟨event, listed, rfl⟩ := List.mem_map.mp new
          have writes : state.peer.writesTo ctx act = some event.path := by
            have caused := prompt event listed
            cases event with
            | created path | modified path => exact caused
            | removed path => exact absurd touched.symm Bool.false_ne_true
          exact (Peer.marked_of_writesTo moved writes).imp_right fun marked =>
            Or.inl ⟨_, marked, le_rfl⟩
      · dsimp only
        rw [Peer.fsQueue_of_isRemote remote moved]
        exact settled.queued
  | bridge =>
      obtain ⟨event, changed, rest, peer, waiting, moved, rfl⟩ := next_bridge stepped
      have older : ∀ entry ∈ rest, entry ∈ state.reports := fun entry member => by
        rw [waiting]
        exact List.mem_cons_of_mem _ member
      refine ⟨fun entry member => (settled.later moved (older entry member)).1,
        fun entry member => (settled.later moved (older entry member)).2, ?_⟩
      intro other member touched
      dsimp only at member
      rw [fsQueue_of_watched moved] at member
      split at member
      · exact settled.queued other member touched
      · rename_i passes
        rcases List.mem_append.mp member with old | new
        · exact settled.queued other old touched
        · rw [List.mem_singleton.mp new] at touched ⊢
          exact settled.bridged waiting (prompt (event, changed) (by rw [waiting]; rfl))
            (Bool.eq_false_iff.mpr passes) touched
  | handle reads =>
      rw [next_handle] at stepped
      obtain ⟨peer, moved, rfl⟩ := Option.map_eq_some_iff.mp stepped
      refine ⟨fun entry member => (settled.later moved member).1,
        fun entry member => (settled.later moved member).2, fun event member touched => ?_⟩
      obtain ⟨first, queue⟩ := Peer.fsQueue_of_fsEvent moved
      exact settled.queued event (by rw [queue]; exact List.mem_cons_of_mem _ member) touched

/-- A removal waits for the engine. -/
def Removes (state : Echo ι) : Prop :=
  ∃ event ∈ state.peer.watch.fsQueue, event.isRemoval = true

omit [Blake3] in
theorem removes_of_fsQueue {first second : Echo ι}
    (same : first.peer.watch.fsQueue = second.peer.watch.fsQueue) :
    Removes first ↔ Removes second := by
  rw [Removes, Removes, same]

/-- **What is published comes from a removal that is not covered.** -/
theorem publishes_step (pushing : ctx.noPush = false) (settled : Settled ctx state)
    (stepped : state.next ctx root act = some after) :
    (Removes after ∨ state.Publishes ctx root act) ↔ Removes state ∨ ¬ state.Covered ctx act := by
  cases act with
  | elapse duration =>
      have silent : ¬ state.Publishes ctx root (.elapse duration) := Bool.false_ne_true
      have covered : state.Covered ctx (.elapse duration) := trivial
      rw [next_elapse] at stepped
      obtain ⟨peer, moved, rfl⟩ := Option.map_eq_some_iff.mp stepped
      rw [or_iff_left silent, or_iff_left (not_not.mpr covered)]
      cases moved
      exact Iff.rfl
  | setTime now =>
      have silent : ¬ state.Publishes ctx root (.setTime now) := Bool.false_ne_true
      have covered : state.Covered ctx (.setTime now) := trivial
      rw [next_setTime] at stepped
      obtain ⟨peer, moved, rfl⟩ := Option.map_eq_some_iff.mp stepped
      rw [or_iff_left silent, or_iff_left (not_not.mpr covered)]
      cases moved
      exact Iff.rfl
  | remote act reported =>
      have silent : ¬ state.Publishes ctx root (.remote act reported) := by
        intro publishes
        obtain ⟨⟨echo, published⟩, taken, shown⟩ := (Option.any_eq_true _ _).mp publishes
        rw [step, Option.ite_none_right_eq_some] at taken
        obtain ⟨remote, taken⟩ := taken
        obtain ⟨⟨peer, published'⟩, moved, same⟩ := Option.map_eq_some_iff.mp taken
        cases same
        rw [Peer.published_of_isRemote remote moved] at shown
        exact absurd shown Bool.false_ne_true
      rw [next_remote, Option.ite_none_right_eq_some] at stepped
      obtain ⟨remote, stepped⟩ := stepped
      obtain ⟨peer, moved, rfl⟩ := Option.map_eq_some_iff.mp stepped
      have covered : state.Covered ctx (.remote act reported) := trivial
      rw [or_iff_left silent, or_iff_left (not_not.mpr covered)]
      exact removes_of_fsQueue (Peer.fsQueue_of_isRemote remote moved)
  | bridge =>
      obtain ⟨event, changed, rest, peer, waiting, moved, rfl⟩ := next_bridge stepped
      have silent : ¬ state.Publishes ctx root .bridge := by
        intro publishes
        rw [Publishes, step, waiting] at publishes
        exact absurd publishes Bool.false_ne_true
      have covered : state.Covered ctx .bridge ↔
          (event.isRemoval = true → state.peer.guards ctx event.path = true) := by
        rw [Covered, waiting]
        simp
      rw [or_iff_left silent, covered, Removes, Removes]
      dsimp only
      rw [fsQueue_of_watched moved]
      split
      · rename_i dropped
        simp [dropped]
      · rename_i passes
        simp [passes, or_and_right, exists_or]
  | handle reads =>
      rw [next_handle] at stepped
      obtain ⟨peer, moved, rfl⟩ := Option.map_eq_some_iff.mp stepped
      obtain ⟨event, queue⟩ := Peer.fsQueue_of_fsEvent moved
      have shows : state.Publishes ctx root (.handle reads) ↔ event.isRemoval = true := by
        rw [← Peer.published_of_fsEvent pushing queue fun touched => settled.queued event
          (by rw [queue]; exact List.mem_cons_self) touched]
        rw [Publishes, step]
        cases state.peer.step ctx (.fsEvent reads) <;> rfl
      have covered : state.Covered ctx (.handle reads) := trivial
      rw [shows, or_iff_left (not_not.mpr covered), Removes, Removes, queue]
      simp only [List.exists_mem_cons_iff]
      exact or_comm

/-! ## Whole runs -/

/-- **Nothing is published** in a run of remote activity exactly when every removal that is
reported is covered by a mark. -/
theorem silent_iff {first last : Echo ι} {trace : List (Echo ι × EchoAct ι)}
    (pushing : ctx.noPush = false) (quiet : first.peer.watch.fsQueue = [])
    (unreported : first.reports = []) (run : Run (next ctx root) first trace last)
    (prompt : ∀ entry ∈ trace, entry.1.Prompt ctx root entry.2)
    (idle : last.peer.watch.fsQueue = []) :
    (∀ entry ∈ trace, ¬ entry.1.Publishes ctx root entry.2) ↔
      ∀ entry ∈ trace, entry.1.Covered ctx entry.2 := by
  have both : Settled ctx last ∧
      ((Removes last ∨ ∃ entry ∈ trace, entry.1.Publishes ctx root entry.2) ↔
        ∃ entry ∈ trace, ¬ entry.1.Covered ctx entry.2) := by
    refine run.history
      (fun trace state => Settled ctx state ∧
        ((Removes state ∨ ∃ entry ∈ trace, entry.1.Publishes ctx root entry.2) ↔
          ∃ entry ∈ trace, ¬ entry.1.Covered ctx entry.2))
      (fun _ state act => state.Prompt ctx root act)
      (fun earlier entry later split => prompt entry (by simp [split])) ⟨?_, ?_⟩ ?_
    · refine ⟨?_, ?_, ?_⟩ <;> simp [quiet, unreported]
    · simp [Removes, quiet]
    · rintro trace before act after ⟨settled, published⟩ allowed stepped
      refine ⟨settled.step allowed stepped, ?_⟩
      have now := publishes_step pushing settled stepped
      simp only [List.mem_append, List.mem_singleton, or_and_right, exists_or, exists_eq_left]
      rw [← published, ← or_assoc, or_right_comm, now]
      exact or_right_comm
  have none : ¬ Removes last := by
    rintro ⟨event, member, -⟩
    rw [idle] at member
    exact List.not_mem_nil member
  have published := both.2
  rw [or_iff_right none] at published
  have contrary := not_congr published
  push Not at contrary
  exact contrary

end Echo

/-! ## Concrete runs -/

namespace Sample

attribute [local instance] blake3

/-- Another peer deletes `f`, and the removal is reported and handled at once. -/
def deletesRemotely : List (EchoAct Site) :=
  [.remote (.notified .two (.fileDeleted ⟨['f'], peerId 2, .new, 20⟩) {}) [⟨.remove, [path]⟩],
    .bridge, .handle ⟨false, none, none⟩]

/-- A newer version of `f` is fetched, and the write is reported at once. -/
def fetchesRemotely : List (EchoAct Site) :=
  [.remote (.notified .two (.fileChanged ['f'] (Blake3.hash []) (Chunk.metadata [7] 2)
      (VectorClock.new.tick (peerId 2)) 5 (peerId 2)) {}) [],
    .remote (.respond 0 (some (.chunks ['f'] [(0, [7])]))) [], .remote (.resume 0 {}) [],
    .remote (.resume 0 {}) [⟨.modify, [path]⟩], .bridge, .remote (.resume 0 {}) []]

end Sample

namespace Echo

attribute [local instance] Sample.blake3

/-- A deletion by another peer is published as one of this peer. -/
theorem exists_deletion_echoed :
    ∃ trace last, Run (next Sample.guarding []) ⟨Sample.peer .one [1], []⟩ trace last ∧
      trace.map Prod.snd = Sample.deletesRemotely ∧
      (∀ entry ∈ trace, entry.1.Prompt Sample.guarding [] entry.2) ∧
      last.peer.watch.fsQueue = [] ∧ last.reports = [] ∧
      ∃ entry ∈ trace, entry.1.Publishes Sample.guarding [] entry.2 := by
  obtain ⟨trace, last, run, acts, prompt, final⟩ :=
    @exists_history_run _ _ (next Sample.guarding []) ⟨Sample.peer .one [1], []⟩
      Sample.deletesRemotely (fun _ entry => decide (entry.1.Prompt Sample.guarding [] entry.2))
      (fun trace last => decide (last.peer.watch.fsQueue = []) && last.reports.isEmpty &&
        trace.any fun entry => decide (entry.1.Publishes Sample.guarding [] entry.2))
      (by decide +kernel)
  simp only [Bool.and_eq_true, decide_eq_true_eq, List.isEmpty_iff, List.any_eq_true] at final
  refine ⟨trace, last, run, acts, fun entry member => ?_, final.1.1, final.1.2, final.2⟩
  obtain ⟨earlier, later, split⟩ := List.append_of_mem member
  exact of_decide_eq_true (prompt earlier entry later split)

/-- A fetched file is not published again. -/
theorem silent_iff_sample :
    ∃ trace last, Run (next Sample.guarding []) ⟨Sample.peer .one [1], []⟩ trace last ∧
      trace.map Prod.snd = Sample.fetchesRemotely ∧
      ∀ entry ∈ trace, ¬ entry.1.Publishes Sample.guarding [] entry.2 := by
  obtain ⟨trace, last, run, acts, prompt, final⟩ :=
    @exists_checked_run _ _ (next Sample.guarding [])
      (fun state act => decide (state.Prompt Sample.guarding [] act) &&
        state.reports.all fun entry => !entry.1.isRemoval) ⟨Sample.peer .one [1], []⟩
      Sample.fetchesRemotely (fun last => decide (last.peer.watch.fsQueue = []))
      (by decide +kernel)
  have checked : ∀ entry ∈ trace, entry.1.Prompt Sample.guarding [] entry.2 ∧
      ∀ report ∈ entry.1.reports, report.1.isRemoval = false := by
    intro entry member
    simpa using prompt entry member
  refine ⟨trace, last, run, acts, (silent_iff rfl rfl rfl run
    (fun entry member => (checked entry member).1) (of_decide_eq_true final)).mpr
      fun entry member => ?_⟩
  cases act : entry.2 with
  | bridge =>
      intro report first removal
      have waiting := List.mem_of_mem_head? first
      exact absurd (removal.symm.trans ((checked entry member).2 report waiting)) (by simp)
  | _ => trivial

end Echo

end P2Sync
