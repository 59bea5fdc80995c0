import P2Sync.Net.Start

/-!
# The watcher

The operating system reports changes of the folder with absolute paths. The watcher makes a
file event of each path below the root that no pattern excludes, by what kind of change it
was (`mem_watch_iff`); a bridge hands the events to the engine, unless the write guard drops
them.

A rename is reported as a modification of its two names. Nothing tells the engine
that there is no longer a file at the old one.
-/

set_option autoImplicit false

namespace P2Sync

/-- `notify::EventKind`. -/
inductive EventKind where
  | create
  | modify
  | remove
  /-- Accesses and what is not known more closely. -/
  | other
deriving DecidableEq

/-- An event of the operating system, with absolute paths. -/
structure NotifyEvent where
  kind : EventKind
  paths : List RelPath
deriving DecidableEq

/-- `Path::strip_prefix`. -/
def stripPrefix (root path : RelPath) : Option RelPath :=
  if root <+: path then some (path.drop root.length) else none

/-- Whether a name of a path is one of the patterns. -/
def shouldSkip (path : RelPath) (exclude : List Str) : Bool :=
  path.any fun name => exclude.any fun pattern => name.toStringLossy == pattern

/-- The file event for a path by the kind of its change. -/
def EventKind.toFsEvent (path : RelPath) : EventKind → Option FsEvent
  | .create => some (.created path)
  | .modify => some (.modified path)
  | .remove => some (.removed path)
  | .other => none

/-- The callback of `watch`. -/
def watch (root : RelPath) (exclude : List Str) (event : NotifyEvent) : List FsEvent :=
  event.paths.filterMap fun path =>
    (stripPrefix root path).bind fun rel =>
      if shouldSkip rel exclude then none else event.kind.toFsEvent rel

theorem stripPrefix_eq_some_iff {root path rel : RelPath} :
    stripPrefix root path = some rel ↔ path = root ++ rel := by
  rw [stripPrefix, Option.ite_none_right_eq_some, Option.some.injEq]
  constructor
  · rintro ⟨⟨rest, rfl⟩, rfl⟩
    rw [List.drop_left]
  · rintro rfl
    exact ⟨List.prefix_append root rel, List.drop_left⟩

/-- The watcher and the index exclude the same paths. -/
theorem shouldSkip_eq (path : RelPath) (patterns : List Str) :
    shouldSkip path patterns = shouldExclude path patterns := by
  rw [Bool.eq_iff_iff, shouldSkip, shouldExclude]
  simp only [List.any_eq_true]
  constructor
  · rintro ⟨name, member, pattern, listed, same⟩
    exact ⟨pattern, listed, name, member, same⟩
  · rintro ⟨pattern, listed, name, member, same⟩
    exact ⟨name, member, pattern, listed, same⟩

/-- **The file events of a report.** -/
theorem mem_watch_iff {root : RelPath} {patterns : List Str} {report : NotifyEvent}
    {event : FsEvent} :
    event ∈ watch root patterns report ↔
      ∃ rel, root ++ rel ∈ report.paths ∧ shouldExclude rel patterns = false ∧
        report.kind.toFsEvent rel = some event := by
  rw [watch, List.mem_filterMap]
  constructor
  · rintro ⟨path, listed, found⟩
    obtain ⟨rel, stripped, event⟩ := Option.bind_eq_some_iff.mp found
    obtain rfl := stripPrefix_eq_some_iff.mp stripped
    rw [Option.ite_none_left_eq_some, shouldSkip_eq, Bool.not_eq_true] at event
    exact ⟨rel, listed, event⟩
  · rintro ⟨rel, listed, included, found⟩
    refine ⟨root ++ rel, listed, Option.bind_eq_some_iff.mpr
      ⟨rel, stripPrefix_eq_some_iff.mpr rfl, ?_⟩⟩
    rw [shouldSkip_eq, included]
    exact found

namespace Peer

variable {ι : Type} [Blake3] {ctx : Ctx ι}

/-- Without marks the bridge passes every event on. -/
theorem runActs_watched {peer : Peer ι} (unguarded : peer.watch.syncWriteGuard = ∅)
    (events : List FsEvent) :
    runActs (next ctx) peer (events.map Act.watched) =
      some { peer with
        watch := { peer.watch with fsQueue := peer.watch.fsQueue ++ events } } := by
  induction events generalizing peer with
  | nil => rw [List.map_nil, runActs, List.append_nil]
  | cons event rest ih =>
      have passed : peer.next ctx (.watched event) =
          some { peer with
            watch := { peer.watch with fsQueue := peer.watch.fsQueue ++ [event] } } := by
        rw [next, step, unguarded, EventGuard.isSuppressed_empty]
        simp only [Bool.false_eq_true, if_false, Option.map_some, ← unguarded]
      rw [List.map_cons, runActs, passed, Option.bind_some]
      refine (ih (by exact unguarded)).trans ?_
      simp only [List.append_assoc, List.singleton_append]

end Peer

end P2Sync
