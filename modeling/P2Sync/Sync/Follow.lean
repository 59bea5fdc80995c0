import P2Sync.Core.Listing
import P2Sync.Net.Watcher
import P2Sync.Support.Notices
import P2Sync.Sync.Debounce

/-!
# The index follows the folder

While nobody but the user is active, the folder changes by operations on files, the watcher
reports each of them, and the engine handles the reports one after another. The index is then
a view of the folder that follows it by notices (`picture`): the file nodes of the tree are
the view, and the file nodes that the contents of the folder would have are the store.

A created, written or removed file comes out right (`Following.step`). A renamed file does so
at its new name; at its old one the report says that it was modified, and the engine finds
no file there and leaves the index alone. So the index follows the folder as long as no
file is renamed that the index has (`follows_of_run`).
-/

set_option autoImplicit false

namespace P2Sync

namespace Disk

/-- `rename`: the source is a file, and replaces a file at the target. -/
def rename (source target : RelPath) (disk : Disk) : Option Disk :=
  if source = target then none
  else
    (disk.read source).bind fun data =>
      (disk.removeFile source).bind fun disk => disk.write target data

end Disk

/-- What a user does to a file. -/
inductive LocalOp where
  | write (path : RelPath) (data : Bytes)
  | remove (path : RelPath)
  | rename (source target : RelPath)
deriving DecidableEq

namespace LocalOp

/-- The folder after an operation. -/
def apply : LocalOp → Disk → Option Disk
  | .write path data, disk => disk.save path data
  | .remove path, disk => disk.removeFile path
  | .rename source target, disk => disk.rename source target

def paths : LocalOp → List RelPath
  | .write path _ => [path]
  | .remove path => [path]
  | .rename source target => [source, target]

/-- What the operating system reports of an operation: a write as creations or
modifications of the file, a removal as removals, a rename as modifications of both
names. -/
def Reported (root : RelPath) (reports : List NotifyEvent) : LocalOp → Prop
  | .write path _ => reports ≠ [] ∧ ∀ report ∈ reports,
      (report.kind = .create ∨ report.kind = .modify) ∧ report.paths = [root ++ path]
  | .remove path => reports ≠ [] ∧ ∀ report ∈ reports,
      report.kind = .remove ∧ report.paths = [root ++ path]
  | .rename source target =>
      (∀ report ∈ reports, report.kind = .modify ∧
        ∀ path ∈ report.paths, path = root ++ source ∨ path = root ++ target) ∧
      (∃ report ∈ reports, root ++ source ∈ report.paths) ∧
      ∃ report ∈ reports, root ++ target ∈ report.paths

instance decidableReported (root : RelPath) (reports : List NotifyEvent) :
    ∀ op, Decidable (Reported root reports op)
  | .write _ _ => inferInstanceAs (Decidable (_ ∧ _))
  | .remove _ => inferInstanceAs (Decidable (_ ∧ _))
  | .rename _ _ => inferInstanceAs (Decidable (_ ∧ _))

/-- The events of a written file. -/
theorem events_of_write {root path : RelPath} {data : Bytes} {reports : List NotifyEvent}
    {patterns : List Str} (reported : (LocalOp.write path data).Reported root reports)
    (included : shouldExclude path patterns = false) :
    reports.flatMap (watch root patterns) ≠ [] ∧
      ∀ event ∈ reports.flatMap (watch root patterns),
        event = .created path ∨ event = .modified path := by
  obtain ⟨nonempty, reported⟩ := reported
  constructor
  · obtain ⟨report, member⟩ := List.exists_mem_of_ne_nil reports nonempty
    obtain ⟨kind, paths⟩ := reported report member
    have listed : root ++ path ∈ report.paths := by rw [paths]; exact List.mem_singleton_self _
    have some' : ∃ event, event ∈ watch root patterns report := by
      rcases kind with kind | kind
      · exact ⟨_, mem_watch_iff.mpr ⟨path, listed, included, by rw [kind]; rfl⟩⟩
      · exact ⟨_, mem_watch_iff.mpr ⟨path, listed, included, by rw [kind]; rfl⟩⟩
    obtain ⟨event, seen⟩ := some'
    exact List.ne_nil_of_mem (List.mem_flatMap.mpr ⟨report, member, seen⟩)
  · intro event member
    obtain ⟨report, member, seen⟩ := List.mem_flatMap.mp member
    obtain ⟨kind, paths⟩ := reported report member
    obtain ⟨rel, listed, -, found⟩ := mem_watch_iff.mp seen
    rw [paths, List.mem_singleton, List.append_cancel_left_eq] at listed
    subst listed
    rcases kind with kind | kind
    · rw [kind] at found
      exact Or.inl (Option.some.inj found).symm
    · rw [kind] at found
      exact Or.inr (Option.some.inj found).symm

/-- The events of a removed file. -/
theorem events_of_remove {root path : RelPath} {reports : List NotifyEvent} {patterns : List Str}
    (reported : (LocalOp.remove path).Reported root reports)
    (included : shouldExclude path patterns = false) :
    reports.flatMap (watch root patterns) ≠ [] ∧
      ∀ event ∈ reports.flatMap (watch root patterns),
        event = .removed path := by
  obtain ⟨nonempty, reported⟩ := reported
  constructor
  · obtain ⟨report, member⟩ := List.exists_mem_of_ne_nil reports nonempty
    obtain ⟨kind, paths⟩ := reported report member
    refine List.ne_nil_of_mem (List.mem_flatMap.mpr ⟨report, member,
      mem_watch_iff.mpr ⟨path, ?_, included, by rw [kind]; rfl⟩⟩)
    rw [paths]
    exact List.mem_singleton_self _
  · intro event member
    obtain ⟨report, member, seen⟩ := List.mem_flatMap.mp member
    obtain ⟨kind, paths⟩ := reported report member
    obtain ⟨rel, listed, -, found⟩ := mem_watch_iff.mp seen
    rw [paths, List.mem_singleton, List.append_cancel_left_eq] at listed
    subst listed
    rw [kind] at found
    exact (Option.some.inj found).symm

/-- The events of a renamed file. -/
theorem events_of_rename {root source target : RelPath} {reports : List NotifyEvent}
    {patterns : List Str} (reported : (LocalOp.rename source target).Reported root reports)
    (included : shouldExclude target patterns = false) :
    .modified target ∈ reports.flatMap (watch root patterns) ∧
      ∀ event ∈ reports.flatMap (watch root patterns),
        event = .modified source ∨ event = .modified target := by
  obtain ⟨named, -, report, member, listed⟩ := reported
  constructor
  · refine List.mem_flatMap.mpr ⟨report, member, mem_watch_iff.mpr ⟨target, listed, included, ?_⟩⟩
    rw [(named report member).1]
    rfl
  · intro event member
    obtain ⟨report, member, seen⟩ := List.mem_flatMap.mp member
    obtain ⟨kind, paths⟩ := named report member
    obtain ⟨rel, listed, -, found⟩ := mem_watch_iff.mp seen
    rw [kind] at found
    obtain rfl := Option.some.inj found
    have named := paths _ listed
    rw [List.append_cancel_left_eq, List.append_cancel_left_eq] at named
    exact named.imp (congrArg FsEvent.modified) (congrArg FsEvent.modified)

end LocalOp

/-- What happens while nobody but the user is active. -/
inductive FollowAct where
  | elapse (duration : Nat)
  | setTime (now : Nat)
  /-- The user changes a file, and the watcher reports it. -/
  | user (op : LocalOp) (reports : List NotifyEvent)
  /-- The engine handles the next file event. -/
  | handle
deriving DecidableEq

/-- The notice that a file event gives of its path. -/
def FsEvent.notice : FsEvent → Notices.Notice (List Str)
  | .created path => .touched (Merkle.pathNames path)
  | .modified path => .touched (Merkle.pathNames path)
  | .removed path => .removed (Merkle.pathNames path)

namespace Peer

variable {ι : Type} [Blake3] (ctx : Ctx ι) (root : RelPath) (peer : Peer ι)

/-- One step. A peer that does not push drops its file events without handling them. -/
def followStep (peer : Peer ι) : FollowAct → Option (Peer ι)
  | .elapse duration => peer.next ctx (.elapse duration)
  | .setTime now => peer.next ctx (.setTime now)
  | .user op reports =>
      (op.apply peer.disk).bind fun disk =>
        (peer.next ctx (.user disk)).bind fun peer =>
          runActs (next ctx) peer
            ((reports.flatMap (P2Sync.watch root peer.index.excludePatterns)).map Act.watched)
  | .handle =>
      match peer.watch.fsQueue with
      | [] => none
      | event :: _ =>
          if ctx.noPush then none else peer.next ctx (.fsEvent (peer.look event.path))

omit [Blake3] in
/-- The files of an operation are not excluded, no backups and have names that are text; its
reports are those of the operating system; and an event that is handled is not dropped
because of another one a short while ago. -/
def Plain : FollowAct → Prop
  | .user op reports => op.Reported root reports ∧ ∀ path ∈ op.paths,
      peer.index.isExcluded path = false ∧ ¬ conflictMark <:+: path.toStringLossy ∧
        ∃ names : List Str, path = names.map OsStr.utf8
  | .handle => ∀ event ∈ peer.watch.fsQueue.head?, peer.debounced ctx event.path = false
  | _ => True

omit [Blake3] in
/-- The names of a path are text. -/
theorem exists_names_iff {path : RelPath} :
    (∃ names : List Str, path = names.map OsStr.utf8) ↔
      ∀ name ∈ path, name.toStr.isSome = true := by
  constructor
  · rintro ⟨names, rfl⟩ name member
    obtain ⟨text, -, rfl⟩ := List.mem_map.mp member
    rfl
  · intro texts
    refine ⟨path.filterMap OsStr.toStr, ?_⟩
    induction path with
    | nil => rfl
    | cons name rest ih =>
        rw [List.forall_mem_cons] at texts
        cases name with
        | utf8 text => exact congrArg (OsStr.utf8 text :: ·) (ih texts.2)
        | invalid => exact absurd texts.1 Bool.false_ne_true

instance decidablePlain : ∀ act, Decidable (peer.Plain ctx root act)
  | .user op reports => decidable_of_iff (op.Reported root reports ∧ ∀ path ∈ op.paths,
      peer.index.isExcluded path = false ∧ ¬ conflictMark <:+: path.toStringLossy ∧
        ∀ name ∈ path, name.toStr.isSome = true) (by simp only [Plain, exists_names_iff])
  | .handle => inferInstanceAs (Decidable (∀ event ∈ peer.watch.fsQueue.head?, _))
  | .elapse _ => isTrue trivial
  | .setTime _ => isTrue trivial

omit [Blake3] in
/-- A renamed file is one that the index does not have, or is about to lose. -/
def SparesIndexed : FollowAct → Prop
  | .user (.rename source _) _ =>
      (∀ hash size chunks,
        Merkle.findNode source peer.index.tree ≠ some (.file hash size chunks)) ∨
        .removed source ∈ peer.watch.fsQueue
  | _ => True

omit [Blake3] in
/-- No file node stands at a path. -/
theorem not_file_iff {path : RelPath} {tree : Node} :
    (∀ hash size chunks, Merkle.findNode path tree ≠ some (.file hash size chunks)) ↔
      (Merkle.findNode path tree).any Node.isFile = false := by
  cases Merkle.findNode path tree with
  | none => exact iff_of_true (fun _ _ _ => (Option.some_ne_none _).symm) rfl
  | some node =>
      rw [Option.any_some, Bool.eq_false_iff, Ne, Node.isFile_iff]
      constructor
      · rintro none ⟨hash, size, chunks, rfl⟩
        exact none hash size chunks rfl
      · rintro none hash size chunks same
        exact none ⟨hash, size, chunks, Option.some.inj same⟩

instance decidableSparesIndexed : ∀ act, Decidable (peer.SparesIndexed act)
  | .user (.rename source _) _ =>
      decidable_of_iff ((Merkle.findNode source peer.index.tree).any Node.isFile = false ∨
        .removed source ∈ peer.watch.fsQueue) (or_congr_left not_file_iff.symm)
  | .user (.write _ _) _ => isTrue trivial
  | .user (.remove _) _ => isTrue trivial
  | .handle => isTrue trivial
  | .elapse _ => isTrue trivial
  | .setTime _ => isTrue trivial

/-- The files of the tree are those of the folder that are not excluded, each with its
content. -/
structure IndexFollows : Prop where
  files : ∀ path, (∃ hash size chunks,
    Merkle.findNode path peer.index.tree = some (.file hash size chunks)) ↔
      peer.disk.isFile path = true ∧ peer.index.isExcluded path = false
  contents : ∀ path data, peer.disk.read path = some data → peer.index.isExcluded path = false →
    Merkle.findNode path peer.index.tree =
      some (Merkle.fileNodeWithChunkSize data peer.index.chunkSize)

/-! ## The view and the store -/

/-- The file node that the content of the folder at a path would have. -/
def stored (index : SyncIndex) (disk : Disk) (names : List Str) : Option Node :=
  if index.isExcluded (names.map OsStr.utf8) then none
  else (disk.read (names.map OsStr.utf8)).map
    (Merkle.fileNodeWithChunkSize · index.chunkSize)

/-- A peer as a view that follows a store. -/
def picture : Notices.State (List Str) Node where
  store := stored peer.index peer.disk
  folder names := peer.disk.isDir (names.map OsStr.utf8) = true
  queue := peer.watch.fsQueue.map FsEvent.notice
  view names := Merkle.fileAt names peer.index.tree

/-- What is true all along a run of operations. -/
structure Following : Prop where
  unguarded : peer.watch.syncWriteGuard = ∅
  folder : peer.disk.isDir [] = true
  texts : ∀ path data, peer.disk.read path = some data → peer.index.isExcluded path = false →
    ∃ names : List Str, path = names.map OsStr.utf8
  plain : ∀ event ∈ peer.watch.fsQueue, event.path ≠ [] ∧
    peer.index.isExcluded event.path = false ∧ ¬ conflictMark <:+: event.path.toStringLossy ∧
      ∃ names : List Str, event.path = names.map OsStr.utf8
  follows : Notices.Follows Merkle.IsAbove peer.picture

variable {ctx root peer} {after : Peer ι} {act : FollowAct}

theorem placed_stored (index : SyncIndex) (disk : Disk) :
    Notices.Placed Merkle.IsAbove (stored index disk)
      fun names => disk.isDir (names.map OsStr.utf8) = true := by
  constructor
  · intro names folder
    rw [stored, Disk.read_of_isDir folder, Option.map_none, ite_self]
  · rintro names node found above ⟨⟨below, rfl⟩, proper⟩
    rw [stored, Option.ite_none_left_eq_some] at found
    obtain ⟨data, here, -⟩ := Option.map_eq_some_iff.mp found.2
    rw [List.map_append] at here
    refine Disk.isDir_of_read here fun empty => proper ?_
    rw [List.map_eq_nil_iff.mp empty, List.append_nil]

theorem stored_of_file {index : SyncIndex} {disk : Disk} {names : List Str} {data : Bytes}
    (included : index.isExcluded (names.map OsStr.utf8) = false)
    (here : disk.read (names.map OsStr.utf8) = some data) :
    stored index disk names = some (Merkle.fileNodeWithChunkSize data index.chunkSize) := by
  rw [stored, included, if_neg Bool.false_ne_true, here, Option.map_some]

/-- One changed file changes what is stored at its path. -/
theorem stored_of_read {index : SyncIndex} {disk disk' : Disk} {names : List Str}
    {content : Option Bytes} (included : index.isExcluded (names.map OsStr.utf8) = false)
    (changed : ∀ query, disk'.read query =
      if query = names.map OsStr.utf8 then content else disk.read query) :
    stored index disk' = Function.update (stored index disk) names
      (content.map (Merkle.fileNodeWithChunkSize · index.chunkSize)) := by
  funext query
  by_cases same : query = names
  · subst same
    rw [Function.update_self, stored, included, if_neg Bool.false_ne_true, changed, if_pos rfl]
  · rw [Function.update_of_ne same, stored, stored, changed,
      if_neg (utf8_injective.ne same)]

/-- What an operation of the user does. -/
theorem followStep_user {op : LocalOp} {reports : List NotifyEvent}
    (unguarded : peer.watch.syncWriteGuard = ∅)
    (stepped : peer.followStep ctx root (.user op reports) = some after) :
    ∃ disk, op.apply peer.disk = some disk ∧ after = { peer with
      disk := disk
      watch := { peer.watch with
        fsQueue := peer.watch.fsQueue ++
          reports.flatMap (P2Sync.watch root peer.index.excludePatterns) } } := by
  obtain ⟨disk, applied, reported⟩ := Option.bind_eq_some_iff.mp stepped
  obtain ⟨changed, same, watched⟩ := Option.bind_eq_some_iff.mp reported
  cases same
  rw [runActs_watched (by exact unguarded)] at watched
  exact ⟨disk, applied, (Option.some.inj watched).symm⟩

/-- A new tree has the file nodes of the folder. -/
theorem fileAt_start {entries : List (OsStr × Disk)} {patterns : List Str} {clock : Nat}
    {first : Peer ι} (proper : (Disk.dir entries).Proper)
    (started : start ctx (.dir entries) patterns clock = some first) :
    (fun names => Merkle.fileAt names first.index.tree) = stored first.index first.disk := by
  obtain ⟨index, built, rfl⟩ := Option.map_eq_some_iff.mp started
  obtain ⟨tree, scanned, rfl⟩ := Option.map_eq_some_iff.mp built
  funext names
  dsimp only
  rw [stored, SyncIndex.isExcluded]
  cases excluded : shouldExclude (names.map OsStr.utf8) patterns with
  | true =>
      have nonempty : names ≠ [] := by
        rintro rfl
        simp [shouldExclude] at excluded
      rw [if_pos rfl, Merkle.fileAt, findNames_fromPathConfigured_of_excluded proper scanned
        nonempty List.prefix_rfl excluded, Option.filter_none]
  | false =>
      have shows : Merkle.Shows ctx.storage.chunkSize tree names
          ((Disk.dir entries).read (names.map OsStr.utf8)) :=
        shows_fromPathConfigured proper scanned fun above _ reaches =>
          shouldExclude_above (reaches.map OsStr.utf8) excluded
      rw [if_neg Bool.false_ne_true]
      cases here : (Disk.dir entries).read (names.map OsStr.utf8) with
      | some data =>
          rw [here] at shows
          exact Merkle.fileAt_eq_some_iff.mpr ⟨shows, rfl⟩
      | none =>
          rw [here] at shows
          rw [Option.map_none, Option.eq_none_iff_forall_ne_some]
          intro node found
          obtain ⟨there, file⟩ := Merkle.fileAt_eq_some_iff.mp found
          obtain ⟨hash, size, chunks, rfl⟩ := Node.isFile_iff.mp file
          exact shows hash size chunks there

/-- An event for a path without a file is remembered and nothing else. -/
theorem handleTouched_absent {path : RelPath} (unguarded : peer.watch.syncWriteGuard = ∅)
    (taken : peer.debounced ctx path = false) (absent : peer.disk.read path = none) :
    ∃ changeDebounce, peer.handleTouched ctx (peer.look path) path =
      ({ peer with watch := { peer.watch with changeDebounce := changeDebounce } }, none) := by
  have late : ¬ (peer.watch.changeDebounce.isSuppressed path peer.watch.instant
      ctx.debounce).1 = true := Bool.eq_false_iff.mp taken
  have missing : peer.disk.isFile path = false := by
    rw [Disk.isFile, absent]
    rfl
  rw [handleTouched, unguarded, EventGuard.isSuppressed_empty]
  dsimp only
  rw [if_neg Bool.false_ne_true, if_neg late]
  simp only [look, missing, Bool.not_false, if_true, ite_self, ← unguarded]
  exact ⟨_, rfl⟩

namespace Following

/-- The user changes the folder, and the events are queued. -/
theorem changed (now : Following peer) {disk : Disk} {events : List FsEvent}
    (kept : peer.disk.KeepsDirs disk)
    (texts : ∀ path data, disk.read path = some data → peer.index.isExcluded path = false →
      ∃ names : List Str, path = names.map OsStr.utf8)
    (plain : ∀ event ∈ events, event.path ≠ [] ∧ peer.index.isExcluded event.path = false ∧
      ¬ conflictMark <:+: event.path.toStringLossy ∧
        ∃ names : List Str, event.path = names.map OsStr.utf8)
    (follows : Notices.Follows Merkle.IsAbove ⟨stored peer.index disk,
      fun names => disk.isDir (names.map OsStr.utf8) = true,
      peer.picture.queue ++ events.map FsEvent.notice, peer.picture.view⟩) :
    Following { peer with
      disk := disk
      watch := { peer.watch with fsQueue := peer.watch.fsQueue ++ events } } := by
  refine ⟨now.unguarded, kept [] now.folder, texts, ?_, ?_⟩
  · intro event member
    exact (List.mem_append.mp member).elim (now.plain event) (plain event)
  · rw [picture]
    dsimp only
    rw [List.map_append]
    exact follows

/-- A file is written. -/
theorem wrote (now : Following peer) {names : List Str} {data : Bytes} {disk : Disk}
    {events : List FsEvent} (saved : peer.disk.save (names.map OsStr.utf8) data = some disk)
    (included : peer.index.isExcluded (names.map OsStr.utf8) = false)
    (unmarked : ¬ conflictMark <:+: RelPath.toStringLossy (names.map OsStr.utf8))
    (nonempty : events ≠ [])
    (touched : ∀ event ∈ events,
      event = .created (names.map OsStr.utf8) ∨ event = .modified (names.map OsStr.utf8)) :
    Following { peer with
      disk := disk
      watch := { peer.watch with fsQueue := peer.watch.fsQueue ++ events } } := by
  have root : names.map OsStr.utf8 ≠ [] :=
    Disk.nonempty_of_save (Disk.read_of_isDir now.folder) saved
  have reads := Disk.read_save saved
  have store := stored_of_read included reads
  have kept : peer.disk.KeepsDirs disk := by
    obtain ⟨parents, created, written⟩ := Option.bind_eq_some_iff.mp saved
    exact fun path folder => Disk.keepsDirs_write written path
      (Disk.keepsDirs_createDirAll created path folder)
  refine now.changed kept ?_ ?_ ?_
  · intro path content here plain
    rw [reads] at here
    split at here
    · rename_i same
      exact ⟨names, same⟩
    · exact now.texts path content here plain
  · intro event member
    have named : event.path = names.map OsStr.utf8 := by
      rcases touched event member with rfl | rfl <;> rfl
    rw [named]
    exact ⟨root, included, unmarked, names, rfl⟩
  · have placed := placed_stored peer.index disk
    rw [store] at placed ⊢
    refine now.follows.put placed (fun _ => kept _) (by simpa using nonempty) ?_
    intro notice member
    obtain ⟨event, listed, rfl⟩ := List.mem_map.mp member
    rcases touched event listed with rfl | rfl <;>
      exact congrArg Notices.Notice.touched (Merkle.pathNames_map_utf8 names)

/-- A file is removed. -/
theorem removed (now : Following peer) {names : List Str} {disk : Disk} {events : List FsEvent}
    (removed : peer.disk.removeFile (names.map OsStr.utf8) = some disk)
    (included : peer.index.isExcluded (names.map OsStr.utf8) = false)
    (unmarked : ¬ conflictMark <:+: RelPath.toStringLossy (names.map OsStr.utf8))
    (nonempty : events ≠ [])
    (gone : ∀ event ∈ events, event = .removed (names.map OsStr.utf8)) :
    Following { peer with
      disk := disk
      watch := { peer.watch with fsQueue := peer.watch.fsQueue ++ events } } := by
  have root : names.map OsStr.utf8 ≠ [] := by
    intro empty
    rw [empty] at removed
    exact absurd removed (Option.some_ne_none disk).symm
  obtain ⟨data, here⟩ := Disk.exists_read_of_removeFile removed
  have reads := Disk.read_removeFile removed
  have store := stored_of_read included reads
  refine now.changed (Disk.keepsDirs_removeFile removed) ?_ ?_ ?_
  · intro path content there plain
    rw [reads, Option.ite_none_left_eq_some] at there
    exact now.texts path content there.2 plain
  · intro event member
    rw [gone event member]
    exact ⟨root, included, unmarked, names, rfl⟩
  · have placed := placed_stored peer.index disk
    have before : peer.picture.store names =
        some (Merkle.fileNodeWithChunkSize data peer.index.chunkSize) :=
      stored_of_file included here
    rw [store] at placed ⊢
    refine now.follows.delete before placed (fun _ => Disk.keepsDirs_removeFile removed _)
      (by simpa using nonempty) ?_
    intro notice member
    obtain ⟨event, listed, rfl⟩ := List.mem_map.mp member
    rw [gone event listed]
    exact congrArg Notices.Notice.removed (Merkle.pathNames_map_utf8 names)

/-- A file is renamed that the index does not have, or is about to lose. -/
theorem renamed (now : Following peer) {source target : List Str} {disk : Disk}
    {events : List FsEvent}
    (moved : peer.disk.rename (source.map OsStr.utf8) (target.map OsStr.utf8) = some disk)
    (plain : ∀ names ∈ [source, target], peer.index.isExcluded (names.map OsStr.utf8) = false ∧
      ¬ conflictMark <:+: RelPath.toStringLossy (names.map OsStr.utf8))
    (arrives : .modified (target.map OsStr.utf8) ∈ events)
    (touched : ∀ event ∈ events, event = .modified (source.map OsStr.utf8) ∨
      event = .modified (target.map OsStr.utf8))
    (unseen : Merkle.fileAt source peer.index.tree = none ∨
      .removed (source.map OsStr.utf8) ∈ peer.watch.fsQueue) :
    Following { peer with
      disk := disk
      watch := { peer.watch with fsQueue := peer.watch.fsQueue ++ events } } := by
  rw [Disk.rename, Option.ite_none_left_eq_some] at moved
  obtain ⟨apart, moved⟩ := moved
  obtain ⟨data, here, moved⟩ := Option.bind_eq_some_iff.mp moved
  obtain ⟨between, removed, written⟩ := Option.bind_eq_some_iff.mp moved
  have names : source ≠ target := fun same => apart (congrArg _ same)
  have kept : peer.disk.KeepsDirs disk := fun path folder =>
    Disk.keepsDirs_write written path (Disk.keepsDirs_removeFile removed path folder)
  obtain ⟨sourceIncluded, sourceUnmarked⟩ := plain source (by simp)
  obtain ⟨targetIncluded, targetUnmarked⟩ := plain target (by simp)
  have sourceRoot : source.map OsStr.utf8 ≠ [] := by
    intro empty
    rw [empty] at removed
    exact absurd removed (Option.some_ne_none between).symm
  have targetRoot : target.map OsStr.utf8 ≠ [] := by
    intro empty
    have file := Disk.read_write_self written
    rw [empty, Disk.read_of_isDir (kept [] now.folder)] at file
    exact absurd file.symm (Option.some_ne_none data)
  have store : stored peer.index disk =
      Function.update (Function.update (stored peer.index peer.disk) source none) target
        (some (Merkle.fileNodeWithChunkSize data peer.index.chunkSize)) := by
    rw [stored_of_read targetIncluded (Disk.read_write written),
      stored_of_read sourceIncluded (Disk.read_removeFile removed)]
    rfl
  refine now.changed kept ?_ ?_ ?_
  · intro path content there included
    rw [Disk.read_write written, Disk.read_removeFile removed] at there
    split at there
    · rename_i same
      exact ⟨target, same⟩
    · rw [Option.ite_none_left_eq_some] at there
      exact now.texts path content there.2 included
  · intro event member
    rcases touched event member with rfl | rfl
    · exact ⟨sourceRoot, sourceIncluded, sourceUnmarked, source, rfl⟩
    · exact ⟨targetRoot, targetIncluded, targetUnmarked, target, rfl⟩
  · have placed := placed_stored peer.index disk
    have before : peer.picture.store source =
        some (Merkle.fileNodeWithChunkSize data peer.index.chunkSize) :=
      stored_of_file sourceIncluded here
    have notice : ∀ names : List Str, (FsEvent.modified (names.map OsStr.utf8)).notice =
        .touched names := fun names =>
      congrArg Notices.Notice.touched (Merkle.pathNames_map_utf8 names)
    rw [store] at placed ⊢
    refine now.follows.move names before placed (fun _ => kept _) ?_ ?_ ?_
    · rw [← notice]
      exact List.mem_map_of_mem arrives
    · intro other member
      obtain ⟨event, listed, rfl⟩ := List.mem_map.mp member
      rw [← notice, ← notice]
      exact (touched event listed).imp (congrArg FsEvent.notice) (congrArg FsEvent.notice)
    · refine unseen.imp_right fun waiting => List.mem_map.mpr ⟨_, waiting, ?_⟩
      exact congrArg Notices.Notice.removed (Merkle.pathNames_map_utf8 source)

/-- What the user does. -/
theorem user (now : Following peer) {op : LocalOp} {reports : List NotifyEvent}
    (plain : peer.Plain ctx root (.user op reports))
    (spares : peer.SparesIndexed (.user op reports))
    (stepped : peer.followStep ctx root (.user op reports) = some after) : Following after := by
  obtain ⟨disk, applied, rfl⟩ := followStep_user now.unguarded stepped
  obtain ⟨reported, named⟩ := plain
  cases op with
  | write path data =>
      obtain ⟨included, unmarked, names, rfl⟩ := named path (List.mem_singleton_self path)
      obtain ⟨nonempty, touched⟩ := LocalOp.events_of_write reported included
      exact now.wrote applied included unmarked nonempty touched
  | remove path =>
      obtain ⟨included, unmarked, names, rfl⟩ := named path (List.mem_singleton_self path)
      obtain ⟨nonempty, gone⟩ := LocalOp.events_of_remove reported included
      exact now.removed applied included unmarked nonempty gone
  | rename source target =>
      obtain ⟨included, unmarked, sourceNames, rfl⟩ := named source (by simp [LocalOp.paths])
      obtain ⟨included', unmarked', targetNames, rfl⟩ := named target (by simp [LocalOp.paths])
      obtain ⟨arrives, touched⟩ := LocalOp.events_of_rename reported included'
      refine now.renamed applied ?_ arrives touched ?_
      · intro names member
        rcases List.mem_cons.mp member with rfl | member
        · exact ⟨included, unmarked⟩
        · rw [List.mem_singleton.mp member]
          exact ⟨included', unmarked'⟩
      · refine spares.imp_left fun absent => ?_
        rw [Option.eq_none_iff_forall_ne_some]
        intro node found
        obtain ⟨there, file⟩ := Merkle.fileAt_eq_some_iff.mp found
        obtain ⟨hash, size, chunks, rfl⟩ := Node.isFile_iff.mp file
        exact absent hash size chunks (by rwa [Merkle.findNode_map_utf8])

/-- What is left in the queue after an event was handled. -/
theorem handledBy (now : Following peer) {event : FsEvent} {rest : List FsEvent}
    (queue : peer.watch.fsQueue = event :: rest) {index : SyncIndex} {watch : Watch}
    (patterns : index.excludePatterns = peer.index.excludePatterns)
    (unguarded : watch.syncWriteGuard = ∅) (left : watch.fsQueue = rest)
    (follows : Notices.Follows Merkle.IsAbove
      ({ peer with index := index, watch := watch } : Peer ι).picture) :
    Following { peer with index := index, watch := watch } := by
  refine ⟨unguarded, now.folder, ?_, ?_, follows⟩
  · intro path data here included
    rw [SyncIndex.isExcluded, patterns] at included
    exact now.texts path data here included
  · intro other member
    rw [SyncIndex.isExcluded, patterns]
    rw [left] at member
    exact now.plain other (by rw [queue]; exact List.mem_cons_of_mem _ member)

/-- A file that is there is indexed. -/
theorem indexed (now : Following peer) {names : List Str} {event : FsEvent}
    {rest : List FsEvent} {data : Bytes} (queue : peer.watch.fsQueue = event :: rest)
    (touched : event.notice = .touched names) (nonempty : names ≠ [])
    (included : peer.index.isExcluded (names.map OsStr.utf8) = false)
    (here : peer.disk.read (names.map OsStr.utf8) = some data) {watch : Watch}
    (unguarded : watch.syncWriteGuard = ∅) (left : watch.fsQueue = rest) :
    Following { peer with
      index := peer.index.ticked (names.map OsStr.utf8) data peer.now, watch := watch } := by
  refine now.handledBy queue rfl unguarded left ?_
  have waiting : peer.picture.queue = .touched names :: rest.map FsEvent.notice := by
    rw [picture, queue, List.map_cons, touched]
  obtain ⟨alone, follows⟩ := now.follows.handled waiting (stored_of_file included here)
  have tree : (fun query => Merkle.fileAt query (peer.index.ticked (names.map OsStr.utf8) data
      peer.now).tree) = Function.update peer.picture.view names
        (some (Merkle.fileNodeWithChunkSize data peer.index.chunkSize)) := by
    funext query
    rw [Function.update_apply, SyncIndex.ticked]
    dsimp only
    rw [Merkle.updateFileWithChunkSize, Merkle.insertNode, Merkle.pathNames_map_utf8]
    exact Merkle.fileAt_insertRecursive nonempty (fun other node found => alone other node found)
      query
  rw [picture]
  dsimp only
  rw [tree, left]
  exact follows

/-- A path without a file is left alone. -/
theorem skipped (now : Following peer) {names : List Str} {event : FsEvent}
    {rest : List FsEvent} (queue : peer.watch.fsQueue = event :: rest)
    (touched : event.notice = .touched names)
    (absent : peer.disk.read (names.map OsStr.utf8) = none) {watch : Watch}
    (unguarded : watch.syncWriteGuard = ∅) (left : watch.fsQueue = rest) :
    Following { peer with watch := watch } := by
  refine now.handledBy queue rfl unguarded left ?_
  have waiting : peer.picture.queue = .touched names :: rest.map FsEvent.notice := by
    rw [picture, queue, List.map_cons, touched]
  have gone : peer.picture.store names = none := by
    change stored peer.index peer.disk names = none
    rw [stored, absent, Option.map_none, ite_self]
  rw [picture]
  dsimp only
  rw [left]
  exact now.follows.skipped waiting gone

/-- A removed path is forgotten. -/
theorem forgotten (now : Following peer) {names : List Str} {rest : List FsEvent}
    (queue : peer.watch.fsQueue = .removed (names.map OsStr.utf8) :: rest) (nonempty : names ≠ [])
    {watch : Watch} (unguarded : watch.syncWriteGuard = ∅) (left : watch.fsQueue = rest) :
    Following { peer with
      index := peer.index.localFileDeleted (names.map OsStr.utf8) peer.now, watch := watch } := by
  refine now.handledBy queue rfl unguarded left ?_
  have waiting : peer.picture.queue = .removed names :: rest.map FsEvent.notice := by
    rw [picture, queue, List.map_cons, FsEvent.notice, Merkle.pathNames_map_utf8]
  obtain ⟨alone, follows⟩ := now.follows.dropped waiting
  have tree : (fun query => Merkle.fileAt query (peer.index.localFileDeleted
      (names.map OsStr.utf8) peer.now).tree) = Function.update peer.picture.view names none := by
    funext query
    rw [Function.update_apply, SyncIndex.localFileDeleted]
    dsimp only
    rw [Merkle.removePath, Merkle.pathNames_map_utf8]
    exact Merkle.fileAt_removeRecursive nonempty alone query
  rw [picture]
  dsimp only
  rw [tree, left]
  exact follows

/-- An event for a path that was touched is handled. -/
theorem touched (now : Following peer) {path : RelPath} {event : FsEvent} {rest : List FsEvent}
    (queue : peer.watch.fsQueue = event :: rest)
    (happened : event = .created path ∨ event = .modified path)
    (taken : peer.debounced ctx path = false) :
    Following ({ peer with watch := { peer.watch with fsQueue := rest } }.handleTouched ctx
      (peer.look path) path).1 := by
  have named : event.path = path := by rcases happened with rfl | rfl <;> rfl
  have plain := now.plain event (by rw [queue]; exact List.mem_cons_self)
  rw [named] at plain
  obtain ⟨root, included, unmarked, names, rfl⟩ := plain
  have nonempty : names ≠ [] := fun empty => root (congrArg _ empty)
  have notice : event.notice = .touched names := by
    rcases happened with rfl | rfl <;>
      exact congrArg Notices.Notice.touched (Merkle.pathNames_map_utf8 names)
  let popped : Peer ι := { peer with watch := { peer.watch with fsQueue := rest } }
  cases here : peer.disk.read (names.map OsStr.utf8) with
  | some data =>
      obtain ⟨changeDebounce, published, done, -⟩ :=
        @handleTouched_taken ι _ ctx popped _ data now.unguarded taken unmarked included here
      rw [show peer.look (names.map OsStr.utf8) = popped.look (names.map OsStr.utf8) from rfl, done]
      exact now.indexed queue notice nonempty included here now.unguarded rfl
  | none =>
      obtain ⟨changeDebounce, done⟩ :=
        @handleTouched_absent ι _ ctx popped _ now.unguarded taken here
      rw [show peer.look (names.map OsStr.utf8) = popped.look (names.map OsStr.utf8) from rfl, done]
      exact now.skipped queue notice here now.unguarded rfl

/-- The engine handles an event. -/
theorem handled (now : Following peer) (plain : peer.Plain ctx root .handle)
    (stepped : peer.followStep ctx root .handle = some after) : Following after := by
  rw [followStep] at stepped
  cases queue : peer.watch.fsQueue with
  | nil =>
      rw [queue] at stepped
      exact absurd stepped (Option.some_ne_none after).symm
  | cons event rest =>
      rw [queue] at stepped
      dsimp only at stepped
      rw [Option.ite_none_left_eq_some, next, step, queue] at stepped
      obtain ⟨pushing, stepped⟩ := stepped
      dsimp only at stepped
      rw [if_neg pushing, Option.map_some] at stepped
      have taken : peer.debounced ctx event.path = false :=
        plain event (by rw [queue]; rfl)
      obtain rfl := Option.some.inj stepped
      cases event with
      | created path => exact now.touched queue (Or.inl rfl) taken
      | modified path => exact now.touched queue (Or.inr rfl) taken
      | removed path =>
          obtain ⟨root, -, -, names, named⟩ :=
            now.plain _ (by rw [queue]; exact List.mem_cons_self)
          obtain rfl : path = names.map OsStr.utf8 := named
          exact now.forgotten queue (fun empty => root (congrArg _ empty)) now.unguarded rfl

/-- **One step of operations and reports.** -/
theorem step (now : Following peer) (plain : peer.Plain ctx root act)
    (spares : peer.SparesIndexed act) (stepped : peer.followStep ctx root act = some after) :
    Following after := by
  cases act with
  | elapse duration =>
      cases stepped
      exact ⟨now.unguarded, now.folder, now.texts, now.plain, now.follows⟩
  | setTime time =>
      cases stepped
      exact ⟨now.unguarded, now.folder, now.texts, now.plain, now.follows⟩
  | user op reports => exact now.user plain spares stepped
  | handle => exact now.handled plain stepped

/-- A peer starts with a view of its folder. -/
theorem start {entries : List (OsStr × Disk)} {patterns : List Str} {clock : Nat}
    {first : Peer ι} (proper : (Disk.dir entries).Proper)
    (started : Peer.start ctx (.dir entries) patterns clock = some first) : Following first := by
  have texts := fun path data => @exists_names_of_start ι _ ctx path data _ _ _ _ started
  have picture := fileAt_start proper started
  obtain ⟨index, built, rfl⟩ := Option.map_eq_some_iff.mp started
  refine ⟨rfl, rfl, texts, fun event absent => absurd absent List.not_mem_nil, ?_⟩
  rw [Peer.picture]
  dsimp only
  rw [picture]
  exact .start (placed_stored index (.dir entries))

end Following

/-! ## Whole runs -/

/-- When all events are handled, the index follows the folder. -/
theorem Following.indexFollows (now : Following peer) (idle : peer.watch.fsQueue = []) :
    peer.IndexFollows := by
  have same : ∀ names, Merkle.fileAt names peer.index.tree = stored peer.index peer.disk names :=
    congrFun (now.follows.view_eq (by rw [picture, idle]; rfl))
  constructor
  · intro path
    constructor
    · rintro ⟨hash, size, chunks, found⟩
      obtain ⟨names, rfl⟩ := exists_names_of_findNode found
      rw [Merkle.findNode_map_utf8] at found
      have there := same names
      rw [Merkle.fileAt_eq_some_iff.mpr ⟨found, rfl⟩, stored] at there
      have here := there.symm
      rw [Option.ite_none_left_eq_some] at here
      obtain ⟨data, here', -⟩ := Option.map_eq_some_iff.mp here.2
      exact ⟨by rw [Disk.isFile, here']; rfl, Bool.eq_false_iff.mpr here.1⟩
    · rintro ⟨file, included⟩
      obtain ⟨data, here⟩ := Option.isSome_iff_exists.mp file
      obtain ⟨names, rfl⟩ := now.texts path data here included
      have there := same names
      rw [stored_of_file included here, Merkle.fileAt_eq_some_iff] at there
      exact ⟨_, _, _, by rw [Merkle.findNode_map_utf8]; exact there.1⟩
  · intro path data here included
    obtain ⟨names, rfl⟩ := now.texts path data here included
    have there := same names
    rw [stored_of_file included here, Merkle.fileAt_eq_some_iff] at there
    rw [Merkle.findNode_map_utf8]
    exact there.1

/-- **The index follows every operation** in a run in which no file is renamed that the index
has. -/
theorem follows_of_run {entries : List (OsStr × Disk)} {patterns : List Str} {clock : Nat}
    {first last : Peer ι} {trace : List (Peer ι × FollowAct)}
    (proper : (Disk.dir entries).Proper)
    (started : Peer.start ctx (.dir entries) patterns clock = some first)
    (run : Run (followStep ctx root) first trace last)
    (plain : ∀ entry ∈ trace, entry.1.Plain ctx root entry.2)
    (spares : ∀ entry ∈ trace, entry.1.SparesIndexed entry.2)
    (idle : last.watch.fsQueue = []) : last.IndexFollows := by
  have now : Following last :=
    run.invariant Following (fun peer act => peer.Plain ctx root act ∧ peer.SparesIndexed act)
      (fun entry member => ⟨plain entry member, spares entry member⟩) (.start proper started)
      fun _ _ _ held allowed stepped => held.step allowed.1 allowed.2 stepped
  exact now.indexFollows idle

end Peer

/-! ## Concrete runs -/

namespace Sample

/-- The file `g`. -/
def otherPath : RelPath := [.utf8 ['g']]

/-- What the operating system reports of a rename. -/
def renameReports (source target : RelPath) : List NotifyEvent :=
  [⟨.modify, [source]⟩, ⟨.modify, [target]⟩, ⟨.modify, [source, target]⟩]

/-- The file is renamed, and all events are handled. -/
def renames : List FollowAct :=
  [.user (.rename path otherPath) (renameReports path otherPath), .handle, .handle, .handle,
    .handle]

/-- The file `h`. -/
def thirdPath : RelPath := [.utf8 ['h']]

/-- A new file is renamed before its creation is handled, a file that is indexed is renamed after
it was removed and written again, and all events are handled. -/
def renamesUnindexed : List FollowAct :=
  [.user (.write otherPath [2]) [⟨.create, [otherPath]⟩],
    .user (.rename otherPath thirdPath) (renameReports otherPath thirdPath),
    .user (.remove path) [⟨.remove, [path]⟩],
    .user (.write path [3]) [⟨.create, [path]⟩, ⟨.modify, [path]⟩],
    .user (.rename path otherPath) (renameReports path otherPath)] ++
  List.replicate 12 .handle

end Sample

namespace Peer

attribute [local instance] Sample.blake3

/-- After a rename the index still has the file at its old path. -/
theorem exists_rename_unfollowed :
    ∃ trace last, start (Sample.ctx .one) (Sample.folder [1]) [] 10 = some (Sample.peer .one [1]) ∧
      Run (followStep (Sample.ctx .one) []) (Sample.peer .one [1]) trace last ∧
      trace.map Prod.snd = Sample.renames ∧
      (∀ entry ∈ trace, entry.1.Plain (Sample.ctx .one) [] entry.2) ∧ last.watch.fsQueue = [] ∧
      ¬ last.IndexFollows := by
  obtain ⟨trace, last, run, acts, plain, final⟩ :=
    @exists_checked_run _ _ (followStep (Sample.ctx .one) [])
      (fun peer act => decide (peer.Plain (Sample.ctx .one) [] act)) (Sample.peer .one [1])
      Sample.renames
      (fun last => decide (last.watch.fsQueue = [] ∧ last.disk.isFile Sample.path = false ∧
        Merkle.HasFile [['f']] last.index.tree)) (by decide +kernel)
  obtain ⟨idle, gone, kept⟩ := of_decide_eq_true final
  refine ⟨trace, last, rfl, run, acts, fun entry member => of_decide_eq_true (plain entry member),
    idle, fun follows => ?_⟩
  obtain ⟨hash, size, chunks, found⟩ := Merkle.hasFile_iff.mp kept
  rw [← Merkle.findNode_map_utf8] at found
  have listed := (follows.files Sample.path).mp ⟨hash, size, chunks, found⟩
  exact absurd (gone.symm.trans listed.1) Bool.false_ne_true

/-- Renamed files are followed when the index does not have them. -/
theorem follows_of_run_sample :
    ∃ trace last, Run (followStep (Sample.ctx .one) []) (Sample.peer .one [1]) trace last ∧
      trace.map Prod.snd = Sample.renamesUnindexed ∧
        last.disk.read Sample.otherPath = some [3] ∧ last.disk.read Sample.thirdPath = some [2] ∧
          last.IndexFollows := by
  obtain ⟨trace, last, run, acts, allowed, final⟩ :=
    @exists_checked_run _ _ (followStep (Sample.ctx .one) [])
      (fun peer act => decide (peer.Plain (Sample.ctx .one) [] act ∧ peer.SparesIndexed act))
      (Sample.peer .one [1]) Sample.renamesUnindexed
      (fun last => decide (last.watch.fsQueue = [] ∧
        last.disk.read Sample.otherPath = some [3] ∧ last.disk.read Sample.thirdPath = some [2]))
      (by decide +kernel)
  obtain ⟨idle, other, third⟩ := of_decide_eq_true final
  have started : start (Sample.ctx .one) (Sample.folder [1]) [] 10 =
      some (Sample.peer .one [1]) := rfl
  exact ⟨trace, last, run, acts, other, third,
    follows_of_run (Sample.proper_folder [1]) started run
      (fun entry member => (of_decide_eq_true (allowed entry member)).1)
      (fun entry member => (of_decide_eq_true (allowed entry member)).2) idle⟩

end Peer

end P2Sync
