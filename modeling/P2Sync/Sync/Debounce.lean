import P2Sync.Core.Scan
import P2Sync.Net.Start

/-!
# Edits in quick succession

An event for a file that was taken up a short while ago is dropped. Nothing looks at the
file again when the window has passed, so the last content of a burst of edits can stay out
of the index.

A file is indexed with the content it has when an event for it is taken up (`seen`). So when
all events are handled the tree is a picture of the files exactly when each file that was
written still has the content it had then, up to the hashes (`indexesAll_iff`).
-/

set_option autoImplicit false

namespace P2Sync

/-- What happens while nobody but the user is active: time passes, the user writes a file,
of which the watcher reports one event, and the engine handles the next event. -/
inductive LocalAct where
  | elapse (duration : Nat)
  | setTime (now : Nat)
  | write (path : RelPath) (data : Bytes) (created : Bool)
  | handle
deriving DecidableEq

/-- The event for a written file. -/
def writeEvent (path : RelPath) (created : Bool) : FsEvent :=
  if created then .created path else .modified path

namespace Disk

/-- A file is written, and the folders above it are created. -/
def save (path : RelPath) (data : Bytes) (disk : Disk) : Option Disk :=
  (disk.createDirAll path.dropLast).bind fun disk => disk.write path data

theorem read_save {path : RelPath} {data : Bytes} {disk saved : Disk}
    (success : disk.save path data = some saved) (query : RelPath) :
    saved.read query = if query = path then some data else disk.read query := by
  obtain ⟨created, parents, written⟩ := Option.bind_eq_some_iff.mp success
  rw [read_write written, read_createDirAll parents]

/-- No file is saved as the folder itself. -/
theorem nonempty_of_save {path : RelPath} {data : Bytes} {disk saved : Disk}
    (folder : disk.read [] = none) (success : disk.save path data = some saved) : path ≠ [] := by
  rintro rfl
  obtain ⟨created, parents, written⟩ := Option.bind_eq_some_iff.mp success
  have still : created.read [] = none := by rw [read_createDirAll parents, folder]
  cases created with
  | file content => exact absurd still (Option.some_ne_none content)
  | dir entries => exact absurd written (Option.some_ne_none saved).symm

end Disk

namespace Peer

variable {ι : Type} [Blake3] (ctx : Ctx ι) (peer : Peer ι)

omit [Blake3] in
/-- What the looks at a file find when nothing happens in between. -/
def look (path : RelPath) : FsReads :=
  ⟨peer.disk.isFile path, peer.disk.read path, peer.disk.read path⟩

/-- One step of local activity. -/
def localStep (peer : Peer ι) : LocalAct → Option (Peer ι)
  | .elapse duration => peer.next ctx (.elapse duration)
  | .setTime now => peer.next ctx (.setTime now)
  | .write path data created =>
      (peer.disk.save path data).bind fun disk =>
        (peer.next ctx (.user disk)).bind fun peer =>
          peer.next ctx (.watched (writeEvent path created))
  | .handle =>
      match peer.watch.fsQueue with
      | [] => none
      | event :: _ => peer.next ctx (.fsEvent (peer.look event.path))

omit [Blake3] in
/-- Whether an event for a path is dropped because another one was taken up a short while
ago. -/
def debounced (path : RelPath) : Bool :=
  (peer.watch.changeDebounce.isSuppressed path peer.watch.instant ctx.debounce).1

omit [Blake3] in
/-- The step takes up an event for a path. -/
def takesUp (path : RelPath) (act : LocalAct) : Prop :=
  act = .handle ∧ peer.watch.fsQueue.head?.map FsEvent.path = some path ∧
    peer.debounced ctx path = false

instance decidableTakesUp (path : RelPath) (act : LocalAct) :
    Decidable (peer.takesUp ctx path act) :=
  inferInstanceAs (Decidable (_ ∧ _ ∧ _))

/-- What a file held when an event for it was last taken up, or at the start. -/
def seen (first : Peer ι) (path : RelPath) (trace : List (Peer ι × LocalAct)) : Option Bytes :=
  trace.foldl
    (fun content entry =>
      if entry.1.takesUp ctx path entry.2 then entry.1.disk.read path else content)
    (first.disk.read path)

/-- The user wrote a file in the run. -/
def Written (path : RelPath) (trace : List (Peer ι × LocalAct)) : Prop :=
  ∃ entry ∈ trace, ∃ data created, entry.2 = .write path data created

/-- A written file is not excluded, and is no backup. -/
def WritesPlain (peer : Peer ι) (act : LocalAct) : Prop :=
  ∀ path data created, act = .write path data created →
    peer.index.isExcluded path = false ∧ ¬ conflictMark <:+: path.toStringLossy

instance decidableWritesPlain (peer : Peer ι) : ∀ act, Decidable (peer.WritesPlain act)
  | .write path data created => decidable_of_iff
      (peer.index.isExcluded path = false ∧ ¬ conflictMark <:+: path.toStringLossy)
      ⟨fun plain _ _ _ same => by cases same; exact plain, fun plain => plain path data created rfl⟩
  | .elapse _ => isTrue nofun
  | .setTime _ => isTrue nofun
  | .handle => isTrue nofun

/-- The tree has the file node of its content at every file that is not excluded. -/
def IndexesAll (peer : Peer ι) : Prop :=
  ∀ path data, peer.disk.read path = some data → peer.index.isExcluded path = false →
    Merkle.findNode path peer.index.tree =
      some (Merkle.fileNodeWithChunkSize data peer.index.chunkSize)

/-! ## Pictures -/

section Shows

omit [Blake3]

theorem shouldExclude_above {patterns : List Str} {above path : RelPath}
    (reaches : above <+: path) (included : shouldExclude path patterns = false) :
    shouldExclude above patterns = false := by
  simp only [shouldExclude, List.any_eq_false] at included ⊢
  intro pattern listed excluded
  obtain ⟨name, member, same⟩ := List.any_eq_true.mp excluded
  exact included pattern listed
    (List.any_eq_true.mpr ⟨name, reaches.subset member, same⟩)

/-- Nodes are found at paths of names only. -/
theorem exists_names_of_findNode {path : RelPath} {tree node : Node}
    (found : Merkle.findNode path tree = some node) :
    ∃ names : List Str, path = names.map OsStr.utf8 := by
  induction path generalizing tree with
  | nil => exact ⟨[], rfl⟩
  | cons name rest ih =>
      cases name with
      | invalid => exact absurd found (Option.some_ne_none node).symm
      | utf8 text =>
          cases tree with
          | file hash size chunks => exact absurd found (Option.some_ne_none node).symm
          | directory hash children =>
              simp only [Merkle.findNode, OsStr.toStr] at found
              split at found
              · obtain ⟨names, rfl⟩ := ih found
                exact ⟨text :: names, rfl⟩
              · exact absurd found (Option.some_ne_none node).symm

end Shows

/-- An insertion into a tree that shows contents, none of them above or below it. -/
theorem shows_insert {chunkSize : Nat} {names query : List Str} (nonempty : names ≠ [])
    {tree : Node} {content : List Str → Option Bytes}
    (above : ∀ above, above <+: names → Merkle.Shows chunkSize tree above (content above))
    (alone : ∀ other, names ≠ other → names <+: other ∨ other <+: names → content other = none)
    (data : Bytes) (shows : Merkle.Shows chunkSize tree query (content query)) :
    Merkle.Shows chunkSize
      (Merkle.insertRecursive names (Merkle.fileNodeWithChunkSize data chunkSize) tree) query
      (if query = names then some data else content query) := by
  split
  · rename_i same
    subst same
    refine Merkle.shows_insert_self nonempty ?_ data
    rintro ⟨reached, below, hash, size, chunks, rfl, proper, standing⟩
    have shown := above reached (List.prefix_append reached below)
    rw [alone reached (fun same => proper (by simpa using same))
      (Or.inr (List.prefix_append reached below))] at shown
    exact shown hash size chunks standing
  · rename_i apart
    exact Merkle.shows_insert_of_ne (Ne.symm apart) (alone query (Ne.symm apart)) shows

/-! ## One step -/

variable {ctx peer} {after : Peer ι} {path : RelPath} {data : Bytes}

/-- A debounced event is dropped. -/
theorem handleTouched_dropped (unguarded : peer.watch.syncWriteGuard = ∅) (reads : FsReads)
    (dropped : peer.debounced ctx path = true) :
    peer.handleTouched ctx reads path = (peer, none) := by
  have recent : (peer.watch.changeDebounce.isSuppressed path peer.watch.instant
      ctx.debounce).1 = true := dropped
  rw [handleTouched, unguarded, EventGuard.isSuppressed_empty]
  dsimp only
  rw [if_neg Bool.false_ne_true, if_pos recent, EventGuard.guard_of_isSuppressed recent,
    ← unguarded]

/-- Another event puts the content of the file into the index, and is remembered. -/
theorem handleTouched_taken (unguarded : peer.watch.syncWriteGuard = ∅)
    (taken : peer.debounced ctx path = false) (unmarked : ¬ conflictMark <:+: path.toStringLossy)
    (included : peer.index.isExcluded path = false) (here : peer.disk.read path = some data) :
    ∃ changeDebounce published, peer.handleTouched ctx (peer.look path) path =
        ({ peer with
          index := peer.index.ticked path data peer.now
          watch := { peer.watch with changeDebounce := changeDebounce } }, published) ∧
      ∀ query, changeDebounce.lookup query =
        if query = path then some peer.watch.instant
        else peer.watch.changeDebounce.lookup query := by
  have late : ¬ (peer.watch.changeDebounce.isSuppressed path peer.watch.instant
      ctx.debounce).1 = true := Bool.eq_false_iff.mp taken
  have marked : ∀ query,
      ((peer.watch.changeDebounce.isSuppressed path peer.watch.instant ctx.debounce).2.mark path
        peer.watch.instant).lookup query =
        if query = path then some peer.watch.instant
        else peer.watch.changeDebounce.lookup query := by
    intro query
    rw [EventGuard.lookup_mark]
    split
    · rfl
    · rename_i apart
      exact EventGuard.lookup_isSuppressed_of_ne apart
  have standing : peer.disk.isFile path = true := by
    rw [Disk.isFile, here]
    rfl
  have recorded : (peer.index.ticked path data peer.now).fileMeta.lookup path =
      some ⟨(peer.index.clockOf path).tick peer.index.localPeer, peer.now,
        peer.index.localPeer⟩ := Finmap.lookup_insert _
  rw [handleTouched, unguarded, EventGuard.isSuppressed_empty]
  dsimp only
  rw [if_neg Bool.false_ne_true, if_neg late]
  simp only [look, standing, here, included, unmarked, SyncIndex.localFileChanged,
    Option.map_some, recorded, Bool.false_eq_true, Bool.not_true, if_false]
  rw [← unguarded]
  exact ⟨_, _, rfl, marked⟩

omit [Blake3] in
theorem path_writeEvent (path : RelPath) (created : Bool) :
    (writeEvent path created).path = path := by
  cases created <;> rfl

/-- A saved file leaves its event in the queue. -/
theorem localStep_write {created : Bool} (unguarded : peer.watch.syncWriteGuard = ∅)
    (stepped : peer.localStep ctx (.write path data created) = some after) :
    ∃ disk, peer.disk.save path data = some disk ∧
      after = { peer with
        disk := disk
        watch := { peer.watch with
          fsQueue := peer.watch.fsQueue ++ [writeEvent path created] } } := by
  obtain ⟨disk, saved, reported⟩ := Option.bind_eq_some_iff.mp stepped
  refine ⟨disk, saved, ?_⟩
  have passed : after = { peer with
      disk := disk
      watch := { peer.watch with
        syncWriteGuard := ∅
        fsQueue := peer.watch.fsQueue ++ [writeEvent path created] } } := by
    simp only [next, step, Option.map_some, Option.bind_some, unguarded,
      EventGuard.isSuppressed_empty, Bool.false_eq_true, if_false, Option.some.injEq] at reported
    exact reported.symm
  rw [passed, ← unguarded]

theorem localStep_handle (pushing : ctx.noPush = false) {created : Bool} {rest : List FsEvent}
    (queue : peer.watch.fsQueue = writeEvent path created :: rest) :
    peer.localStep ctx .handle =
      some ({ peer with watch := { peer.watch with fsQueue := rest } }.handleTouched ctx
        (peer.look path) path).1 := by
  rw [localStep, queue]
  simp only [path_writeEvent]
  rw [next, step, queue]
  simp only [pushing, Bool.false_eq_true, if_false, Option.map_some]
  cases created <;> rfl

omit [Blake3] in
theorem takesUp_handle {query : RelPath} {created : Bool} {rest : List FsEvent}
    (queue : peer.watch.fsQueue = writeEvent path created :: rest) :
    peer.takesUp ctx query .handle ↔ query = path ∧ peer.debounced ctx path = false := by
  rw [takesUp, queue, List.head?_cons, Option.map_some, path_writeEvent, Option.some.injEq]
  constructor
  · rintro ⟨_, rfl, taken⟩
    exact ⟨rfl, taken⟩
  · rintro ⟨rfl, taken⟩
    exact ⟨rfl, rfl, taken⟩

/-! ## What is seen -/

section Trace

variable {first : Peer ι} {query : RelPath} {trace : List (Peer ι × LocalAct)} {act : LocalAct}

omit [Blake3] in
theorem seen_snoc (entry : Peer ι × LocalAct) :
    seen ctx first query (trace ++ [entry]) =
      if entry.1.takesUp ctx query entry.2 then entry.1.disk.read query
      else seen ctx first query trace := by
  rw [seen, List.foldl_append]
  rfl

omit [Blake3] in
theorem seen_of_not_takesUp (unseen : ¬ peer.takesUp ctx query act) :
    seen ctx first query (trace ++ [(peer, act)]) = seen ctx first query trace := by
  rw [seen_snoc, if_neg unseen]

omit [Blake3] in
theorem mem_of_takesUp {entry : Peer ι × LocalAct} (unseen : ¬ peer.takesUp ctx query act)
    (member : entry ∈ trace ++ [(peer, act)]) (took : entry.1.takesUp ctx query entry.2) :
    entry ∈ trace := by
  rcases List.mem_append.mp member with old | new
  · exact old
  · rw [List.mem_singleton.mp new] at took
    exact absurd took unseen

omit [Blake3] in
theorem written_snoc {entry : Peer ι × LocalAct} :
    Written query (trace ++ [entry]) ↔
      Written query trace ∨ ∃ data created, entry.2 = .write query data created := by
  simp only [Written, List.mem_append, List.mem_singleton, or_and_right, exists_or, exists_eq_left]

omit [Blake3] in
theorem written_of_not_write (other : ∀ path data created, act ≠ .write path data created) :
    Written query (trace ++ [(peer, act)]) ↔ Written query trace := by
  rw [written_snoc, or_iff_left fun ⟨data, created, same⟩ => other query data created same]

end Trace

/-! ## Whole runs -/

/-- Every file the user wrote has a path of names. -/
def NamesText (trace : List (Peer ι × LocalAct)) : Prop :=
  ∀ path, Written path trace → ∃ names : List Str, path = names.map OsStr.utf8

/-- What is true all along a run of local activity. -/
structure Local (ctx : Ctx ι) (first : Peer ι) (trace : List (Peer ι × LocalAct))
    (peer : Peer ι) : Prop where
  unguarded : peer.watch.syncWriteGuard = ∅
  chunkSize : peer.index.chunkSize = ctx.storage.chunkSize
  patterns : peer.index.excludePatterns = first.index.excludePatterns
  folder : peer.disk.read [] = none
  queued : ∀ event ∈ peer.watch.fsQueue, ∃ path created,
    event = writeEvent path created ∧ Written path trace
  written : ∀ path, Written path trace → (peer.disk.read path).isSome = true ∧
    peer.index.isExcluded path = false ∧ ¬ conflictMark <:+: path.toStringLossy
  standing : ∀ path, (seen ctx first path trace).isSome = true →
    (peer.disk.read path).isSome = true
  untouched : ∀ path, ¬ Written path trace →
    peer.disk.read path = first.disk.read path ∧
      seen ctx first path trace = first.disk.read path
  marked : ∀ path instant, peer.watch.changeDebounce.lookup path = some instant →
    instant ≤ peer.watch.instant ∧
      ∃ entry ∈ trace, entry.1.takesUp ctx path entry.2 ∧ entry.1.watch.instant = instant
  taken : ∀ path, ∀ entry ∈ trace, entry.1.takesUp ctx path entry.2 →
    ∃ instant, peer.watch.changeDebounce.lookup path = some instant ∧
      entry.1.watch.instant ≤ instant
  shows : NamesText trace → ∀ names : List Str,
    peer.index.isExcluded (names.map OsStr.utf8) = false →
      Merkle.Shows ctx.storage.chunkSize peer.index.tree names
        (seen ctx first (names.map OsStr.utf8) trace)

namespace Local

variable {first : Peer ι} {trace : List (Peer ι × LocalAct)} {act : LocalAct}

/-- Time passes, or an event is dropped. -/
theorem quiet (now : Local ctx first trace peer) (unseen : ∀ path, ¬ peer.takesUp ctx path act)
    (unwritten : ∀ path data created, act ≠ .write path data created)
    (index : after.index = peer.index) (disk : after.disk = peer.disk)
    (guard : after.watch.syncWriteGuard = peer.watch.syncWriteGuard)
    (queue : ∀ event ∈ after.watch.fsQueue, event ∈ peer.watch.fsQueue)
    (debounce : after.watch.changeDebounce = peer.watch.changeDebounce)
    (later : peer.watch.instant ≤ after.watch.instant) :
    Local ctx first (trace ++ [(peer, act)]) after where
  unguarded := guard.trans now.unguarded
  chunkSize := by rw [index, now.chunkSize]
  patterns := by rw [index, now.patterns]
  folder := by rw [disk, now.folder]
  queued event member := by
    obtain ⟨path, created, same, wrote⟩ := now.queued event (queue event member)
    exact ⟨path, created, same, (written_of_not_write unwritten).mpr wrote⟩
  written path wrote := by
    rw [index, disk]
    exact now.written path ((written_of_not_write unwritten).mp wrote)
  standing path found := by
    rw [seen_of_not_takesUp (unseen path)] at found
    rw [disk]
    exact now.standing path found
  untouched path spared := by
    rw [seen_of_not_takesUp (unseen path), disk]
    exact now.untouched path fun wrote => spared ((written_of_not_write unwritten).mpr wrote)
  marked path instant found := by
    rw [debounce] at found
    obtain ⟨past, entry, member, took⟩ := now.marked path instant found
    exact ⟨past.trans later, entry, List.mem_append_left _ member, took⟩
  taken path entry member took := by
    rw [debounce]
    exact now.taken path entry (mem_of_takesUp (unseen path) member took) took
  shows texts names included := by
    rw [index] at included ⊢
    rw [seen_of_not_takesUp (unseen _)]
    exact now.shows (fun path wrote => texts path ((written_of_not_write unwritten).mpr wrote))
      names included

/-- The user writes a file. -/
theorem wrote {created : Bool} {disk : Disk} (now : Local ctx first trace peer)
    (plain : peer.index.isExcluded path = false ∧ ¬ conflictMark <:+: path.toStringLossy)
    (saved : peer.disk.save path data = some disk)
    (same : after = { peer with
      disk := disk
      watch := { peer.watch with
        fsQueue := peer.watch.fsQueue ++ [writeEvent path created] } }) :
    Local ctx first (trace ++ [(peer, .write path data created)]) after := by
  subst same
  have reads := Disk.read_save saved
  have grows : ∀ query, (peer.disk.read query).isSome = true →
      (disk.read query).isSome = true := by
    intro query found
    rw [reads]
    split
    · rfl
    · exact found
  have unhandled : ∀ query, ¬ peer.takesUp ctx query (.write path data created) :=
    fun query taken => absurd taken.1 (by simp)
  have unseen : ∀ query, seen ctx first query (trace ++ [(peer, .write path data created)]) =
      seen ctx first query trace := fun query => seen_of_not_takesUp (unhandled query)
  have wrote : ∀ query, Written query (trace ++ [(peer, .write path data created)]) ↔
      Written query trace ∨ query = path := by
    intro query
    rw [written_snoc]
    refine or_congr_right ⟨?_, ?_⟩
    · rintro ⟨data', created', same⟩
      cases same
      rfl
    · rintro rfl
      exact ⟨data, created, rfl⟩
  refine ⟨now.unguarded, now.chunkSize, now.patterns, ?_, ?_, ?_, ?_, ?_, ?_, ?_, ?_⟩
  · rw [reads, if_neg (Disk.nonempty_of_save now.folder saved).symm]
    exact now.folder
  · intro event member
    rcases List.mem_append.mp member with old | new
    · obtain ⟨path', created', same, before⟩ := now.queued event old
      exact ⟨path', created', same, (wrote path').mpr (Or.inl before)⟩
    · exact ⟨path, created, List.mem_singleton.mp new, (wrote path).mpr (Or.inr rfl)⟩
  · intro query either
    rcases (wrote query).mp either with before | rfl
    · exact ⟨grows query (now.written query before).1, (now.written query before).2⟩
    · exact ⟨by rw [reads, if_pos rfl]; rfl, plain⟩
  · intro query found
    rw [unseen] at found
    exact grows query (now.standing query found)
  · intro query spared
    rw [unseen]
    obtain ⟨unwritten, apart⟩ := not_or.mp (mt (wrote query).mpr spared)
    rw [reads, if_neg apart]
    exact now.untouched query unwritten
  · intro query instant found
    obtain ⟨past, entry, member, took⟩ := now.marked query instant found
    exact ⟨past, entry, List.mem_append_left _ member, took⟩
  · intro query entry member took
    exact now.taken query entry (mem_of_takesUp (unhandled query) member took) took
  · intro texts names included
    rw [unseen]
    exact now.shows (fun path' before => texts path' ((wrote path').mpr (Or.inl before))) names
      included

/-- An event of a written file is taken up. -/
theorem shows_ticked (now : Local ctx first trace peer) (texts : NamesText trace)
    {names : List Str} (wrote : Written (names.map OsStr.utf8) trace)
    (here : peer.disk.read (names.map OsStr.utf8) = some data) {query : List Str}
    (included : peer.index.isExcluded (query.map OsStr.utf8) = false) :
    Merkle.Shows ctx.storage.chunkSize
      (peer.index.ticked (names.map OsStr.utf8) data peer.now).tree query
      (if query = names then some data else seen ctx first (query.map OsStr.utf8) trace) := by
  have nonempty : names ≠ [] := by
    rintro rfl
    exact absurd (now.folder.symm.trans here) (Option.some_ne_none data).symm
  have inserted : (peer.index.ticked (names.map OsStr.utf8) data peer.now).tree =
      Merkle.insertRecursive names
        (Merkle.fileNodeWithChunkSize data ctx.storage.chunkSize) peer.index.tree := by
    rw [← now.chunkSize]
    exact congrArg (Merkle.insertRecursive · _ _) (Merkle.pathNames_map_utf8 names)
  rw [inserted]
  refine @shows_insert _ _ names query nonempty _
    (fun names => seen ctx first (names.map OsStr.utf8) trace) (fun above reaches => ?_)
    (fun other apart related => ?_) data (now.shows texts query included)
  · exact now.shows texts above (shouldExclude_above (reaches.map OsStr.utf8)
      (now.written _ wrote).2.1)
  · have gone : peer.disk.read (other.map OsStr.utf8) = none :=
      Disk.read_of_related here (fun same => apart (utf8_injective same))
        (related.imp (fun below => below.map OsStr.utf8) fun above => above.map OsStr.utf8)
    cases found : seen ctx first (other.map OsStr.utf8) trace with
    | none => rfl
    | some content =>
        have standing := now.standing _ (by rw [found]; rfl)
        rw [gone] at standing
        exact absurd standing Bool.false_ne_true

/-- The engine takes up an event. -/
theorem tookUp (now : Local ctx first trace peer) {created : Bool} {rest : List FsEvent}
    {changeDebounce : EventGuard}
    (queue : peer.watch.fsQueue = writeEvent path created :: rest)
    (taken : peer.debounced ctx path = false) (wrote : Written path trace)
    (here : peer.disk.read path = some data)
    (marked : ∀ query, changeDebounce.lookup query =
      if query = path then some peer.watch.instant
      else peer.watch.changeDebounce.lookup query) :
    Local ctx first (trace ++ [(peer, .handle)]) { peer with
      index := peer.index.ticked path data peer.now
      watch := { peer.watch with fsQueue := rest, changeDebounce := changeDebounce } } := by
  have takes : ∀ query, peer.takesUp ctx query .handle ↔ query = path :=
    fun query => (takesUp_handle queue).trans (and_iff_left taken)
  have looked : ∀ query, seen ctx first query (trace ++ [(peer, .handle)]) =
      if query = path then some data else seen ctx first query trace := by
    intro query
    rw [seen_snoc, if_congr (takes query) rfl rfl]
    split
    · rename_i same
      rw [same, here]
    · rfl
  have wrote' : ∀ query, Written query (trace ++ [(peer, .handle)]) ↔ Written query trace :=
    fun query => written_of_not_write fun _ _ _ other => absurd other (by simp)
  refine ⟨now.unguarded, now.chunkSize, now.patterns, now.folder, ?_, ?_, ?_, ?_, ?_, ?_, ?_⟩
  · intro event member
    obtain ⟨path', created', same, before⟩ := now.queued event
      (by rw [queue]; exact List.mem_cons_of_mem _ member)
    exact ⟨path', created', same, (wrote' path').mpr before⟩
  · exact fun query before => now.written query ((wrote' query).mp before)
  · intro query found
    rw [looked] at found
    split at found
    · rename_i same
      rw [same, here]
      rfl
    · exact now.standing query found
  · intro query spared
    rw [wrote'] at spared
    have apart : query ≠ path := fun same => spared (same ▸ wrote)
    rw [looked, if_neg apart]
    exact now.untouched query spared
  · intro query instant found
    dsimp only at found
    rw [marked] at found
    split at found
    · rename_i same
      cases found
      exact ⟨le_rfl, (peer, .handle), List.mem_append_right _ (List.mem_singleton_self _),
        (takes query).mpr same, rfl⟩
    · obtain ⟨past, entry, member, took⟩ := now.marked query instant found
      exact ⟨past, entry, List.mem_append_left _ member, took⟩
  · intro query entry member took
    dsimp only
    rw [marked]
    rcases List.mem_append.mp member with old | new
    · obtain ⟨instant, found, past⟩ := now.taken query entry old took
      split
      · exact ⟨_, rfl, past.trans (now.marked query instant found).1⟩
      · exact ⟨instant, found, past⟩
    · rw [List.mem_singleton.mp new] at took ⊢
      rw [if_pos ((takes query).mp took)]
      exact ⟨_, rfl, le_rfl⟩
  · intro texts names included
    have texts : NamesText trace := fun path' before => texts path' ((wrote' path').mpr before)
    obtain ⟨written, rfl⟩ := texts path wrote
    rw [looked, if_congr utf8_injective.eq_iff rfl rfl]
    exact now.shows_ticked texts wrote here included

/-- The engine handles an event. -/
theorem handled (pushing : ctx.noPush = false) (now : Local ctx first trace peer)
    (stepped : peer.localStep ctx .handle = some after) :
    Local ctx first (trace ++ [(peer, .handle)]) after := by
  obtain ⟨event, rest, queue⟩ : ∃ event rest, peer.watch.fsQueue = event :: rest := by
    cases queue : peer.watch.fsQueue with
    | nil =>
        rw [localStep, queue] at stepped
        exact absurd stepped (Option.some_ne_none after).symm
    | cons event rest => exact ⟨event, rest, rfl⟩
  obtain ⟨path, created, rfl, wrote⟩ := now.queued event (by rw [queue]; exact List.mem_cons_self)
  rw [localStep_handle pushing queue] at stepped
  let popped : Peer ι := { peer with watch := { peer.watch with fsQueue := rest } }
  cases decided : peer.debounced ctx path with
  | true =>
      have dropped := @handleTouched_dropped ι _ ctx popped path now.unguarded (peer.look path)
        decided
      have same : after = popped :=
        (Option.some.inj stepped).symm.trans (congrArg Prod.fst dropped)
      subst same
      refine now.quiet (fun query taken => ?_) (fun _ _ _ other => absurd other (by simp)) rfl rfl
        rfl (fun event member => ?_) rfl le_rfl
      · have taken := ((takesUp_handle queue).mp taken).2
        exact absurd (taken.symm.trans decided) Bool.false_ne_true
      · rw [queue]
        exact List.mem_cons_of_mem _ member
  | false =>
      obtain ⟨there, included, unmarked⟩ := now.written path wrote
      obtain ⟨data, here⟩ := Option.isSome_iff_exists.mp there
      obtain ⟨changeDebounce, published, taken, marked⟩ :=
        @handleTouched_taken ι _ ctx popped path data now.unguarded decided unmarked included here
      have same := (Option.some.inj stepped).symm.trans (congrArg Prod.fst taken)
      subst same
      exact now.tookUp queue decided wrote here marked

/-- One step of local activity. -/
theorem step (pushing : ctx.noPush = false) (now : Local ctx first trace peer)
    (plain : peer.WritesPlain act) (stepped : peer.localStep ctx act = some after) :
    Local ctx first (trace ++ [(peer, act)]) after := by
  cases act with
  | elapse duration =>
      cases stepped
      exact now.quiet (fun _ taken => absurd taken.1 (by simp)) nofun rfl rfl rfl
        (fun _ => id) rfl (Nat.le_add_right _ _)
  | setTime time =>
      cases stepped
      exact now.quiet (fun _ taken => absurd taken.1 (by simp)) nofun rfl rfl rfl
        (fun _ => id) rfl le_rfl
  | write path data created =>
      obtain ⟨disk, saved, same⟩ := localStep_write now.unguarded stepped
      exact now.wrote (plain path data created rfl) saved same
  | handle => exact now.handled pushing stepped

variable {entries : List (OsStr × Disk)} {patterns : List Str} {clock : Nat}

/-- A peer starts with a picture of its folder. -/
theorem start (proper : (Disk.dir entries).Proper)
    (started : Peer.start ctx (.dir entries) patterns clock = some first) :
    Local ctx first [] first := by
  obtain ⟨index, built, rfl⟩ := Option.map_eq_some_iff.mp started
  obtain ⟨tree, scanned, rfl⟩ := Option.map_eq_some_iff.mp built
  have unwritten : ∀ path, ¬ @Written ι path [] := by
    rintro path ⟨entry, absent, _⟩
    exact List.not_mem_nil absent
  exact
    { unguarded := rfl
      chunkSize := rfl
      patterns := rfl
      folder := rfl
      queued := fun event absent => absurd absent List.not_mem_nil
      written := fun path wrote => absurd wrote (unwritten path)
      standing := fun path found => found
      untouched := fun path _ => ⟨rfl, rfl⟩
      marked := fun path _ found => absurd found (by simp)
      taken := fun path entry absent => absurd absent List.not_mem_nil
      shows := fun _ names included => shows_fromPathConfigured proper scanned
        fun above _ reaches => shouldExclude_above (reaches.map OsStr.utf8) included }

end Local

/-- **A run of local activity keeps to it.** -/
theorem local_of_run {entries : List (OsStr × Disk)} {patterns : List Str} {clock : Nat}
    {first last : Peer ι} {trace : List (Peer ι × LocalAct)} (pushing : ctx.noPush = false)
    (proper : (Disk.dir entries).Proper)
    (started : Peer.start ctx (.dir entries) patterns clock = some first)
    (run : Run (localStep ctx) first trace last)
    (plain : ∀ entry ∈ trace, entry.1.WritesPlain entry.2) : Local ctx first trace last :=
  run.history (Local ctx first) (fun _ => WritesPlain)
    (fun earlier entry later split => plain entry (by simp [split])) (.start proper started)
    fun _ _ _ _ held allowed stepped => held.step pushing allowed stepped

/-- **An event is dropped** exactly when one for its path was taken up within the window. -/
theorem debounced_iff {entries : List (OsStr × Disk)} {patterns : List Str} {clock : Nat}
    {first last : Peer ι} {trace : List (Peer ι × LocalAct)} (pushing : ctx.noPush = false)
    (proper : (Disk.dir entries).Proper)
    (started : Peer.start ctx (.dir entries) patterns clock = some first)
    (run : Run (localStep ctx) first trace last)
    (plain : ∀ entry ∈ trace, entry.1.WritesPlain entry.2) :
    last.debounced ctx path = true ↔ ∃ entry ∈ trace, entry.1.takesUp ctx path entry.2 ∧
      last.watch.instant - entry.1.watch.instant < ctx.debounce := by
  have now := local_of_run pushing proper started run plain
  rw [debounced, EventGuard.isSuppressed_iff]
  constructor
  · rintro ⟨instant, found, recent⟩
    obtain ⟨_, entry, member, took, rfl⟩ := now.marked path instant found
    exact ⟨entry, member, took, recent⟩
  · rintro ⟨entry, member, took, recent⟩
    obtain ⟨instant, found, past⟩ := now.taken path entry member took
    exact ⟨instant, found, by omega⟩

/-- A scanned file has a path of names. -/
theorem exists_names_of_start {disk : Disk} {patterns : List Str} {clock : Nat} {first : Peer ι}
    (started : start ctx disk patterns clock = some first)
    (here : first.disk.read path = some data)
    (included : shouldExclude path first.index.excludePatterns = false) :
    ∃ names : List Str, path = names.map OsStr.utf8 := by
  obtain ⟨index, built, rfl⟩ := Option.map_eq_some_iff.mp started
  obtain ⟨tree, scanned, rfl⟩ := Option.map_eq_some_iff.mp built
  refine exists_names_of_read scanned (fun above _ reaches => ?_) here
  exact shouldExclude_above reaches included

/-- **A tree is a picture of the files after local activity** exactly when every file that
was written has a path of names and ends up with the content it was last seen with, up to
the hashes. -/
theorem indexesAll_iff {entries : List (OsStr × Disk)} {patterns : List Str} {clock : Nat}
    {first last : Peer ι} {trace : List (Peer ι × LocalAct)} (pushing : ctx.noPush = false)
    (proper : (Disk.dir entries).Proper)
    (started : Peer.start ctx (.dir entries) patterns clock = some first)
    (run : Run (localStep ctx) first trace last)
    (plain : ∀ entry ∈ trace, entry.1.WritesPlain entry.2) :
    last.IndexesAll ↔ ∀ path, Written path trace →
      (∃ names : List Str, path = names.map OsStr.utf8) ∧
        (seen ctx first path trace).map
            (Merkle.fileNodeWithChunkSize · ctx.storage.chunkSize) =
          (last.disk.read path).map (Merkle.fileNodeWithChunkSize · ctx.storage.chunkSize) := by
  have now := local_of_run pushing proper started run plain
  constructor
  · intro indexes
    have texts : NamesText trace := by
      intro path wrote
      obtain ⟨there, included, _⟩ := now.written path wrote
      obtain ⟨data, here⟩ := Option.isSome_iff_exists.mp there
      exact exists_names_of_findNode (indexes path data here included)
    intro path wrote
    refine ⟨texts path wrote, ?_⟩
    obtain ⟨names, rfl⟩ := texts path wrote
    obtain ⟨there, included, _⟩ := now.written _ wrote
    obtain ⟨data, here⟩ := Option.isSome_iff_exists.mp there
    have found := indexes _ data here included
    rw [Merkle.findNode_map_utf8, now.chunkSize] at found
    have shown := now.shows texts names included
    rw [here]
    cases content : seen ctx first (names.map OsStr.utf8) trace with
    | none =>
        rw [content] at shown
        exact absurd found (shown _ _ _)
    | some old =>
        rw [content] at shown
        exact shown.symm.trans found
  · intro settled path data here included
    have texts : NamesText trace := fun path wrote => (settled path wrote).1
    obtain ⟨names, rfl⟩ : ∃ names : List Str, path = names.map OsStr.utf8 := by
      by_cases wrote : Written path trace
      · exact texts path wrote
      · rw [(now.untouched path wrote).1] at here
        rw [SyncIndex.isExcluded, now.patterns] at included
        exact exists_names_of_start started here included
    rw [Merkle.findNode_map_utf8, now.chunkSize]
    have shown := now.shows texts names included
    have same : (seen ctx first (names.map OsStr.utf8) trace).map
        (Merkle.fileNodeWithChunkSize · ctx.storage.chunkSize) =
          some (Merkle.fileNodeWithChunkSize data ctx.storage.chunkSize) := by
      by_cases wrote : Written (names.map OsStr.utf8) trace
      · rw [(settled _ wrote).2, here]
        rfl
      · obtain ⟨still, old⟩ := now.untouched _ wrote
        rw [old, ← still, here]
        rfl
    obtain ⟨old, content, node⟩ := Option.map_eq_some_iff.mp same
    rw [content] at shown
    rw [← node]
    exact shown

end Peer

/-! ## Concrete runs -/

namespace Sample

/-- Events for a file are dropped for five units of time after one was taken up. -/
def debouncing : Ctx Site := { ctx .one with debounce := 5 }

/-- The file is written and written again after a time, and each event is handled at once. -/
def writesTwice (pause : Nat) : List LocalAct :=
  [.write path [2] false, .handle, .elapse pause, .write path [3] false, .handle]

end Sample

namespace Peer

attribute [local instance] Sample.blake3

/-- The second of two quick edits stays out of the index. -/
theorem exists_edit_lost :
    ∃ trace last, start Sample.debouncing (Sample.folder [1]) [] 10 = some (Sample.peer .one [1]) ∧
      Run (localStep Sample.debouncing) (Sample.peer .one [1]) trace last ∧
      trace.map Prod.snd = Sample.writesTwice 1 ∧
      (∀ entry ∈ trace, entry.1.WritesPlain entry.2) ∧ last.watch.fsQueue = [] ∧
      ¬ last.IndexesAll := by
  obtain ⟨trace, last, run, acts, plain, final⟩ :=
    @exists_checked_run _ _ (localStep Sample.debouncing)
      (fun peer act => decide (peer.WritesPlain act)) (Sample.peer .one [1])
      (Sample.writesTwice 1)
      (fun last => decide (last.watch.fsQueue = [] ∧ last.disk.read Sample.path = some [3] ∧
        last.index.isExcluded Sample.path = false ∧
        (Merkle.findNode Sample.path last.index.tree).map Node.hash ≠
          some (Merkle.fileNodeWithChunkSize [3] last.index.chunkSize).hash)) (by decide +kernel)
  obtain ⟨idle, here, included, differs⟩ := of_decide_eq_true final
  refine ⟨trace, last, rfl, run, acts, fun entry member => of_decide_eq_true (plain entry member),
    idle, fun indexes => differs ?_⟩
  rw [indexes Sample.path [3] here included]
  rfl

/-- Two edits far enough apart are both indexed. -/
theorem indexesAll_iff_sample :
    ∃ trace last, Run (localStep Sample.debouncing) (Sample.peer .one [1]) trace last ∧
      trace.map Prod.snd = Sample.writesTwice 5 ∧ last.watch.fsQueue = [] ∧ last.IndexesAll := by
  obtain ⟨trace, last, run, acts, plain, final⟩ :=
    @exists_history_run _ _ (localStep Sample.debouncing) (Sample.peer .one [1])
      (Sample.writesTwice 5) (fun _ entry => decide (entry.1.WritesPlain entry.2))
      (fun trace last => decide (last.watch.fsQueue = [] ∧
        seen Sample.debouncing (Sample.peer .one [1]) Sample.path trace =
          last.disk.read Sample.path)) (by decide +kernel)
  obtain ⟨idle, same⟩ := of_decide_eq_true final
  have plain : ∀ entry ∈ trace, entry.1.WritesPlain entry.2 := by
    intro entry member
    obtain ⟨earlier, later, split⟩ := List.append_of_mem member
    exact of_decide_eq_true (plain earlier entry later split)
  have started : start Sample.debouncing (Sample.folder [1]) [] 10 =
      some (Sample.peer .one [1]) := rfl
  refine ⟨trace, last, run, acts, idle, (indexesAll_iff rfl (Sample.proper_folder [1]) started
    run plain).mpr fun path wrote => ?_⟩
  obtain ⟨entry, member, data, created, act⟩ := wrote
  have listed : LocalAct.write path data created ∈ Sample.writesTwice 5 := by
    rw [← acts, ← act]
    exact List.mem_map_of_mem member
  obtain rfl : path = Sample.path := by
    simp only [Sample.writesTwice, List.mem_cons, LocalAct.write.injEq, reduceCtorEq,
      List.not_mem_nil, or_false, false_or] at listed
    exact listed.elim And.left And.left
  exact ⟨⟨[['f']], rfl⟩, by rw [same]⟩

end Peer

end P2Sync
