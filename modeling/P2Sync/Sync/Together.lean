import P2Sync.Core.Refine
import P2Sync.Net.Fetch

/-!
# A deletion by another peer

`handle_notification` tries to remove the file of a tombstone, does not look at the outcome,
and drops the path with everything below it from the index. Folder and index part when the
folder keeps something of that: a file the device does not remove, or files below the path,
which `remove_file` never reaches (`deletesTogether_iff`).
-/

set_option autoImplicit false

namespace P2Sync

namespace Peer

variable {ι : Type} [Blake3] (ctx : Ctx ι) (device : Device) (peer : Peer ι)

omit [Blake3] in
/-- The folder after the attempt to remove the file of a tombstone. -/
def unlinked (path : RelPath) : Disk :=
  if peer.disk.pathExists path && device.removes then
    (peer.disk.removeFile path).getD peer.disk
  else peer.disk

/-- What `handle_notification` does with a tombstone whose path is accepted. -/
def dropped (path : SafePath) (tombstone : Tombstone) : Peer ι :=
  { peer with
    disk := peer.unlinked device path.rel
    index := peer.index.remotelyDeleted path.rel tombstone }

/-- `handle_notification` for a deletion, from start to end. -/
def handleFileDeleted (tombstone : Tombstone) : Peer ι :=
  if tombstone.deletedBy = ctx.localId then peer
  else match SafePath.of? tombstone.path with
  | none => peer
  | some path => peer.dropped device path tombstone

omit [Blake3] in
/-- A regular file that no pattern excludes. -/
def Includes (query : RelPath) : Prop :=
  (peer.disk.read query).isSome = true ∧ peer.index.isExcluded query = false

omit [Blake3] in
/-- The files of the tree are the regular files that are not excluded. -/
def Together : Prop :=
  ∀ query, peer.Includes query ↔
    ∃ names : List Str, query = names.map OsStr.utf8 ∧ Merkle.HasFile names peer.index.tree

variable {ctx device peer} {tombstone : Tombstone} {path : SafePath}

theorem handleFileDeleted_of_named (foreign : tombstone.deletedBy ≠ ctx.localId)
    (named : SafePath.of? tombstone.path = some path) :
    peer.handleFileDeleted ctx device tombstone = peer.dropped device path tombstone := by
  rw [handleFileDeleted, if_neg foreign, named]

/-- **The two steps of the handler** are the handler, when nothing comes between them. -/
theorem handleFileDeleted_run (pulls : ctx.noPull = false)
    (foreign : tombstone.deletedBy ≠ ctx.localId)
    (named : SafePath.of? tombstone.path = some path) (source : ι) (device' : Device) :
    runActs (next ctx) peer
        [.notified source (.fileDeleted tombstone) device, .resume peer.tasks.length device'] =
      some ((peer.handleFileDeleted ctx device tombstone).spawn .idle) := by
  have first : peer.next ctx (.notified source (.fileDeleted tombstone) device) =
      some ({ peer with disk := peer.unlinked device path.rel }.spawn
        (.removed tombstone path)) := by
    rw [next, step, pulls, if_neg Bool.false_ne_true, handleNotification, if_neg foreign, named]
    rfl
  have second : next ctx ({ peer with disk := peer.unlinked device path.rel }.spawn
      (.removed tombstone path)) (.resume peer.tasks.length device') = some _ :=
    next_spawn_resume _ rfl rfl
  rw [runActs, first, Option.bind_some, runActs, second, handleFileDeleted_of_named foreign named]
  rfl

omit [Blake3] in
/-- What is read after the attempt. -/
theorem read_unlinked {path : RelPath} (nonempty : path ≠ []) (query : RelPath) :
    (peer.unlinked device path).read query =
      if query = path ∧ device.removes = true then none else peer.disk.read query := by
  cases removes : device.removes with
  | false => rw [unlinked, removes, Bool.and_false, if_neg Bool.false_ne_true,
      if_neg fun both => Bool.false_ne_true both.2]
  | true =>
      rw [unlinked, removes, Bool.and_true]
      simp only [and_true]
      cases here : peer.disk.read path with
      | some data =>
          obtain ⟨removed, success⟩ :=
            Option.isSome_iff_exists.mp (Disk.removeFile_isSome_of_read nonempty here)
          rw [if_pos (Disk.pathExists_of_read here), success, Option.getD_some,
            Disk.read_removeFile success]
      | none =>
          have kept : (if peer.disk.pathExists path = true then
              (peer.disk.removeFile path).getD peer.disk else peer.disk) = peer.disk := by
            split
            · cases success : peer.disk.removeFile path with
              | none => rfl
              | some removed =>
                  obtain ⟨data, present⟩ := Disk.exists_read_of_removeFile success
                  exact absurd (here.symm.trans present) (Option.some_ne_none data).symm
            · rfl
          rw [kept]
          split
          · rename_i same
            rw [same, here]
          · rfl

/-- The files of the tree after a path was dropped. -/
theorem hasFile_dropped {names query : List Str} (nonempty : names ≠ [])
    (texts : path.rel = names.map OsStr.utf8) :
    Merkle.HasFile query (peer.dropped device path tombstone).index.tree ↔
      ¬ names <+: query ∧ Merkle.HasFile query peer.index.tree := by
  have tree : (peer.dropped device path tombstone).index.tree =
      (Merkle.removeRecursive names peer.index.tree).2 := by
    rw [← Merkle.pathNames_map_utf8 names, ← texts]
    rfl
  rw [tree, Merkle.hasFile_removeRecursive nonempty]

/-- The included files after a path was dropped. -/
theorem includes_dropped (root : path.rel ≠ []) (query : RelPath) :
    (peer.dropped device path tombstone).Includes query ↔
      ¬ (query = path.rel ∧ device.removes = true) ∧ peer.Includes query := by
  have read : (peer.dropped device path tombstone).disk.read query =
      if query = path.rel ∧ device.removes = true then none else peer.disk.read query :=
    read_unlinked root query
  rw [Includes, read]
  by_cases gone : query = path.rel ∧ device.removes = true
  · simp [gone]
  · rw [if_neg gone, and_iff_right gone]
    rfl

/-- Exactly when dropping a path below the root keeps folder and index together. -/
theorem together_dropped_iff (together : peer.Together) (root : path.rel ≠ []) :
    (peer.dropped device path tombstone).Together ↔
      (∀ query, Merkle.IsAbove path.rel query → ¬ peer.Includes query) ∧
        (peer.Includes path.rel → device.removes = true) := by
  obtain ⟨names, texts⟩ := path.exists_rel_eq
  have nonempty : names ≠ [] := by
    rintro rfl
    exact root texts
  constructor
  · intro after
    have none : ∀ query, path.rel <+: query →
        ¬ (peer.dropped device path tombstone).Includes query := by
      intro query reaches included
      obtain ⟨text, rfl, there⟩ := (after query).mp included
      rw [texts, utf8_prefix_iff] at reaches
      exact ((hasFile_dropped nonempty texts).mp there).1 reaches
    constructor
    · intro query below included
      exact none query below.1
        ((includes_dropped root query).mpr ⟨fun gone => below.2 gone.1.symm, included⟩)
    · intro included
      by_contra refused
      exact none path.rel List.prefix_rfl
        ((includes_dropped root path.rel).mpr ⟨fun gone => refused gone.2, included⟩)
  · rintro ⟨below, here⟩ query
    rw [includes_dropped root]
    constructor
    · rintro ⟨stays, included⟩
      obtain ⟨text, rfl, there⟩ := (together query).mp included
      refine ⟨text, rfl, (hasFile_dropped nonempty texts).mpr ⟨fun reaches => ?_, there⟩⟩
      by_cases same : text.map OsStr.utf8 = path.rel
      · exact stays ⟨same, here (same ▸ included)⟩
      · refine below _ ⟨?_, Ne.symm same⟩ included
        rw [texts]
        exact utf8_prefix_iff.mpr reaches
    · rintro ⟨text, rfl, there⟩
      obtain ⟨apart, there⟩ := (hasFile_dropped nonempty texts).mp there
      refine ⟨fun gone => apart ?_, (together _).mpr ⟨text, rfl, there⟩⟩
      rw [utf8_injective (gone.1.trans texts)]

/-- The root is neither removed nor dropped. -/
theorem together_dropped_root (together : peer.Together) (root : path.rel = []) :
    (peer.dropped device path tombstone).Together := by
  have folder : (peer.dropped device path tombstone).disk = peer.disk := by
    rw [dropped, root, unlinked]
    split <;> rfl
  have tree : (peer.dropped device path tombstone).index.tree = peer.index.tree := by
    rw [dropped, root, SyncIndex.remotelyDeleted]
    cases peer.index.tree <;> rfl
  intro query
  rw [Includes, folder, tree]
  exact together query

/-- **Exactly when a deletion keeps folder and index together.** -/
theorem deletesTogether_iff (together : peer.Together)
    (foreign : tombstone.deletedBy ≠ ctx.localId) :
    (peer.handleFileDeleted ctx device tombstone).Together ↔
      ∀ path, SafePath.of? tombstone.path = some path → path.rel ≠ [] →
        (∀ query, Merkle.IsAbove path.rel query → ¬ peer.Includes query) ∧
          (peer.Includes path.rel → device.removes = true) := by
  cases named : SafePath.of? tombstone.path with
  | none =>
      have same : peer.handleFileDeleted ctx device tombstone = peer := by
        rw [handleFileDeleted, if_neg foreign, named]
      rw [same]
      exact iff_of_true together fun _ found => absurd found (Option.some_ne_none _).symm
  | some path =>
      rw [handleFileDeleted_of_named foreign named]
      by_cases root : path.rel = []
      · refine iff_of_true (together_dropped_root together root) fun path' same nonempty => ?_
        exact absurd (Option.some.inj same ▸ root) nonempty
      · rw [together_dropped_iff together root]
        constructor
        · rintro kept path' same _
          exact Option.some.inj same ▸ kept
        · exact fun kept => kept path rfl root

/-- **A peer starts with folder and index together.** -/
theorem together_start {disk : Disk} {patterns : List Str} {now : Nat} (proper : disk.Proper)
    (started : start ctx disk patterns now = some peer) : peer.Together := by
  obtain ⟨index, built, rfl⟩ := Option.map_eq_some_iff.mp started
  obtain ⟨tree, scanned, rfl⟩ := Option.map_eq_some_iff.mp built
  have shown : ∀ names : List Str, shouldExclude (names.map OsStr.utf8) patterns = false →
      Merkle.Shows ctx.storage.chunkSize tree names (disk.read (names.map OsStr.utf8)) :=
    fun names included => shows_fromPathConfigured proper scanned fun above _ reaches =>
      shouldExclude_of_prefix included (utf8_prefix_iff.mpr reaches)
  intro query
  constructor
  · rintro ⟨here, included⟩
    obtain ⟨data, here⟩ := Option.isSome_iff_exists.mp here
    obtain ⟨names, rfl⟩ := exists_names_of_read scanned
      (fun above _ reaches => shouldExclude_of_prefix included reaches) here
    have found := shown names included
    rw [show disk.read (names.map OsStr.utf8) = some data from here] at found
    exact ⟨names, rfl, Merkle.hasFile_iff.mpr ⟨_, _, _, found⟩⟩
  · rintro ⟨names, rfl, there⟩
    obtain ⟨hash, size, chunks, found⟩ := Merkle.hasFile_iff.mp there
    have included : shouldExclude (names.map OsStr.utf8) patterns = false := by
      rw [Bool.eq_false_iff]
      intro excluded
      have nonempty : names ≠ [] := by
        rintro rfl
        simp [shouldExclude] at excluded
      exact absurd (found.symm.trans (findNames_fromPathConfigured_of_excluded proper scanned
        nonempty List.prefix_rfl excluded)) (Option.some_ne_none _)
    refine ⟨?_, included⟩
    have found' := shown names included
    change (disk.read (names.map OsStr.utf8)).isSome = true
    cases here : disk.read (names.map OsStr.utf8) with
    | some data => rfl
    | none =>
        rw [here] at found'
        exact absurd found (found' hash size chunks)

end Peer

/-! ## A deletion of a directory -/

namespace Peer

attribute [local instance] Sample.blake3

open Merkle (nested proper_nested)

/-- A deletion by the second peer. -/
def deletionOf (path : Str) : Tombstone := ⟨path, Sample.peerId 2, .new, 20⟩

/-- The deletion of a directory drops the file in it from the index and leaves it on disk. -/
theorem exists_deleted_apart :
    ∃ peer : Peer Sample.Site, start (Sample.ctx .one) nested [] 10 = some peer ∧ peer.Together ∧
      ¬ (peer.handleFileDeleted (Sample.ctx .one) {} (deletionOf ['a'])).Together := by
  have started : start (Sample.ctx .one) nested [] 10 = some _ := rfl
  refine ⟨_, started, together_start proper_nested started, fun together => ?_⟩
  obtain ⟨names, texts, there⟩ := (together [.utf8 ['a'], .utf8 ['b']]).mp ⟨rfl, rfl⟩
  obtain rfl : [['a'], ['b']] = names := utf8_injective texts
  exact absurd there (by decide +kernel)

/-- The deletion of the file itself keeps them together. -/
theorem deletesTogether_iff_sample :
    ∃ peer : Peer Sample.Site, start (Sample.ctx .one) nested [] 10 = some peer ∧
      (peer.handleFileDeleted (Sample.ctx .one) {} (deletionOf ['a', '/', 'b'])).Together := by
  have started : start (Sample.ctx .one) nested [] 10 = some _ := rfl
  refine ⟨_, started, (deletesTogether_iff (together_start proper_nested started)
    (by decide : (deletionOf ['a', '/', 'b']).deletedBy ≠ (Sample.ctx .one).localId)).mpr ?_⟩
  intro path named _
  have raw := SafePath.of?_eq_some_iff.mp named
  have accepted := path.accepted
  rw [raw] at accepted
  have texts : path.rel = [.utf8 ['a'], .utf8 ['b']] := Option.some.inj accepted.symm
  refine ⟨fun query below included => ?_, fun _ => rfl⟩
  obtain ⟨⟨rest, rfl⟩, apart⟩ := below
  rw [texts] at included apart
  cases rest with
  | nil => exact apart rfl
  | cons first rest => exact absurd included.1 Bool.false_ne_true

end Peer

end P2Sync
