import P2Sync.Core.Listing
import P2Sync.Net.Flight

/-!
# Clocks and file nodes

An index keeps a clock for every tracked path and a tree with a file node for every file.
The two are updated by separate calls. An update of the tree at a path takes away what is
below it, or does nothing below another file; an update of the clocks is always about one
path. So they stay in step exactly as long as no path is updated that lies above or below
another tracked one (`inStep_iff`).

What a step of a peer does to its index is one of these updates, or none (`Step.index`).
-/

set_option autoImplicit false

namespace P2Sync

/-- The updates of an index. -/
inductive IndexUpdate where
  | localFileChanged (path : RelPath) (data : Option Bytes) (now : Nat)
  | localFileDeleted (path : RelPath) (now : Nat)
  /-- The part of `handle_notification` for a tombstone that updates the index. -/
  | remotelyDeleted (path : RelPath) (tombstone : Tombstone)
  /-- The part of `fetch_and_apply` that updates the index. -/
  | fetched (path : RelPath) (data : Bytes) (chunkSize : Nat) (origin : RemoteOrigin)

def IndexUpdate.path : IndexUpdate → RelPath
  | .localFileChanged path _ _ => path
  | .localFileDeleted path _ => path
  | .remotelyDeleted path _ => path
  | .fetched path _ _ _ => path

mutual

theorem countFiles_eq : ∀ node : Node, countFiles node = (Merkle.filePaths node).length
  | .file _ _ _ => rfl
  | .directory _ children => by
      rw [countFiles, Merkle.filePaths]
      exact countChildren_eq children

theorem countChildren_eq :
    ∀ children : List (Str × Node), countChildren children = (Merkle.filePathsIn children).length
  | [] => rfl
  | (name, child) :: rest => by
      rw [countChildren, Merkle.filePathsIn, List.length_append, List.length_map,
        countFiles_eq child, countChildren_eq rest]

end

namespace SyncIndex

/-- `file_count`. -/
def fileCount (index : SyncIndex) : Nat := index.fileMeta.keys.card

/-- The tracked paths are those of the file nodes. -/
structure InStep (index : SyncIndex) : Prop where
  keys : ∀ path, path ∈ index.fileMeta ↔
    ∃ names ∈ Merkle.filePaths index.tree, path = names.map OsStr.utf8
  count : index.fileCount = countFiles index.tree

/-- Another tracked path is above this one. -/
def TracksAbove (index : SyncIndex) (path : RelPath) : Prop :=
  ∃ tracked ∈ index.fileMeta, tracked ≠ path ∧ tracked <+: path

/-- Another tracked path is below this one. -/
def TracksBelow (index : SyncIndex) (path : RelPath) : Prop :=
  ∃ tracked ∈ index.fileMeta, tracked ≠ path ∧ path <+: tracked

/-- An update is about a path that stands alone among the tracked ones. A deletion may be of
a path below a tracked one, and at the root nothing can be deleted. -/
def StandsAlone (index : SyncIndex) : IndexUpdate → Prop
  | .localFileChanged path _ _ | .fetched path _ _ _ =>
      path ≠ [] ∧ ¬ index.TracksAbove path ∧ ¬ index.TracksBelow path
  | .localFileDeleted path _ | .remotelyDeleted path _ => path = [] ∨ ¬ index.TracksBelow path

instance decidableTracksAbove (index : SyncIndex) (path : RelPath) :
    Decidable (index.TracksAbove path) :=
  decidable_of_iff (∃ tracked ∈ index.fileMeta.keys, tracked ≠ path ∧ tracked <+: path)
    (by simp only [Finmap.mem_keys, TracksAbove])

instance decidableTracksBelow (index : SyncIndex) (path : RelPath) :
    Decidable (index.TracksBelow path) :=
  decidable_of_iff (∃ tracked ∈ index.fileMeta.keys, tracked ≠ path ∧ path <+: tracked)
    (by simp only [Finmap.mem_keys, TracksBelow])

instance decidableStandsAlone (index : SyncIndex) :
    (act : IndexUpdate) → Decidable (index.StandsAlone act)
  | .localFileChanged _ _ _ | .fetched _ _ _ _ => inferInstanceAs (Decidable (_ ∧ _ ∧ _))
  | .localFileDeleted _ _ | .remotelyDeleted _ _ => inferInstanceAs (Decidable (_ ∨ _))

variable [Blake3]

/-- One update. -/
def update (index : SyncIndex) : IndexUpdate → Option SyncIndex
  | .localFileChanged path data now => index.localFileChanged path data now
  | .localFileDeleted path now => some (index.localFileDeleted path now)
  | .remotelyDeleted path tombstone => some (index.remotelyDeleted path tombstone)
  | .fetched path data chunkSize origin => some (index.fetched path data chunkSize origin)

/-- An update puts a file at its path, or removes its path. -/
inductive Updated (index after : SyncIndex) (act : IndexUpdate) : Prop where
  | put (hash : Hash) (size : Nat) (chunks : List ChunkMeta)
      (condition : index.StandsAlone act ↔
        act.path ≠ [] ∧ ¬ index.TracksAbove act.path ∧ ¬ index.TracksBelow act.path)
      (tree : after.tree = Merkle.insertNode index.tree act.path (.file hash size chunks))
      (keys : ∀ query, query ∈ after.fileMeta ↔ query = act.path ∨ query ∈ index.fileMeta)
  | dropped (condition : index.StandsAlone act ↔ act.path = [] ∨ ¬ index.TracksBelow act.path)
      (tree : after.tree = (Merkle.removePath index.tree act.path).2)
      (keys : ∀ query, query ∈ after.fileMeta ↔ query ≠ act.path ∧ query ∈ index.fileMeta)

theorem update_cases {index after : SyncIndex} {act : IndexUpdate}
    (updated : index.update act = some after) : Updated index after act := by
  cases act with
  | localFileChanged path data now =>
      obtain ⟨data, _, rfl⟩ := Option.map_eq_some_iff.mp updated
      exact .put _ _ _ Iff.rfl rfl fun query => Finmap.mem_insert
  | localFileDeleted path now =>
      cases updated
      exact .dropped Iff.rfl rfl fun query => Finmap.mem_erase
  | remotelyDeleted path tombstone =>
      cases updated
      exact .dropped Iff.rfl rfl fun query => Finmap.mem_erase
  | fetched path data chunkSize origin =>
      cases updated
      exact .put _ _ _ Iff.rfl rfl fun query => Finmap.mem_insert

/-! ## Clocks and files of one index -/

/-- The tree of an index of a directory: its names are in order, and its root is no file. -/
structure Rooted (index : SyncIndex) : Prop where
  ordered : index.tree.Ordered
  directory : ¬ Merkle.HasFile [] index.tree

variable {index after : SyncIndex}

omit [Blake3] in
/-- The paths of the file nodes decide, and then the numbers agree. -/
theorem inStep_iff_keys (rooted : index.Rooted) :
    index.InStep ↔ ∀ path, path ∈ index.fileMeta ↔
      ∃ names, Merkle.HasFile names index.tree ∧ path = names.map OsStr.utf8 := by
  have listed : (∀ path, path ∈ index.fileMeta ↔
      ∃ names ∈ Merkle.filePaths index.tree, path = names.map OsStr.utf8) ↔
        ∀ path, path ∈ index.fileMeta ↔
          ∃ names, Merkle.HasFile names index.tree ∧ path = names.map OsStr.utf8 := by
    simp only [Merkle.mem_filePaths_iff rooted.ordered]
  rw [← listed]
  refine ⟨InStep.keys, fun keys => ⟨keys, ?_⟩⟩
  have same : index.fileMeta.keys =
      ((Merkle.filePaths index.tree).map (List.map OsStr.utf8)).toFinset := by
    ext path
    rw [Finmap.mem_keys, keys, List.mem_toFinset, List.mem_map]
    exact exists_congr fun names => and_congr_right fun _ => eq_comm
  rw [fileCount, same, List.toFinset_card_of_nodup
    ((Merkle.nodup_filePaths rooted.ordered).map utf8_injective), List.length_map, countFiles_eq]

/-- A scanned directory is in step. -/
theorem inStep_build {entries : List (OsStr × Disk)} {localPeer : PeerId}
    {excludePatterns : List Str} {storage : StorageConfig} {now : Nat}
    (built : build (.dir entries) localPeer excludePatterns storage now = some index) :
    index.Rooted ∧ index.InStep := by
  obtain ⟨tree, scanned, rfl⟩ := Option.map_eq_some_iff.mp built
  have rooted : tree.Ordered ∧ ¬ Merkle.HasFile [] tree := by
    refine ⟨Merkle.ordered_fromPathConfigured scanned, ?_⟩
    rw [fromPathConfigured] at scanned
    obtain ⟨children, _, rfl⟩ := Option.map_eq_some_iff.mp scanned
    exact Merkle.hasFile_nil_directory _ _
  refine ⟨⟨rooted.1, rooted.2⟩, (inStep_iff_keys ⟨rooted.1, rooted.2⟩).mpr fun path => ?_⟩
  simp [Merkle.mem_collectFileMeta, Merkle.mem_filePaths_iff rooted.1, Finmap.notMem_empty]

/-! ## One update -/

/-- An update keeps the shape of the tree. -/
theorem Rooted.update {act : IndexUpdate} (rooted : index.Rooted)
    (updated : index.update act = some after) : after.Rooted := by
  obtain ⟨ordered, directory⟩ := rooted
  cases update_cases updated with
  | put hash size chunks _ tree =>
      refine ⟨?_, ?_⟩ <;> rw [tree]
      · exact Merkle.ordered_insertRecursive (.file _ _ _) ordered
      · exact Merkle.not_hasFile_nil_insert directory
  | dropped _ tree =>
      refine ⟨?_, ?_⟩ <;> rw [tree]
      · exact Merkle.ordered_removeRecursive ordered
      · exact Merkle.not_hasFile_nil_remove directory

omit [Blake3] in
/-- Paths of names are in step when their names are. -/
theorem keys_iff_names {files : List Str → Prop}
    (named : ∀ path ∈ index.fileMeta, ∃ names : List Str, path = names.map OsStr.utf8) :
    (∀ path, path ∈ index.fileMeta ↔ ∃ names, files names ∧ path = names.map OsStr.utf8) ↔
      ∀ names : List Str, files names ↔ names.map OsStr.utf8 ∈ index.fileMeta := by
  constructor
  · intro keys names
    rw [keys]
    refine ⟨fun there => ⟨names, there, rfl⟩, ?_⟩
    rintro ⟨names', there, same⟩
    rwa [utf8_injective same]
  · intro keys path
    constructor
    · intro member
      obtain ⟨names, rfl⟩ := named path member
      exact ⟨names, (keys names).mpr member, rfl⟩
    · rintro ⟨names, there, rfl⟩
      exact (keys names).mp there

/-- The files of the tree are the names of the tracked paths. -/
structure Tracks (index : SyncIndex) : Prop where
  named : ∀ path ∈ index.fileMeta, ∃ names : List Str, path = names.map OsStr.utf8
  files : ∀ names : List Str,
    Merkle.HasFile names index.tree ↔ names.map OsStr.utf8 ∈ index.fileMeta

omit [Blake3] in
theorem inStep_iff_tracks (rooted : index.Rooted) : index.InStep ↔ index.Tracks := by
  rw [inStep_iff_keys rooted]
  constructor
  · intro keys
    have named : ∀ path ∈ index.fileMeta, ∃ names : List Str, path = names.map OsStr.utf8 := by
      intro path member
      obtain ⟨names, _, rfl⟩ := (keys path).mp member
      exact ⟨names, rfl⟩
    exact ⟨named, (keys_iff_names named).mp keys⟩
  · exact fun tracks => (keys_iff_names tracks.named).mpr tracks.files

omit [Blake3] in
/-- A tracked path above is a file above. -/
theorem Tracks.above_iff (tracks : index.Tracks) {names : List Str} :
    index.TracksAbove (names.map OsStr.utf8) ↔ Merkle.Blocked names index.tree := by
  rw [Merkle.blocked_iff]
  constructor
  · rintro ⟨tracked, member, apart, reaches⟩
    obtain ⟨above, rfl⟩ := tracks.named tracked member
    obtain ⟨below, rfl⟩ := utf8_prefix_iff.mp reaches
    exact ⟨above, below, rfl, fun empty => apart (by simp [empty]), (tracks.files above).mpr member⟩
  · rintro ⟨above, below, rfl, proper, there⟩
    refine ⟨above.map OsStr.utf8, (tracks.files above).mp there, fun same => ?_,
      utf8_prefix_iff.mpr (List.prefix_append above below)⟩
    exact proper (List.self_eq_append_right.mp (utf8_injective same))

omit [Blake3] in
/-- A tracked path below is a file below. -/
theorem Tracks.below_iff (tracks : index.Tracks) {names : List Str} :
    index.TracksBelow (names.map OsStr.utf8) ↔ Merkle.HasBelow names index.tree := by
  constructor
  · rintro ⟨tracked, member, apart, reaches⟩
    obtain ⟨query, rfl⟩ := tracks.named tracked member
    exact ⟨query, fun same => apart (by rw [same]), utf8_prefix_iff.mp reaches,
      (tracks.files query).mpr member⟩
  · rintro ⟨query, apart, reaches, there⟩
    exact ⟨query.map OsStr.utf8, (tracks.files query).mp there,
      fun same => apart (utf8_injective same), utf8_prefix_iff.mpr reaches⟩

/-- **When an update keeps an index in step**: exactly when its path stands alone. -/
theorem inStep_update_iff {act : IndexUpdate} (rooted : index.Rooted) (inStep : index.InStep)
    {names : List Str} (named : act.path = names.map OsStr.utf8)
    (updated : index.update act = some after) : after.InStep ↔ index.StandsAlone act := by
  have tracks := (inStep_iff_tracks rooted).mp inStep
  rw [inStep_iff_keys (rooted.update updated)]
  cases update_cases updated with
  | put hash size chunks condition tree changed =>
      rw [named] at condition changed
      rw [keys_iff_names fun path member => ?_]
      · simp only [changed, ← tracks.files, utf8_injective.eq_iff]
        rw [condition, tracks.above_iff, tracks.below_iff, tree, Merkle.insertNode, named,
          Merkle.pathNames_map_utf8, Merkle.insert_adds_iff rooted.directory]
        exact and_congr_left fun _ => not_congr List.map_eq_nil_iff.symm
      · rcases (changed path).mp member with rfl | old
        · exact ⟨names, rfl⟩
        · exact tracks.named path old
  | dropped condition tree changed =>
      rw [named] at condition changed
      rw [keys_iff_names fun path member => tracks.named path ((changed path).mp member).2]
      simp only [changed, ← tracks.files, Ne, utf8_injective.eq_iff]
      rw [condition, tracks.below_iff, tree, Merkle.removePath, named,
        Merkle.pathNames_map_utf8, List.map_eq_nil_iff]
      exact Merkle.remove_drops_iff rooted.directory

/-! ## Runs -/

/-- **When the clocks and the file nodes of an index stay in step**: along a run of updates of
an index built from a directory they do in every state exactly when every update is of a path
that stands alone. -/
theorem inStep_iff {entries : List (OsStr × Disk)} {localPeer : PeerId}
    {excludePatterns : List Str} {storage : StorageConfig} {now : Nat} {first last : SyncIndex}
    {trace : List (SyncIndex × IndexUpdate)}
    (built : build (.dir entries) localPeer excludePatterns storage now = some first)
    (run : Run update first trace last)
    (named : ∀ entry ∈ trace, ∃ names : List Str, entry.2.path = names.map OsStr.utf8) :
    ((∀ entry ∈ trace, entry.1.InStep) ∧ last.InStep) ↔
      ∀ entry ∈ trace, entry.1.StandsAlone entry.2 := by
  obtain ⟨rooted, inStep⟩ := inStep_build built
  induction run with
  | start =>
      exact iff_of_true ⟨fun entry member => absurd member List.not_mem_nil, inStep⟩
        fun entry member => absurd member List.not_mem_nil
  | snoc run updated ih =>
      rename_i trace before after act
      have rooted := run.invariant Rooted (fun _ _ => True) (fun _ _ => trivial) rooted
        fun before act after rooted _ updated => rooted.update updated
      obtain ⟨names, spelt⟩ := named (before, act) (List.mem_append_right _ List.mem_cons_self)
      have ih := ih fun entry member => named entry (List.mem_append_left _ member)
      simp only [List.forall_mem_append, List.forall_mem_singleton]
      constructor
      · rintro ⟨held, now⟩
        exact ⟨ih.mp held, (inStep_update_iff rooted held.2 spelt updated).mp now⟩
      · rintro ⟨alone, stands⟩
        have held := ih.mpr alone
        exact ⟨held, (inStep_update_iff rooted held.2 spelt updated).mpr stands⟩

end SyncIndex

/-! ## Two concrete runs -/

namespace SyncIndex

attribute [local instance] Sample.blake3

/-- A directory with the file `d/f`. -/
def nested : List (OsStr × Disk) := [(.utf8 ['d'], .dir [(.utf8 ['f'], .file [1])])]

/-- The directory `d` is removed as a whole: its file is gone from the tree and keeps its clock. -/
theorem exists_left_behind :
    ∃ first trace last,
      build (.dir nested) (Sample.peerId 1) [] { chunkSize := 2 } 10 = some first ∧
      Run update first trace last ∧
        trace.map Prod.snd = [.localFileDeleted [.utf8 ['d']] 20] ∧
          last.fileCount = 1 ∧ countFiles last.tree = 0 ∧ ¬ last.InStep := by
  obtain ⟨first, built, removed⟩ := (Option.any_eq_true _ _).mp (by decide +kernel :
    (build (.dir nested) (Sample.peerId 1) [] { chunkSize := 2 } 10).any (fun first =>
      (runActs update first [.localFileDeleted [.utf8 ['d']] 20]).any fun last =>
        decide (last.fileCount = 1 ∧ countFiles last.tree = 0)) = true)
  obtain ⟨trace, last, run, acts, counted⟩ := exists_run_of_any removed
  obtain ⟨clocks, files⟩ := of_decide_eq_true counted
  refine ⟨first, trace, last, built, run, acts, clocks, files, fun inStep => ?_⟩
  have same := inStep.count
  rw [clocks, files] at same
  exact absurd same (by decide)

/-- A second file comes, the first one is fetched anew, and then deleted by a peer. -/
def ordinary : List IndexUpdate :=
  [.localFileChanged [.utf8 ['g']] (some [2]) 20,
    .fetched [.utf8 ['d'], .utf8 ['f']] [3] 2 ⟨.new, 5, Sample.peerId 2⟩,
    .remotelyDeleted [.utf8 ['d'], .utf8 ['f']] ⟨['d', '/', 'f'], Sample.peerId 2, .new, 30⟩]

theorem inStep_iff_sample :
    ∃ first trace last,
      build (.dir nested) (Sample.peerId 1) [] { chunkSize := 2 } 10 = some first ∧
      Run update first trace last ∧ trace.map Prod.snd = ordinary ∧ last.fileCount = 1 ∧
        (∀ entry ∈ trace, entry.1.InStep) ∧ last.InStep := by
  obtain ⟨first, built, passed⟩ := (Option.any_eq_true _ _).mp (by decide +kernel :
    (build (.dir nested) (Sample.peerId 1) [] { chunkSize := 2 } 10).any (fun first =>
      (runActs (checked update fun index act => decide (index.StandsAlone act)) first
        ordinary).any fun last => decide (last.fileCount = 1)) = true)
  obtain ⟨trace, last, run, acts, alone, counted⟩ := exists_checked_run passed
  have named : ∀ entry ∈ trace, ∃ names : List Str, entry.2.path = names.map OsStr.utf8 := by
    intro entry member
    have taken : entry.2 ∈ ordinary := acts ▸ List.mem_map.mpr ⟨entry, member, rfl⟩
    simp only [ordinary, List.mem_cons, List.not_mem_nil, or_false] at taken
    rcases taken with same | same | same
    · exact ⟨[['g']], by rw [same]; rfl⟩
    · exact ⟨[['d'], ['f']], by rw [same]; rfl⟩
    · exact ⟨[['d'], ['f']], by rw [same]; rfl⟩
  exact ⟨first, trace, last, built, run, acts, of_decide_eq_true counted,
    (inStep_iff built run named).mpr fun entry member => of_decide_eq_true (alone entry member)⟩

end SyncIndex

/-! ## Peers -/

namespace Peer

variable {ι : Type} [Blake3] {ctx : Ctx ι}

/-- **A step of a peer updates its index once or not at all.** -/
theorem Step.index {before after : Peer ι} {act : Act ι} {published : Option SyncNotification}
    (stepped : Step ctx before act after published) :
    after.index = before.index ∨ ∃ update, before.index.update update = some after.index := by
  cases stepped with
  | edited reads path data watch =>
      exact Or.inr ⟨.localFileChanged path (some data) before.now, rfl⟩
  | erased reads path => exact Or.inr ⟨.localFileDeleted path before.now, rfl⟩
  | lost source path =>
      refine Or.inl ?_
      change (before.backUp _ path ctx.localId).index = before.index
      rw [backUp_index]
  | resumed number device entry after entry' found ran =>
      cases run_cases ran with
      | forgotten tombstone path => exact Or.inr ⟨.remotelyDeleted path.rel tombstone, rfl⟩
      | committed fetch data =>
          exact Or.inr ⟨.fetched fetch.path.rel data ctx.storage.chunkSize fetch.origin, rfl⟩
      | _ => exact Or.inl rfl
  | _ => exact Or.inl rfl

/-- **A run of a peer is a run of updates of its index.** -/
theorem exists_updates {first last : Peer ι} {trace : List (Peer ι × Act ι)}
    (run : Run (next ctx) first trace last) :
    ∃ updates, Run SyncIndex.update first.index updates last.index := by
  induction run with
  | start => exact ⟨[], .start⟩
  | snoc run stepped ih =>
      obtain ⟨updates, run⟩ := ih
      obtain ⟨published, cases⟩ := next_cases stepped
      rcases cases.index with same | ⟨update, updated⟩
      · rw [same]
        exact ⟨updates, run⟩
      · exact ⟨_, run.snoc updated⟩

end Peer

end P2Sync
