import P2Sync.Core.Rebuild
import P2Sync.Net.Watcher
import P2Sync.Sync.Tracked

/-!
# What is tracked

A folder can hold symbolic links. A scan passes them by, and so it scans the folder that is left
when the links are taken away (`fromPathLinked_eq`). It prunes what the patterns exclude name by
name on the way down, while the engine and the watcher test whole paths. All three come to the same
paths (`buildLinked_tracks`).
-/

set_option autoImplicit false

namespace P2Sync

/-! ## Folders with links -/

/-- What stands at a path, looked at without following links. -/
inductive LinkedDisk where
  | file (data : Bytes)
  | dir (entries : List (OsStr × LinkedDisk))
  | symlink

namespace LinkedDisk

/-- `Metadata::is_symlink`, of `symlink_metadata`. -/
def isSymlink : LinkedDisk → Bool
  | .symlink => true
  | _ => false

/-- What is reached on a path without following a link. -/
def at? : RelPath → LinkedDisk → Option LinkedDisk
  | [], node => some node
  | name :: rest, .dir entries =>
      match SortedMap.lookup name entries with
      | some child => child.at? rest
      | none => none
  | _ :: _, _ => none
termination_by structural path => path

/-- The data of the regular file that is reached on a path. -/
def read (path : RelPath) (disk : LinkedDisk) : Option Bytes :=
  match disk.at? path with
  | some (.file data) => some data
  | _ => none

/-- A folder as the operating system keeps it: the entries of a folder are in order, and each
has the name of an entry. -/
inductive Proper : LinkedDisk → Prop where
  | file (data : Bytes) : Proper (.file data)
  | symlink : Proper .symlink
  | dir (entries : List (OsStr × LinkedDisk)) (sorted : SortedMap.Sorted entries)
      (named : ∀ entry ∈ entries, entry.1.IsName) (proper : ∀ entry ∈ entries, Proper entry.2) :
      Proper (.dir entries)

/-- Every name of the folder is text. -/
def Texts (disk : LinkedDisk) : Prop :=
  ∀ path, (disk.at? path).isSome = true → ∃ names : List Str, path = names.map OsStr.utf8

theorem isSome_at?_of_read {disk : LinkedDisk} {path : RelPath}
    (there : (disk.read path).isSome = true) : (disk.at? path).isSome = true := by
  rw [read] at there
  cases found : disk.at? path with
  | none =>
      rw [found] at there
      exact absurd there Bool.false_ne_true
  | some node => rfl

/-- Nothing is below a file or a link. -/
theorem texts_leaf {disk : LinkedDisk} (leaf : ∀ name rest, disk.at? (name :: rest) = none) :
    disk.Texts := by
  intro path there
  cases path with
  | nil => exact ⟨[], rfl⟩
  | cons name rest =>
      rw [leaf] at there
      exact absurd there Bool.false_ne_true

theorem texts_dir {entries : List (OsStr × LinkedDisk)}
    (texts : ∀ entry ∈ entries, (∃ text, entry.1 = .utf8 text) ∧ entry.2.Texts) :
    (LinkedDisk.dir entries).Texts := by
  intro path there
  cases path with
  | nil => exact ⟨[], rfl⟩
  | cons name rest =>
      rw [at?] at there
      split at there
      · rename_i child found
        obtain ⟨⟨text, rfl⟩, inside⟩ := texts _ (SortedMap.mem_of_lookup found)
        obtain ⟨names, rfl⟩ := inside rest there
        exact ⟨text :: names, rfl⟩
      · exact absurd there Bool.false_ne_true

end LinkedDisk

/-! ## The scan -/

section Scan

variable [Blake3] (exclude : RelPath → Bool) (chunkSize : Nat)

mutual

/-- `from_path_configured`, of what stands at an absolute path. -/
def fromPathLinked (path : RelPath) : LinkedDisk → Option Node
  | .symlink => some (Merkle.dirNode [])
  | .file data => some (Merkle.fileNodeWithChunkSize data chunkSize)
  | .dir entries => (fromEntriesLinked path entries []).map Merkle.dirNode

/-- The loop of `from_path_configured` over the entries of a directory. -/
def fromEntriesLinked (path : RelPath) :
    List (OsStr × LinkedDisk) → List (Str × Node) → Option (List (Str × Node))
  | [], children => some children
  | (name, child) :: rest, children =>
      if child.isSymlink then fromEntriesLinked path rest children
      else if exclude (path ++ [name]) then fromEntriesLinked path rest children
      else
        match name.toStr with
        | none => none
        | some text =>
            match fromPathLinked (path ++ [name]) child with
            | none => none
            | some node => fromEntriesLinked path rest (SortedMap.insert text node children)

end

end Scan

/-- `should_exclude`, of an absolute path. -/
def shouldExcludeAt (path root : RelPath) (patterns : List Str) : Bool :=
  shouldExclude ((stripPrefix root path).getD path) patterns

namespace SyncIndex

/-- `SyncIndex::build`, of the folder at a root. -/
def buildLinked [Blake3] (root : RelPath) (disk : LinkedDisk) (localPeer : PeerId)
    (excludePatterns : List Str) (storage : StorageConfig) (now : Nat) : Option SyncIndex :=
  (fromPathLinked (fun path => shouldExcludeAt path root excludePatterns) storage.chunkSize root
    disk).map fun tree =>
      { tree := tree
        fileMeta := collectFileMeta tree [] localPeer now ∅
        tombstones := []
        localPeer := localPeer
        excludePatterns := excludePatterns
        chunkSize := storage.chunkSize
        tombstoneTtlSecs := storage.tombstoneTtlSecs }

/-- `SyncIndex::is_excluded`, of an absolute path. -/
def isExcludedAt (index : SyncIndex) (root path : RelPath) : Bool :=
  shouldExcludeAt path root index.excludePatterns

end SyncIndex

/-! ## Taking the links away -/

namespace LinkedDisk

mutual

/-- The folder without its links. -/
def withoutLinks : LinkedDisk → Disk
  | .file data => .file data
  | .symlink => .dir []
  | .dir entries => .dir (entriesWithoutLinks entries)

def entriesWithoutLinks : List (OsStr × LinkedDisk) → List (OsStr × Disk)
  | [] => []
  | (name, child) :: rest =>
      if child.isSymlink then entriesWithoutLinks rest
      else (name, child.withoutLinks) :: entriesWithoutLinks rest

end

theorem mem_entriesWithoutLinks {entry : OsStr × Disk} {entries : List (OsStr × LinkedDisk)}
    (member : entry ∈ entriesWithoutLinks entries) :
    ∃ child, (entry.1, child) ∈ entries ∧ entry.2 = child.withoutLinks := by
  induction entries with
  | nil => exact absurd member List.not_mem_nil
  | cons head rest ih =>
      obtain ⟨name, child⟩ := head
      rw [entriesWithoutLinks] at member
      have later : entry ∈ entriesWithoutLinks rest →
          ∃ other, (entry.1, other) ∈ (name, child) :: rest ∧ entry.2 = other.withoutLinks := by
        intro inside
        obtain ⟨other, listed, same⟩ := ih inside
        exact ⟨other, List.mem_cons_of_mem _ listed, same⟩
      split at member
      · exact later member
      · rcases List.mem_cons.mp member with rfl | inside
        · exact ⟨child, List.mem_cons_self, rfl⟩
        · exact later inside

theorem sorted_entriesWithoutLinks {entries : List (OsStr × LinkedDisk)}
    (sorted : SortedMap.Sorted entries) : SortedMap.Sorted (entriesWithoutLinks entries) := by
  induction entries with
  | nil => exact .nil
  | cons head rest ih =>
      obtain ⟨name, child⟩ := head
      obtain ⟨above, tail⟩ := List.pairwise_cons.mp sorted
      rw [entriesWithoutLinks]
      split
      · exact ih tail
      · refine List.pairwise_cons.mpr ⟨fun entry member => ?_, ih tail⟩
        obtain ⟨other, listed, _⟩ := mem_entriesWithoutLinks member
        exact above _ listed

theorem Proper.withoutLinks {disk : LinkedDisk} (proper : disk.Proper) :
    disk.withoutLinks.Proper := by
  induction proper with
  | file data => exact .file data
  | symlink =>
      exact .dir [] .nil (fun _ absent => absurd absent List.not_mem_nil)
        (fun _ absent => absurd absent List.not_mem_nil)
  | dir entries sorted named _ ih =>
      refine .dir _ (sorted_entriesWithoutLinks sorted) (fun entry member => ?_)
        fun entry member => ?_
      · obtain ⟨child, listed, _⟩ := mem_entriesWithoutLinks member
        exact named _ listed
      · obtain ⟨child, listed, same⟩ := mem_entriesWithoutLinks member
        exact same ▸ ih _ listed

/-- A link is not found any more, and everything else is. -/
theorem lookup_entriesWithoutLinks {entries : List (OsStr × LinkedDisk)}
    (sorted : SortedMap.Sorted entries) (name : OsStr) :
    SortedMap.lookup name (entriesWithoutLinks entries) =
      ((SortedMap.lookup name entries).filter fun child => !child.isSymlink).map withoutLinks := by
  induction entries with
  | nil => rfl
  | cons head rest ih =>
      obtain ⟨other, child⟩ := head
      have below := ih (List.pairwise_cons.mp sorted).2
      rw [entriesWithoutLinks, SortedMap.lookup_cons]
      by_cases link : child.isSymlink = true
      · rw [if_pos link, below]
        by_cases here : name = other
        · subst here
          rw [if_pos rfl, sorted.lookup_tail]
          simp [link]
        · rw [if_neg here]
      · rw [if_neg link, SortedMap.lookup_cons]
        by_cases here : name = other
        · rw [if_pos here, if_pos here]
          simp [link]
        · rw [if_neg here, if_neg here, below]

/-- **The regular files are the same** without the links. -/
theorem read_withoutLinks {disk : LinkedDisk} (proper : disk.Proper) (path : RelPath) :
    disk.withoutLinks.read path = disk.read path := by
  induction path generalizing disk with
  | nil => cases disk <;> rfl
  | cons name rest ih =>
      cases proper with
      | file data => rfl
      | symlink => rfl
      | dir entries sorted named proper =>
          have split : (LinkedDisk.dir entries).read (name :: rest) =
              (SortedMap.lookup name entries).bind (read rest) := by
            rw [read, at?]
            cases SortedMap.lookup name entries <;> rfl
          rw [LinkedDisk.withoutLinks, Disk.read_cons_dir, lookup_entriesWithoutLinks sorted, split]
          cases found : SortedMap.lookup name entries with
          | none => rfl
          | some child =>
              have below := ih (proper _ (SortedMap.mem_of_lookup found))
              cases child with
              | symlink => cases rest <;> rfl
              | file data => exact below
              | dir inner => exact below

/-- What is found without the links was there before. -/
theorem at?_withoutLinks {disk : LinkedDisk} (proper : disk.Proper) {path : RelPath}
    (there : (disk.withoutLinks.at? path).isSome = true) : (disk.at? path).isSome = true := by
  induction path generalizing disk with
  | nil => rfl
  | cons name rest ih =>
      cases proper with
      | file data => exact absurd there Bool.false_ne_true
      | symlink => exact absurd there Bool.false_ne_true
      | dir entries sorted named proper =>
          rw [LinkedDisk.withoutLinks, Disk.at?_cons_dir, lookup_entriesWithoutLinks sorted]
            at there
          rw [at?]
          cases found : SortedMap.lookup name entries with
          | none =>
              rw [found] at there
              exact absurd there Bool.false_ne_true
          | some child =>
              refine ih (proper _ (SortedMap.mem_of_lookup found)) ?_
              rw [found] at there
              cases child with
              | symlink => exact absurd there Bool.false_ne_true
              | file data => exact there
              | dir inner => exact there

end LinkedDisk

variable [Blake3]

mutual

/-- **A scan passes links by**: it is the scan of the folder without them, and paths below the root
are told from it by the part below the root. -/
theorem fromPathLinked_eq (exclude : RelPath → Bool) (chunkSize : Nat) (root path : RelPath) :
    ∀ disk : LinkedDisk, fromPathLinked exclude chunkSize (root ++ path) disk =
      fromPathConfigured (fun path => exclude (root ++ path)) chunkSize path disk.withoutLinks
  | .file data => rfl
  | .symlink => rfl
  | .dir entries => by
      rw [fromPathLinked, LinkedDisk.withoutLinks, fromPathConfigured,
        fromEntriesLinked_eq exclude chunkSize root path entries]

theorem fromEntriesLinked_eq (exclude : RelPath → Bool) (chunkSize : Nat) (root path : RelPath) :
    ∀ (entries : List (OsStr × LinkedDisk)) (children : List (Str × Node)),
      fromEntriesLinked exclude chunkSize (root ++ path) entries children =
        fromEntries (fun path => exclude (root ++ path)) chunkSize path
          (LinkedDisk.entriesWithoutLinks entries) children
  | [], children => rfl
  | (name, child) :: rest, children => by
      have later := fromEntriesLinked_eq exclude chunkSize root path rest
      rw [fromEntriesLinked, LinkedDisk.entriesWithoutLinks]
      by_cases link : child.isSymlink = true
      · rw [if_pos link, if_pos link, later]
      · rw [if_neg link, if_neg link, fromEntries, List.append_assoc, later children]
        congr 1
        cases name.toStr with
        | none => rfl
        | some text =>
            dsimp only
            rw [fromPathLinked_eq exclude chunkSize root (path ++ [name]) child]
            cases fromPathConfigured (fun path => exclude (root ++ path)) chunkSize
              (path ++ [name]) child.withoutLinks with
            | none => rfl
            | some node => exact later _

end

omit [Blake3] in
theorem shouldExcludeAt_append (root path : RelPath) (patterns : List Str) :
    shouldExcludeAt (root ++ path) root patterns = shouldExclude path patterns := by
  rw [shouldExcludeAt, stripPrefix_eq_some_iff.mpr rfl, Option.getD_some]

/-- **An index of a folder with links** is an index of the folder without them. -/
theorem SyncIndex.buildLinked_eq (root : RelPath) (disk : LinkedDisk) (localPeer : PeerId)
    (patterns : List Str) (storage : StorageConfig) (now : Nat) :
    SyncIndex.buildLinked root disk localPeer patterns storage now =
      SyncIndex.build disk.withoutLinks localPeer patterns storage now := by
  have scan := fromPathLinked_eq (fun path => shouldExcludeAt path root patterns)
    storage.chunkSize root [] disk
  simp only [List.append_nil, shouldExcludeAt_append] at scan
  rw [buildLinked, build, scan]

/-- The files of the tree of a scan are the files that no pattern excludes. -/
theorem hasFile_fromPathConfigured_iff {patterns : List Str} {chunkSize : Nat} {disk : Disk}
    {tree : Node} (proper : disk.Proper)
    (scanned : fromPathConfigured (fun path => shouldExclude path patterns) chunkSize [] disk =
      some tree) (names : List Str) :
    Merkle.HasFile names tree ↔
      (disk.read (names.map OsStr.utf8)).isSome = true ∧
        shouldExclude (names.map OsStr.utf8) patterns = false := by
  cases excluded : shouldExclude (names.map OsStr.utf8) patterns with
  | true =>
      have nonempty : names ≠ [] := by
        rintro rfl
        rw [List.map_nil, shouldExclude, List.any_eq_true] at excluded
        obtain ⟨pattern, _, absent⟩ := excluded
        exact Bool.false_ne_true absent
      have nothing := findNames_fromPathConfigured_of_excluded proper scanned nonempty
        (List.prefix_refl names) excluded
      simp [Merkle.HasFile, nothing]
  | false =>
      have shows := shows_fromPathConfigured proper scanned fun above _ reaches =>
        shouldExclude_of_prefix excluded (utf8_prefix_iff.mpr reaches)
      rw [Merkle.hasFile_iff]
      cases content : disk.read (names.map OsStr.utf8) with
      | some data =>
          rw [content] at shows
          exact iff_of_true ⟨_, _, _, shows⟩ ⟨rfl, rfl⟩
      | none =>
          rw [content] at shows
          refine iff_of_false ?_ fun some => absurd some.1 Bool.false_ne_true
          rintro ⟨hash, size, chunks, found⟩
          exact shows hash size chunks found

/-- **Scan, engine and watcher agree on what is tracked.** -/
theorem SyncIndex.buildLinked_tracks (root : RelPath) {entries : List (OsStr × LinkedDisk)}
    (proper : (LinkedDisk.dir entries).Proper) (texts : (LinkedDisk.dir entries).Texts)
    (localPeer : PeerId) (patterns : List Str) (storage : StorageConfig) (now : Nat) :
    ∃ index, SyncIndex.buildLinked root (.dir entries) localPeer patterns storage now =
        some index ∧
      ∀ path : RelPath,
        (path ∈ index.fileMeta ↔
          ∃ names ∈ Merkle.filePaths index.tree, path = names.map OsStr.utf8) ∧
        (path ∈ index.fileMeta ↔
          ((LinkedDisk.dir entries).read path).isSome = true ∧
            index.isExcludedAt root (root ++ path) = false) ∧
        (index.isExcludedAt root (root ++ path) = false ↔ shouldSkip path patterns = false) := by
  have texts' : (LinkedDisk.dir entries).withoutLinks.Texts := fun path there =>
    texts path (LinkedDisk.at?_withoutLinks proper there)
  obtain ⟨tree, scanned⟩ := @exists_scan _ (fun path => shouldExclude path patterns)
    storage.chunkSize [] _ proper.withoutLinks texts'
  have built : SyncIndex.build (LinkedDisk.dir entries).withoutLinks localPeer patterns storage
      now = some _ := congrArg (Option.map _) scanned
  refine ⟨_, (buildLinked_eq ..).trans built, fun path => ?_⟩
  rw [LinkedDisk.withoutLinks] at built
  have inStep := (inStep_build built).2.keys path
  refine ⟨inStep, inStep.trans ?_, ?_⟩
  · rw [isExcludedAt, shouldExcludeAt_append]
    simp only [Merkle.mem_filePaths_iff (Merkle.ordered_fromPathConfigured scanned),
      hasFile_fromPathConfigured_iff proper.withoutLinks scanned,
      LinkedDisk.read_withoutLinks proper]
    constructor
    · rintro ⟨names, tracked, rfl⟩
      exact tracked
    · intro tracked
      obtain ⟨names, rfl⟩ := texts path (LinkedDisk.isSome_at?_of_read tracked.1)
      exact ⟨names, tracked, rfl⟩
  · rw [isExcludedAt, shouldExcludeAt_append, shouldSkip_eq]

/-- A folder with a file `a`, a directory `c` with a file `f`, and a directory `d` with a file `f`
and a link `l`. -/
def linked : List (OsStr × LinkedDisk) :=
  [(.utf8 ['a'], .file [1]), (.utf8 ['c'], .dir [(.utf8 ['f'], .file [2])]),
    (.utf8 ['d'], .dir [(.utf8 ['f'], .file [3]), (.utf8 ['l'], .symlink)])]

omit [Blake3] in
theorem proper_linked : (LinkedDisk.dir linked).Proper := by
  have inC : (LinkedDisk.dir [(.utf8 ['f'], .file [2])]).Proper := by
    refine .dir _ (by simp [SortedMap.Sorted]) (by decide) ?_
    rw [List.forall_mem_singleton]
    exact .file [2]
  have inD : (LinkedDisk.dir [(.utf8 ['f'], .file [3]), (.utf8 ['l'], .symlink)]).Proper := by
    refine .dir _ (by simp [SortedMap.Sorted]; decide) (by decide) ?_
    rw [List.forall_mem_cons, List.forall_mem_singleton]
    exact ⟨.file [3], .symlink⟩
  refine .dir _ (by simp [linked, SortedMap.Sorted]; decide) (by decide) ?_
  rw [linked, List.forall_mem_cons, List.forall_mem_cons, List.forall_mem_singleton]
  exact ⟨.file [1], inC, inD⟩

omit [Blake3] in
theorem texts_linked : (LinkedDisk.dir linked).Texts := by
  have file : ∀ data, (LinkedDisk.file data).Texts := fun _ =>
    LinkedDisk.texts_leaf fun _ _ => rfl
  have inC : (LinkedDisk.dir [(.utf8 ['f'], .file [2])]).Texts := by
    refine LinkedDisk.texts_dir ?_
    rw [List.forall_mem_singleton]
    exact ⟨⟨_, rfl⟩, file [2]⟩
  have inD : (LinkedDisk.dir [(.utf8 ['f'], .file [3]), (.utf8 ['l'], .symlink)]).Texts := by
    refine LinkedDisk.texts_dir ?_
    rw [List.forall_mem_cons, List.forall_mem_singleton]
    exact ⟨⟨⟨_, rfl⟩, file [3]⟩, ⟨_, rfl⟩, LinkedDisk.texts_leaf fun _ _ => rfl⟩
  refine LinkedDisk.texts_dir ?_
  rw [linked, List.forall_mem_cons, List.forall_mem_cons, List.forall_mem_singleton]
  exact ⟨⟨⟨_, rfl⟩, file [1]⟩, ⟨⟨_, rfl⟩, inC⟩, ⟨_, rfl⟩, inD⟩

omit [Blake3] in
/-- Of this folder the files in the excluded directory and the link below the other one are not
tracked, and the other files are. -/
theorem buildLinked_tracks_linked :
    let _ := Merkle.keepsLength
    ∃ index, SyncIndex.buildLinked [.utf8 ['r']] (.dir linked) ⟨List.replicate 8 1, rfl⟩
        [['c']] {} 0 = some index ∧
      [.utf8 ['a']] ∈ index.fileMeta ∧ [.utf8 ['d'], .utf8 ['f']] ∈ index.fileMeta ∧
        [.utf8 ['c'], .utf8 ['f']] ∉ index.fileMeta ∧
          [.utf8 ['d'], .utf8 ['l']] ∉ index.fileMeta ∧
            shouldSkip [.utf8 ['c'], .utf8 ['f']] [['c']] = true := by
  intro hashing
  obtain ⟨index, built, tracks⟩ := SyncIndex.buildLinked_tracks [.utf8 ['r']] proper_linked
    texts_linked ⟨List.replicate 8 1, rfl⟩ [['c']] {} 0
  refine ⟨index, built, ?_, ?_, ?_, ?_, by decide⟩
  · rw [(tracks _).2.1, (tracks _).2.2]
    decide
  · rw [(tracks _).2.1, (tracks _).2.2]
    decide
  · rw [(tracks _).2.1, (tracks _).2.2]
    exact fun tracked => absurd tracked.2 (by decide)
  · rw [(tracks _).2.1]
    exact fun tracked => Bool.false_ne_true tracked.1

end P2Sync
