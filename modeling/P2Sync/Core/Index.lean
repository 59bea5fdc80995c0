import P2Sync.Core.Conflict
import P2Sync.Core.Merkle
import Mathlib.Data.Finmap

/-!
# The sync index

The index of a peer is a Merkle tree of its folder, the clock of every file it has
indexed, and the tombstones of the files it has seen deleted. It is built by scanning
the folder, with an empty clock for every file (`build_clock`), and then follows local
edits and deletions: an edit updates the tree and ticks the clock, a deletion drops the
clock into a tombstone.
-/

set_option autoImplicit false

namespace P2Sync

/-- A map that is only looked up, never walked. -/
abbrev HashMap (K V : Type) := Finmap fun _ : K => V

/-- Chunking and indexing settings. -/
structure StorageConfig where
  chunkSize : Nat := 256 * 1024
  maxChunkIndex : Nat := 16384
  maxFileSize : Nat := 1024 * 1024 * 1024
  tombstoneTtlSecs : Nat := 3600

/-- Per-file metadata tracked alongside the Merkle tree. -/
structure FileMeta where
  clock : VectorClock
  lastModified : Nat
  lastModifiedBy : PeerId
deriving DecidableEq

/-- The full sync index: Merkle tree, per-file clocks and tombstones. -/
structure SyncIndex where
  tree : Node
  fileMeta : HashMap RelPath FileMeta
  tombstones : List Tombstone
  localPeer : PeerId
  excludePatterns : List Str
  chunkSize : Nat
  tombstoneTtlSecs : Nat

/-- A pattern excludes a path when it is one of the names of the path. -/
def shouldExclude (path : RelPath) (patterns : List Str) : Bool :=
  patterns.any fun pattern => path.any fun name => name.toStringLossy == pattern

/-- Nothing above a path that is not excluded is excluded. -/
theorem shouldExclude_of_prefix {above path : RelPath} {patterns : List Str}
    (included : shouldExclude path patterns = false) (reaches : above <+: path) :
    shouldExclude above patterns = false := by
  rw [shouldExclude, List.any_eq_false] at included ⊢
  intro pattern member excluded
  refine included pattern member ?_
  obtain ⟨name, inside, same⟩ := List.any_eq_true.mp excluded
  exact List.any_eq_true.mpr ⟨name, reaches.subset inside, same⟩

/-! ## Scanning -/

section Scan

variable [Blake3] (exclude : RelPath → Bool) (chunkSize : Nat)

mutual

/-- Build a Merkle tree of what stands at a path; `none` is the error for a name that is
not UTF-8. -/
def fromPathConfigured (path : RelPath) : Disk → Option Node
  | .file data => some (Merkle.fileNodeWithChunkSize data chunkSize)
  | .dir entries => (fromEntries path entries []).map Merkle.dirNode

/-- The loop of `from_path_configured` over the entries of a directory. -/
def fromEntries (path : RelPath) :
    List (OsStr × Disk) → List (Str × Node) → Option (List (Str × Node))
  | [], children => some children
  | (name, child) :: rest, children =>
      if exclude (path ++ [name]) then fromEntries path rest children
      else
        match name.toStr with
        | none => none
        | some text =>
            match fromPathConfigured (path ++ [name]) child with
            | none => none
            | some node => fromEntries path rest (SortedMap.insert text node children)

end

variable {exclude chunkSize}

/-- One round of the loop of a scan that succeeds: an excluded entry is passed by, and any other has
a name that is text and is scanned. -/
theorem fromEntries_cons_cases {path : RelPath} {name : OsStr} {child : Disk}
    {rest : List (OsStr × Disk)} {children result : List (Str × Node)}
    (scanned : fromEntries exclude chunkSize path ((name, child) :: rest) children = some result) :
    exclude (path ++ [name]) = true ∧
        fromEntries exclude chunkSize path rest children = some result ∨
      ∃ text node, exclude (path ++ [name]) = false ∧ name = .utf8 text ∧
        fromPathConfigured exclude chunkSize (path ++ [name]) child = some node ∧
          fromEntries exclude chunkSize path rest (SortedMap.insert text node children) =
            some result := by
  rw [fromEntries] at scanned
  split at scanned
  · rename_i excluded
    exact Or.inl ⟨excluded, scanned⟩
  · rename_i included
    right
    cases name with
    | invalid bytes => exact absurd scanned (Option.some_ne_none result).symm
    | utf8 text =>
        simp only [OsStr.toStr] at scanned
        split at scanned
        · exact absurd scanned (Option.some_ne_none result).symm
        · rename_i node inside
          exact ⟨text, node, Bool.eq_false_iff.mpr included, rfl, inside, scanned⟩

end Scan

mutual

/-- Give every file of a tree an empty clock. -/
def collectFileMeta (node : Node) (path : RelPath) (localPeer : PeerId) (now : Nat)
    (out : HashMap RelPath FileMeta) : HashMap RelPath FileMeta :=
  match node with
  | .file _ _ _ => out.insert path ⟨.new, now, localPeer⟩
  | .directory _ children => collectChildren children path localPeer now out

/-- The loop of `collect_file_meta` over the children of a directory. -/
def collectChildren (children : List (Str × Node)) (path : RelPath) (localPeer : PeerId)
    (now : Nat) (out : HashMap RelPath FileMeta) : HashMap RelPath FileMeta :=
  match children with
  | [] => out
  | (name, child) :: rest =>
      collectChildren rest path localPeer now
        (collectFileMeta child (path ++ [.utf8 name]) localPeer now out)

end

namespace SyncIndex

/-- The clock recorded for a path, empty when there is none. -/
def clockOf (index : SyncIndex) (path : RelPath) : VectorClock :=
  ((index.fileMeta.lookup path).map FileMeta.clock).getD .new

/-- The modification time recorded for a path, zero when there is none. -/
def lastModifiedOf (index : SyncIndex) (path : RelPath) : Nat :=
  ((index.fileMeta.lookup path).map FileMeta.lastModified).getD 0

/-- Check if a path should be excluded. -/
def isExcluded (index : SyncIndex) (path : RelPath) : Bool :=
  shouldExclude path index.excludePatterns

variable [Blake3]

/-- Build a new index by scanning a directory with the given config. -/
def build (disk : Disk) (localPeer : PeerId) (excludePatterns : List Str)
    (storage : StorageConfig) (now : Nat) : Option SyncIndex :=
  (fromPathConfigured (fun path => shouldExclude path excludePatterns) storage.chunkSize []
    disk).map fun tree =>
      { tree := tree
        fileMeta := collectFileMeta tree [] localPeer now ∅
        tombstones := []
        localPeer := localPeer
        excludePatterns := excludePatterns
        chunkSize := storage.chunkSize
        tombstoneTtlSecs := storage.tombstoneTtlSecs }

/-- The index after a path was found to hold new data. -/
def ticked (index : SyncIndex) (path : RelPath) (data : Bytes) (now : Nat) : SyncIndex :=
  { index with
    tree := Merkle.updateFileWithChunkSize index.tree path data index.chunkSize
    fileMeta := index.fileMeta.insert path
      ⟨(index.clockOf path).tick index.localPeer, now, index.localPeer⟩ }

/-- Update the index after a local file change. `data` is what the file holds; `none`
is the error of a file that cannot be read. -/
def localFileChanged (index : SyncIndex) (path : RelPath) (data : Option Bytes) (now : Nat) :
    Option SyncIndex :=
  data.map fun data => index.ticked path data now

/-- Mark a file as deleted locally. -/
def localFileDeleted (index : SyncIndex) (path : RelPath) (now : Nat) : SyncIndex :=
  { index with
    tree := (Merkle.removePath index.tree path).2
    fileMeta := index.fileMeta.erase path
    tombstones := index.tombstones ++
      [⟨path.toStringLossy, index.localPeer, index.clockOf path, now⟩] }

/-! ## Recorded clocks -/

omit [Blake3] in
theorem clockOf_of_insert {before after : SyncIndex} {path : RelPath} {fileMeta : FileMeta}
    (inserted : after.fileMeta = before.fileMeta.insert path fileMeta) (query : RelPath) :
    after.clockOf query = if query = path then fileMeta.clock else before.clockOf query := by
  rw [clockOf, inserted]
  split
  · rename_i same
    rw [same, Finmap.lookup_insert]
    rfl
  · rename_i apart
    rw [Finmap.lookup_insert_of_ne _ apart]
    rfl

omit [Blake3] in
theorem clockOf_of_erase {before after : SyncIndex} {path : RelPath}
    (erased : after.fileMeta = before.fileMeta.erase path) (query : RelPath) :
    after.clockOf query = if query = path then .new else before.clockOf query := by
  rw [clockOf, erased]
  split
  · rename_i same
    rw [same, Finmap.lookup_erase]
    rfl
  · rename_i apart
    rw [Finmap.lookup_erase_ne apart]
    rfl

/-- An indexed edit ticks the clock of its path. -/
theorem clockOf_ticked (index : SyncIndex) (path : RelPath) (data : Bytes) (now : Nat)
    (query : RelPath) :
    (index.ticked path data now).clockOf query =
      if query = path then (index.clockOf path).tick index.localPeer else index.clockOf query := by
  have inserted : (index.ticked path data now).fileMeta = index.fileMeta.insert path
      ⟨(index.clockOf path).tick index.localPeer, now, index.localPeer⟩ := rfl
  exact clockOf_of_insert inserted query

/-- A deletion forgets the clock of its path. -/
theorem clockOf_localFileDeleted (index : SyncIndex) (path : RelPath) (now : Nat)
    (query : RelPath) :
    (index.localFileDeleted path now).clockOf query =
      if query = path then .new else index.clockOf query :=
  clockOf_of_erase rfl query

end SyncIndex

/-! ## Clocks of a new index -/

section Build

variable {localPeer : PeerId} {now : Nat}

/-- Every recorded clock is empty. -/
def AllNew (out : HashMap RelPath FileMeta) : Prop :=
  ∀ path fileMeta, out.lookup path = some fileMeta → fileMeta.clock = .new

theorem AllNew.insert {out : HashMap RelPath FileMeta} (fresh : AllNew out) (path : RelPath) :
    AllNew (out.insert path ⟨.new, now, localPeer⟩) := by
  intro query fileMeta found
  by_cases same : query = path
  · subst same
    rw [Finmap.lookup_insert] at found
    cases found
    rfl
  · rw [Finmap.lookup_insert_of_ne _ same] at found
    exact fresh query fileMeta found

mutual

theorem AllNew.collectFileMeta {out : HashMap RelPath FileMeta} (fresh : AllNew out)
    (path : RelPath) : ∀ node, AllNew (collectFileMeta node path localPeer now out)
  | .file _ _ _ => by
      rw [P2Sync.collectFileMeta]
      exact fresh.insert path
  | .directory _ children => by
      rw [P2Sync.collectFileMeta]
      exact fresh.collectChildren path children

theorem AllNew.collectChildren {out : HashMap RelPath FileMeta} (fresh : AllNew out)
    (path : RelPath) : ∀ children, AllNew (collectChildren children path localPeer now out)
  | [] => by
      rw [P2Sync.collectChildren]
      exact fresh
  | (name, child) :: rest => by
      rw [P2Sync.collectChildren]
      exact (fresh.collectFileMeta (path ++ [.utf8 name]) child).collectChildren path rest

end

end Build

/-- A newly built index records an empty clock everywhere. -/
theorem SyncIndex.build_clock [Blake3] {disk : Disk} {localPeer : PeerId}
    {excludePatterns : List Str} {storage : StorageConfig} {now : Nat} {index : SyncIndex}
    (built : SyncIndex.build disk localPeer excludePatterns storage now = some index)
    (path : RelPath) : index.clockOf path = .new := by
  obtain ⟨tree, _, rfl⟩ := Option.map_eq_some_iff.mp built
  rw [SyncIndex.clockOf]
  cases found : Finmap.lookup path (collectFileMeta tree [] localPeer now ∅) with
  | none => rfl
  | some fileMeta =>
      have none : AllNew ∅ := fun path _ absurd => by simp at absurd
      exact none.collectFileMeta [] tree path fileMeta found

end P2Sync
