import P2Sync.Core.Index

/-!
# Messages

Requests and responses go between two peers; notifications are broadcast to the group.
A path travels as a string, and the receiver decides with `safePath` whether it will use
it. A `SafePath` is a string together with the names it was accepted with, so that code
past the guard cannot be called with a rejected path.
-/

set_option autoImplicit false

namespace P2Sync

/-- Request types for the sync protocol. -/
inductive SyncRequest where
  | getRootHash
  | getTree
  | getSubtree (path : Str)
  | getChunks (path : Str) (chunkIndices : List Nat)
  | getFileMeta (path : Str)

/-- Response types for the sync protocol. -/
inductive SyncResponse where
  | rootHash (hash : Hash)
  | tree (tree : Node)
  | subtree (path : Str) (node : Option Node)
  | chunks (path : Str) (chunks : List (Nat × Bytes))
  | fileMeta (path : Str) (clock : Option VectorClock) (lastModified : Nat)
  | error (message : String)

/-- Notification messages for real-time sync. -/
inductive SyncNotification where
  | fileChanged (path : Str) (hash : Hash) (chunksChanged : List ChunkMeta)
      (clock : VectorClock) (timestamp : Nat) (peer : PeerId)
  | fileDeleted (tombstone : Tombstone)
  | peerJoined (peer : PeerId)
deriving DecidableEq

/-! ## Accepted paths -/

/-- A path string that `safePath` accepted, with the names it stands for. -/
structure SafePath where
  raw : Str
  rel : RelPath
  accepted : safeRel raw = some rel

namespace SafePath

/-- The guard on path strings. -/
def of? (raw : Str) : Option SafePath :=
  match accepted : safeRel raw with
  | some rel => some ⟨raw, rel, accepted⟩
  | none => none

theorem of?_eq_some_iff {raw : Str} {path : SafePath} : of? raw = some path ↔ path.raw = raw := by
  constructor
  · intro guarded
    rw [of?] at guarded
    split at guarded
    · cases guarded
      rfl
    · exact absurd guarded (Option.some_ne_none path).symm
  · rintro rfl
    rw [of?]
    split
    · rename_i rel accepted
      obtain ⟨raw, rel', accepted'⟩ := path
      obtain rfl : rel' = rel := Option.some.inj (accepted'.symm.trans accepted)
      rfl
    · rename_i rejected
      exact absurd (path.accepted.symm.trans rejected) (Option.some_ne_none path.rel)

@[simp] theorem of?_raw (path : SafePath) : of? path.raw = some path := of?_eq_some_iff.mpr rfl

/-- The string determines the names. -/
theorem eq_of_raw {left right : SafePath} (same : left.raw = right.raw) : left = right :=
  Option.some.inj ((of?_raw left).symm.trans (of?_eq_some_iff.mpr same.symm))

/-- The names of an accepted path are UTF-8. -/
theorem exists_rel_eq (path : SafePath) : ∃ names : List Str, path.rel = names.map OsStr.utf8 :=
  ⟨_, (safeRel_eq_some_iff.mp path.accepted).2.2.2⟩

/-- Whether a path says that a directory is there: it ends in a slash, or in a dot after one. -/
def namesDirectory (path : SafePath) : Bool :=
  match (segments path.raw).reverse with
  | last :: _ :: _ => last == [] || last == ['.']
  | _ => false

/-- The backup of an accepted path for a losing peer. -/
def backup (path : SafePath) (loser : PeerId) : SafePath :=
  match accepted : safeRel (conflictFilename path.raw loser) with
  | some rel => ⟨conflictFilename path.raw loser, rel, accepted⟩
  | none => path

/-- **The engine can always use a backup path**: it is accepted by the guard. -/
theorem backup_raw (path : SafePath) (loser : PeerId) :
    (path.backup loser).raw = conflictFilename path.raw loser := by
  rw [backup]
  split
  · rfl
  · rename_i rejected
    obtain ⟨backup, accepted, _⟩ := safeRel_conflictFilename loser path.accepted
    exact absurd (accepted.symm.trans rejected) (Option.some_ne_none backup)

/-- A backup is another file, and its name carries the mark. -/
theorem backup_rel (path : SafePath) (loser : PeerId) :
    (path.backup loser).rel ≠ path.rel ∧
      conflictMark <:+: (path.backup loser).rel.toStringLossy := by
  obtain ⟨backup, accepted, apart, mark⟩ := safeRel_conflictFilename loser path.accepted
  have same := (path.backup loser).accepted
  rw [path.backup_raw, accepted] at same
  rw [← Option.some.inj same]
  exact ⟨apart, mark⟩

end SafePath

end P2Sync
