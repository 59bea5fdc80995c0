import P2Sync.Core.Refine
import P2Sync.Net.Fetch

/-!
# What is published of a changed file

`handle_fs_event` looks at a touched file three times: whether it is a regular file, what it
holds for the index, and what it holds for the message. Between the looks anyone can write
or delete the file, so each finds what it finds. Index and message agree exactly when the
last look finds the chunks of the one before, and the path is one that the tree and the
message can hold (`describesIndexed_iff`).
-/

set_option autoImplicit false

namespace P2Sync

namespace Peer

variable {ι : Type} [Blake3] {ctx : Ctx ι} {before after : Peer ι} {path : RelPath}
  {published : Option SyncNotification}

/-- A published change describes the file node and the clock recorded for the path, and a
clock that was ticked is published. -/
structure DescribesIndexed (path : RelPath) (before after : Peer ι)
    (published : Option SyncNotification) : Prop where
  recorded : ∀ raw hash chunks clock timestamp writer,
    published = some (.fileChanged raw hash chunks clock timestamp writer) →
      path.toWire = some raw ∧
        (∃ size, Merkle.findNode path after.index.tree = some (.file hash size chunks)) ∧
          ∃ fileMeta, after.index.fileMeta.lookup path = some fileMeta ∧ fileMeta.clock = clock
  announced : after.index.clockOf path ≠ before.index.clockOf path →
    ∃ raw hash chunks timestamp writer, published =
      some (.fileChanged raw hash chunks (after.index.clockOf path) timestamp writer)

/-- What the looks at a file find when it stays as it is: both find the same chunks, and its
path is one that the tree and the message can hold. A folder that is itself a file never gets
another node, so there the second look has to find the chunks of the node it has. -/
inductive Steady (peer : Peer ι) (reads : FsReads) (path : RelPath) : Prop where
  | file (names : List Str) (first second : Bytes) (texts : path = names.map OsStr.utf8)
      (nonempty : names ≠ []) (free : ¬ Merkle.Blocked names peer.index.tree)
      (look : reads.first = some first) (again : reads.second = some second)
      (same : Chunk.metadata second peer.index.chunkSize =
        Chunk.metadata first peer.index.chunkSize)
  | root (second : Bytes) (size : Nat) (root : path = []) (again : reads.second = some second)
      (stands : peer.index.tree =
        .file (Chunk.fileHash (Chunk.metadata second peer.index.chunkSize)) size
          (Chunk.metadata second peer.index.chunkSize))

omit [Blake3] in
/-- A tick changes a clock. -/
theorem tick_ne (clock : VectorClock) (peer : PeerId) : clock.tick peer ≠ clock := by
  intro same
  have counter := congrArg (fun clock : VectorClock => clock.counter peer) same
  rw [VectorClock.counter_tick_self] at counter
  exact absurd counter (by simp)

/-- The file node recorded for an indexed edit. -/
theorem findNode_ticked {names : List Str} (nonempty : names ≠ []) (index : SyncIndex)
    (data : Bytes) (now : Nat) {hash : Hash} {size : Nat} {chunks : List ChunkMeta} :
    Merkle.findNode (names.map OsStr.utf8) (index.ticked (names.map OsStr.utf8) data now).tree =
        some (.file hash size chunks) ↔
      ¬ Merkle.Blocked names index.tree ∧
        Merkle.fileNodeWithChunkSize data index.chunkSize = .file hash size chunks := by
  simp only [SyncIndex.ticked, Merkle.updateFileWithChunkSize, Merkle.insertNode,
    Merkle.pathNames_map_utf8, Merkle.findNode_map_utf8]
  by_cases blocked : Merkle.Blocked names index.tree
  · simp [Merkle.findNames_insert_of_blocked blocked, blocked]
  · rw [Merkle.findNames_insert_self nonempty blocked, Option.some.injEq, and_iff_right blocked]

/-- What an indexed edit records for the root. -/
theorem findNode_ticked_root (index : SyncIndex) (data : Bytes) (now : Nat) :
    Merkle.findNode [] (index.ticked [] data now).tree = some index.tree := by
  cases tree : index.tree <;>
    simp [SyncIndex.ticked, Merkle.updateFileWithChunkSize, Merkle.insertNode, Merkle.pathNames,
      Merkle.insertRecursive, Merkle.findNode, tree]

/-- Exactly when the message about an indexed edit describes it. -/
theorem describesIndexed_ticked_iff (chunkSize : before.index.chunkSize = ctx.storage.chunkSize)
    {reads : FsReads} {first : Bytes} (look : reads.first = some first)
    (recorded : after.index = before.index.ticked path first before.now) :
    DescribesIndexed path before after (publication ctx before reads path) ↔
      before.Steady reads path := by
  have clock : after.index.clockOf path =
      (before.index.clockOf path).tick before.index.localPeer := by
    rw [recorded, SyncIndex.clockOf_ticked, if_pos rfl]
  constructor
  · intro describes
    have ticked : after.index.clockOf path ≠ before.index.clockOf path := by
      rw [clock]
      exact tick_ne _ _
    obtain ⟨raw, hash, chunks, timestamp, writer, published⟩ := describes.announced ticked
    obtain ⟨wire, ⟨size, found⟩, _⟩ := describes.recorded _ _ _ _ _ _ published
    obtain ⟨second, again, published⟩ := Option.bind_eq_some_iff.mp published
    obtain ⟨_, _, message⟩ := Option.map_eq_some_iff.mp published
    obtain ⟨_, rfl, rfl, _, _, _⟩ := SyncNotification.fileChanged.inj message
    obtain ⟨names, rfl, _⟩ := exists_names_of_toWire wire
    rw [recorded] at found
    by_cases root : names = []
    · subst root
      rw [List.map_nil, findNode_ticked_root, Option.some.injEq, ← chunkSize] at found
      exact .root second size rfl again found
    · obtain ⟨free, node⟩ := (findNode_ticked root _ _ _).mp found
      refine .file names first second rfl root free look again ?_
      rw [chunkSize]
      rw [chunkSize] at node
      exact (Node.file.inj node).2.2.symm
  · intro steady
    obtain ⟨second, size, raw, wire, again, found⟩ : ∃ second size raw, path.toWire = some raw ∧
        reads.second = some second ∧ Merkle.findNode path after.index.tree =
          some (.file (Chunk.fileHash (Chunk.metadata second ctx.storage.chunkSize)) size
            (Chunk.metadata second ctx.storage.chunkSize)) := by
      rw [recorded, ← chunkSize]
      cases steady with
      | file names first' second texts nonempty free look' again same =>
          obtain rfl := Option.some.inj (look.symm.trans look')
          subst texts
          refine ⟨second, first.length, _, toWire_map_utf8 names, again, ?_⟩
          refine (findNode_ticked nonempty _ _ _).mpr ⟨free, ?_⟩
          rw [same]
          rfl
      | root second size root again stands =>
          subst root
          refine ⟨second, size, _, toWire_map_utf8 [], again, ?_⟩
          rw [findNode_ticked_root, stands]
    have published : publication ctx before reads path = some (.fileChanged raw
        (Chunk.fileHash (Chunk.metadata second ctx.storage.chunkSize))
        (Chunk.metadata second ctx.storage.chunkSize) (after.index.clockOf path) before.now
        ctx.localId) := by
      rw [publication, again, Option.bind_some, wire, clock]
      rfl
    rw [published]
    refine ⟨?_, fun _ => ⟨_, _, _, _, _, rfl⟩⟩
    intro _ _ _ _ _ _ same
    obtain ⟨rfl, rfl, rfl, rfl, _, _⟩ := SyncNotification.fileChanged.inj (Option.some.inj same)
    refine ⟨wire, ⟨size, found⟩, ?_⟩
    rw [clock, recorded]
    exact ⟨_, Finmap.lookup_insert _, rfl⟩

/-- **Exactly when what is published describes what is indexed.** -/
theorem describesIndexed_iff (reachable : Reachable ctx before) (pushing : ctx.noPush = false)
    {event : FsEvent} {rest : List FsEvent} (queue : before.watch.fsQueue = event :: rest)
    (touched : event = .created path ∨ event = .modified path) {reads : FsReads}
    (stepped : before.step ctx (.fsEvent reads) = some (after, published)) :
    DescribesIndexed path before after published ↔
      (before.picksUp ctx reads path = true → before.Steady reads path) := by
  let next : Peer ι := { before with watch := { before.watch with fsQueue := rest } }
  have handled : next.handleTouched ctx reads path = (after, published) := by
    rw [step, queue] at stepped
    dsimp only at stepped
    rw [pushing, if_neg Bool.false_ne_true] at stepped
    rcases touched with rfl | rfl <;> exact Option.some.inj stepped
  rcases @handleTouched_eq _ _ ctx next reads path with
    ⟨skipped, watch, same⟩ | ⟨picked, watch, first, look, same⟩
  · have skipped : before.picksUp ctx reads path = false := skipped
    cases handled.symm.trans same
    rw [skipped]
    refine iff_of_true ⟨?_, fun ticked => absurd rfl ticked⟩
      fun picked => absurd picked Bool.false_ne_true
    intro _ _ _ _ _ _ published
    exact absurd published (Option.some_ne_none _).symm
  · have picked : before.picksUp ctx reads path = true := picked
    cases handled.symm.trans same
    rw [picked]
    simp only [true_implies]
    exact describesIndexed_ticked_iff reachable.chunkSize look rfl

end Peer

/-! ## A file that changes between the looks -/

namespace Sample

attribute [local instance] blake3

/-- A peer with an event for its file `f`. -/
def touchedPeer : Peer Site :=
  { peer .one [1] with watch := ⟨∅, ∅, [.modified path], 0⟩ }

theorem reachable_touchedPeer : Peer.Reachable (ctx .one) touchedPeer :=
  ⟨folder [1], [], 10, peer .one [1], _, start_peer .one [1],
    .snoc .start (rfl : (peer .one [1]).next (ctx .one) (.watched (.modified path)) = some _)⟩

/-- A write between the looks, and a deletion between them. -/
theorem exists_not_describesIndexed :
    Peer.Reachable (ctx .one) touchedPeer ∧
      (∃ after published, touchedPeer.step (ctx .one) (.fsEvent ⟨true, some [1], some [2]⟩) =
        some (after, published) ∧ ¬ Peer.DescribesIndexed path touchedPeer after published) ∧
      ∃ after published, touchedPeer.step (ctx .one) (.fsEvent ⟨true, some [1], none⟩) =
        some (after, published) ∧ ¬ Peer.DescribesIndexed path touchedPeer after published := by
  refine ⟨reachable_touchedPeer, ⟨_, _, rfl, fun describes => ?_⟩, ⟨_, _, rfl, fun describes => ?_⟩⟩
  · obtain ⟨_, ⟨size, found⟩, _⟩ := describes.recorded _ _ _ _ _ _ rfl
    exact absurd (Node.file.inj (Option.some.inj found)).2.2 (by decide)
  · obtain ⟨_, _, _, _, _, published⟩ := describes.announced (by decide)
    exact absurd published (Option.some_ne_none _).symm

/-- A file that stays as it is. -/
theorem describesIndexed_iff_sample :
    ∃ after published, touchedPeer.step (ctx .one) (.fsEvent ⟨true, some [2], some [2]⟩) =
      some (after, published) ∧ Peer.DescribesIndexed path touchedPeer after published := by
  obtain ⟨after, published, stepped⟩ : ∃ after published, touchedPeer.step (ctx .one)
      (.fsEvent ⟨true, some [2], some [2]⟩) = some (after, published) := ⟨_, _, rfl⟩
  refine ⟨after, published, stepped, (Peer.describesIndexed_iff reachable_touchedPeer rfl rfl
    (Or.inr rfl) stepped).mpr fun _ => ?_⟩
  refine .file [['f']] [2] [2] rfl (by decide) ?_ rfl rfl rfl
  intro blocked
  obtain ⟨child, found, blocked⟩ := blocked.child
  exact Merkle.not_blocked_nil blocked

end Sample

end P2Sync
