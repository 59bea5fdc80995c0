import P2Sync.Net.Fetch

/-!
# What a transfer makes of a file

A peer asks for chunks by their indices, and the other answers with the slices of its own
file. Each side takes an index times its own chunk size as the offset of the slice.

With one chunk size on both sides the slices are laid over the old file, and what it held
past the end of the new content stays (`transfer_of_agrees`). So a file is reproduced exactly
when the old one is not longer (`fetchesWhole_iff`), and it does not matter which of the
chunks that agree already are asked for again (`transfer_delta`). With two chunk sizes only
a content of one chunk arrives as it was (`arrives_iff`).
-/

set_option autoImplicit false

namespace P2Sync

section

variable [Blake3]

/-- The chunk indices a peer lists for a content, in its tree and in its notifications. -/
def advertised (sender : StorageConfig) (content : Bytes) : List Nat :=
  (Chunk.metadata content sender.chunkSize).map ChunkMeta.index

/-- A content and its chunks are within the limits of a peer. A buffer of the language holds
fewer than 2^63 bytes. -/
structure Within (sender : StorageConfig) (content : Bytes) (storage : StorageConfig) : Prop where
  size : content.length ≤ storage.maxFileSize
  count : (advertised sender content).length ≤ storage.maxChunkIndex
  held : content.length < 2 ^ 63

/-- What `fetch_and_apply` makes of an old file when it asks a peer that holds a content for
some of its chunks; `none` when it gives up. -/
def transfer (sender receiver : StorageConfig) (content : Bytes) (chunkIndices : List Nat)
    (old : Bytes) : Option Bytes :=
  applyChunks receiver (serveChunks sender content chunkIndices) old

variable {sender receiver : StorageConfig} {content old : Bytes} {chunkIndices : List Nat}

theorem advertised_eq (sender : StorageConfig) (content : Bytes) :
    advertised sender content =
      List.range ((content.length + sender.chunkSize - 1) / sender.chunkSize) := by
  rw [advertised, Chunk.metadata_map_index, Chunk.length_slices]

theorem mem_advertised (positive : 0 < sender.chunkSize) {index : Nat} :
    index ∈ advertised sender content ↔ index * sender.chunkSize < content.length := by
  rw [advertised_eq, List.mem_range, Chunk.lt_slices_iff positive]

/-- Within the limits no chunk index is refused. -/
theorem Within.lt_maxChunkIndex {storage : StorageConfig} (within : Within sender content storage)
    (positive : 0 < sender.chunkSize) {index : Nat}
    (inside : index * sender.chunkSize < content.length) : index < storage.maxChunkIndex := by
  have listed := (mem_advertised positive).mpr inside
  have count := within.count
  rw [advertised_eq, List.length_range] at count
  rw [advertised_eq, List.mem_range] at listed
  omega

/-! ## One chunk size -/

/-- **A transfer with one chunk size** gives the content and what the old file has past its
end, when every chunk in which they differ is asked for. -/
theorem transfer_of_agrees (positive : 0 < sender.chunkSize)
    (sameSize : sender.chunkSize = receiver.chunkSize) (bySender : Within sender content sender)
    (byReceiver : Within sender content receiver)
    (complete : ∀ index, index * sender.chunkSize < content.length → index ∈ chunkIndices ∨
      (old.drop (index * sender.chunkSize)).take sender.chunkSize =
        (content.drop (index * sender.chunkSize)).take sender.chunkSize) :
    transfer sender receiver content chunkIndices old =
      some (content ++ old.drop content.length) := by
  have kept : keptPieces receiver (serveChunks sender content chunkIndices) = _ :=
    keptPieces_serveChunks positive sameSize (lt_trans bySender.held (by decide))
  have inside : ∀ index ∈ chunkIndices.filter fun index =>
      (index < sender.maxChunkIndex ∧ index * sender.chunkSize < content.length) ∧
        index < receiver.maxChunkIndex, index * sender.chunkSize < content.length :=
    fun index member => (of_decide_eq_true (List.mem_filter.mp member).2).1.2
  rw [transfer, applyChunks_eq_some_iff, kept]
  refine ⟨fun piece member => ?_,
    Chunk.spliceAll_pieces_of_agrees positive inside fun index within => ?_⟩
  · exact (Overlay.le_reach member).trans ((Chunk.reach_pieces_le inside).trans byReceiver.size)
  · refine (complete index within).imp_left fun requested => List.mem_filter.mpr ⟨requested, ?_⟩
    exact decide_eq_true ⟨⟨bySender.lt_maxChunkIndex positive within, within⟩,
      byReceiver.lt_maxChunkIndex positive within⟩

/-- Chunks with one metadata are one slice, unless two slices have one hash. -/
theorem slice_eq_of_metadata_eq {chunkSize index : Nat} (positive : 0 < chunkSize)
    (distinct : ∀ left ∈ Chunk.slices old chunkSize, ∀ right ∈ Chunk.slices content chunkSize,
      Blake3.hash left = Blake3.hash right → left = right)
    (inside : index * chunkSize < content.length)
    (same : (Chunk.metadata old chunkSize)[index]? = (Chunk.metadata content chunkSize)[index]?) :
    (old.drop (index * chunkSize)).take chunkSize =
      (content.drop (index * chunkSize)).take chunkSize := by
  have here : (Chunk.slices content chunkSize)[index]? =
      some ((content.drop (index * chunkSize)).take chunkSize) := by
    rw [Chunk.slices_getElem?, if_pos ((Chunk.lt_slices_iff positive).mpr inside)]
  rw [Chunk.metadata, Chunk.metadata, List.getElem?_map, List.getElem?_map, List.getElem?_zipIdx,
    List.getElem?_zipIdx, here] at same
  cases there : (Chunk.slices old chunkSize)[index]? with
  | none =>
      rw [there] at same
      exact absurd same (Option.some_ne_none _).symm
  | some slice =>
      rw [there] at same
      have hashes := congrArg ChunkMeta.hash (Option.some.inj same)
      have found := there
      rw [Chunk.slices_getElem?, Option.ite_none_right_eq_some] at found
      rw [Option.some.inj found.2]
      exact distinct slice (List.mem_of_getElem? there) _ (List.mem_of_getElem? here) hashes

/-- **A transfer of the chunks that differ** writes what a transfer of all chunks writes. -/
theorem transfer_delta (positive : 0 < sender.chunkSize)
    (sameSize : sender.chunkSize = receiver.chunkSize) (bySender : Within sender content sender)
    (byReceiver : Within sender content receiver)
    (distinct : ∀ left ∈ Chunk.slices old sender.chunkSize,
      ∀ right ∈ Chunk.slices content sender.chunkSize,
        Blake3.hash left = Blake3.hash right → left = right)
    (complete : ∀ index ∈ advertised sender content,
      (Chunk.metadata old sender.chunkSize)[index]? ≠
        (Chunk.metadata content sender.chunkSize)[index]? → index ∈ chunkIndices) :
    ∃ written, transfer sender receiver content chunkIndices old = some written ∧
      transfer sender receiver content (advertised sender content) old = some written := by
  refine ⟨_, transfer_of_agrees positive sameSize bySender byReceiver fun index inside => ?_,
    transfer_of_agrees positive sameSize bySender byReceiver fun index inside =>
      Or.inl ((mem_advertised positive).mpr inside)⟩
  rw [or_iff_not_imp_left]
  intro unrequested
  refine slice_eq_of_metadata_eq positive distinct inside ?_
  by_contra differs
  exact unrequested (complete index ((mem_advertised positive).mpr inside) differs)

/-! ## Two chunk sizes -/

omit [Blake3] in
/-- The length of the slice at an index. -/
theorem length_slice (chunkSize index : Nat) :
    ((content.drop (index * chunkSize)).take chunkSize).length =
      min chunkSize (content.length - index * chunkSize) := by
  rw [List.length_take, List.length_drop]

/-- Where the receiver puts the slices of a whole content. -/
theorem mem_keptPieces (positive : 0 < sender.chunkSize) (bySender : Within sender content sender)
    (byReceiver : Within sender content receiver) {piece : Nat × Bytes} :
    piece ∈ keptPieces receiver (serveChunks sender content (advertised sender content)) ↔
      ∃ index, index * sender.chunkSize < content.length ∧
        index * receiver.chunkSize +
            min sender.chunkSize (content.length - index * sender.chunkSize) < 2 ^ 64 ∧
          piece = (index * receiver.chunkSize,
            (content.drop (index * sender.chunkSize)).take sender.chunkSize) := by
  rw [keptPieces, serveChunks_eq positive, List.mem_map]
  simp only [List.mem_filter, List.mem_map, decide_eq_true_eq, mem_advertised positive]
  constructor
  · rintro ⟨_, ⟨⟨index, ⟨inside, -, -⟩, rfl⟩, -, short⟩, rfl⟩
    rw [length_slice] at short
    exact ⟨index, inside, short, rfl⟩
  · rintro ⟨index, inside, short, rfl⟩
    refine ⟨_, ⟨⟨index, ⟨inside, bySender.lt_maxChunkIndex positive inside, inside⟩, rfl⟩,
      byReceiver.lt_maxChunkIndex positive inside, ?_⟩, rfl⟩
    rwa [length_slice]

/-- A content of one chunk is served as it is. -/
theorem transfer_of_one (positive : 0 < sender.chunkSize) (bySender : Within sender content sender)
    (byReceiver : Within sender content receiver) (one : content.length ≤ sender.chunkSize) :
    transfer sender receiver content (advertised sender content) [] = some content := by
  have size := byReceiver.size
  have held := byReceiver.held
  have served : keptPieces receiver (serveChunks sender content (advertised sender content)) =
      if content = [] then [] else [(0, content)] := by
    rw [serveChunks_eq positive, advertised_eq]
    split
    · rename_i empty
      rw [empty, List.length_nil, Nat.zero_add, Nat.div_eq_of_lt (Nat.sub_one_lt positive.ne')]
      rfl
    · rename_i nonempty
      have some : 0 < content.length := List.length_pos_of_ne_nil nonempty
      have start : 0 * sender.chunkSize < content.length := by omega
      have first := bySender.lt_maxChunkIndex positive start
      have allowed := byReceiver.lt_maxChunkIndex positive start
      rw [show (content.length + sender.chunkSize - 1) / sender.chunkSize = 1 from
        Nat.div_eq_of_lt_le (by omega) (by omega), List.range_one,
        List.filter_cons_of_pos (by simpa using ⟨first, some⟩)]
      simp only [List.filter_nil, List.map_cons, List.map_nil, keptPieces, Nat.zero_mul,
        List.drop_zero, List.take_of_length_le one]
      rw [List.filter_cons_of_pos (by simpa using ⟨allowed, by omega⟩)]
      simp
  rw [transfer, applyChunks_eq_some_iff, served]
  split
  · rename_i empty
    exact ⟨fun piece absent => absurd absent List.not_mem_nil, empty.symm⟩
  · rename_i nonempty
    refine ⟨fun piece member => ?_, ?_⟩
    · rw [List.mem_singleton.mp member, Nat.zero_add]
      exact size
    · simp [Overlay.spliceAll, Overlay.splice, List.length_pos_of_ne_nil nonempty]

/-- With another chunk size several chunks never make a content of its length. -/
theorem reach_ne (positive : 0 < sender.chunkSize)
    (bySender : Within sender content sender) (byReceiver : Within sender content receiver)
    (differ : sender.chunkSize ≠ receiver.chunkSize) (several : sender.chunkSize < content.length) :
    Overlay.reach (keptPieces receiver
      (serveChunks sender content (advertised sender content))) ≠ content.length := by
  intro reached
  have held := byReceiver.held
  have ends : ∀ index, index * sender.chunkSize < content.length →
      index * receiver.chunkSize +
          min sender.chunkSize (content.length - index * sender.chunkSize) < 2 ^ 64 →
        index * receiver.chunkSize +
          min sender.chunkSize (content.length - index * sender.chunkSize) ≤ content.length := by
    intro index inside short
    have kept := Overlay.le_reach
      ((mem_keptPieces positive bySender byReceiver).mpr ⟨index, inside, short, rfl⟩)
    rwa [length_slice, reached] at kept
  -- A bound below the length for the ends of all pieces contradicts `reached`.
  have short : ∀ bound < content.length, ∃ index, index * sender.chunkSize < content.length ∧
      index * receiver.chunkSize +
          min sender.chunkSize (content.length - index * sender.chunkSize) < 2 ^ 64 ∧
        bound < index * receiver.chunkSize +
          min sender.chunkSize (content.length - index * sender.chunkSize) := by
    intro bound below
    by_contra none
    push Not at none
    have small : Overlay.reach (keptPieces receiver
        (serveChunks sender content (advertised sender content))) ≤ bound := by
      refine Overlay.reach_le fun piece member => ?_
      obtain ⟨index, inside, short, rfl⟩ :=
        (mem_keptPieces positive bySender byReceiver).mp member
      rw [length_slice]
      exact none index inside short
    omega
  rcases Nat.lt_or_gt_of_ne differ with larger | smaller
  · by_cases wide : receiver.chunkSize < 2 ^ 63
    · -- Every piece is kept, and the last one ends too late.
      have bounded : ∀ index, index * sender.chunkSize < content.length →
          index * receiver.chunkSize +
            min sender.chunkSize (content.length - index * sender.chunkSize) ≤
              content.length := by
        intro index
        induction index with
        | zero => exact fun inside => ends 0 inside (by omega)
        | succ index ih =>
            intro inside
            have before := ih (by rw [Nat.add_one_mul] at inside; omega)
            refine ends _ inside ?_
            rw [Nat.add_one_mul] at inside ⊢
            omega
      obtain ⟨last, final⟩ : ∃ last, (content.length - 1) / sender.chunkSize = last := ⟨_, rfl⟩
      have whole := Nat.div_add_mod' (content.length - 1) sender.chunkSize
      have rest := Nat.mod_lt (content.length - 1) positive
      rw [final] at whole
      have late := bounded last (by omega)
      have more : 1 ≤ last := by
        rw [← final, Nat.le_div_iff_mul_le positive]
        omega
      have wider := Nat.mul_lt_mul_of_pos_left larger more
      omega
    · -- Only the first piece is kept.
      obtain ⟨index, inside, fits, long⟩ := short sender.chunkSize several
      have ended := ends index inside fits
      cases index with
      | zero => omega
      | succ index =>
          rw [Nat.add_one_mul] at ended
          omega
  · -- Every piece ends before the end of the content.
    obtain ⟨index, inside, fits, long⟩ := short (content.length - 1) (by omega)
    cases index with
    | zero => omega
    | succ index =>
        have narrower : (index + 1) * receiver.chunkSize < (index + 1) * sender.chunkSize :=
          Nat.mul_lt_mul_of_pos_left smaller (Nat.succ_pos index)
        omega

/-- **A content arrives at a peer that has no such file** exactly when the chunk sizes are
the same, or it is one chunk. -/
theorem transfer_eq_iff (positive : 0 < sender.chunkSize) (bySender : Within sender content sender)
    (byReceiver : Within sender content receiver) :
    transfer sender receiver content (advertised sender content) [] = some content ↔
      sender.chunkSize = receiver.chunkSize ∨ content.length ≤ sender.chunkSize := by
  constructor
  · intro arrived
    by_contra neither
    obtain ⟨differ, several⟩ := not_or.mp neither
    have whole := (applyChunks_eq_some_iff.mp arrived).2
    have length := congrArg List.length whole
    rw [Overlay.length_spliceAll, List.length_nil, max_eq_right (Nat.zero_le _)] at length
    exact reach_ne positive bySender byReceiver differ (Nat.lt_of_not_le several) length
  · rintro (sameSize | one)
    · rw [transfer_of_agrees positive sameSize bySender byReceiver fun index inside =>
        Or.inl ((mem_advertised positive).mpr inside), List.drop_nil, List.append_nil]
    · exact transfer_of_one positive bySender byReceiver one

/-! ## Transfers between peers -/

/-- The answers of a peer that can read its folder. -/
def answersFrom (sender : StorageConfig) (index : SyncIndex) (disk : Disk)
    (request : SyncRequest) : Option SyncResponse :=
  some (handleInboundRequest sender index disk none request)

namespace Peer

variable {ι : Type} {ctx : Ctx ι} {device : Device} {peer : Peer ι} {path : SafePath}
  {served : SyncIndex} {folder : Disk} {origin : RemoteOrigin} {data : Bytes}

/-- A content is fetched from the file of another peer: it is within the limits of both,
the path is not excluded, and the write succeeds. -/
structure Fetches (ctx : Ctx ι) (device : Device) (sender : StorageConfig) (folder : Disk)
    (peer : Peer ι) (path : SafePath) (content : Bytes) : Prop where
  positive : 0 < sender.chunkSize
  bySender : Within sender content sender
  byReceiver : Within sender content ctx.storage
  holds : readAccepted folder path = some content
  included : peer.index.isExcluded path.rel = false
  reliable : device.writes = .succeeds
  room : ((peer.makeParents device path.rel).write path.rel []).isSome = true

/-- The file and its node are those of a content. -/
def Reproduces (path : SafePath) (content : Bytes) (chunkSize : Nat) (after : Peer ι) : Prop :=
  after.disk.read path.rel = some content ∧
    Merkle.findNode path.rel after.index.tree =
      some (Merkle.fileNodeWithChunkSize content chunkSize)

/-- What such a fetch applies. -/
theorem Fetches.answered (fetches : Fetches ctx device sender folder peer path content) :
    peer.fetchAndApply ctx device (answersFrom sender served folder) path.raw chunkIndices origin =
      peer.applyFetched ctx device (serveChunks sender content chunkIndices) path origin := by
  have answer : answersFrom sender served folder (.getChunks path.raw chunkIndices) =
      some (.chunks path.raw (serveChunks sender content chunkIndices)) := by
    simp only [answersFrom, handleInboundRequest, SafePath.of?_raw, fetches.holds]
  exact fetchAndApply_answered fetches.included answer

/-- A fetch that puts a content together writes it. -/
theorem Fetches.synced (fetches : Fetches ctx device sender folder peer path content)
    (served : SyncIndex) (origin : RemoteOrigin)
    (transferred : transfer sender ctx.storage content chunkIndices
      (peer.oldData device path.rel) = some data) :
    ∃ disk, disk.read path.rel = some data ∧
      peer.fetchAndApply ctx device (answersFrom sender served folder) path.raw chunkIndices
          origin =
        ({ peer.markWrite path.rel with
          disk := disk
          index := peer.index.fetched path.rel data ctx.storage.chunkSize origin }, .synced) := by
  have room := fetches.room
  rw [Disk.write_isSome path.rel _ data] at room
  obtain ⟨disk, written⟩ := Option.isSome_iff_exists.mp room
  refine ⟨disk, Disk.read_write_self written, ?_⟩
  rw [fetches.answered]
  exact applyFetched_synced transferred
    (Outcome.write_succeeds_iff.mpr ⟨fetches.reliable, written⟩)

/-- **A fetch of all chunks reproduces the remote file** exactly when the old file is not
longer, and the tree lists no file above the path. -/
theorem reproduces_iff (fetches : Fetches ctx device sender folder peer path content)
    (sameSize : sender.chunkSize = ctx.storage.chunkSize)
    (rooted : ∃ entries, peer.disk = .dir entries)
    (whole : ∀ index ∈ advertised sender content, index ∈ chunkIndices) :
    Reproduces path content ctx.storage.chunkSize
        (peer.fetchAndApply ctx device (answersFrom sender served folder) path.raw chunkIndices
          origin).1 ↔
      (peer.oldData device path.rel).length ≤ content.length ∧
        ¬ Merkle.Blocked (Merkle.pathNames path.rel) peer.index.tree := by
  obtain ⟨names, named⟩ := path.exists_rel_eq
  have proper : names ≠ [] := by
    rintro rfl
    obtain ⟨entries, folder⟩ := rooted
    have room := fetches.room
    have parents : peer.makeParents device [] = .dir entries := by
      rw [makeParents, folder]
      split <;> rfl
    rw [named, List.map_nil, parents] at room
    exact absurd room Bool.false_ne_true
  have transferred : transfer sender ctx.storage content chunkIndices
      (peer.oldData device path.rel) = some _ :=
    transfer_of_agrees fetches.positive sameSize fetches.bySender fetches.byReceiver
      fun index inside => Or.inl (whole index ((mem_advertised fetches.positive).mpr inside))
  obtain ⟨disk, stored, result⟩ := fetches.synced served origin transferred
  have exact : content ++ (peer.oldData device path.rel).drop content.length = content ↔
      (peer.oldData device path.rel).length ≤ content.length := by
    rw [List.append_right_eq_self, List.drop_eq_nil_iff]
  rw [result, Reproduces]
  dsimp only
  rw [stored, Option.some.injEq, exact, SyncIndex.fetched, Merkle.updateFileWithChunkSize,
    Merkle.insertNode, named, Merkle.findNode_map_utf8, Merkle.pathNames_map_utf8]
  refine and_congr_right fun short => ?_
  rw [named] at exact
  rw [exact.mpr (named ▸ short)]
  by_cases blocked : Merkle.Blocked names peer.index.tree
  · rw [Merkle.findNames_insert_of_blocked blocked]
    exact iff_of_false (Option.some_ne_none _).symm fun free => free blocked
  · rw [Merkle.findNames_insert_self proper blocked]
    exact iff_of_true rfl blocked

/-- **A file arrives at a peer that has none** exactly when the chunk sizes are the same, or
it is one chunk of the sender. -/
theorem arrives_iff (fetches : Fetches ctx device sender folder peer path content)
    (absent : peer.disk.read path.rel = none) :
    (peer.fetchAndApply ctx device (answersFrom sender served folder) path.raw
        (advertised sender content) origin).1.disk.read path.rel = some content ↔
      sender.chunkSize = ctx.storage.chunkSize ∨ content.length ≤ sender.chunkSize := by
  have empty : peer.oldData device path.rel = [] := by
    rw [oldData, absent]
    split <;> rfl
  rw [← transfer_eq_iff fetches.positive fetches.bySender fetches.byReceiver]
  cases transferred : transfer sender ctx.storage content (advertised sender content) [] with
  | none =>
      rw [fetches.answered, applyFetched_tooLarge (by rw [empty]; exact transferred), absent]
  | some data =>
      obtain ⟨disk, stored, result⟩ :=
        fetches.synced served origin (by rw [empty]; exact transferred)
      rw [result, stored]

end Peer

end

/-! ## Transfers of short files -/

namespace Sample

attribute [local instance] blake3

/-- The first peer, whose folder has `f`, fetches all of the `f` of the second peer. -/
def fetchAll (chunkSize : Nat) (content old : Bytes) : Peer Site × FetchEnd :=
  (peer .one old).fetchAndApply (ctx .one) {}
    (answersFrom { chunkSize := chunkSize } (index .two content) (folder content)) ['f']
    (advertised { chunkSize := chunkSize } content) ⟨.new, 20, peerId 2⟩

/-- A path at which no peer has a file. -/
def fresh : SafePath := ⟨['g'], [.utf8 ['g']], by decide⟩

/-- The first peer fetches a file `g` that it does not have. -/
def fetchFresh (chunkSize : Nat) (content : Bytes) : Peer Site × FetchEnd :=
  (peer .one []).fetchAndApply (ctx .one) {}
    (answersFrom { chunkSize := chunkSize } (index .two content)
      (.dir [(.utf8 ['g'], .file content)])) ['g']
    (advertised { chunkSize := chunkSize } content) ⟨.new, 20, peerId 2⟩

end Sample

namespace Peer

attribute [local instance] Sample.blake3

/-- The last of two chunks differs, and is asked for. -/
theorem transfer_delta_sample :
    ∃ written,
      transfer { chunkSize := 2 } { chunkSize := 2 } [1, 2, 7] [1] [1, 2, 3] = some written ∧
        transfer { chunkSize := 2 } { chunkSize := 2 } [1, 2, 7]
          (advertised { chunkSize := 2 } [1, 2, 7]) [1, 2, 3] = some written :=
  transfer_delta (by decide) rfl ⟨by decide, by decide, by decide⟩
    ⟨by decide, by decide, by decide⟩ (by decide +kernel) (by decide +kernel)

/-- The end of a longer old file stays behind a shorter new content. -/
theorem not_reproduces :
    Fetches (Sample.ctx .one) {} { chunkSize := 2 } (Sample.folder [7])
        (Sample.peer .one [1, 2, 3]) Sample.safe [7] ∧
      (Sample.fetchAll 2 [7] [1, 2, 3]).2 = .synced ∧
        (Sample.fetchAll 2 [7] [1, 2, 3]).1.disk.read Sample.path = some [7, 2, 3] ∧
          ¬ Reproduces Sample.safe [7] 2 (Sample.fetchAll 2 [7] [1, 2, 3]).1 := by
  refine ⟨⟨by decide, ⟨by decide, by decide, by decide⟩, ⟨by decide, by decide, by decide⟩, rfl,
    rfl, rfl, by decide⟩, ?_⟩
  have stored : (Sample.fetchAll 2 [7] [1, 2, 3]).2 = .synced ∧
      (Sample.fetchAll 2 [7] [1, 2, 3]).1.disk.read Sample.path = some [7, 2, 3] := by
    decide +kernel
  refine ⟨stored.1, stored.2, fun same => ?_⟩
  exact absurd (stored.2.symm.trans same.1) (by decide)

/-- Two full chunks and a short one take the place of a shorter old file. -/
theorem reproduces_iff_sample :
    Reproduces Sample.safe [7, 8, 9, 4, 5] 2 (Sample.fetchAll 2 [7, 8, 9, 4, 5] [1, 2, 3]).1 := by
  have fetches : Fetches (Sample.ctx .one) {} { chunkSize := 2 } (Sample.folder [7, 8, 9, 4, 5])
      (Sample.peer .one [1, 2, 3]) Sample.safe [7, 8, 9, 4, 5] :=
    ⟨by decide, ⟨by decide, by decide, by decide⟩, ⟨by decide, by decide, by decide⟩, rfl, rfl, rfl,
      by decide⟩
  have free : ¬ Merkle.Blocked (Merkle.pathNames Sample.safe.rel)
      (Sample.peer .one [1, 2, 3]).index.tree := by
    intro blocked
    obtain ⟨child, _, below⟩ := Merkle.Blocked.child blocked
    exact Merkle.not_blocked_nil below
  exact (reproduces_iff fetches rfl ⟨_, rfl⟩ fun _ listed => listed).mpr ⟨by decide +kernel, free⟩

/-- Two bytes, each a chunk of its sender, are laid apart by the receiver. -/
theorem not_arrives :
    Fetches (Sample.ctx .one) {} { chunkSize := 1 } (.dir [(.utf8 ['g'], .file [1, 2])])
        (Sample.peer .one []) Sample.fresh [1, 2] ∧
      (Sample.peer .one []).disk.read Sample.fresh.rel = none ∧
        (Sample.fetchFresh 1 [1, 2]).2 = .synced ∧
          (Sample.fetchFresh 1 [1, 2]).1.disk.read Sample.fresh.rel = some [1, 0, 2] :=
  ⟨⟨by decide, ⟨by decide, by decide, by decide⟩, ⟨by decide, by decide, by decide⟩, rfl, rfl, rfl,
    by decide⟩, by decide +kernel⟩

/-- Two full chunks and a short one arrive with the receiver's chunk size, and are laid apart with
another one. -/
theorem arrives_iff_sample :
    (Sample.fetchFresh 2 [7, 8, 9, 4, 5]).1.disk.read Sample.fresh.rel = some [7, 8, 9, 4, 5] ∧
      (Sample.fetchFresh 4 [7, 8, 9, 4, 5]).1.disk.read Sample.fresh.rel ≠
        some [7, 8, 9, 4, 5] := by
  have same : Fetches (Sample.ctx .one) {} { chunkSize := 2 }
      (.dir [(.utf8 ['g'], .file [7, 8, 9, 4, 5])]) (Sample.peer .one []) Sample.fresh
        [7, 8, 9, 4, 5] :=
    ⟨by decide, ⟨by decide, by decide, by decide⟩, ⟨by decide, by decide, by decide⟩, rfl, rfl, rfl,
      by decide⟩
  have other : Fetches (Sample.ctx .one) {} { chunkSize := 4 }
      (.dir [(.utf8 ['g'], .file [7, 8, 9, 4, 5])]) (Sample.peer .one []) Sample.fresh
        [7, 8, 9, 4, 5] :=
    ⟨by decide, ⟨by decide, by decide, by decide⟩, ⟨by decide, by decide, by decide⟩, rfl, rfl, rfl,
      by decide⟩
  exact ⟨(arrives_iff same rfl).mpr (Or.inl rfl), mt (arrives_iff other rfl).mp (by decide)⟩

end Peer

end P2Sync
