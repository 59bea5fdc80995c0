import P2Sync.Net.Protocol

/-!
# The engine's calculations

What the engine computes between taking and releasing its locks: the guards against
echoed events, the answer to a request, the chunks put together into a file, and the
list of files a reconciliation walks.

The chunks of an answer are written over the old content in order; a chunk whose index
is out of bounds is dropped, and one that would pass the size limit stops the fetch
(`applyChunks_eq_some_iff`). Answered in full, the chunks give the served file and what the
old content has past its end (`spliceAll_serveChunks`).
-/

set_option autoImplicit false

namespace P2Sync

/-! ## Event guards -/

/-- Time-based guard to suppress duplicate events for the same path. -/
abbrev EventGuard := HashMap RelPath Nat

namespace EventGuard

/-- Remember that a path was touched at an instant. -/
def mark (guard : EventGuard) (path : RelPath) (instant : Nat) : EventGuard :=
  guard.insert path instant

/-- Whether a path was touched within the window; a mark out of it is forgotten. -/
def isSuppressed (guard : EventGuard) (path : RelPath) (instant ttl : Nat) : Bool × EventGuard :=
  match guard.lookup path with
  | some writtenAt => if instant - writtenAt < ttl then (true, guard) else (false, guard.erase path)
  | none => (false, guard)

section

variable {guard : EventGuard} {path query : RelPath} {instant ttl : Nat}

theorem isSuppressed_empty (path : RelPath) (instant ttl : Nat) :
    isSuppressed ∅ path instant ttl = (false, ∅) := by
  rw [isSuppressed, Finmap.lookup_empty]

theorem isSuppressed_iff :
    (guard.isSuppressed path instant ttl).1 = true ↔
      ∃ writtenAt, guard.lookup path = some writtenAt ∧ instant - writtenAt < ttl := by
  rw [isSuppressed]
  cases guard.lookup path with
  | none => simp
  | some writtenAt => by_cases recent : instant - writtenAt < ttl <;> simp [recent]

/-- A guard that suppresses an event is left as it is. -/
theorem guard_of_isSuppressed (suppressed : (guard.isSuppressed path instant ttl).1 = true) :
    (guard.isSuppressed path instant ttl).2 = guard := by
  obtain ⟨writtenAt, found, recent⟩ := isSuppressed_iff.mp suppressed
  rw [isSuppressed, found]
  dsimp only
  rw [if_pos recent]

/-- A check forgets no mark but the one of its path. -/
theorem lookup_isSuppressed_of_ne (apart : query ≠ path) :
    (guard.isSuppressed path instant ttl).2.lookup query = guard.lookup query := by
  rw [isSuppressed]
  split
  · split
    · rfl
    · exact Finmap.lookup_erase_ne apart
  · rfl

/-- A check forgets a mark only when it is out of the window. -/
theorem lookup_isSuppressed :
    (guard.isSuppressed path instant ttl).2.lookup query = guard.lookup query ∨
      (guard.isSuppressed path instant ttl).2.lookup query = none ∧
        ∀ writtenAt, guard.lookup query = some writtenAt → ttl ≤ instant - writtenAt := by
  by_cases same : query = path
  · subst same
    rw [isSuppressed]
    cases found : guard.lookup query with
    | none => exact Or.inl found
    | some writtenAt =>
        by_cases recent : instant - writtenAt < ttl
        · dsimp only
          rw [if_pos recent]
          exact Or.inl found
        · dsimp only
          rw [if_neg recent]
          refine Or.inr ⟨Finmap.lookup_erase _ _, fun other found => ?_⟩
          cases found
          exact Nat.le_of_not_lt recent
  · exact Or.inl (lookup_isSuppressed_of_ne same)

theorem lookup_mark :
    (guard.mark path instant).lookup query =
      if query = path then some instant else guard.lookup query := by
  rw [mark]
  split
  · rename_i same
    rw [same, Finmap.lookup_insert]
  · rename_i apart
    rw [Finmap.lookup_insert_of_ne _ apart]

end

end EventGuard

/-! ## Answers -/

section Answers

variable [Blake3] (storage : StorageConfig)

/-- The requested slices of a file, those that it has. -/
def serveChunks (data : Bytes) (chunkIndices : List Nat) : List (Nat × Bytes) :=
  (chunkIndices.filter (· < storage.maxChunkIndex)).filterMap fun index =>
    (Chunk.split data storage.chunkSize).2[index]?.map fun chunk => (index, chunk.data)

/-- `std::fs::read` at an accepted path. One that ends in a slash or a dot names a directory, and
a directory cannot be read. -/
def readAccepted (disk : Disk) (path : SafePath) : Option Bytes :=
  if path.namesDirectory then none else disk.read path.rel

omit [Blake3] in
theorem readAccepted_eq_some_iff {disk : Disk} {path : SafePath} {data : Bytes} :
    readAccepted disk path = some data ↔
      path.namesDirectory = false ∧ disk.read path.rel = some data := by
  rw [readAccepted]
  cases path.namesDirectory <;> simp

/-- `handle_inbound_request`; `failure` is the error of a device that cannot read. -/
def handleInboundRequest (index : SyncIndex) (disk : Disk) (failure : Option String) :
    SyncRequest → SyncResponse
  | .getRootHash => .rootHash index.tree.hash
  | .getTree => .tree index.tree
  | .getSubtree path => .subtree path (Merkle.findNames (normalTexts path) index.tree)
  | .getChunks path chunkIndices =>
      match SafePath.of? path with
      | some safe =>
          match failure, readAccepted disk safe with
          | none, some data => .chunks path (serveChunks storage data chunkIndices)
          | none, none => .error "read error: not a file"
          | some message, _ => .error ("read error: " ++ message)
      | none => .error "invalid path"
  | .getFileMeta path =>
      let fileMeta := (safeRel path).bind fun rel => index.fileMeta.lookup rel
      .fileMeta path (fileMeta.map FileMeta.clock) ((fileMeta.map FileMeta.lastModified).getD 0)

/-- Chunks are answered from the file at the path, when it can be read. -/
theorem handleInboundRequest_chunks {storage : StorageConfig} {index : SyncIndex} {disk : Disk}
    {failure : Option String} {path : SafePath} {raw : Str} {chunkIndices : List Nat}
    {chunks : List (Nat × Bytes)}
    (answer : handleInboundRequest storage index disk failure (.getChunks path.raw chunkIndices) =
      .chunks raw chunks) :
    failure = none ∧ ∃ data, disk.read path.rel = some data ∧
      chunks = serveChunks storage data chunkIndices := by
  rw [handleInboundRequest, SafePath.of?_raw] at answer
  cases failure with
  | some message => cases answer
  | none =>
      cases found : readAccepted disk path with
      | none => simp [found] at answer
      | some data =>
          simp only [found, SyncResponse.chunks.injEq] at answer
          exact ⟨rfl, data, (readAccepted_eq_some_iff.mp found).2, answer.2.symm⟩

end Answers

/-! ## Putting a file together -/

/-- The loop of `fetch_and_apply` over the chunks of an answer, on a 64-bit machine;
`none` is its early return. -/
def applyChunks (storage : StorageConfig) : List (Nat × Bytes) → Bytes → Option Bytes
  | [], fileData => some fileData
  | (chunkIdx, data) :: rest, fileData =>
      let offset := chunkIdx * storage.chunkSize
      let requiredLen := offset + data.length
      if storage.maxChunkIndex ≤ chunkIdx then applyChunks storage rest fileData
      else if 2 ^ 64 ≤ offset then applyChunks storage rest fileData
      else if 2 ^ 64 ≤ requiredLen then applyChunks storage rest fileData
      else if storage.maxFileSize < requiredLen then none
      else applyChunks storage rest (Overlay.splice 0 fileData offset data)

/-- The chunks that the loop writes, with their offsets. -/
def keptPieces (storage : StorageConfig) (chunks : List (Nat × Bytes)) : List (Nat × Bytes) :=
  (chunks.filter fun chunk =>
    chunk.1 < storage.maxChunkIndex ∧
      chunk.1 * storage.chunkSize + chunk.2.length < 2 ^ 64).map fun chunk =>
        (chunk.1 * storage.chunkSize, chunk.2)

/-- **The loop writes the kept chunks in order**, unless one of them ends past the size
limit. -/
theorem applyChunks_eq_some_iff {storage : StorageConfig} {chunks : List (Nat × Bytes)}
    {old data : Bytes} :
    applyChunks storage chunks old = some data ↔
      (∀ piece ∈ keptPieces storage chunks, piece.1 + piece.2.length ≤ storage.maxFileSize) ∧
        Overlay.spliceAll 0 old (keptPieces storage chunks) = data := by
  induction chunks generalizing old with
  | nil => simp [applyChunks, keptPieces]
  | cons chunk rest ih =>
      obtain ⟨chunkIdx, bytes⟩ := chunk
      by_cases kept : chunkIdx < storage.maxChunkIndex ∧
          chunkIdx * storage.chunkSize + bytes.length < 2 ^ 64
      · have pieces : keptPieces storage ((chunkIdx, bytes) :: rest) =
            (chunkIdx * storage.chunkSize, bytes) :: keptPieces storage rest := by
          rw [keptPieces, List.filter_cons_of_pos (by simpa using kept)]
          rfl
        rw [applyChunks, if_neg (by omega), if_neg (by omega), if_neg (by omega), pieces,
          Overlay.spliceAll_cons]
        by_cases large : storage.maxFileSize < chunkIdx * storage.chunkSize + bytes.length
        · rw [if_pos large]
          simp only [reduceCtorEq, List.forall_mem_cons, false_iff]
          exact fun small => absurd small.1.1 (by omega)
        · rw [if_neg large, ih, List.forall_mem_cons]
          simp only [Nat.le_of_not_lt large, true_and]
      · have dropped : keptPieces storage ((chunkIdx, bytes) :: rest) =
            keptPieces storage rest := by
          rw [keptPieces, List.filter_cons_of_neg (by simpa using kept)]
          rfl
        have skipped : applyChunks storage ((chunkIdx, bytes) :: rest) old =
            applyChunks storage rest old := by
          rw [applyChunks]
          split_ifs with index offset length
          · rfl
          · rfl
          · rfl
          · exact absurd ⟨by omega, by omega⟩ kept
          · exact absurd ⟨by omega, by omega⟩ kept
        rw [skipped, dropped, ih]

section Served

variable [Blake3] {sender receiver : StorageConfig} {data : Bytes} {chunkIndices : List Nat}

/-- What a slice requested by its index is served as. -/
theorem serveChunks_eq (positive : 0 < sender.chunkSize) :
    serveChunks sender data chunkIndices =
      (chunkIndices.filter fun index =>
        index < sender.maxChunkIndex ∧ index * sender.chunkSize < data.length).map fun index =>
          (index, (data.drop (index * sender.chunkSize)).take sender.chunkSize) := by
  have slice : ∀ index, (Chunk.split data sender.chunkSize).2[index]?.map
      (fun chunk => (index, chunk.data)) =
        if index * sender.chunkSize < data.length then
          some (index, (data.drop (index * sender.chunkSize)).take sender.chunkSize)
        else none := by
    intro index
    rw [Chunk.split, List.getElem?_map, Chunk.slices_getElem?]
    by_cases inside : index * sender.chunkSize < data.length
    · rw [if_pos ((Chunk.lt_slices_iff positive).mpr inside), if_pos inside]
      rfl
    · rw [if_neg (mt (Chunk.lt_slices_iff positive).mp inside), if_neg inside]
      rfl
  rw [serveChunks]
  induction chunkIndices with
  | nil => rfl
  | cons index rest ih =>
      by_cases bounded : index < sender.maxChunkIndex
      · rw [List.filter_cons_of_pos (by simpa using bounded), List.filterMap_cons, slice]
        by_cases inside : index * sender.chunkSize < data.length
        · rw [if_pos inside, List.filter_cons_of_pos (by simp [bounded, inside]), ih]
          rfl
        · rw [if_neg inside, List.filter_cons_of_neg (by simp [inside]), ih]
      · rw [List.filter_cons_of_neg (by simpa using bounded),
          List.filter_cons_of_neg (by simp [bounded]), ih]

/-- The receiver keeps the served slices whose index it allows. -/
theorem keptPieces_serveChunks (positive : 0 < sender.chunkSize)
    (sameSize : sender.chunkSize = receiver.chunkSize) (small : data.length < 2 ^ 64) :
    keptPieces receiver (serveChunks sender data chunkIndices) =
      Chunk.pieces data sender.chunkSize (chunkIndices.filter fun index =>
        (index < sender.maxChunkIndex ∧ index * sender.chunkSize < data.length) ∧
          index < receiver.maxChunkIndex) := by
  have kept : ∀ index, index < sender.maxChunkIndex ∧ index * sender.chunkSize < data.length →
      (index < receiver.maxChunkIndex ∧ index * receiver.chunkSize +
        ((data.drop (index * sender.chunkSize)).take sender.chunkSize).length < 2 ^ 64 ↔
          index < receiver.maxChunkIndex) := by
    intro index served
    rw [List.length_take, List.length_drop, ← sameSize]
    exact and_iff_left (by omega)
  rw [serveChunks_eq positive, keptPieces, Chunk.pieces]
  induction chunkIndices with
  | nil => rfl
  | cons index rest ih =>
      by_cases served : index < sender.maxChunkIndex ∧ index * sender.chunkSize < data.length
      · rw [List.filter_cons_of_pos (by simpa using served), List.map_cons]
        by_cases allowed : index < receiver.maxChunkIndex
        · rw [List.filter_cons_of_pos (by simpa using (kept index served).mpr allowed),
            List.filter_cons_of_pos (by simp [served, allowed]), List.map_cons, ih, sameSize,
            List.map_cons]
        · rw [List.filter_cons_of_neg (by simpa using mt (kept index served).mp allowed),
            List.filter_cons_of_neg (by simp [allowed]), ih]
      · rw [List.filter_cons_of_neg (by simpa using served),
          List.filter_cons_of_neg (by simp [served]), ih]

/-- **A complete answer over an old content** gives the served file, followed by what the
old content holds past its end. -/
theorem spliceAll_serveChunks (positive : 0 < sender.chunkSize)
    (sameSize : sender.chunkSize = receiver.chunkSize) (small : data.length < 2 ^ 64)
    (complete : ∀ index, index * sender.chunkSize < data.length →
      index ∈ chunkIndices ∧ index < sender.maxChunkIndex ∧ index < receiver.maxChunkIndex)
    (old : Bytes) :
    Overlay.spliceAll 0 old (keptPieces receiver (serveChunks sender data chunkIndices)) =
      data ++ old.drop data.length := by
  rw [keptPieces_serveChunks positive sameSize small]
  refine Chunk.spliceAll_pieces positive (fun index member => ?_) fun index inside => ?_
  · obtain ⟨_, served⟩ := List.mem_filter.mp member
    exact (of_decide_eq_true served).1.2
  · obtain ⟨requested, bySender, byReceiver⟩ := complete index inside
    exact List.mem_filter.mpr ⟨requested, decide_eq_true ⟨⟨bySender, inside⟩, byReceiver⟩⟩

end Served

/-! ## The walk of a reconciliation -/

/-- One step of the loop of `reconcile`: fetch a file of so many chunks from the peer, or
add to the number of files synced. -/
inductive Walk (ι : Type) where
  | fetchFile (peer : ι) (path : Str) (chunkCount : Nat)
  | counted (files : Nat)
deriving DecidableEq

section Walk

variable {ι : Type} (peer : ι)

mutual

/-- The files `fetch_node_recursive` visits. -/
def fetchNodeRecursive (basePath : Str) : Node → List (Walk ι)
  | .file _ _ chunks => [.fetchFile peer basePath chunks.length]
  | .directory _ children => fetchChildren basePath children

/-- The loop of `fetch_node_recursive` over the children of a directory. -/
def fetchChildren (basePath : Str) : List (Str × Node) → List (Walk ι)
  | [] => []
  | (name, child) :: rest =>
      fetchNodeRecursive (pathJoin basePath name) child ++ fetchChildren basePath rest

end

mutual

/-- `count_files`. -/
def countFiles : Node → Nat
  | .file _ _ _ => 1
  | .directory _ children => countChildren children

/-- The sum of `count_files` over the children of a directory. -/
def countChildren : List (Str × Node) → Nat
  | [] => 0
  | (_, child) :: rest => countFiles child + countChildren rest

end

/-- What `reconcile` does for one difference. -/
def walkEntry (noPull : Bool) : Merkle.DiffEntry → List (Walk ι)
  | .added path node =>
      if noPull then []
      else fetchNodeRecursive peer path node ++ [.counted (countFiles node)]
  | .removed _ _ => []
  | .modified path _ node =>
      if noPull then []
      else fetchNodeRecursive peer path node ++ [.counted (countFiles node)]

/-- The loop of `reconcile` over the differences. -/
def walkDiff (noPull : Bool) (localTree remoteTree : Node) : List (Walk ι) :=
  (Merkle.diff localTree remoteTree).flatMap (walkEntry peer noPull)

end Walk

end P2Sync
