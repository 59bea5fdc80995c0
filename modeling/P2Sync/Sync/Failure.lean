import P2Sync.Net.Fetch

/-!
# Fetches that fail

A fetch that fails leaves the index alone. It also leaves the files alone, with one
exception: `std::fs::write` empties the file before it writes, and may fail in the middle.
What the file holds then is the beginning of the new content.

So a failed fetch leaves everything as it was exactly when no write is broken off, or the
one that is has put back just the bytes that were there (`failed_frame_iff`).
-/

set_option autoImplicit false

namespace P2Sync

namespace Peer

variable {ι : Type} [Blake3] (ctx : Ctx ι) (device : Device)
  (ask : SyncRequest → Option SyncResponse) (raw : Str) (chunkIndices : List Nat) (peer : Peer ι)

/-- The index and the bytes of every file are as before. -/
def SameFiles (before after : Peer ι) : Prop :=
  after.index = before.index ∧ ∀ query, after.disk.read query = before.disk.read query

/-- The first bytes of the content that an answer makes of a buffer are those of the old
file: as many of them, and where a chunk covers one, the last such chunk has it too. -/
def PutsBack (storage : StorageConfig) (chunks : List (Nat × Bytes)) (buffer old : Bytes)
    (stored : Nat) : Prop :=
  old.length = min stored (max buffer.length (Overlay.reach (keptPieces storage chunks))) ∧
    ∀ position < old.length, old.getD position 0 =
      (Overlay.cover position (keptPieces storage chunks)).getD (buffer.getD position 0)

/-- When a write is broken off that had got to the file, the bytes stored until then are
those of the old file. -/
def BreaksOffWell : Prop :=
  ∀ (path : SafePath) (echoed : Str) (chunks : List (Nat × Bytes)) (stored : Nat),
    path.raw = raw → peer.index.isExcluded path.rel = false →
      ask (.getChunks path.raw chunkIndices) = some (.chunks echoed chunks) →
        (∀ piece ∈ keptPieces ctx.storage chunks,
          piece.1 + piece.2.length ≤ ctx.storage.maxFileSize) →
          device.writes = .interrupted stored →
            ((peer.makeParents device path.rel).write path.rel []).isSome = true →
              ∃ old, peer.disk.read path.rel = some old ∧
                PutsBack ctx.storage chunks (peer.oldData device path.rel) old stored

variable {ctx device ask raw chunkIndices peer} {path : SafePath} {origin : RemoteOrigin}
  {chunks : List (Nat × Bytes)} {data : Bytes}

omit [Blake3] in
/-- Making parent folders changes no file. -/
theorem read_makeParents (device : Device) (path query : RelPath) :
    (peer.makeParents device path).read query = peer.disk.read query := by
  rw [makeParents]
  split
  · cases created : peer.disk.createDirAll path.dropLast with
    | none => rfl
    | some disk => exact Disk.read_createDirAll created query
  · rfl

omit [Blake3] in
/-- A failed write leaves every file as it was, unless it was broken off and the bytes it
had stored are not those of the file. -/
theorem read_failedWrite_iff {path : RelPath} {disk : Disk}
    (failed : device.writes.write path data (peer.makeParents device path) = (false, disk)) :
    (∀ query, disk.read query = peer.disk.read query) ↔
      ∀ stored, device.writes = .interrupted stored →
        ((peer.makeParents device path).write path []).isSome = true →
          peer.disk.read path = some (data.take stored) := by
  have same : disk = (device.writes.write path data (peer.makeParents device path)).2 := by
    rw [failed]
  have own : (∀ query, disk.read query = peer.disk.read query) ↔
      disk.read path = peer.disk.read path := by
    refine ⟨fun files => files path, fun own query => ?_⟩
    by_cases here : query = path
    · rw [here, own]
    · rw [same, Outcome.read_write_of_ne here, read_makeParents]
  rw [own, same, ← read_makeParents device path path, Outcome.read_write_eq_iff,
    read_makeParents]
  constructor
  · intro kept stored interrupted opened
    refine kept _ (by rw [interrupted]; rfl) ?_
    rwa [Disk.write_isSome path _ []]
  · intro kept content stored opened
    cases outcome : device.writes with
    | succeeds =>
        -- A write that succeeds on the device fails only where it does not get to the file.
        rw [Disk.write_isSome path content data] at opened
        obtain ⟨after, written⟩ := Option.isSome_iff_exists.mp opened
        have succeeded := Outcome.write_succeeds_iff.mpr ⟨outcome, written⟩
        exact absurd (congrArg Prod.fst (failed.symm.trans succeeded)) Bool.false_ne_true
    | refused =>
        rw [outcome] at stored
        exact absurd stored (Option.some_ne_none content).symm
    | interrupted count =>
        rw [outcome] at stored
        obtain rfl := Option.some.inj stored
        rw [Disk.write_isSome path _ []] at opened
        exact kept count outcome opened

omit [Blake3] in
/-- The condition, for a fetch that gets chunks. -/
theorem breaksOffWell_iff {echoed : Str} (included : peer.index.isExcluded path.rel = false)
    (answered : ask (.getChunks path.raw chunkIndices) = some (.chunks echoed chunks)) :
    BreaksOffWell ctx device ask path.raw chunkIndices peer ↔
      ((∀ piece ∈ keptPieces ctx.storage chunks,
        piece.1 + piece.2.length ≤ ctx.storage.maxFileSize) →
        ∀ stored, device.writes = .interrupted stored →
          ((peer.makeParents device path.rel).write path.rel []).isSome = true →
            ∃ old, peer.disk.read path.rel = some old ∧
              PutsBack ctx.storage chunks (peer.oldData device path.rel) old stored) := by
  constructor
  · intro well small stored interrupted opened
    exact well path echoed chunks stored rfl included answered small interrupted opened
  · intro well other echoed' chunks' stored named included' answered' small interrupted opened
    obtain rfl := SafePath.eq_of_raw named
    obtain ⟨-, rfl⟩ := SyncResponse.chunks.inj (Option.some.inj (answered.symm.trans answered'))
    exact well small stored interrupted opened

omit [Blake3] in
/-- The bytes an interrupted write has stored are those of the old file. -/
theorem putsBack_iff {storage : StorageConfig} {buffer : Bytes} {stored : Nat} {old : Option Bytes}
    (assembled : applyChunks storage chunks buffer = some data) :
    old = some (data.take stored) ↔
      ∃ content, old = some content ∧ PutsBack storage chunks buffer content stored := by
  rw [← (applyChunks_eq_some_iff.mp assembled).2]
  constructor
  · intro same
    exact ⟨_, same, Overlay.take_spliceAll_eq_iff.mp rfl⟩
  · rintro ⟨content, rfl, back⟩
    rw [Overlay.take_spliceAll_eq_iff.mpr back]

/-- A fetch that fails with the chunks at hand. -/
theorem sameFiles_applyFetched_iff
    (failed : (peer.applyFetched ctx device chunks path origin).2 ≠ .synced) :
    SameFiles peer (peer.applyFetched ctx device chunks path origin).1 ↔
      ((∀ piece ∈ keptPieces ctx.storage chunks,
        piece.1 + piece.2.length ≤ ctx.storage.maxFileSize) →
        ∀ stored, device.writes = .interrupted stored →
          ((peer.makeParents device path.rel).write path.rel []).isSome = true →
            ∃ old, peer.disk.read path.rel = some old ∧
              PutsBack ctx.storage chunks (peer.oldData device path.rel) old stored) := by
  rcases applyFetched_cases ctx device peer chunks path origin with
    ⟨refused, result⟩ | ⟨data, disk, assembled, ⟨-, result⟩ | ⟨written, result⟩⟩
  · rw [result]
    refine iff_of_true ⟨rfl, fun _ => rfl⟩ fun small => ?_
    have applied : applyChunks ctx.storage chunks (peer.oldData device path.rel) = some _ :=
      applyChunks_eq_some_iff.mpr ⟨small, rfl⟩
    exact absurd (refused.symm.trans applied) (Option.some_ne_none _).symm
  · rw [result] at failed
    exact absurd rfl failed
  · rw [result]
    have small := (applyChunks_eq_some_iff.mp assembled).1
    have files : SameFiles peer { peer.markWrite path.rel with disk := disk } ↔
        ∀ query, disk.read query = peer.disk.read query := and_iff_right rfl
    rw [files, read_failedWrite_iff written]
    simp only [putsBack_iff assembled]
    exact ⟨fun kept _ => kept, fun kept => kept small⟩

/-- **A failed fetch leaves index and files as they were** exactly when no write is broken
off, or the bytes stored until then are those of the old file. -/
theorem failed_frame_iff
    (failed : (peer.fetchAndApply ctx device ask raw chunkIndices origin).2 ≠ .synced) :
    SameFiles peer (peer.fetchAndApply ctx device ask raw chunkIndices origin).1 ↔
      BreaksOffWell ctx device ask raw chunkIndices peer := by
  by_cases answered : ∃ (path : SafePath) (echoed : Str) (chunks : List (Nat × Bytes)),
      path.raw = raw ∧ peer.index.isExcluded path.rel = false ∧
        ask (.getChunks path.raw chunkIndices) = some (.chunks echoed chunks)
  · obtain ⟨path, echoed, chunks, rfl, included, answered⟩ := answered
    rw [fetchAndApply_answered included answered] at failed ⊢
    exact (sameFiles_applyFetched_iff failed).trans
      (breaksOffWell_iff included answered).symm
  · -- Without chunks nothing is written.
    rcases fetchAndApply_cases ctx device ask raw chunkIndices peer origin with
      ⟨unchanged, -⟩ | ⟨path, echoed, chunks, named, included, reply, -⟩
    · refine iff_of_true ⟨by rw [unchanged], fun query => by rw [unchanged]⟩ ?_
      intro path echoed chunks stored named included reply
      exact absurd ⟨path, echoed, chunks, named, included, reply⟩ answered
    · exact absurd ⟨path, echoed, chunks, named, included, reply⟩ answered

end Peer

/-! ## A write that is broken off -/

namespace Peer

attribute [local instance] Sample.blake3

/-- A fetch of `f` that gets one chunk, on a device that breaks the write off. -/
def brokenOff (stored : Nat) (chunk old : Bytes) : Peer Sample.Site × FetchEnd :=
  (Sample.peer .one old).fetchAndApply (Sample.ctx .one) { writes := .interrupted stored }
    (fun _ => some (.chunks ['f'] [(0, chunk)])) ['f'] [0] ⟨.new, 20, Sample.peerId 2⟩

/-- The write fails when it has just emptied the file, and the old content is gone. -/
theorem not_sameFiles_brokenOff :
    (brokenOff 0 [7] [1, 2, 3]).2 = .writeFailed ∧
      ¬ SameFiles (Sample.peer .one [1, 2, 3]) (brokenOff 0 [7] [1, 2, 3]).1 := by
  have kept : (brokenOff 0 [7] [1, 2, 3]).2 = .writeFailed ∧
      (brokenOff 0 [7] [1, 2, 3]).1.disk.read Sample.path = some [] := by decide +kernel
  refine ⟨kept.1, fun same => ?_⟩
  have files := same.2 Sample.path
  rw [kept.2] at files
  exact absurd files (by decide)

/-- The write fails when it has put back all of the old content. -/
theorem failed_frame_iff_sample :
    (brokenOff 3 [1, 2] [1, 2, 3]).2 = .writeFailed ∧
      SameFiles (Sample.peer .one [1, 2, 3]) (brokenOff 3 [1, 2] [1, 2, 3]).1 := by
  have included : (Sample.peer .one [1, 2, 3]).index.isExcluded Sample.safe.rel = false := rfl
  refine ⟨by decide +kernel, (failed_frame_iff (by decide +kernel)).mpr
    ((breaksOffWell_iff included rfl).mpr fun _ stored cut _ => ?_)⟩
  obtain rfl := Outcome.interrupted.inj cut
  refine ⟨[1, 2, 3], rfl, rfl, ?_⟩
  decide +kernel

end Peer

end P2Sync
