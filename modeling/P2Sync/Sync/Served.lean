import P2Sync.Net.Start
import Mathlib.Data.List.Perm.Subperm

/-!
# The size of an answer

A request for chunks is answered slice by slice, each index as often as it is asked for. The
answer holds every slice once, and no more bytes than the file, exactly when no index that is
served is asked for twice (`servedOnce_iff`). Two bytes of a request, an index repeated, are
answered by the slice repeated (`exists_served_twice`).
-/

set_option autoImplicit false

namespace P2Sync

/-- An answer holds each chunk once, and no more bytes than the file. -/
structure ServedOnce (data : Bytes) (chunks : List (Nat × Bytes)) : Prop where
  once : (chunks.map Prod.fst).Nodup
  bounded : (chunks.flatMap Prod.snd).length ≤ data.length

section Served

variable [Blake3] {storage : StorageConfig} {data : Bytes} {chunkIndices : List Nat}

/-- The requested indices that are served. -/
theorem map_fst_serveChunks (positive : 0 < storage.chunkSize) :
    (serveChunks storage data chunkIndices).map Prod.fst =
      chunkIndices.filter fun index =>
        index < storage.maxChunkIndex ∧ index * storage.chunkSize < data.length := by
  rw [serveChunks_eq positive, List.map_map]
  exact List.map_id _

/-- **Slices at distinct indices** are no longer than the file together. -/
theorem length_serveChunks_le (positive : 0 < storage.chunkSize)
    (once : ((serveChunks storage data chunkIndices).map Prod.fst).Nodup) :
    ((serveChunks storage data chunkIndices).flatMap Prod.snd).length ≤ data.length := by
  have inside : (serveChunks storage data chunkIndices).map Prod.fst ⊆
      List.range ((data.length + storage.chunkSize - 1) / storage.chunkSize) := by
    intro index member
    rw [map_fst_serveChunks positive, List.mem_filter] at member
    have within := (of_decide_eq_true member.2).2
    exact List.mem_range.mpr ((Chunk.lt_slices_iff positive).mpr within)
  obtain ⟨listed, order, sublist⟩ := once.subperm inside
  calc ((serveChunks storage data chunkIndices).flatMap Prod.snd).length
      = (((serveChunks storage data chunkIndices).map Prod.fst).flatMap fun index =>
          (data.drop (index * storage.chunkSize)).take storage.chunkSize).length := by
        rw [map_fst_serveChunks positive, serveChunks_eq positive, List.flatMap_map]
    _ = (listed.flatMap fun index =>
          (data.drop (index * storage.chunkSize)).take storage.chunkSize).length :=
        (order.flatMap_right _).length_eq.symm
    _ ≤ (Chunk.slices data storage.chunkSize).flatten.length := by
        rw [Chunk.slices, ← List.flatMap_def]
        exact (sublist.flatMap _).length_le
    _ = data.length := by rw [Chunk.flatten_slices positive]

/-- **Exactly when an answer holds each chunk once.** -/
theorem servedOnce_iff (positive : 0 < storage.chunkSize) (index : SyncIndex) {disk : Disk}
    {path : SafePath} (there : readAccepted disk path = some data) (chunkIndices : List Nat) :
    (∃ chunks, handleInboundRequest storage index disk none (.getChunks path.raw chunkIndices) =
        .chunks path.raw chunks ∧ ServedOnce data chunks) ↔
      (chunkIndices.filter fun index =>
        index < storage.maxChunkIndex ∧ index * storage.chunkSize < data.length).Nodup := by
  have answer : handleInboundRequest storage index disk none (.getChunks path.raw chunkIndices) =
      .chunks path.raw (serveChunks storage data chunkIndices) := by
    simp only [handleInboundRequest, SafePath.of?_raw, there]
  rw [answer, ← map_fst_serveChunks positive]
  constructor
  · rintro ⟨chunks, same, served⟩
    cases same
    exact served.once
  · exact fun once => ⟨_, rfl, once, length_serveChunks_le positive once⟩

end Served

/-! ## A repeated index -/

namespace Sample

attribute [local instance] blake3

/-- A file of one byte is served twice. -/
theorem exists_served_twice :
    ∃ chunks, handleInboundRequest (ctx .one).storage (index .one [7]) (folder [7]) none
        (.getChunks safe.raw [0, 0]) = .chunks safe.raw chunks ∧ ¬ ServedOnce [7] chunks :=
  ⟨[(0, [7]), (0, [7])], rfl, fun served => absurd served.bounded (by decide)⟩

/-- Slices asked for once each, in any order and with one that is not there. -/
theorem servedOnce_iff_sample :
    ∃ chunks, handleInboundRequest (ctx .one).storage (index .one [7, 8, 9]) (folder [7, 8, 9]) none
        (.getChunks safe.raw [1, 5, 0, 5]) = .chunks safe.raw chunks ∧
          ServedOnce [7, 8, 9] chunks := by
  have there : readAccepted (folder [7, 8, 9]) safe = some [7, 8, 9] := rfl
  exact (servedOnce_iff Nat.zero_lt_two (index .one [7, 8, 9]) there [1, 5, 0, 5]).mpr
    (by decide)

end Sample

end P2Sync
