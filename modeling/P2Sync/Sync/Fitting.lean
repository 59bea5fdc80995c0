import P2Sync.Net.Wire
import P2Sync.Sync.Transfer
import Mathlib.Algebra.Order.BigOperators.Group.List
import Mathlib.Algebra.Order.Group.Nat

/-!
# Which files fit the transport

A changed file is announced in one notification with the metadata of every chunk, asked for
in one request with every index, and answered in one response with every byte, a number
each. The bounds of the three messages are set, or left, in three places, and none of them
is derived from the size of a file or the number of chunks that a peer accepts.

How many bytes each message takes is a function of the path, the content, the chunk size
and the hashes (`requestSize`, `answerSize`, `announcementSize`), so a file fits exactly when
three inequalities hold (`fits_iff`). A file that fits is not longer than the bound of the
response (`Fits.length_le`) and has at most 628 chunks (`Fits.count_le`), whatever the
configuration says about files.
-/

set_option autoImplicit false

namespace P2Sync

open Encoding

section

variable [Blake3] {ι : Type}

/-! ## The three messages -/

/-- The notification that a peer publishes for the content of a touched file. -/
def announcement (storage : StorageConfig) (path : Str) (content : Bytes) (clock : VectorClock)
    (timestamp : Nat) (peer : PeerId) : SyncNotification :=
  .fileChanged path (Chunk.fileHash (Chunk.metadata content storage.chunkSize))
    (Chunk.metadata content storage.chunkSize) clock timestamp peer

/-- `handle_fs_event` publishes an announcement of what it reads last. -/
theorem announcement_of_handleTouched {ctx : Ctx ι} {peer : Peer ι} {reads : FsReads}
    {path : RelPath} {notification : SyncNotification}
    (published : (peer.handleTouched ctx reads path).2 = some notification) :
    ∃ raw content, path.toWire = some raw ∧ reads.second = some content ∧
      notification = announcement ctx.storage raw content
        ((peer.index.clockOf path).tick peer.index.localPeer) peer.now ctx.localId := by
  rcases @Peer.handleTouched_cases ι _ ctx peer reads path with
    ⟨_, watch, quiet⟩ | ⟨_, watch, data, announced, touched, _, described⟩
  · rw [quiet] at published
    exact absurd published (Option.some_ne_none notification).symm
  · rw [touched] at published
    exact described notification published

/-- The request for every chunk that was announced. -/
def wholeRequest (storage : StorageConfig) (path : Str) (content : Bytes) : SyncRequest :=
  .getChunks path (advertised storage content)

/-- What the peer that announced a content answers to it. -/
def wholeAnswer (storage : StorageConfig) (path : Str) (content : Bytes) : SyncResponse :=
  .chunks path (serveChunks storage content (advertised storage content))

theorem handleInboundRequest_wholeRequest {storage : StorageConfig} {index : SyncIndex}
    {disk : Disk} {path : SafePath} {content : Bytes}
    (found : readAccepted disk path = some content) :
    handleInboundRequest storage index disk none (wholeRequest storage path.raw content) =
      wholeAnswer storage path.raw content := by
  rw [wholeRequest, handleInboundRequest, SafePath.of?_raw, wholeAnswer]
  simp only [found]

/-! ## Their sizes -/

/-- The number of chunks of a content. -/
def chunkCount (content : Bytes) (chunkSize : Nat) : Nat :=
  (content.length + chunkSize - 1) / chunkSize

/-- How many bytes a request for so many chunks takes. -/
def requestSize (path : Str) (count : Nat) : Nat :=
  31 + cborTextSize path + headSize count + headsBelow count

/-- What the heads of the chunks of a content take. -/
def sliceHeads (length chunkSize : Nat) : Nat :=
  length / chunkSize * headSize chunkSize +
    if length % chunkSize = 0 then 0 else headSize (length % chunkSize)

/-- How many bytes an answer with a whole content takes. -/
def answerSize (path : Str) (content : Bytes) (chunkSize : Nat) : Nat :=
  21 + cborTextSize path + headSize (chunkCount content chunkSize) +
    (chunkCount content chunkSize + headsBelow (chunkCount content chunkSize) +
      sliceHeads content.length chunkSize + (content.length + wide content))

/-- How many bytes the metadata of a chunk takes, with the comma after it. -/
def chunkMetaSize (content : Bytes) (chunkSize index : Nat) : Nat :=
  36 + digits index + digits (index * chunkSize) +
    digits (min chunkSize (content.length - index * chunkSize) % 2 ^ 32) +
      jsonBytesSize (Blake3.hash ((content.drop (index * chunkSize)).take chunkSize)).val

/-- How many bytes the announcement of a content takes. -/
def announcementSize (path : Str) (content : Bytes) (chunkSize : Nat) (clock : VectorClock)
    (timestamp : Nat) (peer : PeerId) : Nat :=
  98 + jsonTextSize path +
    jsonBytesSize (Chunk.fileHash (Chunk.metadata content chunkSize)).val +
    (((List.range (chunkCount content chunkSize)).map (chunkMetaSize content chunkSize)).sum - 1) +
    ((clock.counters.entries.map fun entry => 20 + digits entry.2.toNat).sum - 1) +
    digits timestamp + jsonBytesSize peer.val

variable {storage : StorageConfig} {path : Str} {content : Bytes} {clock : VectorClock}
  {timestamp : Nat} {peer : PeerId}

theorem cborSize_wholeRequest :
    cborSize (wholeRequest storage path content).toValue =
      requestSize path (chunkCount content storage.chunkSize) := by
  rw [wholeRequest, SyncRequest.cborSize_getChunks, advertised_eq, List.length_range,
    sum_headSize_range, requestSize, chunkCount]

omit [Blake3] in
/-- The heads of all chunks. -/
theorem sum_headSize_slices {chunkSize : Nat} (positive : 0 < chunkSize) (content : Bytes) :
    (((Chunk.slices content chunkSize).map List.length).map headSize).sum =
      sliceHeads content.length chunkSize := by
  rw [Chunk.map_length_slices positive, List.map_append, List.sum_append, List.map_replicate,
    List.sum_replicate_nat, sliceHeads]
  split_ifs <;> rfl

omit [Blake3] in
/-- Everything that is served, chunk by chunk. -/
theorem sum_servedSize {chunkSize : Nat} (positive : 0 < chunkSize) :
    ((List.range (chunkCount content chunkSize)).map fun index =>
      servedSize index ((content.drop (index * chunkSize)).take chunkSize)).sum =
        chunkCount content chunkSize + headsBelow (chunkCount content chunkSize) +
          sliceHeads content.length chunkSize + (content.length + wide content) := by
  have lengths : ((Chunk.slices content chunkSize).map List.length).sum = content.length := by
    rw [← List.length_flatten, Chunk.flatten_slices positive]
  have wides : ((Chunk.slices content chunkSize).map wide).sum = wide content :=
    calc ((Chunk.slices content chunkSize).map wide).sum
        = wide (Chunk.slices content chunkSize).flatten := List.countP_flatten.symm
      _ = wide content := by rw [Chunk.flatten_slices positive]
  have heads := sum_headSize_slices positive content
  have ones : ∀ count, ((List.range count).map fun _ => 1).sum = count := by
    intro count
    rw [List.map_const', List.length_range, List.sum_replicate_nat, Nat.mul_one]
  rw [Chunk.slices, List.map_map] at lengths wides heads
  rw [List.map_map] at heads
  simp only [Function.comp_def] at lengths wides heads
  rw [chunkCount, ← heads, ← sum_headSize_range]
  simp only [servedSize, List.sum_map_add, ones, lengths, wides]

theorem cborSize_wholeAnswer (positive : 0 < storage.chunkSize)
    (within : Within storage content storage) :
    cborSize (wholeAnswer storage path content).toValue =
      answerSize path content storage.chunkSize := by
  have served : serveChunks storage content (advertised storage content) =
      (List.range (chunkCount content storage.chunkSize)).map fun index =>
        (index, (content.drop (index * storage.chunkSize)).take storage.chunkSize) := by
    rw [serveChunks_eq positive, advertised_eq, chunkCount, List.filter_eq_self.mpr]
    intro index member
    have inside := (Chunk.lt_slices_iff positive).mp (List.mem_range.mp member)
    exact decide_eq_true ⟨within.lt_maxChunkIndex positive inside, inside⟩
  rw [wholeAnswer, SyncResponse.cborSize_chunks, served, List.length_map, List.length_range,
    List.map_map, answerSize, ← sum_servedSize positive]
  rfl

theorem jsonSize_announcement :
    jsonSize (announcement storage path content clock timestamp peer).toValue =
      announcementSize path content storage.chunkSize clock timestamp peer := by
  have metas : (Chunk.metadata content storage.chunkSize).map metaSize =
      (List.range (chunkCount content storage.chunkSize)).map
        (chunkMetaSize content storage.chunkSize) := by
    refine List.ext_getElem (by
      rw [List.length_map, Chunk.length_metadata, Chunk.length_slices, List.length_map,
        List.length_range, chunkCount]) fun index inside inside' => ?_
    simp only [Chunk.metadata, Chunk.slices, List.getElem_map, List.getElem_zipIdx,
      List.getElem_range, Nat.zero_add, metaSize, Chunk.metaOf, chunkMetaSize, List.length_take,
      List.length_drop]
  rw [announcement, SyncNotification.jsonSize_fileChanged, metas, announcementSize]

/-! ## Files that fit -/

/-- The three messages of a content are within the bounds of the transport. -/
structure Fits (wire : Wire) (network : NetworkConfig) (storage : StorageConfig) (path : Str)
    (content : Bytes) (clock : VectorClock) (timestamp : Nat) (peer : PeerId) : Prop where
  request : (wire.cbor (wholeRequest storage path content).toValue).length ≤
    network.maxRequestSize
  answer : (wire.cbor (wholeAnswer storage path content).toValue).length ≤
    network.maxResponseSize
  announced : (wire.json (announcement storage path content clock timestamp peer).toValue).length ≤
    maxTransmitSize

/-- What the path, the content and the chunk size have to satisfy. -/
structure Carries (network : NetworkConfig) (path : Str) (content : Bytes) (chunkSize : Nat)
    (clock : VectorClock) (timestamp : Nat) (peer : PeerId) : Prop where
  request : requestSize path (chunkCount content chunkSize) ≤ network.maxRequestSize
  answer : answerSize path content chunkSize ≤ network.maxResponseSize
  announced : announcementSize path content chunkSize clock timestamp peer ≤ maxTransmitSize

variable {wire : Wire} {network : NetworkConfig}

/-- **An admissible file fits the transport exactly when the sizes of its three messages do.** -/
theorem fits_iff (wire : Wire) (network : NetworkConfig) (storage : StorageConfig) (path : Str)
    (content : Bytes) (clock : VectorClock) (timestamp : Nat) (peer : PeerId)
    (positive : 0 < storage.chunkSize) (within : Within storage content storage) :
    Fits wire network storage path content clock timestamp peer ↔
      Carries network path content storage.chunkSize clock timestamp peer := by
  have request : (wire.cbor (wholeRequest storage path content).toValue).length =
      requestSize path (chunkCount content storage.chunkSize) := by
    rw [wire.length_cbor, cborSize_wholeRequest]
  have answer : (wire.cbor (wholeAnswer storage path content).toValue).length =
      answerSize path content storage.chunkSize := by
    rw [wire.length_cbor, cborSize_wholeAnswer positive within]
  have announced : (wire.json
      (announcement storage path content clock timestamp peer).toValue).length =
        announcementSize path content storage.chunkSize clock timestamp peer := by
    rw [wire.length_json, jsonSize_announcement]
  constructor
  · rintro ⟨asked, answered, told⟩
    exact ⟨request ▸ asked, answer ▸ answered, announced ▸ told⟩
  · rintro ⟨asked, answered, told⟩
    exact ⟨request ▸ asked, answer ▸ answered, announced ▸ told⟩

/-- A content that fits is within the bound of a response, with one more byte for each of its
bytes that does not fit in a head. -/
theorem Fits.length_le (fits : Fits wire network storage path content clock timestamp peer)
    (positive : 0 < storage.chunkSize) (within : Within storage content storage) :
    content.length + wide content ≤ network.maxResponseSize := by
  have answer := ((fits_iff wire network storage path content clock timestamp peer positive
    within).mp fits).answer
  rw [answerSize] at answer
  omega

/-- The metadata of a chunk takes more than a hundred bytes. -/
theorem le_chunkMetaSize (content : Bytes) (chunkSize index : Nat) :
    104 ≤ chunkMetaSize content chunkSize index := by
  have hash := le_jsonBytesSize
    (Blake3.hash ((content.drop (index * chunkSize)).take chunkSize)).val
  rw [(Blake3.hash _).property] at hash
  have first := digits_pos index
  have second := digits_pos (index * chunkSize)
  have third := digits_pos (min chunkSize (content.length - index * chunkSize) % 2 ^ 32)
  rw [chunkMetaSize]
  omega

/-- **No announcement has more than 628 chunks**, while the configuration lets a file have
16384. -/
theorem Fits.count_le (fits : Fits wire network storage path content clock timestamp peer) :
    chunkCount content storage.chunkSize ≤ 628 := by
  have told := fits.announced
  rw [wire.length_json, jsonSize_announcement, announcementSize, maxTransmitSize, jsonTextSize]
    at told
  have chunks : 104 * chunkCount content storage.chunkSize ≤
      ((List.range (chunkCount content storage.chunkSize)).map
        (chunkMetaSize content storage.chunkSize)).sum := by
    have least := List.card_nsmul_le_sum ((List.range (chunkCount content storage.chunkSize)).map
      (chunkMetaSize content storage.chunkSize)) 104 fun size member => by
        obtain ⟨index, _, rfl⟩ := List.mem_map.mp member
        exact le_chunkMetaSize content storage.chunkSize index
    rw [List.length_map, List.length_range, Nat.nsmul_eq_mul] at least
    omega
  have hash := le_jsonBytesSize
    (Chunk.fileHash (Chunk.metadata content storage.chunkSize)).val
  rw [(Chunk.fileHash _).property] at hash
  have writer := le_jsonBytesSize peer.val
  rw [peer.property] at writer
  have time := digits_pos timestamp
  omega

end

section Samples

attribute [local instance] Sample.blake3

/-- A small file fits with the default bounds. -/
theorem fits_iff_sample :
    Fits Wire.standard {} { chunkSize := 2 } ['f'] [1, 2, 3] .new 10 (Sample.peerId 1) :=
  (fits_iff Wire.standard {} { chunkSize := 2 } ['f'] [1, 2, 3] .new 10 (Sample.peerId 1)
    (by decide) ⟨by decide, by decide, by decide⟩).mpr ⟨by decide, by decide, by decide⟩

/-- With the default settings a peer accepts a file of a hundred mebibytes and a byte, in 401
chunks, and no answer to the request for it is within the bound of a response. -/
theorem exists_not_fits : ∃ content : Bytes, Within {} content {} ∧
    ¬ Fits Wire.standard {} {} ['f'] content .new 10 (Sample.peerId 1) := by
  have length : (List.replicate (100 * 1024 * 1024 + 1) (0 : UInt8)).length = 104857601 :=
    List.length_replicate
  have within : Within {} (List.replicate (100 * 1024 * 1024 + 1) 0) {} := by
    refine ⟨by rw [length]; decide, ?_, by rw [length]; decide⟩
    rw [advertised_eq, List.length_range, length]
    decide
  refine ⟨_, within, fun fits => ?_⟩
  have bounded := fits.length_le (by decide) within
  rw [length] at bounded
  exact absurd (Nat.le_trans (Nat.le_add_right _ _) bounded) (by decide)

end Samples

end P2Sync
