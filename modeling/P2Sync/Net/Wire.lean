import P2Sync.Support.Encoding
import P2Sync.Core.PeerIdMap
import P2Sync.Net.Start

/-!
# Messages on the wire

A request and its answer cross the transport in CBOR, a notification in JSON. `toValue` says
what the encoders are given: a variant is a map from its name to its fields, a byte string a
sequence of numbers, a clock a map from hexadecimal peers. How many bytes the encoders make of
it depends on the path, the contents and the hashes alone (`SyncRequest.cborSize_getChunks`,
`SyncResponse.cborSize_chunks`, `SyncNotification.jsonSize_fileChanged`).

Each of the three messages has its own bound: two are set on the codec from the
configuration, and the third is what the broadcast layer allows when nobody sets it.
-/

set_option autoImplicit false

namespace P2Sync

open Encoding

/-! ## What is encoded -/

/-- A variant with fields. -/
def variant (name : String) (fields : List (Str × Value)) : Value :=
  .map [(name.toList, .map fields)]

def ChunkMeta.toValue (chunkMeta : ChunkMeta) : Value :=
  .map [("index".toList, .number chunkMeta.index), ("offset".toList, .number chunkMeta.offset),
    ("len".toList, .number chunkMeta.len), ("hash".toList, .ofBytes chunkMeta.hash.val)]

/-- `peer_id_map::serialize`: peers as hexadecimal keys. -/
def VectorClock.toValue (clock : VectorClock) : Value :=
  .map [("counters".toList, .map (clock.counters.entries.map fun entry =>
    (peerIdHex entry.1, .number entry.2.toNat)))]

/-- The encoders are given the entries that the decoder reads. -/
theorem VectorClock.toValue_eq_serialize (clock : VectorClock) :
    clock.toValue = .map [("counters".toList, .map ((serialize clock.counters).map fun entry =>
      (entry.1, .number entry.2.toNat)))] := by
  rw [toValue, serialize, List.map_map]
  rfl

def Tombstone.toValue (tombstone : Tombstone) : Value :=
  .map [("path".toList, .text tombstone.path),
    ("deleted_by".toList, .ofBytes tombstone.deletedBy.val),
    ("clock".toList, tombstone.clock.toValue),
    ("timestamp".toList, .number tombstone.timestamp)]

mutual
def Node.toValue : Node → Value
  | .file hash size chunks => variant "File" [("hash".toList, .ofBytes hash.val),
      ("size".toList, .number size), ("chunks".toList, .seq (chunks.map ChunkMeta.toValue))]
  | .directory hash children => variant "Directory" [("hash".toList, .ofBytes hash.val),
      ("children".toList, .map (Node.childrenToValue children))]

def Node.childrenToValue : List (Str × Node) → List (Str × Value)
  | [] => []
  | (name, child) :: rest => (name, child.toValue) :: Node.childrenToValue rest
end

def SyncRequest.toValue : SyncRequest → Value
  | .getRootHash => .text "GetRootHash".toList
  | .getTree => .text "GetTree".toList
  | .getSubtree path => variant "GetSubtree" [("path".toList, .text path)]
  | .getChunks path chunkIndices => variant "GetChunks" [("path".toList, .text path),
      ("chunk_indices".toList, .seq (chunkIndices.map .number))]
  | .getFileMeta path => variant "GetFileMeta" [("path".toList, .text path)]

def SyncResponse.toValue : SyncResponse → Value
  | .rootHash hash => variant "RootHash" [("hash".toList, .ofBytes hash.val)]
  | .tree root => variant "Tree" [("tree".toList, root.toValue)]
  | .subtree path node => variant "Subtree" [("path".toList, .text path),
      ("node".toList, (node.map Node.toValue).getD .null)]
  | .chunks path served => variant "Chunks" [("path".toList, .text path),
      ("chunks".toList, .seq (served.map fun chunk => .seq [.number chunk.1, .ofBytes chunk.2]))]
  | .fileMeta path clock lastModified => variant "FileMeta" [("path".toList, .text path),
      ("clock".toList, (clock.map VectorClock.toValue).getD .null),
      ("last_modified".toList, .number lastModified)]
  | .error message => variant "Error" [("message".toList, .text message.toList)]

def SyncNotification.toValue : SyncNotification → Value
  | .fileChanged path hash chunksChanged clock timestamp peer => variant "FileChanged"
      [("path".toList, .text path), ("hash".toList, .ofBytes hash.val),
        ("chunks_changed".toList, .seq (chunksChanged.map ChunkMeta.toValue)),
        ("clock".toList, clock.toValue), ("timestamp".toList, .number timestamp),
        ("peer".toList, .ofBytes peer.val)]
  | .fileDeleted tombstone => variant "FileDeleted" [("tombstone".toList, tombstone.toValue)]
  | .peerJoined peer => variant "PeerJoined" [("peer".toList, .ofBytes peer.val)]

/-! ## How many bytes it takes -/

theorem cborSize_variant (name : String) (fields : List (Str × Value)) :
    cborSize (variant name fields) =
      1 + cborTextSize name.toList + headSize fields.length + cborFieldsSize fields := by
  have one : headSize 1 = 1 := rfl
  simp only [variant, cborSize, cborFieldsSize, List.length_cons, List.length_nil, Nat.zero_add,
    one]
  omega

theorem jsonSize_variant (name : String) (fields : List (Str × Value)) :
    jsonSize (variant name fields) =
      5 + jsonTextSize name.toList + (jsonFieldsSize fields - 1) := by
  simp only [variant, jsonSize, jsonFieldsSize]
  omega

theorem SyncRequest.cborSize_getChunks (path : Str) (chunkIndices : List Nat) :
    cborSize (SyncRequest.getChunks path chunkIndices).toValue =
      31 + cborTextSize path + headSize chunkIndices.length + (chunkIndices.map headSize).sum := by
  have names : cborTextSize "GetChunks".toList = 10 ∧ cborTextSize "path".toList = 5 ∧
    cborTextSize "chunk_indices".toList = 14 ∧ headSize 2 = 1 := ⟨rfl, rfl, rfl, rfl⟩
  have index : (fun index => cborSize (.number index)) = headSize :=
    funext fun index => by rw [cborSize]
  simp only [toValue, cborSize_variant, cborFieldsSize, cborSize_seq_map, index]
  simp only [cborSize, List.length_cons, List.length_nil, Nat.reduceAdd, names]
  omega

/-- How many bytes one served slice takes. -/
def servedSize (index : Nat) (slice : Bytes) : Nat :=
  1 + headSize index + headSize slice.length + (slice.length + wide slice)

theorem SyncResponse.cborSize_chunks (path : Str) (served : List (Nat × Bytes)) :
    cborSize (SyncResponse.chunks path served).toValue =
      21 + cborTextSize path + headSize served.length +
        (served.map fun chunk => servedSize chunk.1 chunk.2).sum := by
  have names : cborTextSize "Chunks".toList = 7 ∧ cborTextSize "path".toList = 5 ∧
    cborTextSize "chunks".toList = 7 ∧ headSize 2 = 1 := ⟨rfl, rfl, rfl, rfl⟩
  have slice : ∀ chunk : Nat × Bytes,
      cborSize (.seq [.number chunk.1, .ofBytes chunk.2]) = servedSize chunk.1 chunk.2 := by
    intro chunk
    simp only [cborSize, cborItemsSize, cborSize_ofBytes, List.length_cons, List.length_nil,
      Nat.reduceAdd, names, servedSize]
    omega
  simp only [toValue, cborSize_variant, cborFieldsSize, cborSize_seq_map, slice]
  simp only [cborSize, List.length_cons, List.length_nil, Nat.reduceAdd, names]
  omega

/-- How many bytes the metadata of a slice takes, with the comma after it. -/
def metaSize (chunkMeta : ChunkMeta) : Nat :=
  36 + digits chunkMeta.index + digits chunkMeta.offset + digits chunkMeta.len +
    jsonBytesSize chunkMeta.hash.val

theorem ChunkMeta.jsonSize_toValue (chunkMeta : ChunkMeta) :
    jsonSize chunkMeta.toValue + 1 = metaSize chunkMeta := by
  have names : jsonTextSize "index".toList = 7 ∧ jsonTextSize "offset".toList = 8 ∧
    jsonTextSize "len".toList = 5 ∧ jsonTextSize "hash".toList = 6 := ⟨rfl, rfl, rfl, rfl⟩
  simp only [toValue, jsonSize, jsonFieldsSize, jsonSize_ofBytes, names, metaSize]
  omega

/-- A peer takes sixteen hexadecimal digits and two quotes. -/
theorem jsonTextSize_peerIdHex (peer : PeerId) : jsonTextSize (peerIdHex peer) = 18 := by
  have digit : ∀ value < 16, escapedSize (Nat.digitChar value) = 1 := by decide
  have byte : ∀ byte : UInt8, (List.map escapedSize (hexByte byte)).sum = 2 := by
    intro byte
    have small := byte.toNat_lt
    simp only [hexByte, List.map_cons, List.map_nil, List.sum_cons, List.sum_nil,
      digit (byte.toNat / 16) (by omega), digit (byte.toNat % 16) (by omega), Nat.reduceAdd]
  obtain ⟨bytes, length⟩ := peer
  have hex : ∀ bytes : Bytes,
      ((bytes.flatMap hexByte).map escapedSize).sum = 2 * bytes.length := by
    intro bytes
    induction bytes with
    | nil => rfl
    | cons first rest ih =>
        rw [List.flatMap_cons, List.map_append, List.sum_append, ih, byte, List.length_cons]
        omega
  rw [jsonTextSize, peerIdHex, hex, length]

theorem VectorClock.jsonSize_toValue (clock : VectorClock) :
    jsonSize clock.toValue = 15 +
      ((clock.counters.entries.map fun entry => 20 + digits entry.2.toNat).sum - 1) := by
  have name : jsonTextSize "counters".toList = 10 := rfl
  have entry : ∀ entry : PeerId × UInt64, jsonTextSize (peerIdHex entry.1) + 1 +
      jsonSize (.number entry.2.toNat) + 1 = 20 + digits entry.2.toNat := by
    intro entry
    rw [jsonTextSize_peerIdHex, jsonSize]
    omega
  rw [toValue, jsonSize, jsonFieldsSize, jsonFieldsSize, name, jsonSize_map_map]
  simp only [entry]
  omega

theorem SyncNotification.jsonSize_fileChanged (path : Str) (hash : Hash)
    (chunksChanged : List ChunkMeta) (clock : VectorClock) (timestamp : Nat) (peer : PeerId) :
    jsonSize (SyncNotification.fileChanged path hash chunksChanged clock timestamp peer).toValue =
      98 + jsonTextSize path + jsonBytesSize hash.val + ((chunksChanged.map metaSize).sum - 1) +
        ((clock.counters.entries.map fun entry => 20 + digits entry.2.toNat).sum - 1) +
        digits timestamp + jsonBytesSize peer.val := by
  have names : jsonTextSize "FileChanged".toList = 13 ∧ jsonTextSize "path".toList = 6 ∧
    jsonTextSize "hash".toList = 6 ∧ jsonTextSize "chunks_changed".toList = 16 ∧
    jsonTextSize "clock".toList = 7 ∧ jsonTextSize "timestamp".toList = 11 ∧
    jsonTextSize "peer".toList = 6 := ⟨rfl, rfl, rfl, rfl, rfl, rfl, rfl⟩
  have metas : (fun chunkMeta => jsonSize chunkMeta.toValue + 1) = metaSize :=
    funext ChunkMeta.jsonSize_toValue
  simp only [toValue, jsonSize_variant, jsonFieldsSize, jsonSize_ofBytes, jsonSize_seq_map, metas,
    VectorClock.jsonSize_toValue]
  simp only [jsonSize, names]
  omega

/-! ## The transport -/

/-- The encoders of the transport: the codec's for requests and answers, `serde_json` for
notifications. What is relied on is how many bytes their formats need. -/
structure Wire where
  cbor : Value → Bytes
  json : Value → Bytes
  length_cbor : ∀ value, (cbor value).length = cborSize value
  length_json : ∀ value, (json value).length = jsonSize value

/-- The formats as they are documented. -/
def Wire.standard : Wire where
  cbor := Encoding.cbor
  json := Encoding.json
  length_cbor := Encoding.length_cbor
  length_json := Encoding.length_json

/-- The bounds that are set on the codec. -/
structure NetworkConfig where
  maxRequestSize : Nat := 1024 * 1024
  maxResponseSize : Nat := 100 * 1024 * 1024

/-- The largest notification that is broadcast, which the program leaves at its default. -/
def maxTransmitSize : Nat := 65536

end P2Sync
