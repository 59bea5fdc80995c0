import P2Sync.Support.Decoding
import P2Sync.Net.Swarm
import P2Sync.Net.Wire

/-!
# Messages read back

The receiving side of the wire: what the derived decoders make of the values that `toValue` gives
to the encoders. Records are read field by field, variants by their name, a hash and a peer as
sequences of exactly their length, and a clock as a map from hexadecimal peers.
-/

set_option autoImplicit false

namespace P2Sync

open Encoding

/-! ## Parts of messages -/

/-- `u64`, and `usize` on the machines the program is built for. -/
def u64 : Codec Nat := .number (2 ^ 64)

def u32 : Codec Nat := .number (2 ^ 32)

/-- `[u8; 32]`. -/
def Hash.codec : Codec Hash := Codec.bytes.subtype fun bytes => bytes.length = 32

/-- `[u8; 8]`. -/
def PeerId.codec : Codec PeerId := Codec.bytes.subtype fun bytes => bytes.length = 8

namespace ChunkMeta

def codec : Codec ChunkMeta :=
  (Fields.record
    (.cons "index".toList u64 (.cons "offset".toList u64 (.cons "len".toList u32
      (.cons "hash".toList Hash.codec .nil (by decide)) (by decide)) (by decide))
        (by decide))).congr
    { toFun := fun (index, offset, len, hash, ()) => ⟨index, offset, len, hash⟩
      invFun := fun chunkMeta =>
        (chunkMeta.index, chunkMeta.offset, chunkMeta.len, chunkMeta.hash, ())
      left_inv := fun _ => rfl
      right_inv := fun _ => rfl }

theorem codec_write : codec.write = toValue := rfl

end ChunkMeta

/-! ## Clocks -/

namespace VectorClock

/-- The entries of a map from text to counters. -/
def readCounters : List (Str × Value) → Option (List (Str × UInt64))
  | [] => some []
  | (key, value) :: rest => (u64.read value).bind fun count =>
      (readCounters rest).map ((key, UInt64.ofNat count) :: ·)

theorem readCounters_map (entries : List (Str × UInt64)) :
    readCounters (entries.map fun entry => (entry.1, .number entry.2.toNat)) = some entries := by
  induction entries with
  | nil => rfl
  | cons entry rest ih =>
      have read : u64.read (.number entry.2.toNat) = some entry.2.toNat :=
        u64.read_write entry.2.toNat entry.2.toNat_lt
      rw [List.map_cons, readCounters, read, ih, Option.bind_some, Option.map_some,
        UInt64.ofNat_toNat]

/-- `peer_id_map`. -/
def countersCodec : Codec (BTreeMap PeerId UInt64) where
  write counters := .map (counters.entries.map fun entry =>
    (peerIdHex entry.1, .number entry.2.toNat))
  read
    | .map entries => (readCounters entries).bind fun counters =>
        match deserialize counters with
        | .ok map => some map
        | .error _ => none
        | .panic => none
    | _ => none
  Fits _ := True
  read_write counters _ := by
    have written : (counters.entries.map fun entry => (peerIdHex entry.1,
        Value.number entry.2.toNat)) =
          (serialize counters).map fun entry => (entry.1, .number entry.2.toNat) := by
      rw [serialize, List.map_map]
      rfl
    have decoded : deserialize (serialize counters) = .ok counters :=
      deserialize_eq_ok_iff.mpr (storedAs_serialize counters)
    dsimp only
    rw [written, readCounters_map, Option.bind_some, decoded]
  fits _ _ _ := trivial
  write_ne_null _ := nofun

def codec : Codec VectorClock :=
  (Fields.record (.cons "counters".toList countersCodec .nil (by decide))).congr
    { toFun := fun (counters, ()) => ⟨counters⟩
      invFun := fun clock => (clock.counters, ())
      left_inv := fun _ => rfl
      right_inv := fun _ => rfl }

theorem codec_write : codec.write = toValue := rfl

end VectorClock

namespace Tombstone

def codec : Codec Tombstone :=
  (Fields.record
    (.cons "path".toList .text (.cons "deleted_by".toList PeerId.codec
      (.cons "clock".toList VectorClock.codec (.cons "timestamp".toList u64 .nil (by decide))
        (by decide)) (by decide)) (by decide))).congr
    { toFun := fun (path, deletedBy, clock, timestamp, ()) => ⟨path, deletedBy, clock, timestamp⟩
      invFun := fun tombstone =>
        (tombstone.path, tombstone.deletedBy, tombstone.clock, tombstone.timestamp, ())
      left_inv := fun _ => rfl
      right_inv := fun _ => rfl }

theorem codec_write : codec.write = toValue := rfl

end Tombstone

/-! ## Trees -/

namespace Node

def fileFields : Fields (Hash × Nat × List ChunkMeta × Unit) :=
  .cons "hash".toList Hash.codec (.cons "size".toList u64
    (.cons "chunks".toList ChunkMeta.codec.seq .nil (by decide)) (by decide)) (by decide)

mutual

/-- A node, read from a value. -/
def ofValue : Value → Option Node
  | .map [(name, .map entries)] =>
      if name = "File".toList then
        (fileFields.read entries).map fun (hash, size, chunks, ()) => .file hash size chunks
      else if name = "Directory".toList then
        match Hash.codec.readField (fieldsOf "hash".toList entries), childrenIn entries with
        | some hash, [some children] => some (.directory hash children)
        | _, _ => none
      else none
  | _ => none

/-- What the fields for the children hold. -/
def childrenIn : List (Str × Value) → List (Option (List (Str × Node)))
  | [] => []
  | (name, value) :: rest =>
      if name = "children".toList then childrenOfValue value :: childrenIn rest
      else childrenIn rest

/-- `BTreeMap<String, Node>`. -/
def childrenOfValue : Value → Option (List (Str × Node))
  | .map entries => insertChildren entries []
  | _ => none

/-- The entries of a map of nodes are inserted one after the other. -/
def insertChildren : List (Str × Value) → List (Str × Node) → Option (List (Str × Node))
  | [], children => some children
  | (name, value) :: rest, children => (ofValue value).bind fun node =>
      insertChildren rest (SortedMap.insert name node children)

end

/-- A tree that can be sent: its numbers are as small as their types say, and its names are in
order. -/
inductive Fits : Node → Prop where
  | file (hash : Hash) (size : Nat) (chunks : List ChunkMeta) (small : size < 2 ^ 64)
      (chunksFit : ∀ chunkMeta ∈ chunks, ChunkMeta.codec.Fits chunkMeta) :
      Fits (.file hash size chunks)
  | directory (hash : Hash) (children : List (Str × Node)) (sorted : SortedMap.Sorted children)
      (childrenFit : ∀ child ∈ children, Fits child.2) : Fits (.directory hash children)

theorem ofValue_file (entries : List (Str × Value)) :
    ofValue (.map [("File".toList, .map entries)]) =
      (fileFields.read entries).map fun (hash, size, chunks, ()) => .file hash size chunks := by
  rw [ofValue, if_pos rfl]

theorem ofValue_directory (entries : List (Str × Value)) {hash : Hash}
    {children : List (Str × Node)}
    (hashed : Hash.codec.readField (fieldsOf "hash".toList entries) = some hash)
    (listed : childrenIn entries = [some children]) :
    ofValue (.map [("Directory".toList, .map entries)]) = some (.directory hash children) := by
  rw [ofValue, if_neg (by decide), if_pos rfl, hashed, listed]

/-- Children that are inserted in order are the map. -/
theorem foldl_insert_sorted {children : List (Str × Node)} (sorted : SortedMap.Sorted children) :
    children.foldl (fun map child => SortedMap.insert child.1 child.2 map) [] = children := by
  have entries : ∀ (children : List (Str × Node)) (map : BTreeMap Str Node),
      (children.foldl (fun map child => map.insert child.1 child.2) map).entries =
        children.foldl (fun map child => SortedMap.insert child.1 child.2 map) map.entries := by
    intro children
    induction children with
    | nil => exact fun _ => rfl
    | cons child rest ih => exact fun map => ih (map.insert child.1 child.2)
  exact (entries children .empty).symm.trans
    (congrArg BTreeMap.entries (BTreeMap.foldl_insert_entries ⟨children, sorted⟩))

mutual

/-- A tree that fits is read back. -/
theorem ofValue_toValue : ∀ {node : Node}, node.Fits → ofValue node.toValue = some node
  | .file hash size chunks, fits => by
      cases fits with
      | file _ _ _ small chunksFit =>
          have read : fileFields.read (fileFields.write (hash, size, chunks, ())) = some _ :=
            fileFields.read_write_self ⟨fun _ _ => trivial, small, chunksFit, trivial⟩
          rw [toValue, variant, ofValue_file]
          exact congrArg (Option.map _) read
  | .directory hash children, fits => by
      cases fits with
      | directory _ _ sorted childrenFit =>
          have listed := insertChildren_childrenToValue childrenFit []
          rw [foldl_insert_sorted sorted] at listed
          have hashed : Hash.codec.readField [.ofBytes hash.val] = some hash :=
            Hash.codec.read_write hash fun _ _ => trivial
          rw [toValue, variant]
          refine ofValue_directory _ hashed ?_
          rw [childrenIn, if_neg (by decide), childrenIn, if_pos rfl, childrenIn, childrenOfValue,
            listed]

theorem insertChildren_childrenToValue : ∀ {children : List (Str × Node)},
    (∀ child ∈ children, child.2.Fits) → ∀ base : List (Str × Node),
      insertChildren (childrenToValue children) base =
        some (children.foldl (fun map child => SortedMap.insert child.1 child.2 map) base)
  | [], _, base => by rw [childrenToValue, insertChildren, List.foldl_nil]
  | (name, child) :: rest, fits, base => by
      rw [childrenToValue, insertChildren, ofValue_toValue (fits _ List.mem_cons_self),
        Option.bind_some, List.foldl_cons]
      exact insertChildren_childrenToValue
        (fun other member => fits other (List.mem_cons_of_mem _ member)) _

end

/-- What is read fits: a tree, and the children of a tree. -/
theorem fits_of_read :
    (∀ value node, ofValue value = some node → node.Fits) ∧
      (∀ entries children, some children ∈ childrenIn entries →
        SortedMap.Sorted children ∧ ∀ child ∈ children, child.2.Fits) ∧
      (∀ value children, childrenOfValue value = some children →
        SortedMap.Sorted children ∧ ∀ child ∈ children, child.2.Fits) ∧
      ∀ entries base children, insertChildren entries base = some children →
        SortedMap.Sorted base → (∀ child ∈ base, child.2.Fits) →
          SortedMap.Sorted children ∧ ∀ child ∈ children, child.2.Fits := by
  refine ofValue.mutual_induct
    (fun value => ∀ node, ofValue value = some node → node.Fits)
    (fun entries => ∀ children, some children ∈ childrenIn entries →
        SortedMap.Sorted children ∧ ∀ child ∈ children, child.2.Fits)
    (fun value => ∀ children, childrenOfValue value = some children →
        SortedMap.Sorted children ∧ ∀ child ∈ children, child.2.Fits)
    (fun entries base => ∀ children, insertChildren entries base = some children →
        SortedMap.Sorted base → (∀ child ∈ base, child.2.Fits) →
          SortedMap.Sorted children ∧ ∀ child ∈ children, child.2.Fits)
    ?file ?directory ?refused ?unknown ?other ?map ?noMap ?nil ?children ?passed ?done ?inserted
  case file =>
    intro entries node accepted
    rw [ofValue_file] at accepted
    obtain ⟨⟨hash, size, chunks, ⟨⟩⟩, read, rfl⟩ := Option.map_eq_some_iff.mp accepted
    have fits := fileFields.fits entries _ read
    exact .file hash size chunks fits.2.1 fits.2.2.1
  case directory =>
    intro entries hash children listed hashed _ ih node accepted
    rw [ofValue_directory entries hashed listed] at accepted
    cases accepted
    obtain ⟨sorted, childrenFit⟩ := ih children (listed ▸ List.mem_singleton_self _)
    exact .directory hash children sorted childrenFit
  case refused =>
    intro entries refused _ _ node accepted
    rw [ofValue, if_neg (by decide), if_pos rfl] at accepted
    split at accepted
    · rename_i hash children hashed listed
      exact (refused hash children hashed listed).elim
    · cases accepted
  case unknown =>
    intro name entries noFile noDirectory node accepted
    rw [ofValue, if_neg noFile, if_neg noDirectory] at accepted
    cases accepted
  case other =>
    intro value other node accepted
    rw [ofValue.eq_def] at accepted
    split at accepted
    · exact (other _ _ rfl).elim
    · cases accepted
  case map =>
    intro entries ih children accepted
    rw [childrenOfValue] at accepted
    exact ih children accepted .nil fun _ absent => absurd absent List.not_mem_nil
  case noMap =>
    intro value other children accepted
    rw [childrenOfValue.eq_def] at accepted
    split at accepted
    · exact (other _ rfl).elim
    · cases accepted
  case nil => exact fun children absent => absurd absent List.not_mem_nil
  case children =>
    intro value rest here later children member
    rw [childrenIn, if_pos rfl] at member
    rcases List.mem_cons.mp member with first | member
    · exact here children first.symm
    · exact later children member
  case passed =>
    intro name value rest other later children member
    rw [childrenIn, if_neg other] at member
    exact later children member
  case done =>
    intro base children accepted sorted fits
    rw [insertChildren] at accepted
    cases accepted
    exact ⟨sorted, fits⟩
  case inserted =>
    intro name value rest base here later children accepted sorted fits
    rw [insertChildren] at accepted
    obtain ⟨node, read, accepted⟩ := Option.bind_eq_some_iff.mp accepted
    refine later node children accepted (sorted.insert name node) fun child member => ?_
    rcases SortedMap.mem_insert member with rfl | member
    · exact here node read
    · exact fits child member

def codec : Codec Node where
  write := toValue
  read := ofValue
  Fits := Fits
  read_write _ fits := ofValue_toValue fits
  fits := fits_of_read.1
  write_ne_null node := by
    cases node <;> rw [toValue, variant] <;> exact nofun

end Node

/-! ## Messages -/

/-- A record with a path alone. -/
def pathFields : Fields (Str × Unit) := .cons "path".toList .text .nil (by decide)

namespace SyncRequest

def getSubtreeVariant : Variant SyncRequest (Str × Unit) :=
  ⟨"GetSubtree".toList, pathFields, fun (path, ()) => .getSubtree path⟩

def getChunksVariant : Variant SyncRequest (Str × List Nat × Unit) :=
  ⟨"GetChunks".toList, .cons "path".toList .text
      (.cons "chunk_indices".toList u64.seq .nil (by decide)) (by decide),
    fun (path, chunkIndices, ()) => .getChunks path chunkIndices⟩

def getFileMetaVariant : Variant SyncRequest (Str × Unit) :=
  ⟨"GetFileMeta".toList, pathFields, fun (path, ()) => .getFileMeta path⟩

/-- The variants with fields. -/
def branches : List (Str × (List (Str × Value) → Option SyncRequest)) :=
  [getSubtreeVariant.branch, getChunksVariant.branch, getFileMetaVariant.branch]

/-- A request, read from a value. -/
def ofValue : Value → Option SyncRequest
  | .text name =>
      if name = "GetRootHash".toList then some .getRootHash
      else if name = "GetTree".toList then some .getTree
      else none
  | value => tagged branches value

/-- The indices are as small as their type says. -/
def Fits : SyncRequest → Prop
  | .getChunks _ chunkIndices => ∀ index ∈ chunkIndices, index < 2 ^ 64
  | _ => True

theorem ofValue_toValue : ∀ request : SyncRequest, request.Fits →
    ofValue request.toValue = some request
  | .getRootHash, _ => rfl
  | .getTree, _ => rfl
  | .getSubtree path, _ =>
      getSubtreeVariant.tagged_write branches (path, ()) rfl ⟨trivial, trivial⟩
  | .getChunks path chunkIndices, fits =>
      getChunksVariant.tagged_write branches (path, chunkIndices, ()) rfl ⟨trivial, fits, trivial⟩
  | .getFileMeta path, _ =>
      getFileMetaVariant.tagged_write branches (path, ()) rfl ⟨trivial, trivial⟩

theorem fits_of_ofValue (value : Value) (request : SyncRequest)
    (accepted : ofValue value = some request) : request.Fits := by
  rw [ofValue.eq_def] at accepted
  split at accepted
  · split_ifs at accepted <;> cases accepted <;> exact trivial
  · refine of_tagged accepted ?_
    simp only [branches, List.forall_mem_cons]
    exact ⟨getSubtreeVariant.of_read fun _ _ => trivial,
      getChunksVariant.of_read fun _ fits => fits.2.1,
      getFileMetaVariant.of_read fun _ _ => trivial, nofun⟩

def codec : Codec SyncRequest where
  write := toValue
  read := ofValue
  Fits := Fits
  read_write := ofValue_toValue
  fits := fits_of_ofValue
  write_ne_null request := by cases request <;> exact nofun

end SyncRequest

namespace SyncResponse

def rootHashVariant : Variant SyncResponse (Hash × Unit) :=
  ⟨"RootHash".toList, .cons "hash".toList Hash.codec .nil (by decide),
    fun (hash, ()) => .rootHash hash⟩

def treeVariant : Variant SyncResponse (Node × Unit) :=
  ⟨"Tree".toList, .cons "tree".toList Node.codec .nil (by decide), fun (root, ()) => .tree root⟩

def subtreeVariant : Variant SyncResponse (Str × Option Node × Unit) :=
  ⟨"Subtree".toList, .cons "path".toList .text
      (.optional "node".toList Node.codec .nil (by decide)) (by decide),
    fun (path, node, ()) => .subtree path node⟩

def chunksVariant : Variant SyncResponse (Str × List (Nat × Bytes) × Unit) :=
  ⟨"Chunks".toList, .cons "path".toList .text
      (.cons "chunks".toList (u64.pair .bytes).seq .nil (by decide)) (by decide),
    fun (path, served, ()) => .chunks path served⟩

def fileMetaVariant : Variant SyncResponse (Str × Option VectorClock × Nat × Unit) :=
  ⟨"FileMeta".toList, .cons "path".toList .text (.optional "clock".toList VectorClock.codec
      (.cons "last_modified".toList u64 .nil (by decide)) (by decide)) (by decide),
    fun (path, clock, lastModified, ()) => .fileMeta path clock lastModified⟩

def errorVariant : Variant SyncResponse (Str × Unit) :=
  ⟨"Error".toList, .cons "message".toList .text .nil (by decide),
    fun (message, ()) => .error (String.ofList message)⟩

def branches : List (Str × (List (Str × Value) → Option SyncResponse)) :=
  [rootHashVariant.branch, treeVariant.branch, subtreeVariant.branch, chunksVariant.branch,
    fileMetaVariant.branch, errorVariant.branch]

/-- An answer, read from a value. -/
def ofValue : Value → Option SyncResponse := tagged branches

/-- Numbers are as small as their types say, and trees can be sent. -/
def Fits : SyncResponse → Prop
  | .tree root => root.Fits
  | .subtree _ node => ∀ root ∈ node, root.Fits
  | .chunks _ served => ∀ chunk ∈ served, chunk.1 < 2 ^ 64
  | .fileMeta _ _ lastModified => lastModified < 2 ^ 64
  | _ => True

theorem ofValue_toValue : ∀ response : SyncResponse, response.Fits →
    ofValue response.toValue = some response
  | .rootHash hash, _ =>
      rootHashVariant.tagged_write branches (hash, ()) rfl ⟨Codec.bytes_fits hash.val, trivial⟩
  | .tree root, fits => treeVariant.tagged_write branches (root, ()) rfl ⟨fits, trivial⟩
  | .subtree path node, fits =>
      subtreeVariant.tagged_write branches (path, node, ()) rfl ⟨trivial, fits, trivial⟩
  | .chunks path served, fits =>
      chunksVariant.tagged_write branches (path, served, ()) rfl
        ⟨trivial, fun chunk member => ⟨fits chunk member, Codec.bytes_fits chunk.2⟩, trivial⟩
  | .fileMeta path clock lastModified, fits =>
      fileMetaVariant.tagged_write branches (path, clock, lastModified, ()) rfl
        ⟨trivial, fun _ _ => ⟨trivial, trivial⟩, fits, trivial⟩
  | .error message, _ => by
      have read := errorVariant.tagged_write branches (message.toList, ()) rfl ⟨trivial, trivial⟩
      have same : errorVariant.make (message.toList, ()) = .error message :=
        congrArg SyncResponse.error String.ofList_toList
      exact read.trans (congrArg some same)

theorem fits_of_ofValue (value : Value) (response : SyncResponse)
    (accepted : ofValue value = some response) : response.Fits := by
  refine of_tagged accepted ?_
  simp only [branches, List.forall_mem_cons]
  exact ⟨rootHashVariant.of_read fun _ _ => trivial,
    treeVariant.of_read fun _ fits => fits.1,
    subtreeVariant.of_read fun _ fits => fits.2.1,
    chunksVariant.of_read fun _ fits chunk member => (fits.2.1 chunk member).1,
    fileMetaVariant.of_read fun _ fits => fits.2.2.1,
    errorVariant.of_read fun _ _ => trivial, nofun⟩

def codec : Codec SyncResponse where
  write := toValue
  read := ofValue
  Fits := Fits
  read_write := ofValue_toValue
  fits := fits_of_ofValue
  write_ne_null response := by cases response <;> exact nofun

end SyncResponse

namespace SyncNotification

def fileChangedVariant : Variant SyncNotification
    (Str × Hash × List ChunkMeta × VectorClock × Nat × PeerId × Unit) :=
  ⟨"FileChanged".toList, .cons "path".toList .text (.cons "hash".toList Hash.codec
      (.cons "chunks_changed".toList ChunkMeta.codec.seq (.cons "clock".toList VectorClock.codec
        (.cons "timestamp".toList u64 (.cons "peer".toList PeerId.codec .nil (by decide))
          (by decide)) (by decide)) (by decide)) (by decide)) (by decide),
    fun (path, hash, chunksChanged, clock, timestamp, peer, ()) =>
      .fileChanged path hash chunksChanged clock timestamp peer⟩

def fileDeletedVariant : Variant SyncNotification (Tombstone × Unit) :=
  ⟨"FileDeleted".toList, .cons "tombstone".toList Tombstone.codec .nil (by decide),
    fun (tombstone, ()) => .fileDeleted tombstone⟩

def peerJoinedVariant : Variant SyncNotification (PeerId × Unit) :=
  ⟨"PeerJoined".toList, .cons "peer".toList PeerId.codec .nil (by decide),
    fun (peer, ()) => .peerJoined peer⟩

def branches : List (Str × (List (Str × Value) → Option SyncNotification)) :=
  [fileChangedVariant.branch, fileDeletedVariant.branch, peerJoinedVariant.branch]

/-- A notification, read from a value. -/
def ofValue : Value → Option SyncNotification := tagged branches

/-- Numbers are as small as their types say. -/
def Fits : SyncNotification → Prop
  | .fileChanged _ _ chunksChanged _ timestamp _ =>
      (∀ chunkMeta ∈ chunksChanged, ChunkMeta.codec.Fits chunkMeta) ∧ timestamp < 2 ^ 64
  | .fileDeleted tombstone => tombstone.timestamp < 2 ^ 64
  | .peerJoined _ => True

theorem ofValue_toValue : ∀ notification : SyncNotification, notification.Fits →
    ofValue notification.toValue = some notification
  | .fileChanged path hash chunksChanged clock timestamp peer, fits =>
      fileChangedVariant.tagged_write branches
        (path, hash, chunksChanged, clock, timestamp, peer, ()) rfl
        ⟨trivial, Codec.bytes_fits hash.val, fits.1, ⟨trivial, trivial⟩, fits.2,
          Codec.bytes_fits peer.val, trivial⟩
  | .fileDeleted tombstone, fits =>
      fileDeletedVariant.tagged_write branches (tombstone, ()) rfl
        ⟨⟨trivial, Codec.bytes_fits tombstone.deletedBy.val, ⟨trivial, trivial⟩, fits, trivial⟩,
          trivial⟩
  | .peerJoined peer, _ =>
      peerJoinedVariant.tagged_write branches (peer, ()) rfl ⟨Codec.bytes_fits peer.val, trivial⟩

theorem fits_of_ofValue (value : Value) (notification : SyncNotification)
    (accepted : ofValue value = some notification) : notification.Fits := by
  refine of_tagged accepted ?_
  simp only [branches, List.forall_mem_cons]
  exact ⟨fileChangedVariant.of_read fun _ fits => ⟨fits.2.2.1, fits.2.2.2.2.1⟩,
    fileDeletedVariant.of_read fun _ fits => fits.1.2.2.2.1,
    peerJoinedVariant.of_read fun _ _ => trivial, nofun⟩

def codec : Codec SyncNotification where
  write := toValue
  read := ofValue
  Fits := Fits
  read_write := ofValue_toValue
  fits := fits_of_ofValue
  write_ne_null notification := by cases notification <;> exact nofun

end SyncNotification

/-- **What the decoders make of messages**: a message is read back exactly when its numbers are as
small as their types say and the names of its trees are in order, and whatever is read is such a
message. -/
theorem reads_messages :
    ((∀ request : SyncRequest,
        SyncRequest.ofValue request.toValue = some request ↔ request.Fits) ∧
      (∀ response : SyncResponse,
        SyncResponse.ofValue response.toValue = some response ↔ response.Fits) ∧
      ∀ notification : SyncNotification,
        SyncNotification.ofValue notification.toValue = some notification ↔ notification.Fits) ∧
    (∀ value request, SyncRequest.ofValue value = some request → request.Fits) ∧
      (∀ value response, SyncResponse.ofValue value = some response → response.Fits) ∧
        ∀ value notification, SyncNotification.ofValue value = some notification →
          notification.Fits :=
  ⟨⟨SyncRequest.codec.read_write_iff, SyncResponse.codec.read_write_iff,
    SyncNotification.codec.read_write_iff⟩, SyncRequest.fits_of_ofValue,
      SyncResponse.fits_of_ofValue, SyncNotification.fits_of_ofValue⟩

/-! ## What peers publish -/

section Published

variable [Blake3]

/-- The metadata of a content fits when the length of the content does. -/
theorem Chunk.metadata_fits {data : Bytes} (small : data.length < 2 ^ 64) {chunkSize : Nat} :
    ∀ chunkMeta ∈ metadata data chunkSize, ChunkMeta.codec.Fits chunkMeta := by
  intro chunkMeta member
  obtain ⟨⟨slice, index⟩, listed, rfl⟩ := List.mem_map.mp member
  have found := List.mem_zipIdx_iff_getElem?.mp listed
  rw [slices_getElem?] at found
  split at found
  · rename_i counted
    have positive : 0 < chunkSize := by
      by_contra none
      obtain rfl : chunkSize = 0 := by omega
      rw [Nat.div_zero] at counted
      exact absurd counted (Nat.not_lt_zero index)
    have inside : index * chunkSize < data.length := (lt_slices_iff positive).mp counted
    have below : index ≤ index * chunkSize := Nat.le_mul_of_pos_right index positive
    exact ⟨(below.trans_lt inside).trans small, inside.trans small,
      Nat.mod_lt _ (Nat.two_pow_pos 32), Codec.bytes_fits _, trivial⟩
  · exact absurd found (Option.some_ne_none slice).symm

/-- The clock of the machine is set to a `u64`, and files have lengths that are. -/
def Act.Fits {ι : Type} : Act ι → Prop
  | .setTime now => now < 2 ^ 64
  | .fsEvent reads => ∀ data ∈ reads.second, data.length < 2 ^ 64
  | _ => True

/-- What a peer does by itself fits. -/
def Turn.Fits {ι : Type} : Turn ι → Prop
  | .own _ act => act.Fits
  | _ => True

namespace Peer

variable {ι : Type} {ctx : Ctx ι} {before after : Peer ι} {act : Act ι}

/-- What a step publishes can be read. -/
theorem fits_of_step {published : Option SyncNotification} (timed : before.now < 2 ^ 64)
    (fits : act.Fits) (stepped : before.step ctx act = some (after, published)) :
    ∀ notification ∈ published, notification.Fits := by
  cases step_cases stepped with
  | edited reads path data watch published picked unmarked included first announced =>
      intro notification said
      obtain ⟨raw, content, -, second, rfl⟩ := announced notification said
      exact ⟨Chunk.metadata_fits (fits content second), timed⟩
  | erased reads path rest watch queue =>
      rintro _ ⟨rfl⟩
      exact timed
  | _ => exact nofun

/-- The time stays a `u64`. -/
theorem now_of_step {published : Option SyncNotification} (timed : before.now < 2 ^ 64)
    (fits : act.Fits) (stepped : before.step ctx act = some (after, published)) :
    after.now < 2 ^ 64 := by
  cases step_cases stepped with
  | timeSet now => exact fits
  | lost =>
      rw [spawn, backUp_now]
      exact timed
  | resumed number device task middle task' found ran =>
      cases run_cases ran <;> exact timed
  | _ => exact timed

end Peer

namespace Swarm

variable {ι : Type} [DecidableEq ι] {ctx : ι → Ctx ι} {first last : Swarm ι}
  {trace : List (Swarm ι × Turn ι)}

/-- Times that are a `u64`, and notifications that can be read. -/
structure Legible (swarm : Swarm ι) : Prop where
  timed : ∀ site, (swarm.peer site).now < 2 ^ 64
  log : ∀ notification ∈ swarm.log, notification.Fits

/-- One turn. -/
theorem Legible.step {before after : Swarm ι} {turn : Turn ι} (legible : before.Legible)
    (fits : turn.Fits) (stepped : before.step ctx turn = some after) : after.Legible := by
  obtain ⟨site, act, next, published, does, taken, rfl⟩ := exists_does stepped
  have actFits : act.Fits := by
    cases does with
    | own => exact fits
    | _ => exact trivial
  refine ⟨fun other => ?_, fun notification member => ?_⟩
  · dsimp only
    by_cases here : other = site
    · subst here
      rw [Function.update_self]
      exact Peer.now_of_step (legible.timed other) actFits taken
    · rw [Function.update_of_ne here]
      exact legible.timed other
  · rcases List.mem_append.mp member with old | new
    · exact legible.log notification old
    · exact Peer.fits_of_step (legible.timed site) actFits taken notification
        (Option.mem_toList.mp new)

/-- **What is published is read as it was published**: in a run in which the machines have clocks
and files as their types allow, every notification that is ever on its way is read back from what
is encoded of it. -/
theorem legible_of_run (timed : ∀ site, (first.peer site).now < 2 ^ 64) (empty : first.log = [])
    (run : Run (step ctx) first trace last) (fits : ∀ entry ∈ trace, entry.2.Fits) :
    ∀ notification ∈ last.log,
      SyncNotification.ofValue notification.toValue = some notification := by
  have legible := run.invariant Legible (fun _ turn => turn.Fits) fits
    ⟨timed, empty ▸ fun _ absent => absurd absent List.not_mem_nil⟩
    fun _ _ _ legible turnFits stepped => legible.step turnFits stepped
  exact fun notification member =>
    SyncNotification.ofValue_toValue notification (legible.log notification member)

end Swarm

end Published

/-! ## A concrete run -/

namespace Swarm

attribute [local instance] Sample.blake3

/-- What the first peer publishes of its edit is read back. -/
theorem exists_legible :
    ∃ (trace : List (Swarm Sample.Site × Turn Sample.Site)) (last : Swarm Sample.Site),
      Run (step Sample.ctx) (Sample.swarm fun _ => [1]) trace last ∧
        trace.map Prod.snd = Sample.saves .one [2] ∧ last.log = [Sample.update 1 [2]] ∧
          SyncNotification.ofValue (Sample.update 1 [2]).toValue = some (Sample.update 1 [2]) := by
  obtain ⟨trace, last, run, turns, published⟩ := exists_run_of_any (by decide +kernel :
    (runActs (step Sample.ctx) (Sample.swarm fun _ => [1]) (Sample.saves .one [2])).any
      (fun last => decide (last.log = [Sample.update 1 [2]])) = true)
  have published := of_decide_eq_true published
  have fits : ∀ turn ∈ Sample.saves .one [2], turn.Fits := by
    simp [Sample.saves, Turn.Fits, Act.Fits]
  exact ⟨trace, last, run, turns, published,
    legible_of_run (fun _ => by decide : ∀ _, 10 < 2 ^ 64) rfl run
      (fun entry member => fits entry.2 (turns ▸ List.mem_map_of_mem member)) _
      (by rw [published]; exact List.mem_singleton_self _)⟩

end Swarm

end P2Sync
