import P2Sync.Core.Path
import P2Sync.Support.Overlay

/-!
# Chunks

File data is cut into slices of a fixed size; the last one may be shorter. The index
keeps for each slice its position, its length and its hash, and the hash of a file is
the hash of its slices' hashes. The hash function is a parameter: nothing is used about
it except that it returns 32 bytes.

Writing every slice of a content at its own offset over an old content gives the new
content followed by what the old one had past its end (`spliceAll_pieces`).
-/

set_option autoImplicit false

namespace P2Sync

/-- A 32-byte hash. -/
abbrev Hash := {bytes : Bytes // bytes.length = 32}

/-- The hash function of the `blake3` crate. -/
class Blake3 where
  hash : Bytes → Hash

namespace Chunk

/-- `slice::chunks`: consecutive slices of one size, the last one possibly shorter. -/
def slices (data : Bytes) (chunkSize : Nat) : List Bytes :=
  (List.range ((data.length + chunkSize - 1) / chunkSize)).map fun index =>
    (data.drop (index * chunkSize)).take chunkSize

end Chunk

/-- Hash and offset information for a chunk, without the data payload. -/
structure ChunkMeta where
  index : Nat
  offset : Nat
  len : Nat
  hash : Hash
deriving DecidableEq

/-- A content-addressed chunk of file data. -/
structure Chunk where
  hash : Hash
  data : Bytes
deriving DecidableEq

namespace Chunk

variable [Blake3]

/-- The metadata of the slice at an index. The length is stored in 32 bits. -/
def metaOf (chunkSize : Nat) (slice : Bytes) (index : Nat) : ChunkMeta where
  index := index
  offset := index * chunkSize
  len := slice.length % 2 ^ 32
  hash := Blake3.hash slice

/-- Split data into fixed-size chunks, returning metadata and chunks. -/
def split (data : Bytes) (chunkSize : Nat) : List ChunkMeta × List Chunk :=
  ((slices data chunkSize).zipIdx.map fun slice => metaOf chunkSize slice.1 slice.2,
    (slices data chunkSize).map fun slice => ⟨Blake3.hash slice, slice⟩)

/-- Compute chunk metadata without retaining data. -/
def metadata (data : Bytes) (chunkSize : Nat) : List ChunkMeta :=
  (slices data chunkSize).zipIdx.map fun slice => metaOf chunkSize slice.1 slice.2

/-- The aggregate hash for a file from its chunk hashes. -/
def fileHash (chunkMetas : List ChunkMeta) : Hash :=
  Blake3.hash (chunkMetas.flatMap fun chunkMeta => chunkMeta.hash.val)

/-! ## Slices -/

omit [Blake3]

theorem length_slices (data : Bytes) (chunkSize : Nat) :
    (slices data chunkSize).length = (data.length + chunkSize - 1) / chunkSize := by
  rw [slices, List.length_map, List.length_range]

theorem slices_getElem? (data : Bytes) (chunkSize index : Nat) :
    (slices data chunkSize)[index]? =
      if index < (data.length + chunkSize - 1) / chunkSize then
        some ((data.drop (index * chunkSize)).take chunkSize)
      else none := by
  rw [slices, List.getElem?_map]
  by_cases inside : index < (data.length + chunkSize - 1) / chunkSize
  · rw [List.getElem?_range inside, if_pos inside]
    rfl
  · rw [List.getElem?_eq_none (by rw [List.length_range]; omega), if_neg inside]
    rfl

theorem lt_slices_iff {length chunkSize index : Nat} (positive : 0 < chunkSize) :
    index < (length + chunkSize - 1) / chunkSize ↔ index * chunkSize < length := by
  rw [Nat.lt_iff_add_one_le, Nat.le_div_iff_mul_le positive, Nat.add_one_mul]
  omega

theorem length_metadata [Blake3] (data : Bytes) (chunkSize : Nat) :
    (metadata data chunkSize).length = (slices data chunkSize).length := by
  rw [metadata, List.length_map, List.length_zipIdx]

/-- The indices recorded for a file are the positions of its slices. -/
theorem metadata_map_index [Blake3] (data : Bytes) (chunkSize : Nat) :
    (metadata data chunkSize).map ChunkMeta.index =
      List.range (slices data chunkSize).length := by
  rw [metadata, List.map_map]
  exact List.zipIdx_map_snd 0 _ |>.trans (by rw [List.range_eq_range'])

/-- The slices put together are the content. -/
theorem flatten_slices {chunkSize : Nat} (positive : 0 < chunkSize) (data : Bytes) :
    (slices data chunkSize).flatten = data := by
  have first : ∀ count, ((List.range count).map fun index =>
      (data.drop (index * chunkSize)).take chunkSize).flatten = data.take (count * chunkSize) := by
    intro count
    induction count with
    | zero => rw [Nat.zero_mul, List.take_zero]; rfl
    | succ count ih =>
        rw [List.range_succ, List.map_append, List.flatten_append, ih, List.map_singleton,
          List.flatten_singleton, Nat.add_one_mul, List.take_add]
  have enough : ¬ (data.length + chunkSize - 1) / chunkSize * chunkSize < data.length :=
    mt (lt_slices_iff positive).mpr (lt_irrefl _)
  rw [slices, first, List.take_of_length_le (by omega)]

/-- All slices are full, but a shorter one at the end where the size does not divide. -/
theorem map_length_slices {chunkSize : Nat} (positive : 0 < chunkSize) (data : Bytes) :
    (slices data chunkSize).map List.length =
      List.replicate (data.length / chunkSize) chunkSize ++
        if data.length % chunkSize = 0 then [] else [data.length % chunkSize] := by
  have full : (List.range (data.length / chunkSize)).map
      (fun index => ((data.drop (index * chunkSize)).take chunkSize).length) =
        List.replicate (data.length / chunkSize) chunkSize := by
    refine List.eq_replicate_iff.mpr ⟨by rw [List.length_map, List.length_range], ?_⟩
    intro length member
    obtain ⟨index, inside, rfl⟩ := List.mem_map.mp member
    have reaches : (index + 1) * chunkSize ≤ data.length :=
      (Nat.le_div_iff_mul_le positive).mp (List.mem_range.mp inside)
    rw [Nat.add_one_mul] at reaches
    rw [List.length_take, List.length_drop]
    omega
  have divided := Nat.div_add_mod' data.length chunkSize
  have remainder := Nat.mod_lt data.length positive
  rw [slices, List.map_map]
  by_cases whole : data.length % chunkSize = 0
  · have count : (data.length + chunkSize - 1) / chunkSize = data.length / chunkSize := by
      rw [Nat.div_eq_iff positive]
      constructor <;> omega
    rw [if_pos whole, List.append_nil, ← full, count]
    rfl
  · have count : (data.length + chunkSize - 1) / chunkSize = data.length / chunkSize + 1 := by
      rw [Nat.div_eq_iff positive, Nat.add_one_mul]
      constructor <;> omega
    rw [if_neg whole, ← full, count, List.range_succ, List.map_append, List.map_singleton,
      Function.comp_apply, List.length_take, List.length_drop]
    congr 2
    omega

/-! ## Writing all slices -/

/-- The slices of a content, each with its offset. -/
def pieces (data : Bytes) (chunkSize : Nat) (indices : List Nat) : List (Nat × Bytes) :=
  indices.map fun index => (index * chunkSize, (data.drop (index * chunkSize)).take chunkSize)

theorem pieces_cons (data : Bytes) (chunkSize index : Nat) (rest : List Nat) :
    pieces data chunkSize (index :: rest) =
      (index * chunkSize, (data.drop (index * chunkSize)).take chunkSize) ::
        pieces data chunkSize rest := rfl

/-- Pieces that start inside the content end inside it. -/
theorem reach_pieces_le {data : Bytes} {chunkSize : Nat} {indices : List Nat}
    (inside : ∀ index ∈ indices, index * chunkSize < data.length) :
    Overlay.reach (pieces data chunkSize indices) ≤ data.length := by
  induction indices with
  | nil => exact Nat.zero_le _
  | cons index rest ih =>
      have start := inside index List.mem_cons_self
      rw [pieces_cons, Overlay.reach, List.length_take, List.length_drop]
      exact max_le (by omega) (ih fun later member => inside later (List.mem_cons_of_mem _ member))

/-- What a piece holds at a position is what the content holds there. -/
theorem cover_pieces {data : Bytes} {chunkSize position : Nat} {indices : List Nat}
    {value : UInt8}
    (covered : Overlay.cover position (pieces data chunkSize indices) = some value) :
    data[position]? = some value := by
  induction indices with
  | nil => exact absurd covered (Option.some_ne_none value).symm
  | cons index rest ih =>
      rw [pieces_cons, Overlay.cover] at covered
      cases later : Overlay.cover position (pieces data chunkSize rest) with
      | some value' =>
          rw [later] at covered ih
          exact ih covered
      | none =>
          simp only [later] at covered
          split at covered
          · rename_i late
            rw [List.getElem?_take] at covered
            split at covered
            · rwa [List.getElem?_drop, Nat.add_sub_cancel' late] at covered
            · exact absurd covered (Option.some_ne_none value).symm
          · exact absurd covered (Option.some_ne_none value).symm

/-- A position of the content is covered when the index of its slice is listed. -/
theorem cover_pieces_isSome {data : Bytes} {chunkSize position : Nat} {indices : List Nat}
    (positive : 0 < chunkSize) (inside : position < data.length)
    (listed : position / chunkSize ∈ indices) :
    (Overlay.cover position (pieces data chunkSize indices)).isSome := by
  induction indices with
  | nil => exact absurd listed List.not_mem_nil
  | cons index rest ih =>
      rw [pieces_cons, Overlay.cover]
      cases later : Overlay.cover position (pieces data chunkSize rest) with
      | some value => rfl
      | none =>
          rw [later] at ih
          rcases List.mem_cons.mp listed with here | there
          · subst here
            have start : position / chunkSize * chunkSize ≤ position := Nat.div_mul_le_self ..
            have rounded := Nat.div_add_mod' position chunkSize
            have remainder := Nat.mod_lt position positive
            dsimp only
            rw [if_pos start, List.getElem?_take, if_pos (by omega), List.getElem?_drop,
              Nat.add_sub_cancel' start, List.getElem?_eq_getElem inside]
            rfl
          · exact absurd (ih there) Bool.false_ne_true

/-- A position of a slice that is not written holds what the content has there, if the old
content has the same slice. -/
theorem getElem?_of_slice_eq {data old : Bytes} {chunkSize position : Nat}
    (positive : 0 < chunkSize)
    (same : (old.drop (position / chunkSize * chunkSize)).take chunkSize =
      (data.drop (position / chunkSize * chunkSize)).take chunkSize) :
    old[position]? = data[position]? := by
  have start : position / chunkSize * chunkSize ≤ position := Nat.div_mul_le_self ..
  have rounded := Nat.div_add_mod' position chunkSize
  have remainder := Nat.mod_lt position positive
  have values := congrArg (·[position - position / chunkSize * chunkSize]?) same
  simpa only [List.getElem?_take_of_lt (show position - position / chunkSize * chunkSize <
    chunkSize by omega), List.getElem?_drop, Nat.add_sub_cancel' start] using values

/-- **Writing the slices in which an old content differs** gives the new content, followed by
what the old one holds past its end. -/
theorem spliceAll_pieces_of_agrees {data old : Bytes} {chunkSize : Nat} {indices : List Nat}
    (positive : 0 < chunkSize)
    (inside : ∀ index ∈ indices, index * chunkSize < data.length)
    (complete : ∀ index, index * chunkSize < data.length → index ∈ indices ∨
      (old.drop (index * chunkSize)).take chunkSize =
        (data.drop (index * chunkSize)).take chunkSize) :
    Overlay.spliceAll 0 old (pieces data chunkSize indices) = data ++ old.drop data.length := by
  have covered : ∀ position < data.length,
      (Overlay.cover position (pieces data chunkSize indices)).or old[position]? =
        data[position]? := by
    intro position within
    rcases complete _ (lt_of_le_of_lt (Nat.div_mul_le_self position chunkSize) within) with
      listed | same
    · obtain ⟨value, found⟩ :=
        Option.isSome_iff_exists.mp (cover_pieces_isSome positive within listed)
      rw [found, cover_pieces found, Option.some_or]
    · cases found : Overlay.cover position (pieces data chunkSize indices) with
      | some value => rw [cover_pieces found, Option.some_or]
      | none => rw [Option.none_or, getElem?_of_slice_eq positive same]
  have reached : max old.length (Overlay.reach (pieces data chunkSize indices)) =
      max old.length data.length := by
    have short := reach_pieces_le inside
    rcases Nat.lt_or_ge old.length data.length with longer | shorter
    · -- The last byte of a longer content is written.
      have last := covered (data.length - 1) (by omega)
      rw [List.getElem?_eq_none (by omega), Option.or_none,
        List.getElem?_eq_getElem (by omega)] at last
      have := Overlay.lt_reach_of_cover last
      omega
    · omega
  rw [Overlay.spliceAll_eq_iff, Overlay.Assembles, reached]
  refine ⟨by simp only [List.length_append, List.length_drop]; omega, fun position _ => ?_⟩
  simp only [List.getD_eq_getElem?_getD]
  rcases Nat.lt_or_ge position data.length with within | past
  · rw [List.getElem?_append_left within, ← covered position within]
    cases Overlay.cover position (pieces data chunkSize indices) <;> rfl
  · have uncovered : Overlay.cover position (pieces data chunkSize indices) = none := by
      rw [Option.eq_none_iff_forall_ne_some]
      intro value found
      have := Overlay.lt_reach_of_cover found
      have := reach_pieces_le inside
      omega
    rw [List.getElem?_append_right past, List.getElem?_drop, Nat.add_sub_cancel' past, uncovered]
    rfl

/-- **Writing every slice of a content over an old one** gives the content, followed by
what the old one holds past its end. -/
theorem spliceAll_pieces {data old : Bytes} {chunkSize : Nat} {indices : List Nat}
    (positive : 0 < chunkSize)
    (inside : ∀ index ∈ indices, index * chunkSize < data.length)
    (complete : ∀ index, index * chunkSize < data.length → index ∈ indices) :
    Overlay.spliceAll 0 old (pieces data chunkSize indices) = data ++ old.drop data.length :=
  spliceAll_pieces_of_agrees positive inside fun index within => Or.inl (complete index within)

end Chunk

end P2Sync
