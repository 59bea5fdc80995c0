import P2Sync.Core.Chunk
import Mathlib.Algebra.Order.Floor.Div
import Mathlib.Algebra.Order.BigOperators.Group.List

/-!
# Chunks tile the file

The slices of a content follow one another without gaps: each starts where those before it end,
and each is full but for the last, which is not empty. The metadata records this, and the length
fits its 32 bits when the chunk size does (`split_tiles`).

Chunks that are put back at their own offsets restore what the content holds there and leave the
rest of the buffer alone.
-/

set_option autoImplicit false

namespace P2Sync.Chunk

variable [Blake3] {data : Bytes} {chunkSize : Nat}

/-! ## Entries -/

theorem metadata_getElem? (positive : 0 < chunkSize) (data : Bytes) (index : Nat) :
    (metadata data chunkSize)[index]? =
      if index * chunkSize < data.length then
        some (metaOf chunkSize ((data.drop (index * chunkSize)).take chunkSize) index)
      else none := by
  rw [metadata, List.getElem?_map, List.getElem?_zipIdx, slices_getElem?]
  by_cases inside : index * chunkSize < data.length
  · rw [if_pos ((lt_slices_iff positive).mpr inside), if_pos inside, Nat.zero_add]
    rfl
  · rw [if_neg (mt (lt_slices_iff positive).mp inside), if_neg inside]
    rfl

theorem split_chunks_getElem? (positive : 0 < chunkSize) (data : Bytes) (index : Nat) :
    (split data chunkSize).2[index]? =
      if index * chunkSize < data.length then
        some ⟨Blake3.hash ((data.drop (index * chunkSize)).take chunkSize),
          (data.drop (index * chunkSize)).take chunkSize⟩
      else none := by
  rw [split, List.getElem?_map, slices_getElem?]
  by_cases inside : index * chunkSize < data.length
  · rw [if_pos ((lt_slices_iff positive).mpr inside), if_pos inside]
    rfl
  · rw [if_neg (mt (lt_slices_iff positive).mp inside), if_neg inside]
    rfl

/-- The length of a slice is recorded in full. -/
theorem metaOf_len (small : chunkSize < 2 ^ 32) (data : Bytes) (index : Nat) :
    (metaOf chunkSize ((data.drop (index * chunkSize)).take chunkSize) index).len =
      min chunkSize (data.length - index * chunkSize) := by
  rw [metaOf, List.length_take, List.length_drop]
  exact Nat.mod_eq_of_lt (lt_of_le_of_lt (min_le_left _ _) small)

/-- A slice that others come after is full. -/
theorem le_of_lt_length {index : Nat} (positive : 0 < chunkSize)
    (more : index + 1 < (metadata data chunkSize).length) :
    chunkSize ≤ data.length - index * chunkSize := by
  rw [length_metadata, length_slices, lt_slices_iff positive, Nat.add_one_mul] at more
  omega

/-- The slices before one are all full, and together as long as its offset. -/
theorem sum_len_take (positive : 0 < chunkSize) (small : chunkSize < 2 ^ 32) {index : Nat}
    (inside : index * chunkSize < data.length) :
    (((metadata data chunkSize).take index).map ChunkMeta.len).sum = index * chunkSize := by
  have count : index < (metadata data chunkSize).length := by
    rwa [length_metadata, length_slices, lt_slices_iff positive]
  have full : ((metadata data chunkSize).take index).map ChunkMeta.len =
      List.replicate index chunkSize := by
    refine List.eq_replicate_iff.mpr ⟨by rw [List.length_map, List.length_take]; omega, ?_⟩
    intro length member
    obtain ⟨entry, listed, rfl⟩ := List.mem_map.mp member
    obtain ⟨earlier, found⟩ := List.mem_iff_getElem?.mp listed
    rw [List.getElem?_take] at found
    split at found
    · rename_i before
      have room := le_of_lt_length positive (lt_of_le_of_lt before count)
      rw [metadata_getElem? positive, Option.ite_none_right_eq_some] at found
      rw [← Option.some.inj found.2, metaOf_len small, min_eq_left room]
    · exact absurd found (Option.some_ne_none entry).symm
  rw [full, List.sum_replicate, smul_eq_mul]

/-! ## Putting chunks back -/

/-- The chunks at some indices, each with the offset of its index. -/
def placed (data : Bytes) (chunkSize : Nat) (indices : List Nat) : List (Nat × Bytes) :=
  indices.filterMap fun index =>
    (split data chunkSize).2[index]?.map fun chunk => (index * chunkSize, chunk.data)

theorem placed_eq (positive : 0 < chunkSize) (data : Bytes) (indices : List Nat) :
    placed data chunkSize indices =
      pieces data chunkSize (indices.filter fun index => index * chunkSize < data.length) := by
  induction indices with
  | nil => rfl
  | cons index rest ih =>
      rw [placed, List.filterMap_cons, split_chunks_getElem? positive]
      by_cases inside : index * chunkSize < data.length
      · rw [if_pos inside, List.filter_cons_of_pos (by simpa using inside), pieces_cons, ← ih]
        rfl
      · rw [if_neg inside, List.filter_cons_of_neg (by simpa using inside), ← ih]
        rfl

omit [Blake3] in
/-- A covered position is in a listed slice. -/
theorem listed_of_cover {position : Nat} {value : UInt8} {indices : List Nat}
    (covered : Overlay.cover position (pieces data chunkSize indices) = some value) :
    position / chunkSize ∈ indices := by
  induction indices with
  | nil => exact absurd covered (Option.some_ne_none value).symm
  | cons index rest ih =>
      rw [pieces_cons, Overlay.cover] at covered
      cases later : Overlay.cover position (pieces data chunkSize rest) with
      | some value' =>
          rw [later] at covered ih
          exact List.mem_cons_of_mem _ (ih covered)
      | none =>
          simp only [later] at covered
          split at covered
          · rename_i late
            obtain ⟨within, _⟩ := List.getElem?_eq_some_iff.mp covered
            rw [List.length_take] at within
            have here : position / chunkSize = index :=
              (Nat.div_eq_iff (by omega)).mpr ⟨late, by omega⟩
            exact here ▸ List.mem_cons_self
          · exact absurd covered (Option.some_ne_none value).symm

section Placed

variable {buffer : Bytes} {indices : List Nat} {position : Nat}

/-- **The slices that are put back** hold what the content holds. -/
theorem spliceAll_placed_of_mem (positive : 0 < chunkSize) (within : position < data.length)
    (listed : position / chunkSize ∈ indices) :
    (Overlay.spliceAll 0 buffer (placed data chunkSize indices))[position]? = data[position]? := by
  have start := lt_of_le_of_lt (Nat.div_mul_le_self position chunkSize) within
  have kept : position / chunkSize ∈
      indices.filter fun index => index * chunkSize < data.length :=
    List.mem_filter.mpr ⟨listed, decide_eq_true start⟩
  obtain ⟨value, found⟩ := Option.isSome_iff_exists.mp (cover_pieces_isSome positive within kept)
  have reached : position <
      (Overlay.spliceAll 0 buffer (placed data chunkSize indices)).length := by
    rw [Overlay.length_spliceAll, placed_eq positive, lt_max_iff]
    exact Or.inr (Overlay.lt_reach_of_cover found)
  have written := Overlay.getD_spliceAll 0 buffer (placed data chunkSize indices) position
  rw [placed_eq positive, found, Option.getD_some, ← placed_eq positive,
    List.getD_eq_getElem _ _ reached] at written
  rw [List.getElem?_eq_getElem reached, written, cover_pieces found]

/-- **Everything else** stays as it was. -/
theorem spliceAll_placed_of_not_mem (positive : 0 < chunkSize)
    (outside : data.length ≤ position ∨ position / chunkSize ∉ indices) :
    (Overlay.spliceAll 0 buffer (placed data chunkSize indices)).getD position 0 =
      buffer.getD position 0 := by
  rw [Overlay.getD_spliceAll, placed_eq positive]
  cases covered : Overlay.cover position (pieces data chunkSize
      (indices.filter fun index => index * chunkSize < data.length)) with
  | none => rfl
  | some value =>
      obtain ⟨inside, _⟩ := List.getElem?_eq_some_iff.mp (cover_pieces covered)
      rcases outside with past | unlisted
      · omega
      · exact absurd (List.mem_of_mem_filter (listed_of_cover covered)) unlisted

end Placed

/-- **Chunks tile the content.** -/
theorem split_tiles (data : Bytes) (positive : 0 < chunkSize) (small : chunkSize < 2 ^ 32) :
    (split data chunkSize).1 = metadata data chunkSize ∧
    (metadata data chunkSize).length = data.length ⌈/⌉ chunkSize ∧
    (split data chunkSize).2.length = data.length ⌈/⌉ chunkSize ∧
    (∀ index entry, (metadata data chunkSize)[index]? = some entry →
      ∃ chunk, (split data chunkSize).2[index]? = some chunk ∧
        entry.index = index ∧ entry.offset = index * chunkSize ∧
        entry.offset = (((metadata data chunkSize).take index).map ChunkMeta.len).sum ∧
        entry.len = chunk.data.length ∧ 0 < entry.len ∧
        (index + 1 < (metadata data chunkSize).length → entry.len = chunkSize)) ∧
    ((split data chunkSize).2.map Chunk.data).flatten = data ∧
    ∀ (indices : List Nat) (buffer : Bytes),
      (∀ index ∈ indices, ∀ chunk, (split data chunkSize).2[index]? = some chunk →
        ((Overlay.spliceAll 0 buffer (placed data chunkSize indices)).drop
            (index * chunkSize)).take chunk.data.length =
          (data.drop (index * chunkSize)).take chunk.data.length) ∧
      ∀ position, (data.length ≤ position ∨ position / chunkSize ∉ indices) →
        (Overlay.spliceAll 0 buffer (placed data chunkSize indices)).getD position 0 =
          buffer.getD position 0 := by
  have count : (metadata data chunkSize).length = data.length ⌈/⌉ chunkSize := by
    rw [length_metadata, length_slices, Nat.ceilDiv_eq_add_pred_div]
  refine ⟨rfl, count, ?_, fun index entry found => ?_, ?_, fun indices buffer =>
    ⟨fun index listed chunk found => ?_, fun position outside =>
      spliceAll_placed_of_not_mem positive outside⟩⟩
  · rw [split, List.length_map, length_slices, Nat.ceilDiv_eq_add_pred_div]
  · rw [metadata_getElem? positive, Option.ite_none_right_eq_some] at found
    obtain ⟨inside, made⟩ := found
    obtain rfl := Option.some.inj made
    have len := metaOf_len small data index
    refine ⟨_, by rw [split_chunks_getElem? positive, if_pos inside], rfl, rfl,
      (sum_len_take positive small inside).symm, ?_, ?_, fun more => ?_⟩
    · rw [len, List.length_take, List.length_drop]
    · rw [len]
      omega
    · rw [len, min_eq_left (le_of_lt_length positive more)]
  · rw [split, List.map_map]
    exact (congrArg List.flatten (List.map_id _)).trans (flatten_slices positive data)
  · rw [split_chunks_getElem? positive, Option.ite_none_right_eq_some] at found
    obtain ⟨inside, made⟩ := found
    obtain rfl := Option.some.inj made
    refine List.ext_getElem? fun place => ?_
    rw [List.getElem?_take, List.getElem?_take]
    dsimp only
    split
    · rename_i within
      rw [List.length_take, List.length_drop] at within
      have slice : (index * chunkSize + place) / chunkSize = index :=
        (Nat.div_eq_iff positive).mpr ⟨Nat.le_add_right .., by omega⟩
      rw [List.getElem?_drop, List.getElem?_drop]
      exact spliceAll_placed_of_mem positive (by omega) (slice.symm ▸ listed)
    · rfl

omit [Blake3] in
theorem split_tiles_sample :
    let _ : Blake3 := ⟨fun _ => ⟨List.replicate 32 0, rfl⟩⟩
    (metadata [1, 2, 3] 2).length = 3 ⌈/⌉ 2 ∧
      ((split [1, 2, 3] 2).2.map Chunk.data).flatten = [1, 2, 3] := by
  intro zero
  have tiles := split_tiles [1, 2, 3] (show 0 < 2 by decide) (by decide)
  exact ⟨tiles.2.1, tiles.2.2.2.2.1⟩

end P2Sync.Chunk
