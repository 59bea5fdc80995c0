import P2Sync.Net.Fetch

/-!
# The loop over the chunks of an answer

The loop of `fetch_and_apply` as the machine runs it: products and sums of machine words are
checked or may overflow, a slice may be out of range, and a copy may be of the wrong length.
Whatever a peer answers, none of this happens, and the loop is the one of the model
(`applyLoop_eq`). What it leaves is known byte by byte (`applyLoop_exact`).

Memory is not limited here; the loop never asks for a buffer that is longer than both the
old file and the size limit.
-/

set_option autoImplicit false

namespace P2Sync

/-- How the language stops a thread that goes wrong. -/
inductive Panic where
  | overflow
  | outOfRange
  | lengthMismatch
deriving DecidableEq

/-- `usize::checked_mul`. -/
def checkedMul (left right : Nat) : Option Nat :=
  if left * right < 2 ^ 64 then some (left * right) else none

/-- `usize::checked_add`. -/
def checkedAdd (left right : Nat) : Option Nat :=
  if left + right < 2 ^ 64 then some (left + right) else none

/-- The sum of two machine words, as `+` computes it. -/
def addWords (left right : Nat) : Except Panic Nat :=
  if left + right < 2 ^ 64 then .ok (left + right) else .error .overflow

/-- `Vec::resize`. -/
def resize (buffer : Bytes) (length : Nat) (value : UInt8) : Bytes :=
  buffer.take length ++ List.replicate (length - buffer.length) value

/-- `buffer[start..stop].copy_from_slice(data)`. -/
def copyFromSlice (buffer : Bytes) (start stop : Nat) (data : Bytes) : Except Panic Bytes :=
  if start ≤ stop ∧ stop ≤ buffer.length then
    if stop - start = data.length then .ok (buffer.take start ++ data ++ buffer.drop stop)
    else .error .lengthMismatch
  else .error .outOfRange

/-- The loop of `fetch_and_apply` over the chunks of an answer; `none` is its early return. -/
def applyLoop (storage : StorageConfig) : List (Nat × Bytes) → Bytes → Except Panic (Option Bytes)
  | [], fileData => .ok (some fileData)
  | (chunkIdx, data) :: rest, fileData =>
      if storage.maxChunkIndex ≤ chunkIdx then applyLoop storage rest fileData
      else match checkedMul chunkIdx storage.chunkSize with
      | none => applyLoop storage rest fileData
      | some offset =>
          match checkedAdd offset data.length with
          | none => applyLoop storage rest fileData
          | some requiredLen =>
              if storage.maxFileSize < requiredLen then .ok none
              else do
                let fileData :=
                  if fileData.length < requiredLen then resize fileData requiredLen 0
                  else fileData
                let stop ← addWords offset data.length
                let fileData ← copyFromSlice fileData offset stop data
                applyLoop storage rest fileData

/-- A piece is copied into a buffer that was made long enough for it. -/
theorem copyFromSlice_resized {buffer data : Bytes} {offset : Nat} :
    copyFromSlice
        (if buffer.length < offset + data.length then resize buffer (offset + data.length) 0
          else buffer) offset (offset + data.length) data =
      .ok (Overlay.splice 0 buffer offset data) := by
  have grown : (if buffer.length < offset + data.length then
      resize buffer (offset + data.length) 0 else buffer) =
        if buffer.length < offset + data.length then
          buffer ++ List.replicate (offset + data.length - buffer.length) 0 else buffer := by
    split
    · rename_i short
      rw [resize, List.take_of_length_le (Nat.le_of_lt short)]
    · rfl
  have long : offset + data.length ≤ (if buffer.length < offset + data.length then
      buffer ++ List.replicate (offset + data.length - buffer.length) (0 : UInt8)
        else buffer).length := by
    split
    · rw [List.length_append, List.length_replicate]
      omega
    · omega
  rw [grown, copyFromSlice, if_pos ⟨Nat.le_add_right _ _, long⟩,
    if_pos (Nat.add_sub_cancel_left _ _), Overlay.splice]

/-- **The loop never stops with an error**, and computes what the model says. -/
theorem applyLoop_eq (storage : StorageConfig) (chunks : List (Nat × Bytes)) (fileData : Bytes) :
    applyLoop storage chunks fileData = .ok (applyChunks storage chunks fileData) := by
  induction chunks generalizing fileData with
  | nil => rfl
  | cons chunk rest ih =>
      obtain ⟨chunkIdx, data⟩ := chunk
      rw [applyLoop, applyChunks]
      dsimp only
      split
      · exact ih fileData
      · rw [checkedMul]
        by_cases wide : 2 ^ 64 ≤ chunkIdx * storage.chunkSize
        · rw [if_neg (Nat.not_lt_of_le wide), if_pos wide]
          exact ih fileData
        · rw [if_pos (Nat.lt_of_not_le wide), if_neg wide]
          dsimp only
          rw [checkedAdd]
          by_cases long : 2 ^ 64 ≤ chunkIdx * storage.chunkSize + data.length
          · rw [if_neg (Nat.not_lt_of_le long), if_pos long]
            exact ih fileData
          · rw [if_pos (Nat.lt_of_not_le long), if_neg long]
            dsimp only
            split
            · rfl
            · rw [addWords, if_pos (Nat.lt_of_not_le long)]
              exact (congrArg (fun copied => copied.bind (applyLoop storage rest))
                copyFromSlice_resized).trans (ih _)

/-- **What the loop leaves, whatever a peer answers**: nothing, if some chunk that is not
skipped ends past the size limit; otherwise a content with the greatest length asked for,
each byte of which is the one of the last chunk over it, or the old one, or zero. -/
theorem applyLoop_exact (storage : StorageConfig) (chunks : List (Nat × Bytes)) (old : Bytes) :
    ∃ result, applyLoop storage chunks old = .ok result ∧
      ((∃ piece ∈ keptPieces storage chunks, storage.maxFileSize < piece.1 + piece.2.length) →
        result = none) ∧
      ((∀ piece ∈ keptPieces storage chunks, piece.1 + piece.2.length ≤ storage.maxFileSize) →
        ∃ written, result = some written ∧
          written.length = max old.length (Overlay.reach (keptPieces storage chunks)) ∧
          written.length ≤ max old.length storage.maxFileSize ∧
          ∀ position < written.length, written[position]? = some
            ((Overlay.cover position (keptPieces storage chunks)).getD (old.getD position 0))) := by
  refine ⟨_, applyLoop_eq storage chunks old, ?_, fun small => ?_⟩
  · rintro ⟨piece, kept, large⟩
    cases applied : applyChunks storage chunks old with
    | none => rfl
    | some written =>
        have small := (applyChunks_eq_some_iff.mp applied).1 piece kept
        omega
  · have applied : applyChunks storage chunks old =
        some (Overlay.spliceAll 0 old (keptPieces storage chunks)) :=
      applyChunks_eq_some_iff.mpr ⟨small, rfl⟩
    refine ⟨_, applied, Overlay.length_spliceAll .., ?_, fun position inside => ?_⟩
    · rw [Overlay.length_spliceAll]
      exact max_le_max_left _ (Overlay.reach_le small)
    · rw [List.getElem?_eq_getElem inside, ← List.getD_eq_getElem _ 0 inside,
        Overlay.getD_spliceAll]

end P2Sync
