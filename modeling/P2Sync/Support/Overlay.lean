import Mathlib.Data.List.Basic
import Mathlib.Data.List.GetD
import Mathlib.Order.MinMax

/-!
# Writing pieces over a list

A buffer is patched by writing a piece of data at an offset; the buffer grows, padded
with a filler, when the piece ends past its end. A list of pieces is written in order,
so a later piece wins over an earlier one.

The result is described position by position. Its length is the greatest of the old
length and the ends of the pieces (`length_spliceAll`), and each position holds what the
last piece covering it says, or the old value, or the filler (`getD_spliceAll`).
-/

set_option autoImplicit false

namespace P2Sync.Overlay

universe u

variable {α : Type u}

/-- Write `data` at `offset`, growing the buffer with the filler when needed. -/
def splice (filler : α) (buffer : List α) (offset : Nat) (data : List α) : List α :=
  let grown :=
    if buffer.length < offset + data.length then
      buffer ++ List.replicate (offset + data.length - buffer.length) filler
    else buffer
  grown.take offset ++ data ++ grown.drop (offset + data.length)

/-- Write the pieces in order. -/
def spliceAll (filler : α) (buffer : List α) (pieces : List (Nat × List α)) : List α :=
  pieces.foldl (fun buffer piece => splice filler buffer piece.1 piece.2) buffer

/-- The greatest end of a piece. -/
def reach : List (Nat × List α) → Nat
  | [] => 0
  | (offset, data) :: rest => max (offset + data.length) (reach rest)

/-- What the last piece that covers a position holds there. -/
def cover (position : Nat) : List (Nat × List α) → Option α
  | [] => none
  | (offset, data) :: rest =>
      match cover position rest with
      | some value => some value
      | none => if offset ≤ position then data[position - offset]? else none

theorem le_reach {pieces : List (Nat × List α)} {piece : Nat × List α} (member : piece ∈ pieces) :
    piece.1 + piece.2.length ≤ reach pieces := by
  induction pieces with
  | nil => exact absurd member List.not_mem_nil
  | cons first rest ih =>
      rcases List.mem_cons.mp member with rfl | later
      · exact le_max_left _ _
      · exact (ih later).trans (le_max_right _ _)

theorem reach_le {pieces : List (Nat × List α)} {bound : Nat}
    (small : ∀ piece ∈ pieces, piece.1 + piece.2.length ≤ bound) : reach pieces ≤ bound := by
  induction pieces with
  | nil => exact Nat.zero_le bound
  | cons piece rest ih =>
      rw [List.forall_mem_cons] at small
      exact max_le small.1 (ih small.2)

@[simp] theorem spliceAll_nil (filler : α) (buffer : List α) :
    spliceAll filler buffer [] = buffer := rfl

theorem spliceAll_cons (filler : α) (buffer : List α) (piece : Nat × List α)
    (rest : List (Nat × List α)) :
    spliceAll filler buffer (piece :: rest) =
      spliceAll filler (splice filler buffer piece.1 piece.2) rest := rfl

theorem length_splice (filler : α) (buffer : List α) (offset : Nat) (data : List α) :
    (splice filler buffer offset data).length = max buffer.length (offset + data.length) := by
  rw [splice]
  split
  · simp only [List.length_append, List.length_take, List.length_drop, List.length_replicate]
    omega
  · simp only [List.length_append, List.length_take, List.length_drop]
    omega

theorem getD_append_replicate (filler : α) (buffer : List α) (count position : Nat) :
    (buffer ++ List.replicate count filler).getD position filler =
      buffer.getD position filler := by
  simp only [List.getD_eq_getElem?_getD]
  by_cases inside : position < buffer.length
  · rw [List.getElem?_append_left inside]
  · have outside := Nat.le_of_not_lt inside
    rw [List.getElem?_append_right outside, List.getElem?_eq_none outside,
      List.getElem?_replicate]
    split <;> rfl

/-- A written position holds the data, every other position what it held. -/
theorem getD_splice (filler : α) (buffer : List α) (offset : Nat) (data : List α)
    (position : Nat) :
    (splice filler buffer offset data).getD position filler =
      if offset ≤ position ∧ position < offset + data.length then
        data.getD (position - offset) filler
      else buffer.getD position filler := by
  have within : ∀ grown : List α, offset + data.length ≤ grown.length →
      (grown.take offset ++ data ++ grown.drop (offset + data.length)).getD position filler =
        if offset ≤ position ∧ position < offset + data.length then
          data.getD (position - offset) filler
        else grown.getD position filler := by
    intro grown long
    simp only [List.getD_eq_getElem?_getD]
    rcases Nat.lt_or_ge position offset with early | late
    · rw [if_neg (by omega), List.append_assoc,
        List.getElem?_append_left (by rw [List.length_take]; omega),
        List.getElem?_take_of_lt early]
    · rw [List.append_assoc, List.getElem?_append_right (by rw [List.length_take]; omega),
        List.length_take, Nat.min_eq_left (by omega)]
      rcases Nat.lt_or_ge position (offset + data.length) with covered | past
      · rw [if_pos ⟨late, covered⟩, List.getElem?_append_left (by omega)]
      · rw [if_neg (by omega), List.getElem?_append_right (by omega), List.getElem?_drop]
        congr 2
        omega
  rw [splice]
  split
  · rw [within _ (by simp; omega), getD_append_replicate]
  · exact within _ (by omega)

theorem length_spliceAll (filler : α) (buffer : List α) (pieces : List (Nat × List α)) :
    (spliceAll filler buffer pieces).length = max buffer.length (reach pieces) := by
  induction pieces generalizing buffer with
  | nil => simp [reach]
  | cons piece rest ih =>
      rw [spliceAll_cons, ih, length_splice, reach, Nat.max_assoc]

/-- **The last piece that covers a position wins; elsewhere the buffer keeps its value.** -/
theorem getD_spliceAll (filler : α) (buffer : List α) (pieces : List (Nat × List α))
    (position : Nat) :
    (spliceAll filler buffer pieces).getD position filler =
      (cover position pieces).getD (buffer.getD position filler) := by
  induction pieces generalizing buffer with
  | nil => rfl
  | cons piece rest ih =>
      obtain ⟨offset, data⟩ := piece
      rw [spliceAll_cons, ih, cover, getD_splice]
      cases cover position rest with
      | some value => rfl
      | none =>
          rw [Option.getD_none]
          by_cases here : offset ≤ position ∧ position < offset + data.length
          · have inside : position - offset < data.length := by omega
            rw [if_pos here, if_pos here.1, List.getElem?_eq_getElem inside, Option.getD_some]
            exact List.getD_eq_getElem _ _ inside
          · rw [if_neg here]
            by_cases late : offset ≤ position
            · rw [if_pos late, List.getElem?_eq_none (by omega), Option.getD_none]
            · rw [if_neg late, Option.getD_none]

/-- A covered position lies below the greatest end. -/
theorem lt_reach_of_cover {position : Nat} {value : α} {pieces : List (Nat × List α)}
    (covered : cover position pieces = some value) : position < reach pieces := by
  induction pieces with
  | nil => exact absurd covered (Option.some_ne_none value).symm
  | cons piece rest ih =>
      obtain ⟨offset, data⟩ := piece
      rw [cover] at covered
      rw [reach, lt_max_iff]
      cases later : cover position rest with
      | some value' => exact Or.inr (ih (by rw [later] at covered ⊢; exact covered))
      | none =>
          simp only [later] at covered
          split at covered
          · obtain ⟨inside, _⟩ := List.getElem?_eq_some_iff.mp covered
            exact Or.inl (by omega)
          · exact absurd covered (Option.some_ne_none value).symm

/-- What a position is covered with is in one of the pieces. -/
theorem exists_piece_of_cover {position : Nat} {value : α} {pieces : List (Nat × List α)}
    (covered : cover position pieces = some value) :
    ∃ piece ∈ pieces, piece.1 ≤ position ∧ piece.2[position - piece.1]? = some value := by
  induction pieces with
  | nil => exact absurd covered (Option.some_ne_none value).symm
  | cons piece rest ih =>
      obtain ⟨offset, data⟩ := piece
      rw [cover] at covered
      cases later : cover position rest with
      | some value' =>
          rw [later] at covered
          obtain ⟨piece, member, holds⟩ := ih (later.trans covered)
          exact ⟨piece, List.mem_cons_of_mem _ member, holds⟩
      | none =>
          simp only [later, Option.ite_none_right_eq_some] at covered
          exact ⟨_, List.mem_cons_self, covered⟩

/-- **A patched buffer holds nothing new**: a value in it is the filler, or the buffer had it
there, or a piece has. -/
theorem value_cases {filler : α} {buffer : List α} {pieces : List (Nat × List α)} {position : Nat}
    {value : α} (found : (spliceAll filler buffer pieces)[position]? = some value) :
    value = filler ∨ buffer[position]? = some value ∨
      ∃ piece ∈ pieces, piece.1 ≤ position ∧ piece.2[position - piece.1]? = some value := by
  have patched := getD_spliceAll filler buffer pieces position
  rw [List.getD_eq_getElem?_getD, found, Option.getD_some] at patched
  cases covered : cover position pieces with
  | some value' =>
      rw [covered, Option.getD_some] at patched
      exact Or.inr (Or.inr (exists_piece_of_cover (patched ▸ covered)))
  | none =>
      rw [covered, Option.getD_none, List.getD_eq_getElem?_getD] at patched
      cases old : buffer[position]? with
      | some value' =>
          rw [old, Option.getD_some] at patched
          exact Or.inr (Or.inl (congrArg some patched.symm))
      | none =>
          rw [old, Option.getD_none] at patched
          exact Or.inl patched

/-- Lists of one length that agree at every position are equal. -/
theorem ext_getD {filler : α} {left right : List α} (lengths : left.length = right.length)
    (same : ∀ position < left.length, left.getD position filler = right.getD position filler) :
    left = right := by
  refine List.ext_getElem lengths fun position inLeft inRight => ?_
  have values := same position inLeft
  rwa [List.getD_eq_getElem _ _ inLeft, List.getD_eq_getElem _ _ inRight] at values

/-- The list has the greatest of the old length and the ends of the pieces, and at every
position the last covering value, or the old one, or the filler. -/
def Assembles (filler : α) (buffer : List α) (pieces : List (Nat × List α)) (whole : List α) :
    Prop :=
  whole.length = max buffer.length (reach pieces) ∧
    ∀ position < whole.length,
      whole.getD position filler = (cover position pieces).getD (buffer.getD position filler)

theorem reach_le_iff {target : Nat} {pieces : List (Nat × List α)} :
    reach pieces ≤ target ↔ ∀ piece ∈ pieces, piece.1 + piece.2.length ≤ target :=
  ⟨fun within _ member => (le_reach member).trans within, reach_le⟩

/-- The greatest end is the end of a piece, unless there are none. -/
theorem exists_reach {pieces : List (Nat × List α)} :
    reach pieces = 0 ∨ ∃ piece ∈ pieces, piece.1 + piece.2.length = reach pieces := by
  induction pieces with
  | nil => exact Or.inl rfl
  | cons piece rest ih =>
      right
      rw [reach]
      rcases le_total (reach rest) (piece.1 + piece.2.length) with less | less
      · exact ⟨piece, List.mem_cons_self, (max_eq_left less).symm⟩
      · rw [max_eq_right less]
        rcases ih with none | ⟨last, member, ends⟩
        · exact ⟨piece, List.mem_cons_self, by omega⟩
        · exact ⟨last, List.mem_cons_of_mem _ member, ends⟩

/-- A patched buffer is so long when it and the pieces end within that, and one of them there. -/
theorem eq_max_reach_iff {length target : Nat} {pieces : List (Nat × List α)} :
    target = max length (reach pieces) ↔
      length ≤ target ∧ (∀ piece ∈ pieces, piece.1 + piece.2.length ≤ target) ∧
        (length = target ∨ ∃ piece ∈ pieces, piece.1 + piece.2.length = target) := by
  rw [← reach_le_iff]
  constructor
  · rintro rfl
    refine ⟨le_max_left _ _, le_max_right _ _, ?_⟩
    rcases le_total (reach pieces) length with short | long
    · exact Or.inl (max_eq_left short).symm
    · rw [max_eq_right long]
      refine exists_reach.imp_left fun none => ?_
      omega
  · rintro ⟨within, ends, rfl | ⟨piece, member, rfl⟩⟩
    · exact (max_eq_left ends).symm
    · rw [max_eq_right (within.trans (le_reach member))]
      exact le_antisymm (le_reach member) ends

/-- **Writing the pieces gives the list that is assembled from them.** -/
theorem spliceAll_eq_iff {filler : α} {buffer whole : List α} {pieces : List (Nat × List α)} :
    spliceAll filler buffer pieces = whole ↔ Assembles filler buffer pieces whole := by
  constructor
  · rintro rfl
    exact ⟨length_spliceAll .., fun position _ => getD_spliceAll ..⟩
  · rintro ⟨length, values⟩
    refine (@ext_getD _ filler _ _ (length.trans (length_spliceAll ..).symm)
      fun position inside => ?_).symm
    rw [values position inside, getD_spliceAll]

/-- What the first elements of a patched list are. -/
theorem take_spliceAll_eq_iff {filler : α} {buffer whole : List α} {pieces : List (Nat × List α)}
    {count : Nat} :
    (spliceAll filler buffer pieces).take count = whole ↔
      whole.length = min count (max buffer.length (reach pieces)) ∧
        ∀ position < whole.length, whole.getD position filler =
          (cover position pieces).getD (buffer.getD position filler) := by
  have values : ∀ position < count, ((spliceAll filler buffer pieces).take count).getD position
      filler = (cover position pieces).getD (buffer.getD position filler) := by
    intro position early
    rw [← getD_spliceAll, List.getD_eq_getElem?_getD, List.getElem?_take_of_lt early,
      List.getD_eq_getElem?_getD]
  constructor
  · rintro rfl
    refine ⟨by rw [List.length_take, length_spliceAll], fun position inside => ?_⟩
    rw [List.length_take] at inside
    exact values position (by omega)
  · rintro ⟨length, same⟩
    refine (@ext_getD _ filler _ _ ?_ fun position inside => ?_).symm
    · rw [length, List.length_take, length_spliceAll]
    · rw [same position inside, values position (by omega)]

/-- **A buffer whose every position is covered leaves no trace**: the pieces alone give the
same. -/
theorem spliceAll_of_covered {filler : α} {buffer : List α} {pieces : List (Nat × List α)}
    (covered : ∀ position < buffer.length, (cover position pieces).isSome = true) :
    spliceAll filler buffer pieces = spliceAll filler [] pieces := by
  have short : buffer.length ≤ reach pieces := by
    cases size : buffer.length with
    | zero => exact Nat.zero_le _
    | succ last =>
        obtain ⟨value, found⟩ := Option.isSome_iff_exists.mp (covered last (by omega))
        exact lt_reach_of_cover found
  refine @ext_getD _ filler _ _ ?_ fun position _ => ?_
  · rw [length_spliceAll, length_spliceAll, max_eq_right short, List.length_nil,
      max_eq_right (Nat.zero_le _)]
  · rw [getD_spliceAll, getD_spliceAll]
    by_cases inside : position < buffer.length
    · obtain ⟨value, found⟩ := Option.isSome_iff_exists.mp (covered position inside)
      rw [found, Option.getD_some, Option.getD_some]
    · rw [List.getD_eq_default _ _ (Nat.le_of_not_lt inside), List.getD_nil]

end P2Sync.Overlay
