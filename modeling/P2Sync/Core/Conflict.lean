import P2Sync.Core.VectorClock

/-!
# Conflict resolution

`resolve` compares the recorded clock of a path with the clock of an incoming version.
An ordered pair is settled by the order; a concurrent pair is a conflict, and its loser
is the version with the older timestamp, or, for equal timestamps, the one on the side
of the lower peer (`resolve_accept_iff`, `resolve_reject_iff`, `resolve_conflict_iff`).

The name of a backup is made from the path string by inserting a mark at its last dot,
wherever in the string that dot is (`conflictFilename`). For a path that `safePath`
accepts the result is accepted too, names another file and carries the mark
(`safeRel_conflictFilename`).
-/

set_option autoImplicit false

namespace P2Sync

/-! ## Resolution -/

/-- Conflict resolution outcome. -/
inductive Resolution where
  | accept
  | reject
  | conflict (loserPeer : PeerId)
deriving DecidableEq

/-- The tie-break between concurrent versions: last writer, then the higher peer. -/
def remoteWins (localTimestamp remoteTimestamp : Nat) (remotePeer localPeer : PeerId) : Bool :=
  remoteTimestamp > localTimestamp ||
    (remoteTimestamp == localTimestamp && remotePeer > localPeer)

/-- Decide how to resolve a file modification from a remote peer. -/
def resolve (localClock remoteClock : VectorClock) (localTimestamp remoteTimestamp : Nat)
    (remotePeer localPeer : PeerId) : Resolution :=
  match localClock.compare remoteClock with
  | .before => .accept
  | .after => .reject
  | .equal => .reject
  | .concurrent =>
      if remoteWins localTimestamp remoteTimestamp remotePeer localPeer then
        .conflict localPeer
      else .conflict remotePeer

theorem remoteWins_of_lt {earlier later : Nat} (older : earlier < later) (remotePeer localPeer) :
    remoteWins earlier later remotePeer localPeer = true := by
  simp [remoteWins, older]

theorem remoteWins_of_gt {earlier later : Nat} (older : earlier < later) (remotePeer localPeer) :
    remoteWins later earlier remotePeer localPeer = false := by
  simp [remoteWins, older.le, older.ne]

theorem remoteWins_tie (timestamp : Nat) (remotePeer localPeer) :
    remoteWins timestamp timestamp remotePeer localPeer = decide (localPeer < remotePeer) := by
  simp [remoteWins]

/-- Of two different peers exactly one wins. -/
theorem remoteWins_comm {first second : Nat} {one other : PeerId} (apart : one ≠ other) :
    remoteWins first second other one = !remoteWins second first one other := by
  rcases lt_trichotomy first second with older | rfl | newer
  · rw [remoteWins_of_lt older, remoteWins_of_gt older, Bool.not_false]
  · rw [remoteWins_tie, remoteWins_tie, ← decide_not, decide_eq_decide, not_lt]
    exact ⟨le_of_lt, fun below => lt_of_le_of_ne below apart⟩
  · rw [remoteWins_of_gt newer, remoteWins_of_lt newer, Bool.not_true]

section Resolve

variable {localClock remoteClock : VectorClock} {localTimestamp remoteTimestamp : Nat}
  {remotePeer localPeer : PeerId}

theorem resolve_accept_iff :
    resolve localClock remoteClock localTimestamp remoteTimestamp remotePeer localPeer = .accept ↔
      localClock.counter < remoteClock.counter := by
  rw [← VectorClock.compare_before_iff, resolve]
  cases localClock.compare remoteClock <;> simp
  split <;> simp

theorem resolve_reject_iff :
    resolve localClock remoteClock localTimestamp remoteTimestamp remotePeer localPeer = .reject ↔
      remoteClock.counter ≤ localClock.counter := by
  have split : remoteClock.counter ≤ localClock.counter ↔
      localClock.compare remoteClock = .after ∨ localClock.compare remoteClock = .equal := by
    rw [VectorClock.compare_after_iff, VectorClock.compare_equal_iff, le_iff_lt_or_eq,
      @eq_comm _ remoteClock.counter]
  rw [split, resolve]
  cases localClock.compare remoteClock <;> simp
  split <;> simp

/-- A conflict is a concurrent pair; the tie-break names the loser. -/
theorem resolve_conflict_iff {loser : PeerId} :
    resolve localClock remoteClock localTimestamp remoteTimestamp remotePeer localPeer =
        .conflict loser ↔
      localClock.compare remoteClock = .concurrent ∧
        loser = if remoteWins localTimestamp remoteTimestamp remotePeer localPeer then localPeer
          else remotePeer := by
  rw [resolve]
  cases localClock.compare remoteClock <;> simp
  split <;> simp [eq_comm]

end Resolve

/-- Tombstone marking a deleted file. -/
structure Tombstone where
  path : Str
  deletedBy : PeerId
  clock : VectorClock
  timestamp : Nat
deriving DecidableEq

/-- Whether a tombstone has expired, given the time and a lifetime in seconds. -/
def Tombstone.isExpired (tombstone : Tombstone) (now ttlSecs : Nat) : Bool :=
  now - tombstone.timestamp > ttlSecs

/-! ## Backup names -/

/-- A byte as two lower case hexadecimal digits. -/
def hexByte (byte : UInt8) : Str :=
  [Nat.digitChar (byte.toNat / 16), Nat.digitChar (byte.toNat % 16)]

/-- The hexadecimal form of a peer identifier. -/
def peerIdHex (peer : PeerId) : Str := peer.val.flatMap hexByte

/-- `str::rsplit_once('.')`: the text before and after the last dot. -/
def rsplitOnceDot : Str → Option (Str × Str)
  | [] => none
  | c :: rest =>
      match rsplitOnceDot rest with
      | some (base, ext) => some (c :: base, ext)
      | none => if c = '.' then some ([], rest) else none

/-- The mark by which backups are recognised. -/
def conflictMark : Str := ['.', 'c', 'o', 'n', 'f', 'l', 'i', 'c', 't', '.']

/-- The first eight hexadecimal digits of a peer. -/
def shortHex (peer : PeerId) : Str :=
  let hex := peerIdHex peer
  hex.take (min 8 hex.length)

/-- Format a conflict backup filename. -/
def conflictFilename (original : Str) (peer : PeerId) : Str :=
  match rsplitOnceDot original with
  | some (base, ext) => base ++ (conflictMark ++ shortHex peer) ++ '.' :: ext
  | none => original ++ (conflictMark ++ shortHex peer)

example : conflictFilename ['f', '.', 't'] ⟨[0xab, 0, 0, 0, 0, 0, 0, 0], rfl⟩ =
    ['f'] ++ conflictMark ++ ['a', 'b', '0', '0', '0', '0', '0', '0'] ++ ['.', 't'] := by decide

theorem rsplitOnceDot_eq_none_iff {text : Str} : rsplitOnceDot text = none ↔ '.' ∉ text := by
  induction text with
  | nil => simp [rsplitOnceDot]
  | cons c rest ih =>
      rw [rsplitOnceDot, List.mem_cons, not_or, ← ih]
      cases rsplitOnceDot rest <;> simp [eq_comm]

/-- **The cut is at the last dot.** -/
theorem rsplitOnceDot_eq_some_iff {text base ext : Str} :
    rsplitOnceDot text = some (base, ext) ↔ text = base ++ '.' :: ext ∧ '.' ∉ ext := by
  constructor
  · intro found
    induction text generalizing base with
    | nil => simp [rsplitOnceDot] at found
    | cons c rest ih =>
        rw [rsplitOnceDot] at found
        cases tail : rsplitOnceDot rest with
        | some pair =>
            obtain ⟨base', ext'⟩ := pair
            simp only [tail, Option.some.injEq, Prod.mk.injEq] at found
            obtain ⟨rfl, rfl⟩ := found
            obtain ⟨split, noDot⟩ := ih tail
            exact ⟨congrArg (c :: ·) split, noDot⟩
        | none =>
            simp only [tail, Option.ite_none_right_eq_some, Option.some.injEq,
              Prod.mk.injEq] at found
            obtain ⟨rfl, rfl, rfl⟩ := found
            exact ⟨rfl, rsplitOnceDot_eq_none_iff.mp tail⟩
  · rintro ⟨rfl, noDot⟩
    induction base with
    | nil => rw [List.nil_append, rsplitOnceDot, rsplitOnceDot_eq_none_iff.mpr noDot, if_pos rfl]
    | cons c rest ih => rw [List.cons_append, rsplitOnceDot, ih]

theorem digitChar_ne_slash {digit : Nat} (hexadecimal : digit < 16) :
    Nat.digitChar digit ≠ '/' := by
  revert digit
  decide

theorem slash_not_mem_mark (peer : PeerId) : '/' ∉ conflictMark ++ shortHex peer := by
  intro member
  rcases List.mem_append.mp member with inMark | inHex
  · exact absurd inMark (by decide)
  · obtain ⟨byte, _, digit⟩ := List.mem_flatMap.mp (List.mem_of_mem_take inHex)
    have small : byte.toNat < 256 := byte.toNat_lt
    rcases List.mem_cons.mp digit with here | later
    · exact digitChar_ne_slash (by omega) here.symm
    · exact digitChar_ne_slash (by omega) (List.mem_singleton.mp later).symm

/-- **Where the mark goes**: into the last segment with a dot, or into the last segment if there
is no dot. -/
theorem conflictFilename_site (original : Str) (peer : PeerId) :
    ∃ before old marked later,
      segments original = before ++ old :: later ∧
        segments (conflictFilename original peer) = before ++ marked :: later ∧
          conflictMark <:+: marked ∧ old.length < marked.length ∧
            ('.' ∈ old ∧ (∀ segment ∈ later, '.' ∉ segment) ∨ later = [] ∧ '.' ∉ original) := by
  have markSegments := segments_of_no_slash (slash_not_mem_mark peer)
  cases found : rsplitOnceDot original with
  | some pair =>
      obtain ⟨base, ext⟩ := pair
      obtain ⟨whole, noDot⟩ := rsplitOnceDot_eq_some_iff.mp found
      obtain ⟨before, last, baseSegments⟩ :=
        List.eq_nil_or_concat' (segments base) |>.resolve_left (segments_ne_nil base)
      obtain ⟨first, later, extSegments⟩ := List.exists_cons_of_ne_nil (segments_ne_nil ext)
      have dotSegments := segments_char (by decide : '.' ≠ '/') extSegments
      have backSegments := @segments_append _ _ _ _ [] _ markSegments dotSegments
      refine ⟨before, last ++ '.' :: first, last ++ (conflictMark ++ shortHex peer ++ '.' :: first),
        later, ?_, ?_, ?_, ?_, Or.inl ⟨?_, fun segment member dot => ?_⟩⟩
      · rw [whole]
        exact segments_append baseSegments dotSegments
      · rw [conflictFilename, found]
        simp only [List.append_assoc] at backSegments ⊢
        exact segments_append baseSegments backSegments
      · exact ⟨last, shortHex peer ++ '.' :: first, by simp⟩
      · simp [conflictMark]
        omega
      · exact List.mem_append_right _ List.mem_cons_self
      · exact noDot (mem_of_mem_segments (extSegments ▸ List.mem_cons_of_mem _ member) dot)
  | none =>
      obtain ⟨before, last, wholeSegments⟩ :=
        List.eq_nil_or_concat' (segments original) |>.resolve_left (segments_ne_nil original)
      refine ⟨before, last, last ++ (conflictMark ++ shortHex peer), [], wholeSegments, ?_, ?_, ?_,
        Or.inr ⟨rfl, rsplitOnceDot_eq_none_iff.mp found⟩⟩
      · rw [conflictFilename, found]
        exact segments_append wholeSegments markSegments
      · exact ⟨last, shortHex peer, by simp⟩
      · simp [conflictMark]

/-! ## Backups of accepted paths -/

theorem infix_intercalate {separator part : Str} {parts : List Str} (member : part ∈ parts) :
    part <:+: separator.intercalate parts := by
  induction parts with
  | nil => exact absurd member List.not_mem_nil
  | cons first rest ih =>
      cases rest with
      | nil =>
          obtain rfl := List.mem_singleton.mp member
          rw [List.intercalate_singleton]
      | cons next more =>
          rw [List.intercalate_cons_cons]
          rcases List.mem_cons.mp member with rfl | later
          · exact ⟨[], separator ++ separator.intercalate (next :: more), by simp⟩
          · exact (ih later).trans (List.suffix_append _ _).isInfix

theorem namedSegments_append (front back : List Str) :
    namedSegments (front ++ back) = namedSegments front ++ namedSegments back :=
  List.filter_append ..

/-- A segment that carries the mark names something and is not `..`. -/
theorem marked_segment {segment : Str} (mark : conflictMark <:+: segment) :
    segment ≠ [] ∧ segment ≠ ['.'] ∧ segment ≠ ['.', '.'] := by
  have long : 10 ≤ segment.length := mark.length_le
  refine ⟨?_, ?_, ?_⟩ <;> rintro rfl <;> exact absurd long (by decide)

/-- **The backup of an accepted path** is an accepted path, another one, and carries the
mark. -/
theorem safeRel_conflictFilename {original : Str} {names : RelPath} (peer : PeerId)
    (accepted : safeRel original = some names) :
    ∃ backup, safeRel (conflictFilename original peer) = some backup ∧ backup ≠ names ∧
      conflictMark <:+: backup.toStringLossy := by
  obtain ⟨before, old, marked, later, parts, backupParts, mark, longer, _⟩ :=
    conflictFilename_site original peer
  obtain ⟨relative, leading, noParent, rfl⟩ := safeRel_eq_some_iff.mp accepted
  obtain ⟨notEmpty, notDot, notParent⟩ := marked_segment mark
  have named : namedSegments (before ++ marked :: later) =
      namedSegments before ++ marked :: namedSegments later := by
    rw [namedSegments_append, namedSegments, namedSegments, namedSegments,
      List.filter_cons_of_pos (by simp [notEmpty, notDot])]
  refine ⟨(namedSegments (before ++ marked :: later)).map OsStr.utf8,
    safeRel_eq_some_iff.mpr ⟨?_, ?_, ?_, by rw [backupParts]⟩, ?_, ?_⟩
  · rw [parts] at leading
    cases before with
    | nil =>
        rw [Bool.eq_false_iff, Ne, isAbsolute_iff_segments backupParts]
        exact fun absolute => notEmpty absolute.1
    | cons first rest =>
        rw [Bool.eq_false_iff, Ne, isAbsolute_iff_segments backupParts]
        rw [Bool.eq_false_iff, Ne, isAbsolute_iff_segments parts] at relative
        exact fun absolute => relative ⟨absolute.1, by simp⟩
  · rw [parts] at leading
    rw [backupParts]
    cases before with
    | nil => simpa using notDot
    | cons first rest => exact leading
  · rw [backupParts]
    rw [parts] at noParent
    intro member
    rcases List.mem_append.mp member with early | late
    · exact noParent (List.mem_append_left _ early)
    · rcases List.mem_cons.mp late with here | after
      · exact notParent here.symm
      · exact noParent (List.mem_append_right _ (List.mem_cons_of_mem _ after))
  · intro same
    have texts := (List.map_injective_iff.mpr fun _ _ equal => OsStr.utf8.inj equal) same
    rw [parts, named, namedSegments_append] at texts
    have rest := List.append_cancel_left texts
    by_cases kept : old = [] ∨ old = ['.']
    · have dropped : namedSegments (old :: later) = namedSegments later := by
        rcases kept with rfl | rfl <;> rfl
      rw [dropped] at rest
      exact absurd (congrArg List.length rest) (by simp)
    · rw [not_or] at kept
      have keep : namedSegments (old :: later) = old :: namedSegments later :=
        List.filter_cons_of_pos (by simp [kept.1, kept.2])
      rw [keep] at rest
      exact absurd (List.cons.inj rest).1 (fun equal => (equal ▸ longer).ne rfl)
  · refine mark.trans ?_
    rw [RelPath.toStringLossy, List.map_map]
    refine infix_intercalate (List.mem_map.mpr ⟨marked, ?_, rfl⟩)
    rw [named]
    exact List.mem_append_right _ List.mem_cons_self

end P2Sync
