import P2Sync.Core.PeerIdMap

/-!
# The lattice of clocks

A clock that another one is `before` or `equal` to has seen at least as much. This is the
pointwise order of the counters (`beforeOrEqual_iff`), a missing counter being zero, and
`merge` is the least clock above two others (`compare_merge_lattice`).

A local edit merges what the peer has heard of into its clock and counts one more. The clock
it makes is after both, unless the addition wraps: a clock from the network can hold any
counter, also the largest one under the peer's own key (`edited_after_iff`).
-/

set_option autoImplicit false

namespace P2Sync

namespace VectorClock

/-! ## The order -/

/-- `compare` answers `before` or `equal`. -/
def BeforeOrEqual (clock other : VectorClock) : Prop :=
  clock.compare other = .before ∨ clock.compare other = .equal

variable {clock other third : VectorClock}

/-- **The order of clocks is the order of their counters.** -/
theorem beforeOrEqual_iff : BeforeOrEqual clock other ↔ clock.counter ≤ other.counter := by
  rw [BeforeOrEqual, compare_before_iff, compare_equal_iff, le_iff_lt_or_eq]

theorem beforeOrEqual_refl (clock : VectorClock) : BeforeOrEqual clock clock :=
  beforeOrEqual_iff.mpr le_rfl

theorem BeforeOrEqual.trans (below : BeforeOrEqual clock other)
    (above : BeforeOrEqual other third) : BeforeOrEqual clock third :=
  beforeOrEqual_iff.mpr ((beforeOrEqual_iff.mp below).trans (beforeOrEqual_iff.mp above))

theorem BeforeOrEqual.antisymm (below : BeforeOrEqual clock other)
    (above : BeforeOrEqual other clock) : clock.compare other = .equal :=
  compare_equal_iff.mpr (le_antisymm (beforeOrEqual_iff.mp below) (beforeOrEqual_iff.mp above))

theorem compare_after_comm : clock.compare other = .after ↔ other.compare clock = .before := by
  rw [compare_after_iff, compare_before_iff]

/-! ## The join -/

theorem beforeOrEqual_merge_left (clock other : VectorClock) :
    BeforeOrEqual clock (clock.merge other) := by
  rw [beforeOrEqual_iff, counter_merge]
  exact le_sup_left

theorem beforeOrEqual_merge_right (clock other : VectorClock) :
    BeforeOrEqual other (clock.merge other) := by
  rw [beforeOrEqual_iff, counter_merge]
  exact le_sup_right

/-- **`merge` is the least upper bound.** -/
theorem merge_beforeOrEqual_iff :
    BeforeOrEqual (clock.merge other) third ↔
      BeforeOrEqual clock third ∧ BeforeOrEqual other third := by
  simp only [beforeOrEqual_iff, counter_merge, sup_le_iff]

/-- **Clocks are a join-semilattice**, for the order that `compare` decides and up to the
clocks it finds equal. -/
theorem compare_merge_lattice (a b c : VectorClock) :
    (a.compare b = .equal ↔ ∀ peer, a.counter peer = b.counter peer) ∧
    (a.compare b = .before ↔
      (∀ peer, a.counter peer ≤ b.counter peer) ∧ a.compare b ≠ .equal) ∧
    (a.compare b = .after ↔ b.compare a = .before) ∧
    (a.compare b = .concurrent ↔
      a.compare b ≠ .equal ∧ ¬ (∀ peer, a.counter peer ≤ b.counter peer) ∧
        ¬ (∀ peer, b.counter peer ≤ a.counter peer)) ∧
    BeforeOrEqual a a ∧
    (BeforeOrEqual a b → BeforeOrEqual b c → BeforeOrEqual a c) ∧
    (BeforeOrEqual a b → BeforeOrEqual b a → a.compare b = .equal) ∧
    BeforeOrEqual a (a.merge b) ∧ BeforeOrEqual b (a.merge b) ∧
    (BeforeOrEqual a c → BeforeOrEqual b c → BeforeOrEqual (a.merge b) c) ∧
    (a.merge b).compare (b.merge a) = .equal ∧
    ((a.merge b).merge c).compare (a.merge (b.merge c)) = .equal ∧
    (a.merge a).compare a = .equal := by
  refine ⟨?_, ?_, compare_after_comm, ?_, beforeOrEqual_refl a, BeforeOrEqual.trans,
    BeforeOrEqual.antisymm, beforeOrEqual_merge_left a b, beforeOrEqual_merge_right a b,
    fun below above => merge_beforeOrEqual_iff.mpr ⟨below, above⟩, ?_, ?_, ?_⟩
  · rw [compare_equal_iff, funext_iff]
  · rw [compare_before_iff, Ne, compare_equal_iff, ← Pi.le_def]
    exact lt_iff_le_and_ne
  · rw [compare_concurrent_iff, Ne, compare_equal_iff, ← Pi.le_def, ← Pi.le_def]
    exact ⟨fun apart => ⟨fun same => apart.1 same.le, apart⟩, And.right⟩
  · rw [compare_equal_iff, counter_merge, counter_merge, sup_comm]
  · simp only [compare_equal_iff, counter_merge, sup_assoc]
  · rw [compare_equal_iff, counter_merge, sup_idem]

/-! ## Edits -/

/-- A clock that the decoder makes of some entries. -/
def Received := {clock : VectorClock // ∃ entries, deserialize entries = .ok clock.counters}

/-- Any clock can be received. -/
def Received.of (clock : VectorClock) : Received :=
  ⟨clock, serialize clock.counters, deserialize_eq_ok_iff.mpr (storedAs_serialize clock.counters)⟩

/-- What happens to a clock at a peer. -/
inductive ClockEvent where
  | edit
  | merge (remote : Received)

/-- One event in the life of a clock at a peer. -/
def advance (peer : PeerId) (clock : VectorClock) : ClockEvent → VectorClock
  | .edit => clock.tick peer
  | .merge remote => clock.merge remote.val

/-- The clock after a history of ticks and merges. -/
def reached (peer : PeerId) (history : List ClockEvent) : VectorClock :=
  history.foldl (advance peer) new

/-- The clock of a local edit, made after a remote clock was merged. -/
def edited (peer : PeerId) (localClock : VectorClock) (remote : Received) : VectorClock :=
  (localClock.merge remote.val).tick peer

/-- A clock below the merged one is before the edit, unless the peer's counter wraps there. -/
theorem lt_edited {peer : PeerId} {localClock below : VectorClock} {remote : Received}
    (le : below.counter ≤ (localClock.merge remote.val).counter)
    (room : ((localClock.merge remote.val).counter peer).toNat + 1 < 2 ^ 64) :
    below.counter < (edited peer localClock remote).counter :=
  lt_of_le_of_lt le (le_tick room)

/-- An edit leaves a clock behind only if the peer has counted fewer edits there than the
largest counter. -/
theorem room_of_lt_edited {peer : PeerId} {localClock below : VectorClock} {remote : Received}
    (less : below.counter < (edited peer localClock remote).counter)
    (le : below.counter ≤ (localClock.merge remote.val).counter) :
    (below.counter peer).toNat + 1 < 2 ^ 64 := by
  by_contra full
  have top := UInt64.toNat_lt (below.counter peer)
  have merged : ((localClock.merge remote.val).counter peer).toNat = 2 ^ 64 - 1 := by
    have larger := UInt64.le_iff_toNat_le.mp (le peer)
    have bound := UInt64.toNat_lt ((localClock.merge remote.val).counter peer)
    omega
  have wrapped : ((edited peer localClock remote).counter peer).toNat = 0 := by
    rw [edited, counter_tick_self, UInt64.toNat_add, merged]
    rfl
  have smaller := UInt64.le_iff_toNat_le.mp (less.le peer)
  omega

/-- **When a local edit advances the clock**: the peer's own counter is below its largest
value, in the clock it has and in the one it merges. -/
theorem edited_after_iff (peer : PeerId) (history : List ClockEvent) (remote : Received) :
    ((edited peer (reached peer history) remote).compare (reached peer history) = .after ∧
      (edited peer (reached peer history) remote).compare remote.val = .after) ↔
        ((reached peer history).counter peer).toNat + 1 < 2 ^ 64 ∧
          (remote.val.counter peer).toNat + 1 < 2 ^ 64 := by
  have merged := counter_merge (reached peer history) remote.val
  have localBelow : (reached peer history).counter ≤
      ((reached peer history).merge remote.val).counter := merged ▸ le_sup_left
  have remoteBelow : remote.val.counter ≤
      ((reached peer history).merge remote.val).counter := merged ▸ le_sup_right
  rw [compare_after_iff, compare_after_iff]
  constructor
  · rintro ⟨afterLocal, afterRemote⟩
    exact ⟨room_of_lt_edited afterLocal localBelow, room_of_lt_edited afterRemote remoteBelow⟩
  · rintro ⟨localRoom, remoteRoom⟩
    have room : (((reached peer history).merge remote.val).counter peer).toNat + 1 < 2 ^ 64 := by
      rw [merged, Pi.sup_apply]
      rcases max_choice ((reached peer history).counter peer) (remote.val.counter peer) with
        kept | taken
      · rw [kept]
        exact localRoom
      · rw [taken]
        exact remoteRoom
    exact ⟨lt_edited localBelow room, lt_edited remoteBelow room⟩

/-- The clock that holds the largest counter for a peer. -/
def fullClock (peer : PeerId) : VectorClock :=
  ⟨.insert .empty peer (UInt64.ofNat (2 ^ 64 - 1))⟩

/-- A peer that has edited nothing receives a clock with its own counter at the largest value.
The clock of its next edit is after neither. -/
theorem edited_fullClock :
    let peer : PeerId := ⟨List.replicate 8 1, rfl⟩
    ¬ ((edited peer (reached peer []) (.of (fullClock peer))).compare (reached peer []) =
        .after) ∧
      ¬ ((edited peer (reached peer []) (.of (fullClock peer))).compare (fullClock peer) =
        .after) := by
  decide +kernel

end VectorClock

end P2Sync
