import P2Sync.Support.SortedMap
import P2Sync.Support.Words
import P2Sync.Core.Path
import Mathlib.Data.List.Lex
import Mathlib.Order.Lattice
import Mathlib.Order.PiLex

/-!
# Vector clocks

A clock counts, for each peer, the edits it stands for. It is stored as an ordered
map, and a missing peer reads as zero. Everything the program does with a clock goes
through `counter`, the function from peers to counts:

* `tick` raises one counter by one, wrapping at `2 ^ 64` (`counter_tick`);
* `merge` is the pointwise maximum (`counter_merge`);
* `compare` decides the pointwise order, although it leaves its loop as soon as it has
  seen a smaller and a greater counter (`compare_eq_verdict`).

So `compare` answers `before` exactly when the counters are pointwise below and
different (`compare_before_iff`), `equal` when they agree, `after` for the converse,
and `concurrent` when neither is below the other. From here on clocks are compared in
the order of `PeerId → UInt64`.

`resolve` decides what to do with a remote version by this order and breaks ties
between concurrent versions by timestamp, then by peer.
-/

set_option autoImplicit false

namespace P2Sync

/-- A short peer identifier: eight bytes, in lexicographic order. -/
abbrev PeerId := {bytes : Bytes // bytes.length = 8}

/-- A clock: an ordered map from peers to counters. -/
structure VectorClock where
  counters : BTreeMap PeerId UInt64
deriving DecidableEq

/-- The outcome of comparing two clocks. -/
inductive Ordering where
  | before
  | after
  | concurrent
  | equal
deriving DecidableEq

namespace VectorClock

/-- The empty clock. -/
def new : VectorClock := ⟨.empty⟩

/-- The counter of a peer, zero when absent. -/
def counter (clock : VectorClock) (peer : PeerId) : UInt64 := (clock.counters.get peer).getD 0

/-- Count one local modification. The addition wraps, as in a release build. -/
def tick (clock : VectorClock) (peer : PeerId) : VectorClock :=
  ⟨clock.counters.insert peer (clock.counter peer + 1)⟩

/-- One round of the loop of `merge`. -/
def mergeEntry (clock : VectorClock) (entry : PeerId × UInt64) : VectorClock :=
  ⟨clock.counters.insert entry.1 (max (clock.counter entry.1) entry.2)⟩

/-- Take the maximum of every counter. -/
def merge (clock other : VectorClock) : VectorClock :=
  other.counters.entries.foldl mergeEntry clock

/-- The keys of both clocks, collected in an ordered set. -/
def allKeys (clock other : VectorClock) : List PeerId :=
  ((clock.counters.keys ++ other.counters.keys).foldl
    (fun set key => set.insert key ()) BTreeMap.empty).keys

/-- What the two flags of `compare` say after its loop. -/
def verdict : Bool → Bool → Ordering
  | false, false => .equal
  | true, false => .before
  | false, true => .after
  | true, true => .concurrent

/-- The loop of `compare`, with its early return. -/
def compareLoop (clock other : VectorClock) : List PeerId → Bool → Bool → Ordering
  | [], hasLess, hasGreater => verdict hasLess hasGreater
  | key :: rest, hasLess, hasGreater =>
      let hasLess := if clock.counter key < other.counter key then true else hasLess
      let hasGreater := if clock.counter key > other.counter key then true else hasGreater
      if hasLess && hasGreater then .concurrent
      else compareLoop clock other rest hasLess hasGreater

/-- Compare two clocks for causal ordering. -/
def compare (clock other : VectorClock) : Ordering :=
  compareLoop clock other (allKeys clock other) false false

/-! ## Counters -/

@[simp] theorem counter_new : new.counter = ⊥ := rfl

theorem counter_of_not_mem {clock : VectorClock} {peer : PeerId}
    (absent : peer ∉ clock.counters.keys) : clock.counter peer = 0 := by
  rw [BTreeMap.mem_keys_iff, Option.not_isSome_iff_eq_none] at absent
  rw [counter, absent]
  rfl

theorem counter_tick (clock : VectorClock) (peer query : PeerId) :
    (clock.tick peer).counter query =
      if query = peer then clock.counter peer + 1 else clock.counter query := by
  rw [counter, tick, BTreeMap.get_insert]
  split <;> rfl

@[simp] theorem counter_tick_self (clock : VectorClock) (peer : PeerId) :
    (clock.tick peer).counter peer = clock.counter peer + 1 := by
  rw [counter_tick, if_pos rfl]

theorem counter_tick_of_ne (clock : VectorClock) {peer query : PeerId} (apart : query ≠ peer) :
    (clock.tick peer).counter query = clock.counter query := by
  rw [counter_tick, if_neg apart]

theorem counter_mergeEntry (clock : VectorClock) (entry : PeerId × UInt64) (query : PeerId) :
    (clock.mergeEntry entry).counter query =
      if query = entry.1 then max (clock.counter query) entry.2 else clock.counter query := by
  rw [counter, mergeEntry, BTreeMap.get_insert]
  split
  · rename_i same
    rw [same]
    rfl
  · rfl

theorem counter_foldl_mergeEntry (entries : List (PeerId × UInt64))
    (sorted : SortedMap.Sorted entries) (clock : VectorClock) (query : PeerId) :
    (entries.foldl mergeEntry clock).counter query =
      max (clock.counter query) ((SortedMap.lookup query entries).getD 0) := by
  induction entries generalizing clock with
  | nil => exact (max_eq_left bot_le).symm
  | cons entry rest ih =>
      obtain ⟨peer, count⟩ := entry
      have tail := (List.pairwise_cons.mp sorted).2
      rw [List.foldl_cons, ih tail, counter_mergeEntry, SortedMap.lookup_cons]
      by_cases same : query = peer
      · have absent : SortedMap.lookup query rest = none := same ▸ sorted.lookup_tail
        rw [if_pos same, if_pos same, absent]
        exact max_eq_left bot_le
      · rw [if_neg same, if_neg same]

/-- **`merge` is the pointwise maximum.** -/
theorem counter_merge (clock other : VectorClock) :
    (clock.merge other).counter = clock.counter ⊔ other.counter := by
  funext query
  exact counter_foldl_mergeEntry _ other.counters.sorted clock query

theorem le_tick {clock : VectorClock} {peer : PeerId}
    (below : (clock.counter peer).toNat + 1 < 2 ^ 64) :
    clock.counter < (clock.tick peer).counter := by
  have strict := u64_lt_succ below
  refine lt_of_le_of_ne (fun query => ?_) fun same => ?_
  · by_cases here : query = peer
    · subst here
      rw [counter_tick_self]
      exact strict.le
    · rw [counter_tick_of_ne _ here]
  · have := congrFun same peer
    rw [counter_tick_self] at this
    exact absurd this (ne_of_lt strict)

/-! ## Comparison -/

theorem mem_foldl_insert {keys : List PeerId} {set : BTreeMap PeerId Unit} {peer : PeerId} :
    peer ∈ (keys.foldl (fun set key => set.insert key ()) set).keys ↔
      peer ∈ keys ∨ peer ∈ set.keys := by
  induction keys generalizing set with
  | nil => simp
  | cons key rest ih =>
      rw [List.foldl_cons, ih, List.mem_cons, BTreeMap.mem_keys_iff, BTreeMap.mem_keys_iff,
        BTreeMap.get_insert]
      by_cases here : peer = key
      · simp [here]
      · simp [here]

theorem mem_allKeys {clock other : VectorClock} {peer : PeerId} :
    peer ∈ allKeys clock other ↔ peer ∈ clock.counters.keys ∨ peer ∈ other.counters.keys := by
  have none : peer ∉ (BTreeMap.empty : BTreeMap PeerId Unit).keys := List.not_mem_nil
  rw [allKeys, mem_foldl_insert, List.mem_append, or_iff_left none]

/-- The early return loses nothing: once both flags are up the verdict is settled. -/
theorem compareLoop_eq (clock other : VectorClock) (keys : List PeerId)
    {hasLess hasGreater : Bool} (undecided : (hasLess && hasGreater) = false) :
    compareLoop clock other keys hasLess hasGreater =
      verdict (hasLess || keys.any fun key => clock.counter key < other.counter key)
        (hasGreater || keys.any fun key => other.counter key < clock.counter key) := by
  induction keys generalizing hasLess hasGreater with
  | nil => simp [compareLoop]
  | cons key rest ih =>
      rcases lt_trichotomy (clock.counter key) (other.counter key) with less | same | greater
      · have notGreater : ¬ other.counter key < clock.counter key := less.asymm
        cases hasGreater with
        | true => simp [compareLoop, less, verdict]
        | false => simp [compareLoop, less, notGreater, ih]
      · have notLess : ¬ clock.counter key < other.counter key := same ▸ lt_irrefl _
        have notGreater : ¬ other.counter key < clock.counter key := same ▸ lt_irrefl _
        simp [compareLoop, notLess, notGreater, undecided, ih undecided]
      · have notLess : ¬ clock.counter key < other.counter key := greater.asymm
        cases hasLess with
        | true => simp [compareLoop, greater, verdict]
        | false => simp [compareLoop, greater, notLess, ih]

theorem allKeys_any_lt (clock other first second : VectorClock)
    (covered : ∀ peer, first.counter peer < second.counter peer →
      peer ∈ allKeys clock other) :
    ((allKeys clock other).any fun key => first.counter key < second.counter key) = true ↔
      ¬ second.counter ≤ first.counter := by
  rw [List.any_eq_true, Pi.le_def, not_forall]
  constructor
  · rintro ⟨peer, _, less⟩
    exact ⟨peer, not_le.mpr (of_decide_eq_true less)⟩
  · rintro ⟨peer, notLe⟩
    exact ⟨peer, covered peer (not_le.mp notLe), decide_eq_true (not_le.mp notLe)⟩

theorem mem_keys_of_lt {first second : VectorClock} {peer : PeerId}
    (less : first.counter peer < second.counter peer) : peer ∈ second.counters.keys := by
  by_contra absent
  rw [counter_of_not_mem absent] at less
  exact absurd less not_lt_bot

/-- **The flags of `compare` decide the pointwise order of the counters.** -/
theorem compare_eq_verdict (clock other : VectorClock) :
    ∃ hasLess hasGreater, clock.compare other = verdict hasLess hasGreater ∧
      (hasLess = true ↔ ¬ other.counter ≤ clock.counter) ∧
        (hasGreater = true ↔ ¬ clock.counter ≤ other.counter) := by
  refine ⟨_, _, compareLoop_eq clock other (allKeys clock other) rfl, ?_, ?_⟩
  · rw [Bool.false_or]
    exact allKeys_any_lt clock other clock other
      fun peer less => mem_allKeys.mpr (Or.inr (mem_keys_of_lt less))
  · rw [Bool.false_or]
    exact allKeys_any_lt clock other other clock
      fun peer less => mem_allKeys.mpr (Or.inl (mem_keys_of_lt less))

variable {clock other : VectorClock}

theorem compare_equal_iff : clock.compare other = .equal ↔ clock.counter = other.counter := by
  obtain ⟨hasLess, hasGreater, outcome, less, greater⟩ := compare_eq_verdict clock other
  have decided : verdict hasLess hasGreater = .equal ↔
      ¬ hasGreater = true ∧ ¬ hasLess = true := by
    cases hasLess <;> cases hasGreater <;> decide
  rw [outcome, decided, less, greater, not_not, not_not]
  exact ⟨fun both => le_antisymm both.1 both.2, fun same => ⟨same.le, same.ge⟩⟩

theorem compare_before_iff : clock.compare other = .before ↔ clock.counter < other.counter := by
  obtain ⟨hasLess, hasGreater, outcome, less, greater⟩ := compare_eq_verdict clock other
  have decided : verdict hasLess hasGreater = .before ↔
      ¬ hasGreater = true ∧ hasLess = true := by
    cases hasLess <;> cases hasGreater <;> decide
  rw [outcome, decided, less, greater, not_not, lt_iff_le_not_ge]

theorem le_of_compare (verdict : clock.compare other ∈ [.before, .equal]) :
    clock.counter ≤ other.counter := by
  rcases List.mem_cons.mp verdict with before | equal
  · exact (compare_before_iff.mp before).le
  · exact (compare_equal_iff.mp (List.mem_singleton.mp equal)).le

/-- The empty clock is before every clock that another one is before. -/
theorem new_before (newer : clock.compare other = .before) : new.compare other = .before :=
  compare_before_iff.mpr (bot_lt_of_lt (compare_before_iff.mp newer))

theorem compare_after_iff : clock.compare other = .after ↔ other.counter < clock.counter := by
  obtain ⟨hasLess, hasGreater, outcome, less, greater⟩ := compare_eq_verdict clock other
  have decided : verdict hasLess hasGreater = .after ↔
      ¬ hasLess = true ∧ hasGreater = true := by
    cases hasLess <;> cases hasGreater <;> decide
  rw [outcome, decided, less, greater, not_not, lt_iff_le_not_ge]

theorem compare_concurrent_iff :
    clock.compare other = .concurrent ↔
      ¬ clock.counter ≤ other.counter ∧ ¬ other.counter ≤ clock.counter := by
  obtain ⟨hasLess, hasGreater, outcome, less, greater⟩ := compare_eq_verdict clock other
  have decided : verdict hasLess hasGreater = .concurrent ↔
      hasGreater = true ∧ hasLess = true := by
    cases hasLess <;> cases hasGreater <;> decide
  rw [outcome, decided, less, greater]

theorem concurrent_symm {first second : VectorClock}
    (concurrent : first.compare second = .concurrent) : second.compare first = .concurrent :=
  compare_concurrent_iff.mpr (compare_concurrent_iff.mp concurrent).symm

end VectorClock

end P2Sync
