import P2Sync.Sync.Winner
import Mathlib.Data.Finset.Max
import Mathlib.Data.Prod.Lex

/-!
# The two ends of a conflict

The writers of two versions each hear of the other's version and decide on it. Their decisions
are mirror images: what one end accepts the other rejects, and of two concurrent versions both
name the same loser. The loser is the one with the smaller `rank`, a timestamp and then a peer,
so any number of concurrent versions have one that is never the loser (`meets_mirrored`).
-/

set_option autoImplicit false

namespace P2Sync

namespace Version

/-- What the writer of a version decides when it hears of another one. -/
def meets (version incoming : Version) : Resolution :=
  resolve version.clock incoming.clock version.timestamp incoming.timestamp incoming.writer
    version.writer

/-- What the tie-break compares. -/
def rank (version : Version) : Nat ×ₗ PeerId := toLex (version.timestamp, version.writer)

theorem remoteWins_iff_rank_lt {version incoming : Version} :
    remoteWins version.timestamp incoming.timestamp incoming.writer version.writer = true ↔
      version.rank < incoming.rank := by
  rw [rank, rank, Prod.Lex.toLex_lt_toLex, remoteWins, Bool.or_eq_true, Bool.and_eq_true,
    decide_eq_true_eq, decide_eq_true_eq, beq_iff_eq, @eq_comm _ incoming.timestamp]

variable {first second : Version}

theorem rank_ne (distinct : first.writer ≠ second.writer) : first.rank ≠ second.rank :=
  fun same => distinct (congrArg Prod.snd (toLex_inj.mp same))

/-- **The loser of two concurrent versions** is the one of the smaller rank, whichever end
decides. -/
theorem meets_of_rank_lt (concurrent : first.clock.compare second.clock = .concurrent)
    (less : first.rank < second.rank) :
    first.meets second = .conflict first.writer ∧ second.meets first = .conflict first.writer := by
  refine ⟨resolve_conflict_iff.mpr ⟨concurrent, ?_⟩,
    resolve_conflict_iff.mpr ⟨VectorClock.concurrent_symm concurrent, ?_⟩⟩
  · rw [if_pos (remoteWins_iff_rank_lt.mpr less)]
  · rw [if_neg fun wins => less.asymm (remoteWins_iff_rank_lt.mp wins)]

theorem exists_loser (distinct : first.writer ≠ second.writer)
    (concurrent : first.clock.compare second.clock = .concurrent) :
    ∃ loser, first.meets second = .conflict loser ∧ second.meets first = .conflict loser := by
  rcases lt_or_gt_of_ne (rank_ne distinct) with less | greater
  · exact ⟨_, meets_of_rank_lt concurrent less⟩
  · exact ⟨_, (meets_of_rank_lt (VectorClock.concurrent_symm concurrent) greater).symm⟩

/-- Neither end names the version as the loser. -/
def Prevails (version other : Version) : Prop :=
  version.meets other ≠ .conflict version.writer ∧ other.meets version ≠ .conflict version.writer

theorem prevails_iff (distinct : first.writer ≠ second.writer)
    (concurrent : first.clock.compare second.clock = .concurrent) :
    first.Prevails second ↔ second.rank < first.rank := by
  rcases lt_or_gt_of_ne (rank_ne distinct) with less | greater
  · exact iff_of_false (fun prevails => prevails.1 (meets_of_rank_lt concurrent less).1) less.asymm
  · obtain ⟨named, mirrored⟩ := meets_of_rank_lt (VectorClock.concurrent_symm concurrent) greater
    refine iff_of_true ⟨?_, ?_⟩ greater
    · rw [mirrored]
      exact fun same => distinct (Resolution.conflict.inj same).symm
    · rw [named]
      exact fun same => distinct (Resolution.conflict.inj same).symm

/-- **Both ends of a conflict decide alike.** Of any set of concurrent versions there is one that
wins against every other. -/
theorem meets_mirrored :
    (∀ first second : Version, first.writer ≠ second.writer →
      (first.clock.compare second.clock = .before ∨ first.clock.compare second.clock = .after →
        first.meets second = .accept ∧ second.meets first = .reject ∨
          first.meets second = .reject ∧ second.meets first = .accept) ∧
      (first.clock.compare second.clock = .equal →
        first.meets second = .reject ∧ second.meets first = .reject) ∧
      (first.clock.compare second.clock = .concurrent →
        ∃ loser, first.meets second = .conflict loser ∧ second.meets first = .conflict loser)) ∧
    ∀ versions : Finset Version, versions.Nonempty →
      (∀ first ∈ versions, ∀ second ∈ versions, first ≠ second →
        first.writer ≠ second.writer ∧ first.clock.compare second.clock = .concurrent) →
      ∃! version, version ∈ versions ∧
        ∀ other ∈ versions, other ≠ version → version.Prevails other := by
  refine ⟨fun first second distinct => ⟨?_, fun equal => ?_, exists_loser distinct⟩,
    fun versions inhabited apart => ?_⟩
  · rintro (before | after)
    · have less := VectorClock.compare_before_iff.mp before
      exact Or.inl ⟨resolve_accept_iff.mpr less, resolve_reject_iff.mpr less.le⟩
    · have less := VectorClock.compare_after_iff.mp after
      exact Or.inr ⟨resolve_reject_iff.mpr less.le, resolve_accept_iff.mpr less⟩
  · have same := VectorClock.compare_equal_iff.mp equal
    exact ⟨resolve_reject_iff.mpr same.ge, resolve_reject_iff.mpr same.le⟩
  · have beats : ∀ version ∈ versions, ∀ other ∈ versions, other ≠ version →
        (version.Prevails other ↔ other.rank < version.rank) := by
      intro version member other otherMember different
      obtain ⟨distinct, concurrent⟩ := apart version member other otherMember different.symm
      exact prevails_iff distinct concurrent
    obtain ⟨winner, member, top⟩ := versions.exists_max_image rank inhabited
    refine ⟨winner, ⟨member, fun other otherMember different => ?_⟩, ?_⟩
    · rw [beats winner member other otherMember different]
      have distinct := (apart other otherMember winner member different).1
      exact lt_of_le_of_ne (top other otherMember) (rank_ne distinct)
    · rintro rival ⟨rivalMember, wins⟩
      by_contra different
      have less := (beats rival rivalMember winner member (Ne.symm different)).mp
        (wins winner member (Ne.symm different))
      exact absurd less (not_lt.mpr (top rival rivalMember))

end Version

end P2Sync
