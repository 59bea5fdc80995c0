import P2Sync.Net.Start

/-!
# Remote deletions

A tombstone from another peer removes the file, its entry in the tree and its clock, and
is kept in the list of tombstones. Its clock is not compared with the recorded one: the
local version may contain an edit the deleter had not seen, and its clock is dropped all
the same (`keepsUnseen_iff`).
-/

set_option autoImplicit false

namespace P2Sync

namespace Peer

variable {ι : Type} [Blake3] {ctx : Ctx ι} {device : Device} {source : ι} {tombstone : Tombstone}
  {peer after : Peer ι} {path : SafePath}

/-- `handle_notification` for a tombstone, with nothing in between its two stretches. -/
def handleDeleted (ctx : Ctx ι) (device : Device) (source : ι) (tombstone : Tombstone)
    (peer : Peer ι) : Option (Peer ι) :=
  (peer.next ctx (.notified source (.fileDeleted tombstone) device)).bind fun middle =>
    middle.next ctx (.resume peer.tasks.length device)

/-- What the handler does with the index when it takes the tombstone. -/
theorem handleDeleted_index (named : tombstone.path = path.raw)
    (handled : handleDeleted ctx device source tombstone peer = some after) :
    after.index = peer.index.remotelyDeleted path.rel tombstone := by
  obtain ⟨middle, noticed, resumed⟩ := Option.bind_eq_some_iff.mp handled
  obtain ⟨_, noticed⟩ := next_cases noticed
  obtain ⟨_, resumed⟩ := next_cases resumed
  cases resumed with
  | quiet act watch idle => exact absurd idle Bool.false_ne_true
  | resumed task device entry after entry' found ran =>
      cases noticed with
      | quiet act watch idle =>
          rw [List.getElem?_eq_none (Nat.le_refl _)] at found
          exact absurd found (Option.some_ne_none entry).symm
      | unlinked source tombstone path' device disk named' foreign removed =>
          obtain rfl : path' = path := SafePath.eq_of_raw (named'.symm.trans named)
          simp only [spawn, List.getElem?_concat_length, Option.some.injEq] at found
          subst found
          cases ran
          rfl

/-- The bytes of a file are still at its path or at a backup of it. -/
def Stored (disk : Disk) (path : SafePath) (data : Bytes) : Prop :=
  disk.read path.rel = some data ∨ ∃ loser, disk.read (path.backup loser).rel = some data

/-- A deletion whose author had not seen the local version keeps its bytes and its clock. -/
def KeepsUnseen (peer after : Peer ι) (path : SafePath) (tombstone : Tombstone) : Prop :=
  ∀ data, peer.disk.read path.rel = some data →
    (peer.index.clockOf path.rel).compare tombstone.clock = .after ∨
      (peer.index.clockOf path.rel).compare tombstone.clock = .concurrent →
    Stored after.disk path data ∧ (after.index.fileMeta.lookup path.rel).isSome

/-- **A remote deletion never keeps a version its author had not seen**: what is asked of
it holds only where nothing is asked, when the local clock is not ahead. -/
theorem keepsUnseen_iff (named : tombstone.path = path.raw)
    (localFile : (peer.disk.read path.rel).isSome)
    (handled : handleDeleted ctx device source tombstone peer = some after) :
    KeepsUnseen peer after path tombstone ↔
      (peer.index.clockOf path.rel).compare tombstone.clock = .before ∨
        (peer.index.clockOf path.rel).compare tombstone.clock = .equal := by
  have forgotten : after.index.fileMeta.lookup path.rel = none := by
    rw [handleDeleted_index named handled]
    exact Finmap.lookup_erase _ _
  constructor
  · intro keeps
    obtain ⟨data, stored⟩ := Option.isSome_iff_exists.mp localFile
    have kept : ¬ (peer.index.clockOf path.rel).compare tombstone.clock = .after ∧
        ¬ (peer.index.clockOf path.rel).compare tombstone.clock = .concurrent := by
      rw [← not_or]
      intro unseen
      obtain ⟨_, recorded⟩ := keeps data stored unseen
      rw [forgotten] at recorded
      exact absurd recorded Bool.false_ne_true
    cases outcome : (peer.index.clockOf path.rel).compare tombstone.clock with
    | before => exact Or.inl rfl
    | equal => exact Or.inr rfl
    | after => exact absurd outcome kept.1
    | concurrent => exact absurd outcome kept.2
  · rintro (seen | seen) data stored (unseen | unseen) <;>
      exact absurd (seen.symm.trans unseen) (by decide)

end Peer

/-! ## A deletion that had not seen an edit -/

namespace Peer

attribute [local instance] Sample.blake3

/-- The tombstone of a peer that never saw an edit of `f`. -/
def blindTombstone : Tombstone := ⟨['f'], Sample.peerId 2, .new, 20⟩

/-- The tombstone of a peer that saw the first edit of `f` by the first peer. -/
def seeingTombstone : Tombstone :=
  ⟨['f'], Sample.peerId 2,
    (VectorClock.new.tick (Sample.peerId 1)).tick (Sample.peerId 2), 20⟩

/-- A reachable peer has indexed an edit of `f`; one of the two tombstones has seen it. -/
theorem exists_edited :
    ∃ peer : Peer Sample.Site, Reachable (Sample.ctx .one) peer ∧
      peer.disk.read Sample.safe.rel = some [2] ∧
        (peer.index.clockOf Sample.safe.rel).compare seeingTombstone.clock = .before ∧
          (peer.index.clockOf Sample.safe.rel).compare blindTombstone.clock = .after ∧
            ∀ tombstone ∈ [seeingTombstone, blindTombstone], ∃ after,
              handleDeleted (Sample.ctx .one) {} .two tombstone peer = some after := by
  obtain ⟨peer, reachable, passed⟩ := reachable_of_any (by decide +kernel :
    ((start (Sample.ctx .one) (Sample.folder [1]) [] 10).bind fun first =>
      runActs (next (Sample.ctx .one)) first
        [.user (Sample.folder [2]), .watched (.modified Sample.path),
          .fsEvent ⟨true, some [2], some [2]⟩]).any (fun peer =>
        decide (peer.disk.read Sample.safe.rel = some [2] ∧
          (peer.index.clockOf Sample.safe.rel).compare seeingTombstone.clock = .before ∧
            (peer.index.clockOf Sample.safe.rel).compare blindTombstone.clock = .after) &&
        [seeingTombstone, blindTombstone].all fun tombstone =>
          (handleDeleted (Sample.ctx .one) {} .two tombstone peer).isSome) = true)
  rw [Bool.and_eq_true, decide_eq_true_eq, List.all_eq_true] at passed
  obtain ⟨⟨stored, before, ahead⟩, handled⟩ := passed
  exact ⟨peer, reachable, stored, before, ahead, fun tombstone member =>
    Option.isSome_iff_exists.mp (handled tombstone member)⟩

/-- A reachable peer drops the clock of an edit that the deleter had not seen. -/
theorem not_keepsUnseen :
    ∃ peer after : Peer Sample.Site, Reachable (Sample.ctx .one) peer ∧
      handleDeleted (Sample.ctx .one) {} .two blindTombstone peer = some after ∧
        ¬ KeepsUnseen peer after Sample.safe blindTombstone := by
  obtain ⟨peer, reachable, stored, _, ahead, handled⟩ := exists_edited
  obtain ⟨after, handled⟩ := handled blindTombstone (by simp)
  refine ⟨peer, after, reachable, handled, fun keeps => ?_⟩
  have recorded := (keeps [2] stored (Or.inl ahead)).2
  have named : blindTombstone.path = Sample.safe.raw := rfl
  rw [handleDeleted_index named handled] at recorded
  exact absurd recorded (by simp [SyncIndex.remotelyDeleted])

/-- At one reachable peer, a deletion that has seen the local edit is as it should be, and one that
has not is not. -/
theorem keepsUnseen_iff_sample :
    ∃ peer seen unseen : Peer Sample.Site, Reachable (Sample.ctx .one) peer ∧
      handleDeleted (Sample.ctx .one) {} .two seeingTombstone peer = some seen ∧
        KeepsUnseen peer seen Sample.safe seeingTombstone ∧
          handleDeleted (Sample.ctx .one) {} .two blindTombstone peer = some unseen ∧
            ¬ KeepsUnseen peer unseen Sample.safe blindTombstone := by
  obtain ⟨peer, reachable, stored, before, ahead, handled⟩ := exists_edited
  have localFile : (peer.disk.read Sample.safe.rel).isSome = true := by rw [stored]; rfl
  obtain ⟨seen, handledSeen⟩ := handled seeingTombstone (by simp)
  obtain ⟨unseen, handledUnseen⟩ := handled blindTombstone (by simp)
  refine ⟨peer, seen, unseen, reachable, handledSeen,
    (keepsUnseen_iff rfl localFile handledSeen).mpr (Or.inl before), handledUnseen,
    fun keeps => ?_⟩
  rcases (keepsUnseen_iff rfl localFile handledUnseen).mp keeps with behind | same
  · exact absurd (ahead.symm.trans behind) (by decide)
  · exact absurd (ahead.symm.trans same) (by decide)

end Peer

end P2Sync
