import P2Sync.Net.Start

/-!
# Which of two concurrent versions is retained

A peer that holds one of two concurrent versions of a path and hears of the other keeps
the one with the later timestamp. For equal timestamps it compares the writer of the
version it hears of with itself, not with the writer of the version it holds. The two
writers agree by this rule, and a third peer agrees with them, whichever version it holds,
exactly when its identifier lies strictly between theirs (`sameWinner_iff`).
-/

set_option autoImplicit false

namespace P2Sync

/-- A version of a path, as a notification and an index entry describe it. -/
structure Version where
  writer : PeerId
  clock : VectorClock
  timestamp : Nat

namespace Peer

variable {ι : Type} {ctx : Ctx ι} {device : Device} {peer : Peer ι}

/-- The index records the version at the path. -/
def Holds (peer : Peer ι) (path : RelPath) (version : Version) : Prop :=
  peer.index.fileMeta.lookup path = some ⟨version.clock, version.timestamp, version.writer⟩

/-- The notification that announces a version. -/
def announce (path : SafePath) (hash : Hash) (metas : List ChunkMeta) (version : Version) :
    SyncNotification :=
  .fileChanged path.raw hash metas version.clock version.timestamp version.writer

/-- Handling a notification starts a fetch to the path itself. -/
def fetchesTo (ctx : Ctx ι) (device : Device) (source : ι) (update : SyncNotification)
    (path : SafePath) (peer : Peer ι) : Bool :=
  (peer.handleNotification ctx device source update).tasks[peer.tasks.length]?.any fun task =>
    match task.stage with
    | .asked fetch => decide (fetch.path.rel = path.rel)
    | _ => false

/-- The version that stays at the path when a peer that holds one hears of another. -/
def retained (ctx : Ctx ι) (device : Device) (source : ι) (path : SafePath) (hash : Hash)
    (metas : List ChunkMeta) (held incoming : Version) (peer : Peer ι) : Version :=
  if peer.fetchesTo ctx device source (announce path hash metas incoming) path then incoming
  else held

/-- **The tie-break of a conflict**: the version heard of wins by its timestamp, and for
equal timestamps when its writer is above the receiver. -/
theorem retained_of_concurrent {source : ι} {path : SafePath} {hash : Hash}
    {metas : List ChunkMeta} {held incoming : Version} (holds : peer.Holds path.rel held)
    (concurrent : held.clock.compare incoming.clock = .concurrent)
    (foreign : incoming.writer ≠ ctx.localId) (included : peer.index.isExcluded path.rel = false) :
    peer.retained ctx device source path hash metas held incoming =
      if remoteWins held.timestamp incoming.timestamp incoming.writer ctx.localId then incoming
      else held := by
  have clock : peer.index.clockOf path.rel = held.clock := by
    rw [SyncIndex.clockOf, holds]
    rfl
  have timestamp : peer.index.lastModifiedOf path.rel = held.timestamp := by
    rw [SyncIndex.lastModifiedOf, holds]
    rfl
  rw [← timestamp, retained, fetchesTo, announce,
    handleNotification_conflict foreign (clock ▸ concurrent)]
  by_cases wins : remoteWins (peer.index.lastModifiedOf path.rel) incoming.timestamp
      incoming.writer ctx.localId = true
  · rw [if_pos wins, if_pos wins, spawn_getElem? (peer.backUp_tasks device path ctx.localId),
      startFetch, SafePath.of?_raw]
    simp [included]
  · rw [if_neg wins, if_neg wins, spawn_getElem? rfl, startFetch, SafePath.of?_raw]
    have apart := (path.backup_rel incoming.writer).1
    dsimp only
    split
    · simp
    · simp [apart]

/-- Every peer of the group that holds one of the two versions and hears of the other keeps
the same one. -/
def SameWinner (ι : Type) (group : Set PeerId) (path : SafePath) (first second : Version) : Prop :=
  ∃ winner, ∀ (ctx : Ctx ι) (device : Device) (source : ι) (hash : Hash) (metas : List ChunkMeta)
    (held incoming : Version) (peer : Peer ι), ctx.localId ∈ group →
      (held = first ∧ incoming = second ∨ held = second ∧ incoming = first) →
        peer.Holds path.rel held → incoming.writer ≠ ctx.localId →
          peer.index.isExcluded path.rel = false →
            peer.retained ctx device source path hash metas held incoming = winner

/-- A peer with nothing but an index entry. -/
def holding (ι : Type) (path : RelPath) (hash : Hash) (version : Version) : Peer ι where
  index :=
    { tree := .directory hash []
      fileMeta := Finmap.insert path ⟨version.clock, version.timestamp, version.writer⟩ ∅
      tombstones := []
      localPeer := version.writer
      excludePatterns := []
      chunkSize := 1
      tombstoneTtlSecs := 0 }
  disk := .dir []
  tasks := []
  now := 0
  watch := ⟨∅, ∅, [], 0⟩

theorem holding_holds (ι : Type) (path : RelPath) (hash : Hash) (version : Version) :
    (holding ι path hash version).Holds path version := Finmap.lookup_insert _

/-- The choices of the peers of a group, in terms of the tie-break alone. -/
theorem sameWinner_iff_tie {group : Set PeerId} {path : SafePath} {first second : Version}
    [Inhabited ι] (concurrent : first.clock.compare second.clock = .concurrent) :
    SameWinner ι group path first second ↔
      ∃ winner, (∀ peer ∈ group, peer ≠ second.writer →
        (if remoteWins first.timestamp second.timestamp second.writer peer then second else first) =
          winner) ∧
      ∀ peer ∈ group, peer ≠ first.writer →
        (if remoteWins second.timestamp first.timestamp first.writer peer then first else second) =
          winner := by
  constructor
  · rintro ⟨winner, keeps⟩
    let hash : Hash := ⟨List.replicate 32 0, by simp⟩
    let settings (peer : PeerId) : Ctx ι :=
      { localId := peer, shortPeerId := fun _ => peer, writeGuardTtl := 0, debounce := 0 }
    refine ⟨winner, fun peer member other => ?_, fun peer member other => ?_⟩
    · have foreign : second.writer ≠ (settings peer).localId := other.symm
      have chosen := keeps (settings peer) {} default hash [] first second
        (holding ι path.rel hash first) member (Or.inl ⟨rfl, rfl⟩) (holding_holds ..) foreign rfl
      rw [retained_of_concurrent (holding_holds ..) concurrent foreign rfl] at chosen
      exact chosen
    · have foreign : first.writer ≠ (settings peer).localId := other.symm
      have chosen := keeps (settings peer) {} default hash [] second first
        (holding ι path.rel hash second) member (Or.inr ⟨rfl, rfl⟩) (holding_holds ..) foreign rfl
      rw [retained_of_concurrent (holding_holds ..) (VectorClock.concurrent_symm concurrent) foreign
        rfl] at chosen
      exact chosen
  · rintro ⟨winner, holdingFirst, holdingSecond⟩
    refine ⟨winner, fun ctx device source hash metas held incoming peer member pair holds foreign
      included => ?_⟩
    rcases pair with ⟨rfl, rfl⟩ | ⟨rfl, rfl⟩
    · rw [retained_of_concurrent holds concurrent foreign included]
      exact holdingFirst ctx.localId member foreign.symm
    · rw [retained_of_concurrent holds (VectorClock.concurrent_symm concurrent) foreign included]
      exact holdingSecond ctx.localId member foreign.symm

/-- **When every replica keeps the same version**: the timestamps differ, or every third
peer lies strictly between the two writers. -/
theorem sameWinner_iff [Inhabited ι] {group : Set PeerId} {path : SafePath}
    {first second : Version} (distinct : first.writer ≠ second.writer)
    (concurrent : first.clock.compare second.clock = .concurrent)
    (firstMember : first.writer ∈ group) :
    SameWinner ι group path first second ↔
      first.timestamp ≠ second.timestamp ∨
        ∀ peer ∈ group, peer ≠ first.writer → peer ≠ second.writer →
          (first.writer < peer ∧ peer < second.writer) ∨
            (second.writer < peer ∧ peer < first.writer) := by
  have apart : first ≠ second := fun same => distinct (congrArg Version.writer same)
  rw [sameWinner_iff_tie concurrent]
  rcases lt_trichotomy first.timestamp second.timestamp with older | tie | newer
  · refine iff_of_true ⟨second, fun peer _ _ => ?_, fun peer _ _ => ?_⟩ (Or.inl older.ne)
    · rw [remoteWins_of_lt older, if_pos rfl]
    · rw [remoteWins_of_gt older, if_neg Bool.false_ne_true]
  · rw [tie, or_iff_right (fun absurd' => absurd' rfl)]
    simp only [remoteWins_tie, decide_eq_true_eq]
    constructor
    · rintro ⟨winner, holdingFirst, holdingSecond⟩ peer member notFirst notSecond
      -- The writer of the first version decides the winner, and the third peer has to follow.
      have byFirst := holdingFirst first.writer firstMember distinct
      have byPeer := holdingFirst peer member notSecond
      have byPeer' := holdingSecond peer member notFirst
      rcases lt_or_gt_of_ne distinct with below | above
      · rw [if_pos below] at byFirst
        subst byFirst
        refine Or.inl ⟨lt_of_le_of_ne (not_lt.mp fun under => ?_) notFirst.symm, ?_⟩
        · exact apart (by rwa [if_pos under] at byPeer')
        · by_contra past
          exact apart (by rwa [if_neg past] at byPeer)
      · rw [if_neg above.asymm] at byFirst
        subst byFirst
        refine Or.inr ⟨lt_of_le_of_ne (not_lt.mp fun under => ?_) notSecond.symm, ?_⟩
        · exact apart (by rw [if_pos under] at byPeer; exact byPeer.symm)
        · by_contra past
          exact apart (by rw [if_neg past] at byPeer'; exact byPeer'.symm)
    · intro between
      rcases lt_or_gt_of_ne distinct with below | above
      · refine ⟨second, fun peer member other => if_pos ?_, fun peer member other => if_neg ?_⟩
        · by_cases own : peer = first.writer
          · exact own ▸ below
          · rcases between peer member own other with inside | outside
            · exact inside.2
            · exact absurd (outside.1.trans outside.2) below.asymm
        · by_cases own : peer = second.writer
          · exact own ▸ below.asymm
          · rcases between peer member other own with inside | outside
            · exact inside.1.asymm
            · exact absurd (outside.1.trans outside.2) below.asymm
      · refine ⟨first, fun peer member other => if_neg ?_, fun peer member other => if_pos ?_⟩
        · by_cases own : peer = first.writer
          · exact own ▸ above.asymm
          · rcases between peer member own other with inside | outside
            · exact absurd (inside.1.trans inside.2) above.asymm
            · exact outside.1.asymm
        · by_cases own : peer = second.writer
          · exact own ▸ above
          · rcases between peer member other own with inside | outside
            · exact absurd (inside.1.trans inside.2) above.asymm
            · exact outside.2
  · refine iff_of_true ⟨first, fun peer _ _ => ?_, fun peer _ _ => ?_⟩ (Or.inl newer.ne')
    · rw [remoteWins_of_gt newer, if_neg Bool.false_ne_true]
    · rw [remoteWins_of_lt newer, if_pos rfl]

end Peer

/-! ## A tie that a third peer settles the other way -/

namespace Peer

attribute [local instance] Sample.blake3

/-- The first edit of `f` by a peer, at second 10. -/
def firstEdit (number : UInt8) : Version :=
  ⟨Sample.peerId number, VectorClock.new.tick (Sample.peerId number), 10⟩

/-- The first peer edits `f`, the third one fetches this version. Both hear of the edit of
the second peer, concurrent and in the same second. The first keeps the second peer's
version, the third the first peer's. -/
theorem exists_different_winners :
    ∃ writer third : Peer Sample.Site,
      Reachable (Sample.ctx .one) writer ∧ Reachable (Sample.ctx .three) third ∧
        writer.Holds Sample.path (firstEdit 1) ∧ third.Holds Sample.path (firstEdit 1) ∧
          (firstEdit 1).clock.compare (firstEdit 2).clock = .concurrent ∧
            (writer.retained (Sample.ctx .one) {} .two Sample.safe (Blake3.hash []) []
              (firstEdit 1) (firstEdit 2)).writer ≠
            (third.retained (Sample.ctx .three) {} .two Sample.safe (Blake3.hash []) []
              (firstEdit 1) (firstEdit 2)).writer := by
  obtain ⟨writer, byWriter, heldByWriter⟩ := reachable_of_any (by decide +kernel :
    ((start (Sample.ctx .one) (Sample.folder [1]) [] 10).bind fun first =>
      runActs (next (Sample.ctx .one)) first
        [.user (Sample.folder [2]), .watched (.modified Sample.path),
          .fsEvent ⟨true, some [2], some [2]⟩]).any (fun peer =>
            decide (peer.index.fileMeta.lookup Sample.path =
              some ⟨(firstEdit 1).clock, (firstEdit 1).timestamp, (firstEdit 1).writer⟩) &&
            !peer.index.isExcluded Sample.path) = true)
  obtain ⟨third, byThird, heldByThird⟩ := reachable_of_any (by decide +kernel :
    ((start (Sample.ctx .three) (Sample.folder [1]) [] 10).bind fun first =>
      runActs (next (Sample.ctx .three)) first
        [.notified .one
          (announce Sample.safe (Blake3.hash []) (Chunk.metadata [2] 2) (firstEdit 1)) {},
          .respond 0 (some (.chunks ['f'] [(0, [2])])), .resume 0 {}, .resume 0 {},
          .resume 0 {}]).any (fun peer =>
            decide (peer.index.fileMeta.lookup Sample.path =
              some ⟨(firstEdit 1).clock, (firstEdit 1).timestamp, (firstEdit 1).writer⟩) &&
            !peer.index.isExcluded Sample.path) = true)
  rw [Bool.and_eq_true, decide_eq_true_eq, Bool.not_eq_true'] at heldByWriter heldByThird
  have concurrent : (firstEdit 1).clock.compare (firstEdit 2).clock = .concurrent := by
    decide +kernel
  have writerHolds : writer.Holds Sample.safe.rel (firstEdit 1) := heldByWriter.1
  have thirdHolds : third.Holds Sample.safe.rel (firstEdit 1) := heldByThird.1
  refine ⟨writer, third, byWriter, byThird, writerHolds, thirdHolds, concurrent, ?_⟩
  rw [retained_of_concurrent writerHolds concurrent (by decide) heldByWriter.2,
    retained_of_concurrent thirdHolds concurrent (by decide) heldByThird.2]
  decide +kernel

/-- In a group of three, all keep one version of the edits of the lowest and the highest peer, and
not of the two lowest. -/
theorem sameWinner_iff_sample :
    SameWinner Sample.Site {Sample.peerId 1, Sample.peerId 2, Sample.peerId 3} Sample.safe
        (firstEdit 1) (firstEdit 3) ∧
      ¬ SameWinner Sample.Site {Sample.peerId 1, Sample.peerId 2, Sample.peerId 3} Sample.safe
        (firstEdit 1) (firstEdit 2) := by
  constructor
  · refine (sameWinner_iff (by decide) (by decide +kernel) (Or.inl rfl)).mpr (Or.inr ?_)
    rintro peer (rfl | rfl | rfl) notFirst notSecond
    · exact absurd rfl notFirst
    · exact Or.inl (by decide)
    · exact absurd rfl notSecond
  · intro same
    rcases (sameWinner_iff (by decide) (by decide +kernel) (Or.inl rfl)).mp same with
      differ | between
    · exact differ rfl
    · exact absurd (between (Sample.peerId 3) (Or.inr (Or.inr rfl)) (by decide) (by decide))
        (by decide)

end Peer

end P2Sync
