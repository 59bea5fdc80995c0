import P2Sync.Sync.Failure

/-!
# The bytes of a version that lost

A version that loses a conflict at its own peer is copied to its backup, and then the fetch
overwrites it. Nothing looks at how the copy ended: a device that refuses it, or a backup
path in a folder that is not there, leaves the fetch to overwrite the only copy. The bytes
are still stored exactly when the copy brings them all to the backup, or they are there
already, or the fetch leaves them in the file (`preserved_iff`).
-/

set_option autoImplicit false

namespace P2Sync

/-- How many of so many bytes a call stores that comes to its file. -/
def Outcome.count (outcome : Outcome) (total : Nat) : Option Nat :=
  match outcome with
  | .succeeds => some total
  | .refused => none
  | .interrupted kept => some kept

theorem Outcome.stored_eq_map_count (outcome : Outcome) (data : Bytes) :
    outcome.stored data = (outcome.count data.length).map fun count => data.take count := by
  cases outcome with
  | succeeds => simp [stored, count]
  | refused => rfl
  | interrupted kept => rfl

namespace Peer

variable {ι : Type} [Blake3] (ctx : Ctx ι) (device : Device)
  (ask : SyncRequest → Option SyncResponse) (peer : Peer ι)

/-- `handle_notification` for a changed file, from start to end. -/
def handleFileChanged (raw : Str) (chunksChanged : List ChunkMeta) (remoteClock : VectorClock)
    (remoteTs : Nat) (remotePeer : PeerId) : Peer ι :=
  if remotePeer = ctx.localId then peer
  else match SafePath.of? raw with
  | none => peer
  | some path =>
      let chunkIndices := chunksChanged.map ChunkMeta.index
      let origin : RemoteOrigin := ⟨remoteClock, remoteTs, remotePeer⟩
      match resolve (peer.index.clockOf path.rel) remoteClock
          (peer.index.lastModifiedOf path.rel) remoteTs remotePeer ctx.localId with
      | .accept =>
          ((peer.markWrite path.rel).fetchAndApply ctx device ask path.raw chunkIndices origin).1
      | .reject => peer
      | .conflict loserPeer =>
          if loserPeer = ctx.localId then
            ((peer.backUp device path loserPeer).fetchAndApply ctx device ask path.raw chunkIndices
              origin).1
          else
            (peer.fetchAndApply ctx device ask (conflictFilename path.raw loserPeer) chunkIndices
              origin).1

omit [Blake3] in
/-- What the copy stores in the backup are all the bytes of the file, and where it stores
none they are there before. -/
structure BackedUp (backup : RelPath) (old : Bytes) : Prop where
  whole : ∀ count, device.copies.count old.length = some count →
    (peer.disk.write backup []).isSome = true → old.length ≤ count
  already : (∀ count, device.copies.count old.length = some count →
    (peer.disk.write backup []).isSome = false) → peer.disk.read backup = some old

/-- What the fetch stores in the file are the bytes it had. -/
def LeavesFile (path : SafePath) (chunkIndices : List Nat) (old : Bytes) : Prop :=
  ∀ (echoed : Str) (chunks : List (Nat × Bytes)) (count : Nat),
    peer.index.isExcluded path.rel = false →
      ask (.getChunks path.raw chunkIndices) = some (.chunks echoed chunks) →
        (∀ piece ∈ keptPieces ctx.storage chunks,
          piece.1 + piece.2.length ≤ ctx.storage.maxFileSize) →
          device.writes.count (max (if device.reads then old else []).length
            (Overlay.reach (keptPieces ctx.storage chunks))) = some count →
            PutsBack ctx.storage chunks (if device.reads then old else []) old count

variable {ctx device ask peer} {path : SafePath} {origin : RemoteOrigin} {old : Bytes}
  {chunkIndices : List Nat}

/-! ## The handler and its steps -/

/-- **The steps of a notification and of the task it starts** are the handler, when nothing
comes between them. -/
theorem handleFileChanged_run (pulls : ctx.noPull = false) (source : ι) (raw : Str) (hash : Hash)
    (chunksChanged : List ChunkMeta) (remoteClock : VectorClock) (remoteTs : Nat)
    (remotePeer : PeerId) :
    ∃ acts after, runActs (next ctx) peer (.notified source (.fileChanged raw hash chunksChanged
        remoteClock remoteTs remotePeer) device :: acts) = some after ∧
      (after = peer.handleFileChanged ctx device ask raw chunksChanged remoteClock remoteTs
          remotePeer ∨
        after = (peer.handleFileChanged ctx device ask raw chunksChanged remoteClock remoteTs
          remotePeer).spawn .idle) := by
  have first : peer.next ctx (.notified source (.fileChanged raw hash chunksChanged remoteClock
      remoteTs remotePeer) device) = some (peer.handleNotification ctx device source
        (.fileChanged raw hash chunksChanged remoteClock remoteTs remotePeer)) := by
    rw [next, step, pulls, if_neg Bool.false_ne_true]
    rfl
  simp only [runActs, first, Option.bind_some]
  rw [handleNotification, handleFileChanged]
  by_cases own : remotePeer = ctx.localId
  · rw [if_pos own, if_pos own]
    exact ⟨[], peer, rfl, Or.inl rfl⟩
  · rw [if_neg own, if_neg own]
    cases SafePath.of? raw with
    | none => exact ⟨[], peer, rfl, Or.inl rfl⟩
    | some path =>
        dsimp only
        cases resolve (peer.index.clockOf path.rel) remoteClock
            (peer.index.lastModifiedOf path.rel) remoteTs remotePeer ctx.localId with
        | reject => exact ⟨[], peer, rfl, Or.inl rfl⟩
        | accept =>
            obtain ⟨acts, _, ran⟩ := @fetchAndApply_run _ _ ctx device (peer.markWrite path.rel)
              ⟨remoteClock, remoteTs, remotePeer⟩ ask (chunksChanged.map ChunkMeta.index) source
              path.raw (.accepted hash)
            exact ⟨acts, _, ran, Or.inr rfl⟩
        | conflict loser =>
            dsimp only
            split
            · obtain ⟨acts, _, ran⟩ := @fetchAndApply_run _ _ ctx device
                (peer.backUp device path loser) ⟨remoteClock, remoteTs, remotePeer⟩ ask
                (chunksChanged.map ChunkMeta.index) source path.raw (.lost hash)
              refine ⟨acts, _, ?_, Or.inr rfl⟩
              rw [← ran, startFetch, startFetch, backUp_index]
            · obtain ⟨acts, _, ran⟩ := @fetchAndApply_run _ _ ctx device peer
                ⟨remoteClock, remoteTs, remotePeer⟩ ask (chunksChanged.map ChunkMeta.index) source
                (conflictFilename path.raw loser) (.kept hash)
              exact ⟨acts, _, ran, Or.inr rfl⟩

/-- What the handler does with a version that wins against the local one. -/
theorem handleFileChanged_lost {clock : VectorClock} {timestamp : Nat} {writer : PeerId}
    (foreign : writer ≠ ctx.localId)
    (lost : resolve (peer.index.clockOf path.rel) clock (peer.index.lastModifiedOf path.rel)
      timestamp writer ctx.localId = .conflict ctx.localId) (chunks : List ChunkMeta) :
    peer.handleFileChanged ctx device ask path.raw chunks clock timestamp writer =
      ((peer.backUp device path ctx.localId).fetchAndApply ctx device ask path.raw
        (chunks.map ChunkMeta.index) ⟨clock, timestamp, writer⟩).1 := by
  rw [handleFileChanged, if_neg foreign, SafePath.of?_raw]
  dsimp only
  rw [lost]
  dsimp only
  rw [if_pos rfl]

/-! ## The copy and the fetch -/

omit [Blake3] in
/-- When a backup holds the bytes of the file after the copy. -/
theorem read_backUp_iff (there : peer.disk.read path.rel = some old) (loser : PeerId) :
    (peer.backUp device path loser).disk.read (path.backup loser).rel = some old ↔
      BackedUp device peer (path.backup loser).rel old := by
  rw [backUp, if_pos (Disk.pathExists_of_read there), Outcome.copy, there]
  dsimp only
  rw [Outcome.read_write_self_eq_some_iff, Outcome.stored_eq_map_count]
  simp only [Option.map_eq_some_iff, forall_exists_index, and_imp, forall_apply_eq_imp_iff₂,
    List.take_eq_self_iff]
  exact ⟨fun both => ⟨both.1, both.2⟩, fun backedUp => ⟨backedUp.whole, backedUp.already⟩⟩

omit [Blake3] in
/-- The copy leaves the file itself alone. -/
theorem read_backUp_of_ne {query : RelPath} {loser : PeerId}
    (apart : query ≠ (path.backup loser).rel) :
    (peer.backUp device path loser).disk.read query = peer.disk.read query := by
  rw [backUp]
  split
  · rw [Outcome.copy]
    split
    · exact Outcome.read_write_of_ne apart
    · rfl
  · rfl

/-- The folder after a fetch that got chunks. -/
theorem applyFetched_disk (chunks : List (Nat × Bytes)) :
    (peer.applyFetched ctx device chunks path origin).1.disk =
      ((applyChunks ctx.storage chunks (peer.oldData device path.rel)).map fun data =>
        (device.writes.write path.rel data (peer.makeParents device path.rel)).2).getD
          peer.disk := by
  rcases applyFetched_cases ctx device peer chunks path origin with
    ⟨refused, result⟩ | ⟨data, disk, assembled, ⟨written, result⟩ | ⟨written, result⟩⟩
  · rw [result, refused]
    rfl
  · rw [result, assembled, Option.map_some, Option.getD_some, written]
  · rw [result, assembled, Option.map_some, Option.getD_some, written]

/-- A fetch changes no other file. -/
theorem read_fetchAndApply_of_ne {query : RelPath} (apart : query ≠ path.rel) :
    (peer.fetchAndApply ctx device ask path.raw chunkIndices origin).1.disk.read query =
      peer.disk.read query := by
  rcases fetchAndApply_cases ctx device ask path.raw chunkIndices peer origin with
    ⟨unchanged, -⟩ | ⟨path', echoed, chunks, named, -, -, fetched⟩
  · rw [unchanged]
  · obtain rfl := SafePath.eq_of_raw named
    rw [fetched, applyFetched_disk]
    cases applyChunks ctx.storage chunks (peer.oldData device path'.rel) with
    | none => rfl
    | some data =>
        rw [Option.map_some, Option.getD_some, Outcome.read_write_of_ne apart, read_makeParents]

/-- When a fetch that got chunks leaves the bytes of the file as they were. -/
theorem read_applyFetched_iff (there : peer.disk.read path.rel = some old)
    {chunks : List (Nat × Bytes)} :
    (peer.applyFetched ctx device chunks path origin).1.disk.read path.rel = some old ↔
      ∀ count, (∀ piece ∈ keptPieces ctx.storage chunks,
          piece.1 + piece.2.length ≤ ctx.storage.maxFileSize) →
        device.writes.count (max (if device.reads then old else []).length
          (Overlay.reach (keptPieces ctx.storage chunks))) = some count →
          PutsBack ctx.storage chunks (if device.reads then old else []) old count := by
  have buffer : peer.oldData device path.rel = if device.reads then old else [] := by
    rw [oldData, there, Option.getD_some]
  have opens : ((peer.makeParents device path.rel).write path.rel []).isSome = true := by
    have present := (read_makeParents device path.rel path.rel).trans there
    exact Disk.write_isSome_of_read present
  rw [applyFetched_disk, buffer]
  cases assembled : applyChunks ctx.storage chunks (if device.reads then old else []) with
  | none =>
      refine iff_of_true there fun count small => ?_
      have applied : applyChunks ctx.storage chunks (if device.reads then old else []) = some _ :=
        applyChunks_eq_some_iff.mpr ⟨small, rfl⟩
      exact absurd (assembled.symm.trans applied) (Option.some_ne_none _).symm
  | some data =>
      obtain ⟨small, rfl⟩ := applyChunks_eq_some_iff.mp assembled
      rw [Option.map_some, Option.getD_some, Outcome.read_write_self_eq_some_iff, opens,
        Outcome.stored_eq_map_count, Overlay.length_spliceAll, read_makeParents, there]
      constructor
      · intro kept count _ stored
        refine Overlay.take_spliceAll_eq_iff.mp (kept.1 _ ?_ rfl)
        rw [stored, Option.map_some]
      · refine fun putsBack => ⟨fun content stored _ => ?_, fun _ => rfl⟩
        obtain ⟨count, counted, rfl⟩ := Option.map_eq_some_iff.mp stored
        exact Overlay.take_spliceAll_eq_iff.mpr (putsBack count small counted)

/-- When a fetch leaves the bytes of the file as they were. -/
theorem read_fetchAndApply_iff (there : peer.disk.read path.rel = some old) :
    (peer.fetchAndApply ctx device ask path.raw chunkIndices origin).1.disk.read path.rel =
        some old ↔
      LeavesFile ctx device ask peer path chunkIndices old := by
  by_cases answered : ∃ (echoed : Str) (chunks : List (Nat × Bytes)),
      peer.index.isExcluded path.rel = false ∧
        ask (.getChunks path.raw chunkIndices) = some (.chunks echoed chunks)
  · obtain ⟨echoed, chunks, included, answered⟩ := answered
    rw [fetchAndApply_answered included answered, read_applyFetched_iff there]
    constructor
    · intro kept echoed' chunks' count _ answered' small stored
      obtain ⟨-, rfl⟩ := SyncResponse.chunks.inj (Option.some.inj (answered.symm.trans answered'))
      exact kept count small stored
    · intro leaves count small stored
      exact leaves echoed chunks count included answered small stored
  · -- Without chunks nothing is written.
    rcases fetchAndApply_cases ctx device ask path.raw chunkIndices peer origin with
      ⟨unchanged, -⟩ | ⟨path', echoed, chunks, named, included, reply, -⟩
    · rw [unchanged]
      refine iff_of_true there fun echoed chunks _ included reply _ _ => ?_
      exact absurd ⟨echoed, chunks, included, reply⟩ answered
    · obtain rfl := SafePath.eq_of_raw named
      exact absurd ⟨echoed, chunks, included, reply⟩ answered

/-- **Exactly when the bytes of a version that lost are still stored.** -/
theorem preserved_iff {clock : VectorClock} {timestamp : Nat} {writer : PeerId}
    (foreign : writer ≠ ctx.localId)
    (lost : resolve (peer.index.clockOf path.rel) clock (peer.index.lastModifiedOf path.rel)
      timestamp writer ctx.localId = .conflict ctx.localId)
    (there : peer.disk.read path.rel = some old) (chunks : List ChunkMeta) :
    ((peer.handleFileChanged ctx device ask path.raw chunks clock timestamp writer).disk.read
          path.rel = some old ∨
        (peer.handleFileChanged ctx device ask path.raw chunks clock timestamp writer).disk.read
          (path.backup ctx.localId).rel = some old) ↔
      LeavesFile ctx device ask peer path (chunks.map ChunkMeta.index) old ∨
        BackedUp device peer (path.backup ctx.localId).rel old := by
  have apart := (path.backup_rel ctx.localId).1
  have kept : (peer.backUp device path ctx.localId).disk.read path.rel = some old := by
    rw [read_backUp_of_ne apart.symm, there]
  have leaves : LeavesFile ctx device ask (peer.backUp device path ctx.localId) path
      (chunks.map ChunkMeta.index) old ↔
        LeavesFile ctx device ask peer path (chunks.map ChunkMeta.index) old := by
    simp only [LeavesFile, backUp_index]
  rw [handleFileChanged_lost foreign lost, read_fetchAndApply_iff kept, leaves,
    read_fetchAndApply_of_ne apart, read_backUp_iff there]

end Peer

/-! ## A backup in a folder that is not there -/

namespace Peer

attribute [local instance] Sample.blake3

/-- The folder `a.b` with the file `f`. -/
def dotted (data : Bytes) : Disk := .dir [(.utf8 ['a', '.', 'b'], .dir [(.utf8 ['f'], .file data)])]

/-- The path `a.b/f`. -/
def dottedPath : SafePath :=
  ⟨['a', '.', 'b', '/', 'f'], [.utf8 ['a', '.', 'b'], .utf8 ['f']], by decide⟩

/-- The answer to every request: one chunk. -/
def answers (_ : SyncRequest) : Option SyncResponse := some (.chunks [] [(0, [9])])

/-- The clock of a version by the second peer. -/
def rivalClock : VectorClock := VectorClock.new.tick (Sample.peerId 2)

/-- The handler for that version, with all calls succeeding. -/
def rivalled (peer : Peer Sample.Site) (path : SafePath) : Peer Sample.Site :=
  peer.handleFileChanged (Sample.ctx .one) {} answers path.raw (Chunk.metadata [9] 2) rivalClock 20
    (Sample.peerId 2)

/-- The steps by which the user's edit of a file is indexed. -/
def edits (path : SafePath) (disk : Disk) : List (Act Sample.Site) :=
  [.user disk, .watched (.modified path.rel), .fsEvent ⟨true, some [2], some [2]⟩]

/-- The peer has `[2]` in the file and loses it to the version of the second peer. -/
def losesTo (path : SafePath) (peer : Peer Sample.Site) : Bool :=
  decide (resolve (peer.index.clockOf path.rel) rivalClock (peer.index.lastModifiedOf path.rel) 20
    (Sample.peerId 2) (Sample.peerId 1) = .conflict (Sample.peerId 1)) &&
  decide (peer.disk.read path.rel = some [2])

/-- On a device without failures the bytes are lost: the dot by which the backup is named is
in the name of the folder, and there is no folder for the backup. -/
theorem exists_lost_bytes :
    ∃ peer : Peer Sample.Site, Reachable (Sample.ctx .one) peer ∧
      resolve (peer.index.clockOf dottedPath.rel) rivalClock
        (peer.index.lastModifiedOf dottedPath.rel) 20 (Sample.peerId 2) (Sample.peerId 1) =
          .conflict (Sample.peerId 1) ∧
      peer.disk.read dottedPath.rel = some [2] ∧
        ¬ ((peer.rivalled dottedPath).disk.read dottedPath.rel = some [2] ∨
          (peer.rivalled dottedPath).disk.read (dottedPath.backup (Sample.peerId 1)).rel =
            some [2]) := by
  obtain ⟨peer, reachable, passed⟩ := reachable_of_any (by decide +kernel :
    ((start (Sample.ctx .one) (dotted [1]) [] 10).bind fun first =>
      runActs (next (Sample.ctx .one)) first (edits dottedPath (dotted [2]))).any (fun peer =>
        losesTo dottedPath peer &&
        decide ((peer.rivalled dottedPath).disk.read dottedPath.rel ≠ some [2]) &&
        decide ((peer.rivalled dottedPath).disk.read (dottedPath.backup (Sample.peerId 1)).rel ≠
          some [2])) = true)
  simp only [losesTo, Bool.and_eq_true, decide_eq_true_eq] at passed
  obtain ⟨⟨⟨lost, there⟩, file⟩, backup⟩ := passed
  exact ⟨peer, reachable, lost, there, not_or.mpr ⟨file, backup⟩⟩

/-- The same for a file without a dot on its way. -/
theorem preserved_iff_sample :
    ∃ peer : Peer Sample.Site, Reachable (Sample.ctx .one) peer ∧
      peer.disk.read Sample.path = some [2] ∧
        ((peer.rivalled Sample.safe).disk.read Sample.path = some [2] ∨
          (peer.rivalled Sample.safe).disk.read (Sample.safe.backup (Sample.peerId 1)).rel =
            some [2]) := by
  obtain ⟨peer, reachable, passed⟩ := reachable_of_any (by decide +kernel :
    ((start (Sample.ctx .one) (Sample.folder [1]) [] 10).bind fun first =>
      runActs (next (Sample.ctx .one)) first (edits Sample.safe (Sample.folder [2]))).any
        (fun peer => losesTo Sample.safe peer &&
        (peer.disk.write (Sample.safe.backup (Sample.peerId 1)).rel []).isSome) = true)
  simp only [losesTo, Bool.and_eq_true, decide_eq_true_eq] at passed
  obtain ⟨⟨lost, there⟩, opens⟩ := passed
  refine ⟨peer, reachable, there, (preserved_iff (by decide) lost there _).mpr (Or.inr ?_)⟩
  refine ⟨fun count whole _ => (Option.some.inj whole).le, fun blocked => ?_⟩
  exact absurd (opens.symm.trans (blocked 1 rfl)) (Bool.false_ne_true ∘ Eq.symm)

end Peer

end P2Sync
