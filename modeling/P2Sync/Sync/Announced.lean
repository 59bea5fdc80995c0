import P2Sync.Net.Start

/-!
# The announced version and the one that is stored

A notification carries the hash of the announced version, and nothing looks at it. What
is stored is the answer written over the old content. It is the announced version when the
old content is not longer, the chunks that are kept end where the version does, each position
they cover has its byte in the last of them, and what they leave out was as announced before
(`Completes`). Otherwise something else is stored, with another hash unless the hash function
collides (`stored_announced_iff`).
-/

set_option autoImplicit false

namespace P2Sync

namespace Peer

variable {ι : Type} [Blake3] {ctx : Ctx ι} {device : Device} {peer after : Peer ι}

/-- The rest of `fetch_and_apply` from the answer on, with nothing in between. -/
def applyAnswer (ctx : Ctx ι) (device : Device) (number : Nat) (path : Str)
    (chunks : List (Nat × Bytes)) (peer : Peer ι) : Option (Peer ι) :=
  runActs (next ctx) peer [.respond number (some (.chunks path chunks)), .resume number device,
    .resume number device, .resume number device]

omit [Blake3] in
theorem getElem?_set_found {tasks : List (Task ι)} {number : Nat} {old new : Task ι}
    (found : tasks[number]? = some old) : (tasks.set number new)[number]? = some new := by
  rw [List.getElem?_set_self (List.getElem?_eq_some_iff.mp found).1]

/-- What a call that comes to its end has done. -/
theorem applyAnswer_cases {number : Nat} {raw : Str} {chunks : List (Nat × Bytes)}
    {task : Task ι} {fetch : Fetch ι} (found : peer.tasks[number]? = some task)
    (asked : task.stage = .asked fetch) (alone : task.todo = [])
    (applied : applyAnswer ctx device number raw chunks peer = some after) :
    ∃ data disk, applyChunks ctx.storage chunks (peer.oldData device fetch.path.rel) = some data ∧
      device.writes.write fetch.path.rel data (peer.makeParents device fetch.path.rel) =
        (true, disk) ∧ after.disk = disk ∧
          after.index =
            peer.index.fetched fetch.path.rel data ctx.storage.chunkSize fetch.origin := by
  obtain ⟨received, responded, applied⟩ := Option.bind_eq_some_iff.mp applied
  obtain ⟨loaded, assembled, applied⟩ := Option.bind_eq_some_iff.mp applied
  obtain ⟨written, stored, applied⟩ := Option.bind_eq_some_iff.mp applied
  obtain ⟨committed, indexed, applied⟩ := Option.bind_eq_some_iff.mp applied
  obtain rfl := Option.some.inj applied
  rw [next_respond found, asked] at responded
  obtain rfl := Option.some.inj responded
  obtain rfl := next_answered assembled (getElem?_set_found found) rfl
  -- A stretch that gives up leaves an ended task, and the next stretch is missing.
  cases content : applyChunks ctx.storage chunks (peer.oldData device fetch.path.rel) with
  | none =>
      have ended : (applyChunks ctx.storage chunks (peer.oldData device fetch.path.rel)).elim
          Stage.idle (Stage.loaded fetch) = .idle := by rw [content, Option.elim_none]
      exact (next_ended stored (getElem?_set_found (getElem?_set_found found)) ended alone).elim
  | some data =>
      have ready : (applyChunks ctx.storage chunks (peer.oldData device fetch.path.rel)).elim
          Stage.idle (Stage.loaded fetch) = .loaded fetch data := by rw [content, Option.elim_some]
      obtain rfl := next_loaded stored (getElem?_set_found (getElem?_set_found found)) ready
      cases outcome : device.writes.write fetch.path.rel data
          (peer.makeParents device fetch.path.rel) with
      | mk success disk =>
          cases success with
          | false =>
              have ended : (if (device.writes.write fetch.path.rel data
                  (peer.makeParents device fetch.path.rel)).1 = true then
                    Stage.written fetch data else .idle) = .idle := by rw [outcome]; rfl
              exact (next_ended indexed (getElem?_set_found
                (getElem?_set_found (getElem?_set_found found))) ended alone).elim
          | true =>
              have kept : (if (device.writes.write fetch.path.rel data
                  (peer.makeParents device fetch.path.rel)).1 = true then
                    Stage.written fetch data else .idle) = .written fetch data := by
                rw [outcome]; rfl
              obtain rfl := next_written indexed (getElem?_set_found
                (getElem?_set_found (getElem?_set_found found))) kept
              exact ⟨data, disk, rfl, outcome, congrArg Prod.snd outcome, rfl⟩

/-- A notification is delivered, and its fetch answered and applied. -/
def receiveUpdate (ctx : Ctx ι) (device : Device) (source : ι) (update : SyncNotification)
    (path : Str) (chunks : List (Nat × Bytes)) (peer : Peer ι) : Option (Peer ι) :=
  (peer.next ctx (.notified source update device)).bind
    (applyAnswer ctx device peer.tasks.length path chunks)

theorem not_applyAnswer {number : Nat} {raw : Str} {chunks : List (Nat × Bytes)}
    (notAsked : ∀ task, peer.tasks[number]? = some task → task.stage = .idle)
    (applied : applyAnswer ctx device number raw chunks peer = some after) : False := by
  obtain ⟨received, responded, _⟩ := Option.bind_eq_some_iff.mp applied
  cases found : peer.tasks[number]? with
  | none =>
      rw [next, step, found] at responded
      exact absurd responded (Option.some_ne_none received).symm
  | some task =>
      rw [next_respond found, notAsked task found] at responded
      exact absurd responded (Option.some_ne_none received).symm

/-- What an accepted update has done when its fetch comes to its end. -/
theorem receiveUpdate_cases {source : ι} {path : SafePath} {hash : Hash}
    {metas : List ChunkMeta} {clock : VectorClock} {timestamp : Nat} {writer : PeerId} {raw : Str}
    {chunks : List (Nat × Bytes)}
    (accepted : (peer.index.clockOf path.rel).compare clock = .before)
    (received : receiveUpdate ctx device source
      (.fileChanged path.raw hash metas clock timestamp writer) raw chunks peer = some after) :
    ∃ data disk, applyChunks ctx.storage chunks (peer.oldData device path.rel) = some data ∧
      device.writes.write path.rel data (peer.makeParents device path.rel) = (true, disk) ∧
        after.disk = disk ∧ after.index =
          peer.index.fetched path.rel data ctx.storage.chunkSize ⟨clock, timestamp, writer⟩ := by
  obtain ⟨middle, noticed, applied⟩ := Option.bind_eq_some_iff.mp received
  obtain ⟨published, noticed⟩ := next_cases noticed
  generalize same : SyncNotification.fileChanged path.raw hash metas clock timestamp writer =
    update at noticed
  cases noticed with
  | quiet act watch idle =>
      refine (not_applyAnswer (fun task found => ?_) applied).elim
      rw [List.getElem?_eq_none (Nat.le_refl _)] at found
      exact absurd found (Option.some_ne_none task).symm
  | accepted source path' hash' chunks' clock' timestamp' writer' device watch foreign newer =>
      obtain ⟨named, rfl, rfl, rfl, rfl, rfl⟩ := SyncNotification.fileChanged.inj same
      obtain rfl := SafePath.eq_of_raw named
      by_cases excluded : peer.index.isExcluded path.rel = true
      · refine (not_applyAnswer (fun task found => ?_) applied).elim
        simp only [spawn, List.getElem?_concat_length, Option.some.injEq] at found
        rw [← found, startFetch, SafePath.of?_raw]
        exact if_pos excluded
      · have asked : peer.startFetch source path.raw (metas.map ChunkMeta.index)
            ⟨clock, timestamp, writer⟩ (.accepted hash) =
              .asked ⟨source, path, metas.map ChunkMeta.index, ⟨clock, timestamp, writer⟩,
                .accepted hash⟩ := by
          rw [startFetch, SafePath.of?_raw]
          exact if_neg excluded
        obtain ⟨data, disk, assembled, outcome, stored, indexed⟩ :=
          applyAnswer_cases List.getElem?_concat_length asked rfl applied
        exact ⟨data, disk, assembled, outcome, stored, indexed⟩
  | lost source path' hash' chunks' clock' timestamp' writer' device foreign concurrent =>
      obtain ⟨named, rfl, rfl, rfl, rfl, rfl⟩ := SyncNotification.fileChanged.inj same
      obtain rfl := SafePath.eq_of_raw named
      exact absurd (accepted.symm.trans concurrent) (by decide)
  | kept source path' hash' chunks' clock' timestamp' writer' device foreign concurrent =>
      obtain ⟨named, rfl, rfl, rfl, rfl, rfl⟩ := SyncNotification.fileChanged.inj same
      obtain rfl := SafePath.eq_of_raw named
      exact absurd (accepted.symm.trans concurrent) (by decide)
  | unlinked => cases same

/-- The version stored for a path is the one with the announced hash. -/
def StoresAnnounced (after : Peer ι) (path : SafePath) (hash : Hash) : Prop :=
  ∀ node, Merkle.findNode path.rel after.index.tree = some node → node.hash = hash

/-- The hash that announces a content. -/
def announcedHash (ctx : Ctx ι) (content : Bytes) : Hash :=
  Chunk.fileHash (Chunk.metadata content ctx.storage.chunkSize)

/-- The chunks that are kept of an answer make an announced content of an old one. -/
structure Completes (announced old : Bytes) (pieces : List (Nat × Bytes)) : Prop where
  within : old.length ≤ announced.length
  ends : ∀ piece ∈ pieces, piece.1 + piece.2.length ≤ announced.length
  reaches : old.length = announced.length ∨
    ∃ piece ∈ pieces, piece.1 + piece.2.length = announced.length
  covered : ∀ position byte, Overlay.cover position pieces = some byte →
    announced[position]? = some byte
  uncovered : ∀ position < announced.length, Overlay.cover position pieces = none →
    announced.getD position 0 = old.getD position 0

omit [Blake3] in
theorem completes_iff {announced old : Bytes} {pieces : List (Nat × Bytes)} :
    Completes announced old pieces ↔ Overlay.Assembles 0 old pieces announced := by
  rw [Overlay.Assembles, Overlay.eq_max_reach_iff]
  constructor
  · rintro ⟨within, ends, reaches, covered, uncovered⟩
    refine ⟨⟨within, ends, reaches⟩, fun position inside => ?_⟩
    cases found : Overlay.cover position pieces with
    | some byte =>
        rw [Option.getD_some, List.getD_eq_getElem?_getD, covered position byte found,
          Option.getD_some]
    | none => exact uncovered position inside found
  · rintro ⟨⟨within, ends, reaches⟩, values⟩
    refine ⟨within, ends, reaches, fun position byte found => ?_, fun position inside none => ?_⟩
    · have inside := (Overlay.lt_reach_of_cover found).trans_le (Overlay.reach_le ends)
      have value := values position inside
      rw [found, Option.getD_some, List.getD_eq_getElem _ _ inside] at value
      rw [List.getElem?_eq_getElem inside, value]
    · have value := values position inside
      rwa [none, Option.getD_none] at value

/-- What is stored has the hash of what was written, if the tree can hold it. -/
theorem storesAnnounced_iff {path : SafePath} {hash : Hash} {data : Bytes} {disk : Disk}
    {origin : RemoteOrigin} (rooted : ∃ entries, peer.disk = .dir entries)
    (outcome : device.writes.write path.rel data (peer.makeParents device path.rel) = (true, disk))
    (indexed : after.index = peer.index.fetched path.rel data ctx.storage.chunkSize origin) :
    StoresAnnounced after path hash ↔
      Merkle.Blocked (Merkle.pathNames path.rel) peer.index.tree ∨
        announcedHash ctx data = hash := by
  obtain ⟨names, named⟩ := path.exists_rel_eq
  have proper : names ≠ [] := by
    rintro rfl
    obtain ⟨entries, folder⟩ := rooted
    -- The root is a folder, and stays one, so it cannot be written as a file.
    have parents : peer.makeParents device [] = .dir entries := by
      rw [makeParents, folder]
      split <;> rfl
    rw [named, List.map_nil, parents] at outcome
    exact absurd (Outcome.write_succeeds_iff.mp outcome).2 (Option.some_ne_none disk).symm
  rw [StoresAnnounced, indexed, SyncIndex.fetched, Merkle.updateFileWithChunkSize,
    Merkle.insertNode, named, Merkle.findNode_map_utf8, Merkle.pathNames_map_utf8]
  by_cases blocked : Merkle.Blocked names peer.index.tree
  · rw [Merkle.findNames_insert_of_blocked blocked]
    exact iff_of_true (fun node found => absurd found (Option.some_ne_none node).symm)
      (Or.inl blocked)
  · rw [Merkle.findNames_insert_self proper blocked, or_iff_right blocked]
    constructor
    · exact fun stores => stores _ rfl
    · rintro same node found
      obtain rfl := Option.some.inj found
      exact same

/-- **What is stored for an accepted update is the announced version** exactly when a file above
the path keeps the tree from holding anything there, or the kept chunks make the announced
content of the old one, or another content with the announced hash. A hash that announces no
content is only met where nothing is stored. -/
theorem stored_announced_iff {source : ι} {path : SafePath} {hash : Hash}
    {metas : List ChunkMeta} {clock : VectorClock} {timestamp : Nat} {writer : PeerId} {raw : Str}
    {chunks : List (Nat × Bytes)} (rooted : ∃ entries, peer.disk = .dir entries)
    (accepted : (peer.index.clockOf path.rel).compare clock = .before)
    (received : receiveUpdate ctx device source
      (.fileChanged path.raw hash metas clock timestamp writer) raw chunks peer = some after) :
    (∀ announced, announcedHash ctx announced = hash → (StoresAnnounced after path hash ↔
      Merkle.Blocked (Merkle.pathNames path.rel) peer.index.tree ∨
        Completes announced (peer.oldData device path.rel) (keptPieces ctx.storage chunks) ∨
          ∃ other, other ≠ announced ∧ announcedHash ctx other = hash ∧
            Completes other (peer.oldData device path.rel) (keptPieces ctx.storage chunks))) ∧
    ((∀ content, announcedHash ctx content ≠ hash) → (StoresAnnounced after path hash ↔
      Merkle.Blocked (Merkle.pathNames path.rel) peer.index.tree)) := by
  obtain ⟨data, disk, assembled, outcome, _, indexed⟩ := receiveUpdate_cases accepted received
  have content := (applyChunks_eq_some_iff.mp assembled).2
  have completes : ∀ {other}, Completes other (peer.oldData device path.rel)
      (keptPieces ctx.storage chunks) ↔ other = data := by
    intro other
    rw [completes_iff, ← Overlay.spliceAll_eq_iff, content, eq_comm]
  have stores : StoresAnnounced after path hash ↔ _ := storesAnnounced_iff rooted outcome indexed
  constructor
  · rintro announced hashed
    rw [stores]
    refine or_congr_right ⟨fun same => ?_, ?_⟩
    · by_cases here : data = announced
      · exact Or.inl (completes.mpr here.symm)
      · exact Or.inr ⟨data, here, same, completes.mpr rfl⟩
    · rintro (here | ⟨other, _, collides, here⟩)
      · exact completes.mp here ▸ hashed
      · exact completes.mp here ▸ collides
  · intro unannounced
    rw [stores, or_iff_left (unannounced data)]

end Peer

/-! ## A shorter version over a longer one -/

namespace Peer

attribute [local instance] Sample.blake3

/-- The announcement of a version of `f` by the second peer, as its first edit. -/
def announcement (content : Bytes) : SyncNotification :=
  .fileChanged ['f'] (Chunk.fileHash (Chunk.metadata content 2)) (Chunk.metadata content 2)
    (VectorClock.new.tick (Sample.peerId 2)) 5 (Sample.peerId 2)

/-- A peer that holds three bytes gets the complete answer for an announced version of one
byte, records its clock, and stores something else. -/
theorem not_storesAnnounced :
    ∃ after : Peer Sample.Site, Reachable (Sample.ctx .one) (Sample.peer .one [1, 2, 3]) ∧
      receiveUpdate (Sample.ctx .one) {} .two (announcement [7]) ['f']
        (serveChunks (Sample.ctx .two).storage [7] [0]) (Sample.peer .one [1, 2, 3]) = some after ∧
          after.index.clockOf Sample.path = VectorClock.new.tick (Sample.peerId 2) ∧
            ¬ StoresAnnounced after Sample.safe (Chunk.fileHash (Chunk.metadata [7] 2)) := by
  obtain ⟨after, received, passed⟩ := (Option.any_eq_true _ _).mp (by decide +kernel :
    (receiveUpdate (Sample.ctx .one) {} .two (announcement [7]) ['f']
      (serveChunks (Sample.ctx .two).storage [7] [0]) (Sample.peer .one [1, 2, 3])).any
      (fun after =>
        decide (after.index.clockOf Sample.path = VectorClock.new.tick (Sample.peerId 2)) &&
        (Merkle.findNode Sample.path after.index.tree).any fun node =>
          decide (node.hash ≠ Chunk.fileHash (Chunk.metadata [7] 2))) = true)
  rw [Bool.and_eq_true, Option.any_eq_true] at passed
  obtain ⟨recorded, node, found, differs⟩ := passed
  have reachable : Reachable (Sample.ctx .one) (Sample.peer .one [1, 2, 3]) :=
    ⟨_, _, _, _, [], Sample.start_peer .one [1, 2, 3], .start⟩
  exact ⟨after, reachable, received, of_decide_eq_true recorded, fun stores =>
    of_decide_eq_true differs (stores node found)⟩

/-- Three chunks come out of order, the second of them late and the last one short, and make the
announced version of what was there. -/
theorem stored_announced_iff_sample :
    ∃ after : Peer Sample.Site,
      receiveUpdate (Sample.ctx .one) {} .two (announcement [7, 8, 9, 4, 5]) ['f']
        [(2, [5]), (1, [0, 0]), (0, [7, 8]), (1, [9, 4])] (Sample.peer .one [1, 2, 3]) =
          some after ∧
        StoresAnnounced after Sample.safe (announcedHash (Sample.ctx .one) [7, 8, 9, 4, 5]) := by
  obtain ⟨after, received⟩ := Option.isSome_iff_exists.mp (by decide +kernel :
    (receiveUpdate (Sample.ctx .one) {} .two (announcement [7, 8, 9, 4, 5]) ['f']
      [(2, [5]), (1, [0, 0]), (0, [7, 8]), (1, [9, 4])] (Sample.peer .one [1, 2, 3])).isSome)
  have accepted : ((Sample.peer .one [1, 2, 3]).index.clockOf Sample.safe.rel).compare
      (VectorClock.new.tick (Sample.peerId 2)) = .before := by decide +kernel
  have completes : Completes [7, 8, 9, 4, 5]
      ((Sample.peer .one [1, 2, 3]).oldData {} Sample.safe.rel)
      (keptPieces (Sample.ctx .one).storage [(2, [5]), (1, [0, 0]), (0, [7, 8]), (1, [9, 4])]) :=
    completes_iff.mpr (Overlay.spliceAll_eq_iff.mp (by decide +kernel))
  exact ⟨after, received,
    ((stored_announced_iff ⟨_, rfl⟩ accepted received).1 _ rfl).mpr (Or.inr (Or.inl completes))⟩

end Peer

end P2Sync
