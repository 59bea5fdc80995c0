import P2Sync.Net.Files

/-!
# Versions that lost a conflict

A version that loses a conflict at its own peer is copied to a backup path before it is
overwritten. The path depends on the file and the peer only, so the next version that
loses there is copied over the first one. A lost version stays under a backup path in
every run in which nothing endangers it there (`lost_versions_kept`).
-/

set_option autoImplicit false

namespace P2Sync

/-- The path is a backup path of the file, for some losing peer. -/
def BackupOf (file query : RelPath) : Prop :=
  ∃ path : SafePath, ∃ loser, path.rel = file ∧ (path.backup loser).rel = query

namespace Peer

variable {ι : Type} [Blake3] (ctx : Ctx ι) (file : RelPath)

omit [Blake3] in
/-- The step finds a conflict that the local version of the file loses, and copies it. -/
def Loses (before : Peer ι) (act : Act ι) (data : Bytes) : Prop :=
  ∃ source, ∃ path : SafePath, ∃ hash chunks clock timestamp writer device,
    act = .notified source (.fileChanged path.raw hash chunks clock timestamp writer) device ∧
      ctx.noPull = false ∧ path.rel = file ∧ writer ≠ ctx.localId ∧
        (before.index.clockOf file).compare clock = .concurrent ∧
          remoteWins (before.index.lastModifiedOf file) timestamp writer ctx.localId = true ∧
            before.disk.read file = some data ∧
              (device.copies.copy file (path.backup ctx.localId).rel before.disk).1 = true

omit [Blake3] in
/-- The contents of the file that lost a conflict on the way. -/
def LostIn (trace : List (Peer ι × Act ι)) (data : Bytes) : Prop :=
  ∃ entry ∈ trace, Loses ctx file entry.1 entry.2 data

/-- What puts a content at a backup path in danger: the user changes or deletes the backup,
another content of a file with this backup loses a conflict, a fetch of the backup itself comes to
its write, or a tombstone of another peer names the backup. -/
inductive Endangers (before : Peer ι) (query : RelPath) (data : Bytes) : Act ι → Prop where
  | edited (disk : Disk) (changed : disk.read query ≠ some data) :
      Endangers before query data (.user disk)
  | losesAgain (source : ι) (path : SafePath) (hash : Hash) (chunks : List ChunkMeta)
      (clock : VectorClock) (timestamp : Nat) (writer : PeerId) (device : Device) (other : Bytes)
      (here : (path.backup ctx.localId).rel = query) (pulls : ctx.noPull = false)
      (foreign : writer ≠ ctx.localId)
      (concurrent : (before.index.clockOf path.rel).compare clock = .concurrent)
      (wins : remoteWins (before.index.lastModifiedOf path.rel) timestamp writer ctx.localId = true)
      (read : before.disk.read path.rel = some other)
      (differs : other ≠ data ∨ device.copies ≠ .succeeds) :
      Endangers before query data
        (.notified source (.fileChanged path.raw hash chunks clock timestamp writer) device)
  | fetched (number : Nat) (device : Device) (task : Task ι) (fetch : Fetch ι) (bytes : Bytes)
      (here : fetch.path.rel = query) (found : before.tasks[number]? = some task)
      (ready : task.stage = .loaded fetch bytes)
      (differs : bytes ≠ data ∨ device.writes ≠ .succeeds) :
      Endangers before query data (.resume number device)
  | deleted (source : ι) (tombstone : Tombstone) (path : SafePath) (device : Device)
      (here : path.rel = query) (named : tombstone.path = path.raw) (pulls : ctx.noPull = false)
      (foreign : tombstone.deletedBy ≠ ctx.localId) (removes : device.removes = true) :
      Endangers before query data (.notified source (.fileDeleted tombstone) device)

/-- The step does not endanger a content that lost earlier, where a backup holds it. -/
def KeepsLost (earlier : List (Peer ι × Act ι)) (before : Peer ι) (act : Act ι) : Prop :=
  ∀ data query, LostIn ctx file earlier data → BackupOf file query →
    before.disk.read query = some data → ¬ Endangers ctx before query data act

/-- Every content that lost a conflict is under a backup path of the file. -/
def LostKept (trace : List (Peer ι × Act ι)) (peer : Peer ι) : Prop :=
  ∀ data, LostIn ctx file trace data →
    ∃ query, BackupOf file query ∧ peer.disk.read query = some data

variable {ctx file}

/-- After a lost conflict the backup holds the losing version. -/
theorem Loses.stored {before after : Peer ι} {act : Act ι} {data : Bytes}
    (loses : Loses ctx file before act data) (stepped : before.next ctx act = some after) :
    ∃ query, BackupOf file query ∧ after.disk.read query = some data := by
  obtain ⟨source, path, hash, chunks, clock, timestamp, writer, device, rfl, pulling, rfl, foreign,
    concurrent, wins, read, copied⟩ := loses
  refine ⟨(path.backup ctx.localId).rel, ⟨path, ctx.localId, rfl, rfl⟩, ?_⟩
  rw [next, step, pulling, if_neg Bool.false_ne_true,
    handleNotification_conflict foreign concurrent, if_pos wins] at stepped
  obtain rfl := Option.some.inj stepped
  have success : device.copies.copy path.rel (path.backup ctx.localId).rel before.disk =
      (true, (device.copies.copy path.rel (path.backup ctx.localId).rel before.disk).2) :=
    Prod.ext copied rfl
  rw [spawn, backUp, if_pos (Disk.pathExists_of_read read)]
  exact (Outcome.read_copy_self success).trans read

omit [Blake3] in
/-- What a write that may break off stores is its content, unless it breaks off. -/
theorem differs_of_stored {outcome : Outcome} {bytes content data : Bytes}
    (stored : outcome.stored bytes = some content) (changed : some content ≠ some data) :
    bytes ≠ data ∨ outcome ≠ .succeeds := by
  by_contra same
  rw [not_or, not_not, not_not] at same
  obtain ⟨rfl, rfl⟩ := same
  exact changed stored.symm

/-- **A backup that nothing endangers stays as it is.** -/
theorem endangers_of_changed {before after : Peer ι} {act : Act ι} {query : RelPath} {data : Bytes}
    (read : before.disk.read query = some data) (stepped : before.next ctx act = some after)
    (changed : after.disk.read query ≠ some data) : Endangers ctx before query data act := by
  have other : after.disk.read query ≠ before.disk.read query := by rwa [read]
  obtain ⟨published, cases⟩ := next_cases stepped
  have rewritten := (cases.read query).resolve_left other
  generalize after.disk.read query = content at rewritten changed
  cases rewritten with
  | user disk => exact .edited disk changed
  | copied source path hash chunks clock timestamp writer device old content foreign concurrent wins
      here read stored =>
      exact .losesAgain source path hash chunks clock timestamp writer device old here
        (pulls_of_changed stepped other) foreign concurrent wins read
        (differs_of_stored stored changed)
  | removed source tombstone path device named here =>
      obtain ⟨foreign, removes⟩ := deletes_of_changed stepped other
      exact .deleted source tombstone path device here named (pulls_of_changed stepped other)
        foreign removes
  | written number device task fetch bytes content found ready here stored =>
      exact .fetched number device task fetch bytes here found ready
        (differs_of_stored stored changed)

theorem LostKept.step {trace : List (Peer ι × Act ι)} {before after : Peer ι} {act : Act ι}
    (kept : LostKept ctx file trace before) (keeps : KeepsLost ctx file trace before act)
    (stepped : before.next ctx act = some after) :
    LostKept ctx file (trace ++ [(before, act)]) after := by
  rintro data ⟨entry, member, loses⟩
  rcases List.mem_append.mp member with old | new
  · obtain ⟨query, backup, read⟩ := kept data ⟨entry, old, loses⟩
    refine ⟨query, backup, ?_⟩
    by_contra changed
    exact keeps data query ⟨entry, old, loses⟩ backup read
      (endangers_of_changed read stepped changed)
  · rw [List.mem_singleton.mp new] at loses
    exact loses.stored stepped

/-- **No lost version is destroyed** in a run that does not endanger one at its backup. -/
theorem lost_versions_kept {first last : Peer ι} {trace : List (Peer ι × Act ι)}
    (run : Run (next ctx) first trace last)
    (keeps : ∀ earlier entry later, trace = earlier ++ entry :: later →
      KeepsLost ctx file earlier entry.1 entry.2) :
    LostKept ctx file trace last := by
  refine run.history (LostKept ctx file) (KeepsLost ctx file) keeps ?_
    fun trace before act after held allowed stepped => held.step allowed stepped
  rintro data ⟨entry, member, _⟩
  exact absurd member List.not_mem_nil

end Peer

/-! ## A second conflict on the same file -/

namespace Peer

attribute [local instance] Sample.blake3

/-- A folder of files, none of which has the given content. -/
def lacks (data : Bytes) : Disk → Bool
  | .file _ => false
  | .dir entries => entries.all fun entry =>
      match entry.2 with
      | .file content => decide (content ≠ data)
      | .dir _ => false

theorem read_ne_of_lacks {data : Bytes} {disk : Disk} (passed : lacks data disk = true)
    (query : RelPath) : disk.read query ≠ some data := by
  cases disk with
  | file content => exact absurd passed Bool.false_ne_true
  | dir entries =>
      cases query with
      | nil => exact (Option.some_ne_none data).symm
      | cons name rest =>
          rw [Disk.read_cons_dir]
          intro read
          obtain ⟨child, found, read⟩ := Option.bind_eq_some_iff.mp read
          have differs := List.all_eq_true.mp passed _ (SortedMap.mem_of_lookup found)
          cases child with
          | dir inner => exact absurd differs Bool.false_ne_true
          | file content =>
              cases rest with
              | cons => exact absurd read (Option.some_ne_none data).symm
              | nil => exact of_decide_eq_true differs (Option.some.inj read)

/-- A version of `f` by another peer. -/
def rival (number : UInt8) (data : Bytes) (timestamp : Nat) : SyncNotification :=
  .fileChanged ['f'] (Chunk.fileHash (Chunk.metadata data 2)) (Chunk.metadata data 2)
    (VectorClock.new.tick (Sample.peerId number)) timestamp (Sample.peerId number)

/-- The user edits `f` and the edit is indexed. -/
def indexedEdit (folder : Disk) (content : Bytes) : List (Act Sample.Site) :=
  [.user folder, .watched (.modified Sample.path), .fsEvent ⟨true, some content, some content⟩]

/-- The version `[2]` of `f` loses a conflict and is copied. -/
def losesTwo (peer : Peer Sample.Site) : Act Sample.Site → Bool
  | .notified _ (.fileChanged raw _ _ clock timestamp writer) device =>
      decide (raw = ['f'] ∧ writer ≠ Sample.peerId 1 ∧
        (peer.index.clockOf Sample.path).compare clock = .concurrent ∧
          peer.disk.read Sample.path = some [2]) &&
      remoteWins (peer.index.lastModifiedOf Sample.path) timestamp writer (Sample.peerId 1) &&
      (device.copies.copy Sample.path (Sample.safe.backup (Sample.peerId 1)).rel peer.disk).1
  | _ => false

theorem loses_of_losesTwo {peer : Peer Sample.Site} {act : Act Sample.Site}
    (passed : losesTwo peer act = true) : Loses (Sample.ctx .one) Sample.path peer act [2] := by
  cases act with
  | notified source notification device =>
      cases notification with
      | fileChanged raw hash chunks clock timestamp writer =>
          simp only [losesTwo, Bool.and_eq_true, decide_eq_true_eq] at passed
          obtain ⟨⟨⟨rfl, foreign, concurrent, read⟩, wins⟩, copied⟩ := passed
          exact ⟨source, Sample.safe, hash, chunks, clock, timestamp, writer, device, rfl, rfl, rfl,
            foreign, concurrent, wins, read, copied⟩
      | _ => exact absurd passed Bool.false_ne_true
  | _ => exact absurd passed Bool.false_ne_true

/-- The second edit of `f`; the user leaves the backup of the first one alone. -/
def secondEdit : Disk :=
  .dir [(.utf8 ['f'], .file [3]), (.utf8 (conflictFilename ['f'] (Sample.peerId 1)), .file [2])]

/-- The version `[2]` of `f` is about to lose a conflict, and after a second edit and a
second conflict it is nowhere in the folder. -/
def willBeDestroyed (peer : Peer Sample.Site) : Bool :=
  losesTwo peer (.notified .two (rival 2 [9] 20) {}) &&
  (peer.next (Sample.ctx .one) (.notified .two (rival 2 [9] 20) {})).any fun peer =>
    (runActs (next (Sample.ctx .one)) peer
      (indexedEdit secondEdit [3] ++ [.notified .three (rival 3 [8] 20) {}])).any fun peer =>
        lacks [2] peer.disk

/-- The second lost edit is copied over the backup of the first. -/
theorem exists_lost_version_destroyed :
    ∃ trace last data, Run (next (Sample.ctx .one)) (Sample.peer .one [1]) trace last ∧
      LostIn (Sample.ctx .one) Sample.path trace data ∧
        ∀ query, BackupOf Sample.path query → last.disk.read query ≠ some data := by
  obtain ⟨trace, middle, run, _, passed⟩ := exists_run_of_any (by decide +kernel :
    (runActs (next (Sample.ctx .one)) (Sample.peer .one [1])
      (indexedEdit (Sample.folder [2]) [2])).any willBeDestroyed = true)
  simp only [willBeDestroyed, Bool.and_eq_true, Option.any_eq_true] at passed
  obtain ⟨loses, after, lost, last, later, destroyed⟩ := passed
  obtain ⟨more, whole, _⟩ := exists_run_from (run.snoc lost) later
  exact ⟨_, last, [2], whole, ⟨(middle, .notified .two (rival 2 [9] 20) {}), by simp,
    loses_of_losesTwo loses⟩, fun query _ => read_ne_of_lacks destroyed query⟩

/-- The step hears of no version. -/
def hearsNothing : Act Sample.Site → Bool
  | .notified _ _ _ => false
  | _ => true

/-- Nothing but `[2]` loses a conflict at this step, and where `[2]` stands after that it stays:
the user edits nothing then, no other content is copied over it, and it is not fetched over. -/
def leavesTwo (earlier : List (Peer Sample.Site × Act Sample.Site))
    (entry : Peer Sample.Site × Act Sample.Site) : Bool :=
  match entry.2 with
  | .user _ => earlier.all fun entry => hearsNothing entry.2
  | .notified _ (.fileChanged raw _ _ _ timestamp writer) device =>
      decide (raw = ['f'] ∧ device.copies = .succeeds) &&
        (decide (entry.1.disk.read Sample.path = some [2]) ||
          !remoteWins (entry.1.index.lastModifiedOf Sample.path) timestamp writer (Sample.peerId 1))
  | .notified _ _ _ => false
  | .resume number _ =>
      entry.1.tasks[number]?.all fun task =>
        match task.stage with
        | .loaded fetch _ => decide (fetch.path.rel = Sample.path ∨
            entry.1.disk.read fetch.path.rel ≠ some [2])
        | _ => true
  | _ => true

theorem eq_two_of_loses {earlier : List (Peer Sample.Site × Act Sample.Site)}
    {entry : Peer Sample.Site × Act Sample.Site} (passed : leavesTwo earlier entry = true)
    {data : Bytes} (loses : Loses (Sample.ctx .one) Sample.path entry.1 entry.2 data) :
    data = [2] := by
  obtain ⟨source, path, hash, chunks, clock, timestamp, writer, device, heard, _, here, _, _, wins,
    read, _⟩ := loses
  have wins : remoteWins (entry.1.index.lastModifiedOf Sample.path) timestamp writer
    (Sample.peerId 1) = true := wins
  rw [leavesTwo, heard] at passed
  simp only [wins, Bool.and_eq_true, Bool.or_eq_true, decide_eq_true_eq, Bool.not_true,
    Bool.false_eq_true, or_false] at passed
  exact Option.some.inj (read.symm.trans passed.2)

theorem keepsLost_of_leavesTwo {earlier : List (Peer Sample.Site × Act Sample.Site)}
    {entry : Peer Sample.Site × Act Sample.Site} (passed : leavesTwo earlier entry = true)
    (before : ∀ data, LostIn (Sample.ctx .one) Sample.path earlier data → data = [2]) :
    KeepsLost (Sample.ctx .one) Sample.path earlier entry.1 entry.2 := by
  intro data query lost backup read endangers
  obtain rfl := before data lost
  obtain ⟨peer, act⟩ := entry
  cases endangers with
  | edited disk changed =>
      obtain ⟨loss, member, source, path, _, _, _, _, _, _, heard, _⟩ := lost
      have quiet := List.all_eq_true.mp passed loss member
      rw [heard] at quiet
      exact absurd quiet Bool.false_ne_true
  | losesAgain source path hash chunks clock timestamp writer device other here pulls foreign
      concurrent wins read' differs =>
      simp only [leavesTwo, Bool.and_eq_true, Bool.or_eq_true, decide_eq_true_eq,
        Bool.not_eq_true'] at passed
      obtain ⟨⟨named, copies⟩, same⟩ := passed
      obtain rfl : path = Sample.safe := SafePath.eq_of_raw named
      rcases same with same | kept
      · exact differs.elim (fun apart => apart (Option.some.inj (read'.symm.trans same)))
          fun breaks => breaks copies
      · exact absurd (wins.symm.trans kept) Bool.false_ne_true.symm
  | fetched number device task fetch bytes here found ready =>
      simp only [leavesTwo, found, Option.all_some, ready, decide_eq_true_eq, here] at passed
      obtain ⟨path, loser, file, rfl⟩ := backup
      rcases passed with same | apart
      · exact (path.backup_rel loser).1 (same.trans file.symm)
      · exact apart read
  | deleted => exact absurd passed Bool.false_ne_true

/-- After `[2]` has lost: the winner is fetched and written, and then an older version of a third
peer loses and is fetched to a backup of its own. -/
def goesOn : List (Act Sample.Site) :=
  [.respond 0 (some (.chunks ['f'] [(0, [9])])), .resume 0 {}, .resume 0 {}, .resume 0 {},
    .notified .three (rival 3 [8] 15) {},
    .respond 1 (some (.chunks (conflictFilename ['f'] (Sample.peerId 3)) [(0, [8])])),
    .resume 1 {}, .resume 1 {}, .resume 1 {}]

/-- `[2]` lost on the way, the winner stands at `f` and the other loser at its backup. -/
def backedUp (trace : List (Peer Sample.Site × Act Sample.Site)) (last : Peer Sample.Site) : Bool :=
  trace.any (fun entry => losesTwo entry.1 entry.2) &&
    decide (last.disk.read Sample.path = some [9] ∧
      last.disk.read (Sample.safe.backup (Sample.peerId 3)).rel = some [8])

/-- A version loses a conflict, and its backup is kept while the winner is written over the file
and another conflict is lost by the peer that brought it. -/
theorem lost_versions_kept_sample :
    ∃ trace last, Run (next (Sample.ctx .one)) (Sample.peer .one [1]) trace last ∧
      LostIn (Sample.ctx .one) Sample.path trace [2] ∧
        LostKept (Sample.ctx .one) Sample.path trace last ∧
          last.disk.read Sample.path = some [9] ∧
            last.disk.read (Sample.safe.backup (Sample.peerId 3)).rel = some [8] := by
  obtain ⟨trace, last, run, _, careful, passed⟩ := exists_history_run (by decide +kernel :
    (runTrace (next (Sample.ctx .one)) (Sample.peer .one [1])
      (indexedEdit (Sample.folder [2]) [2] ++ .notified .two (rival 2 [9] 20) {} :: goesOn)).any
        (fun traced => historyAll leavesTwo [] traced.1 && backedUp traced.1 traced.2) = true)
  simp only [backedUp, Bool.and_eq_true, List.any_eq_true, decide_eq_true_eq] at passed
  obtain ⟨⟨loss, member, lost⟩, winner, other⟩ := passed
  refine ⟨trace, last, run, ⟨loss, member, loses_of_losesTwo lost⟩, ?_, winner, other⟩
  refine lost_versions_kept run fun earlier entry later split => ?_
  refine keepsLost_of_leavesTwo (careful earlier entry later split) ?_
  rintro data ⟨entry', inside, loses⟩
  obtain ⟨front, back, rfl⟩ := List.append_of_mem inside
  exact eq_two_of_loses (careful front entry' (back ++ entry :: later) (by simp [split])) loses

end Peer

end P2Sync
