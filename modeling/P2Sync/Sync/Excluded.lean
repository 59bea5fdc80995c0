import P2Sync.Net.Files
import P2Sync.Net.Flight

/-!
# Excluded paths

The exclude patterns of a peer are looked at where a fetch starts, so no fetch in flight
is for an excluded path (`Reachable.included`). A tombstone is not checked, nor is the copy
of a losing file: these are the two ways in which a notification comes to an excluded file
(`sparesExcluded_iff`).

Neither are requests checked. Most are answered from the index, which has nothing about an
excluded file that was never fetched; chunks are read from the folder, by any path that a
file can be read at (`conceals_iff`).
-/

set_option autoImplicit false

namespace P2Sync

namespace Peer

variable {ι : Type} [Blake3] {ctx : Ctx ι} {before after : Peer ι} {act : Act ι}

/-! ## Fetches in flight -/

/-- A task that comes to fetch a path was already doing so, or has checked the path. -/
theorem Makes.included {task : Task ι} {fetch : Fetch ι} (made : Makes ctx before act task)
    (working : task.stage.fetch? = some fetch) :
    before.InFlight fetch ∨ before.index.isExcluded fetch.path.rel = false := by
  have started : ∀ {source : ι} {raw : Str} {chunkIndices : List Nat} {origin : RemoteOrigin}
      {cause : Cause},
      (before.startFetch source raw chunkIndices origin cause).fetch? = some fetch →
        before.index.isExcluded fetch.path.rel = false := by
    intro source raw chunkIndices origin cause working
    obtain ⟨path, _, included, rfl⟩ := startFetch_fetch?.mp working
    exact included
  cases made with
  | accepted | lost | kept => exact Or.inr (started working)
  | unlinked | discovered => exact absurd working (Option.some_ne_none fetch).symm
  | answered number response task stage found reply =>
      exact Or.inl (inFlight_of_mem (List.mem_of_getElem? found) (answer_fetch? reply working).1)
  | resumed number device task task' next found ran =>
      cases run_cases ran with
      | started => exact Or.inr (started working)
      | counted _ _ ended => exact absurd working (by rw [ended]; exact nofun)
      | loaded fetch' chunks data waiting =>
          exact Or.inl (inFlight_of_mem (List.mem_of_getElem? found) (waiting ▸ working))
      | wrote fetch' data disk watch ready =>
          exact Or.inl (inFlight_of_mem (List.mem_of_getElem? found) (ready ▸ working))
      | compared =>
          dsimp only at working
          split at working <;> exact absurd working (Option.some_ne_none fetch).symm
      | _ => exact absurd working (Option.some_ne_none fetch).symm

/-- **No fetch in flight is for an excluded path.** -/
theorem Reachable.included {peer : Peer ι} (reachable : Reachable ctx peer) {fetch : Fetch ι}
    (working : peer.InFlight fetch) : peer.index.isExcluded fetch.path.rel = false := by
  obtain ⟨disk, excludePatterns, now, first, trace, started, run⟩ := reachable
  refine run.invariant
    (fun peer => ∀ fetch, peer.InFlight fetch → peer.index.isExcluded fetch.path.rel = false)
    (fun _ _ => True) (fun _ _ => trivial) ?_
    (fun before act after held _ stepped => ?_) fetch working
  · rintro fetch ⟨task, member, _⟩
    rw [(start_index started).2.1] at member
    exact absurd member List.not_mem_nil
  · rintro fetch ⟨task, member, working, _⟩
    obtain ⟨published, cases⟩ := next_cases stepped
    rw [SyncIndex.isExcluded, cases.fixed.excludePatterns]
    rcases cases.task member with old | made
    · exact held fetch (inFlight_of_mem old working)
    · rcases made.included working with old | included
      · exact held fetch old
      · exact included

/-! ## Excluded files -/

variable (ctx before) in
/-- The ways a notification comes to an excluded file: it deletes one, or it wins over a
version whose backup would be one. -/
inductive Reaches : Act ι → Prop where
  | deletes (source : ι) (tombstone : Tombstone) (path : SafePath) (device : Device) (data : Bytes)
      (pulls : ctx.noPull = false) (foreign : tombstone.deletedBy ≠ ctx.localId)
      (named : tombstone.path = path.raw) (removes : device.removes = true)
      (excluded : before.index.isExcluded path.rel = true)
      (here : before.disk.read path.rel = some data) :
      Reaches (.notified source (.fileDeleted tombstone) device)
  | backsUp (source : ι) (path : SafePath) (hash : Hash) (chunks : List ChunkMeta)
      (clock : VectorClock) (timestamp : Nat) (writer : PeerId) (device : Device)
      (data content : Bytes) (pulls : ctx.noPull = false) (foreign : writer ≠ ctx.localId)
      (concurrent : (before.index.clockOf path.rel).compare clock = .concurrent)
      (wins : remoteWins (before.index.lastModifiedOf path.rel) timestamp writer ctx.localId)
      (excluded : before.index.isExcluded (path.backup ctx.localId).rel = true)
      (here : before.disk.read path.rel = some data)
      (stored : device.copies.stored data = some content)
      (room : (before.disk.write (path.backup ctx.localId).rel content).isSome = true)
      (new : before.disk.read (path.backup ctx.localId).rel ≠ some content) :
      Reaches (.notified source (.fileChanged path.raw hash chunks clock timestamp writer) device)

/-- A step leaves every excluded file as it is. -/
def SparesExcluded (before after : Peer ι) : Prop :=
  ∀ query, before.index.isExcluded query = true → after.disk.read query = before.disk.read query

/-- A notification that comes to an excluded file changes it. -/
theorem Reaches.changes (reaches : Reaches ctx before act)
    (stepped : before.next ctx act = some after) : ¬ SparesExcluded before after := by
  intro spares
  cases reaches with
  | deletes source tombstone path device data pulls foreign named removes excluded here =>
      have nonempty : path.rel ≠ [] := by
        intro root
        rw [root, SyncIndex.isExcluded, shouldExclude] at excluded
        simp at excluded
      obtain ⟨removed, success⟩ :=
        Option.isSome_iff_exists.mp (Disk.removeFile_isSome_of_read nonempty here)
      rw [next, step, pulls, if_neg Bool.false_ne_true, handleNotification, if_neg foreign, named,
        SafePath.of?_raw] at stepped
      dsimp only at stepped
      rw [Disk.pathExists_of_read here, removes, Bool.and_self, if_pos rfl, success] at stepped
      obtain rfl := Option.some.inj stepped
      have same := spares path.rel excluded
      rw [here] at same
      have gone : removed.read path.rel = none := by rw [Disk.read_removeFile success, if_pos rfl]
      exact absurd (gone.symm.trans same) (Option.some_ne_none data).symm
  | backsUp source path hash chunks clock timestamp writer device data content pulls foreign
      concurrent wins excluded here stored room new =>
      rw [next, step, pulls, if_neg Bool.false_ne_true,
        handleNotification_conflict foreign concurrent, if_pos wins] at stepped
      obtain rfl := Option.some.inj stepped
      have same := spares _ excluded
      rw [spawn, backUp, if_pos (Disk.pathExists_of_read here)] at same
      dsimp only at same
      rw [Outcome.copy, here] at same
      exact new (Outcome.read_write_eq_iff.mp same content stored room)

/-- **What the engine does to an excluded file**: a step leaves all of them as they are exactly
if it is not a notification that comes to one. -/
theorem sparesExcluded_iff (reachable : Reachable ctx before)
    (engine : ∀ disk, act ≠ .user disk) (stepped : before.next ctx act = some after) :
    SparesExcluded before after ↔ ¬ Reaches ctx before act := by
  refine ⟨fun spares reaches => reaches.changes stepped spares, fun spares query excluded => ?_⟩
  by_contra changed
  obtain ⟨published, cases⟩ := next_cases stepped
  rcases cases.read query with same | rewrites
  · exact changed same
  · generalize read : after.disk.read query = content at rewrites
    cases rewrites with
    | user disk => exact engine disk rfl
    | written number device task fetch data content found ready here =>
        have working : before.InFlight fetch :=
          inFlight_of_mem (List.mem_of_getElem? found) (by rw [ready]; rfl)
        have included := reachable.included working
        rw [here] at included
        exact absurd (included.symm.trans excluded) Bool.false_ne_true
    | removed source tombstone path device named here =>
        subst here
        cases had : before.disk.read path.rel with
        | none => exact changed (read.trans had.symm)
        | some data =>
            obtain ⟨foreign, removes⟩ := deletes_of_changed stepped changed
            exact spares (.deletes source tombstone path device data
              (pulls_of_changed stepped changed) foreign named removes excluded had)
    | copied source path hash chunks clock timestamp writer device data content foreign concurrent
        wins here there stored =>
        subst here
        have pulls := pulls_of_changed stepped changed
        rw [next, step, pulls, if_neg Bool.false_ne_true,
          handleNotification_conflict foreign concurrent, if_pos wins] at stepped
        obtain rfl := Option.some.inj stepped
        rw [spawn, backUp, if_pos (Disk.pathExists_of_read there)] at changed
        dsimp only at changed
        rw [Outcome.copy, there] at changed
        dsimp only at changed
        rw [Outcome.read_write_eq_iff] at changed
        push Not at changed
        obtain ⟨content', stored', room, new⟩ := changed
        exact spares (.backsUp source path hash chunks clock timestamp writer device data content'
          pulls foreign concurrent wins excluded there stored' room new)

/-! ## A deletion of an excluded file -/

end Peer

namespace Peer

attribute [local instance] Sample.blake3

/-- A deletion of `f` by the second peer. -/
def deletesF : Act Sample.Site :=
  .notified .two (.fileDeleted ⟨['f'], Sample.peerId 2, .new, 20⟩) {}

/-- A peer excludes `f` from the start; a deletion by another peer removes it. -/
theorem exists_excluded_removed :
    ∃ before after : Peer Sample.Site, Reachable (Sample.ctx .one) before ∧
      before.next (Sample.ctx .one) deletesF = some after ∧
        before.index.isExcluded Sample.path = true ∧
          before.disk.read Sample.path = some [1] ∧ after.disk.read Sample.path = none := by
  obtain ⟨before, reachable, passed⟩ := reachable_of_any (by decide +kernel :
    ((start (Sample.ctx .one) (Sample.folder [1]) [['f']] 10).bind fun first =>
      runActs (next (Sample.ctx .one)) first []).any (fun before =>
        before.index.isExcluded Sample.path && decide (before.disk.read Sample.path = some [1]) &&
          (before.next (Sample.ctx .one) deletesF).any fun after =>
            decide (after.disk.read Sample.path = none)) = true)
  simp only [Bool.and_eq_true, decide_eq_true_eq, Option.any_eq_true] at passed
  obtain ⟨⟨excluded, here⟩, after, stepped, gone⟩ := passed
  exact ⟨before, after, reachable, stepped, excluded, here, gone⟩

/-- The exact condition, at a peer that excludes another name: the deletion spares what is
excluded. -/
theorem sparesExcluded_iff_sample :
    ∃ before after : Peer Sample.Site,
      (SparesExcluded before after ↔ ¬ Reaches (Sample.ctx .one) before deletesF) ∧
        SparesExcluded before after := by
  obtain ⟨before, reachable, passed⟩ := reachable_of_any (by decide +kernel :
    ((start (Sample.ctx .one) (Sample.folder [1]) [['g']] 10).bind fun first =>
      runActs (next (Sample.ctx .one)) first []).any (fun before =>
        !before.index.isExcluded Sample.path &&
          (before.next (Sample.ctx .one) deletesF).isSome) = true)
  rw [Bool.and_eq_true, Bool.not_eq_true'] at passed
  obtain ⟨after, stepped⟩ := Option.isSome_iff_exists.mp passed.2
  have exact' := sparesExcluded_iff reachable (fun _ user => by cases user) stepped
  refine ⟨before, after, exact', exact'.mpr fun reaches => ?_⟩
  generalize same : deletesF = act at reaches
  cases reaches with
  | deletes source tombstone path device data pulls foreign named removes excluded =>
      cases same
      obtain rfl : Sample.safe = path := SafePath.eq_of_raw named
      exact absurd (passed.1.symm.trans excluded) Bool.false_ne_true
  | backsUp => cases same

end Peer

/-! ## Excluded contents -/

section Answers

variable [Blake3] {storage : StorageConfig} {index : SyncIndex}

/-- Two folders that differ only in what excluded files hold. -/
structure SameOutside (index : SyncIndex) (disk disk' : Disk) : Prop where
  standing : ∀ path, disk.pathExists path = disk'.pathExists path
  files : ∀ path, disk.isFile path = disk'.isFile path
  contents : ∀ path, index.isExcluded path = false → disk.read path = disk'.read path

/-- The answer to a request tells nothing about what excluded files hold. -/
def Conceals (storage : StorageConfig) (index : SyncIndex) (request : SyncRequest) : Prop :=
  ∀ disk disk' failure, SameOutside index disk disk' →
    handleInboundRequest storage index disk failure request =
      handleInboundRequest storage index disk' failure request

/-- A request for chunks of an excluded file, by a path that a file can be read at. -/
def AsksExcluded (storage : StorageConfig) (index : SyncIndex) (request : SyncRequest) : Prop :=
  ∃ (path : SafePath) (chunkIndices : List Nat), request = .getChunks path.raw chunkIndices ∧
    path.namesDirectory = false ∧ index.isExcluded path.rel = true ∧ 0 < storage.chunkSize ∧
      ∃ chunk ∈ chunkIndices, chunk < storage.maxChunkIndex

/-- The answer depends on the folder only at the path. -/
theorem answer_congr {disk disk' : Disk} {failure : Option String} {path : SafePath}
    {chunkIndices : List Nat} (same : readAccepted disk path = readAccepted disk' path) :
    handleInboundRequest storage index disk failure (.getChunks path.raw chunkIndices) =
      handleInboundRequest storage index disk' failure (.getChunks path.raw chunkIndices) := by
  rw [handleInboundRequest, handleInboundRequest, SafePath.of?_raw]
  dsimp only
  rw [same]

/-- When nothing is served of any file, the answer does not depend on what the file holds. -/
theorem answer_of_empty {disk disk' : Disk} {failure : Option String} {path : SafePath}
    {chunkIndices : List Nat} (files : disk.isFile path.rel = disk'.isFile path.rel)
    (empty : ∀ data, serveChunks storage data chunkIndices = []) :
    handleInboundRequest storage index disk failure (.getChunks path.raw chunkIndices) =
      handleInboundRequest storage index disk' failure (.getChunks path.raw chunkIndices) := by
  rw [Disk.isFile, Disk.isFile] at files
  cases plain : path.namesDirectory with
  | true => exact answer_congr (by rw [readAccepted, readAccepted, if_pos plain, if_pos plain])
  | false =>
      cases had : disk.read path.rel with
      | none =>
          rw [had] at files
          have absent : disk'.read path.rel = none := by simpa using files.symm
          exact answer_congr (by rw [readAccepted, readAccepted, had, absent])
      | some data =>
          rw [had] at files
          obtain ⟨data', had'⟩ := Option.isSome_iff_exists.mp files.symm
          rw [handleInboundRequest, handleInboundRequest, SafePath.of?_raw]
          dsimp only
          rw [readAccepted_eq_some_iff.mpr ⟨plain, had⟩, readAccepted_eq_some_iff.mpr ⟨plain, had'⟩]
          cases failure with
          | some message => rfl
          | none =>
              dsimp only
              rw [empty, empty]

/-- A request for anything else tells nothing. -/
theorem conceals_of_not_asks {request : SyncRequest}
    (elsewhere : ¬ AsksExcluded storage index request) : Conceals storage index request := by
  intro disk disk' failure same
  cases request with
  | getChunks raw chunkIndices =>
      cases guarded : SafePath.of? raw with
      | none => rw [handleInboundRequest, handleInboundRequest, guarded]
      | some path =>
          obtain rfl := SafePath.of?_eq_some_iff.mp guarded
          cases excluded : index.isExcluded path.rel with
          | false =>
              exact answer_congr (by rw [readAccepted, readAccepted,
                same.contents path.rel excluded])
          | true =>
              cases plain : path.namesDirectory with
              | true =>
                  exact answer_congr (by rw [readAccepted, readAccepted, if_pos plain,
                    if_pos plain])
              | false =>
                  refine answer_of_empty (same.files path.rel) fun data => ?_
                  rw [serveChunks, List.filterMap_eq_nil_iff]
                  intro chunk asked
                  obtain ⟨asked, bounded⟩ := List.mem_filter.mp asked
                  have noSize : storage.chunkSize = 0 := by
                    by_contra positive
                    exact elsewhere ⟨path, chunkIndices, rfl, plain, excluded,
                      Nat.pos_of_ne_zero positive, chunk, asked, of_decide_eq_true bounded⟩
                  rw [Chunk.split, noSize, Chunk.slices, Nat.div_zero]
                  rfl
  | _ => rfl

namespace Disk

/-- The folder in which one file stands. -/
def aloneAt : RelPath → Bytes → Disk
  | [], data => .file data
  | name :: rest, data => .dir [(name, aloneAt rest data)]

omit [Blake3] in
theorem at?_aloneAt (path query : RelPath) (data : Bytes) :
    (aloneAt path data).at? query =
      if query <+: path then some (aloneAt (path.drop query.length) data) else none := by
  induction path generalizing query with
  | nil =>
      cases query with
      | nil => rfl
      | cons name rest => rw [if_neg (by simp)]; rfl
  | cons name rest ih =>
      cases query with
      | nil => rfl
      | cons first more =>
          rw [aloneAt, Disk.at?, SortedMap.lookup_cons]
          by_cases same : first = name
          · subst same
            simp only [if_true, ih, List.cons_prefix_cons, true_and, List.length_cons,
              List.drop_succ_cons]
          · simp [same, List.cons_prefix_cons]

omit [Blake3] in
theorem read_aloneAt (path query : RelPath) (data : Bytes) :
    (aloneAt path data).read query = if query = path then some data else none := by
  rw [Disk.read, at?_aloneAt]
  by_cases reaches : query <+: path
  · rw [if_pos reaches]
    obtain ⟨rest, rfl⟩ := reaches
    rw [List.drop_left]
    cases rest with
    | nil => simp [aloneAt]
    | cons name rest => simp [aloneAt]
  · rw [if_neg reaches, if_neg]
    rintro rfl
    exact reaches List.prefix_rfl

end Disk

/-- Files of one byte repeated are told apart by any of their chunks. -/
theorem serveChunks_replicate_ne (positive : 0 < storage.chunkSize) {chunkIndices : List Nat}
    {chunk : Nat} (asked : chunk ∈ chunkIndices) (bounded : chunk < storage.maxChunkIndex) :
    serveChunks storage (List.replicate ((chunk + 1) * storage.chunkSize) 0) chunkIndices ≠
      serveChunks storage (List.replicate ((chunk + 1) * storage.chunkSize) 1) chunkIndices := by
  intro same
  rw [serveChunks_eq positive, serveChunks_eq positive] at same
  have inside : chunk * storage.chunkSize < (chunk + 1) * storage.chunkSize :=
    Nat.mul_lt_mul_of_pos_right (Nat.lt_succ_self chunk) positive
  have served : (chunk, List.replicate storage.chunkSize (0 : UInt8)) ∈
      (chunkIndices.filter fun index => index < storage.maxChunkIndex ∧
        index * storage.chunkSize < (List.replicate ((chunk + 1) * storage.chunkSize)
          (0 : UInt8)).length).map fun index =>
            (index, ((List.replicate ((chunk + 1) * storage.chunkSize) (0 : UInt8)).drop
              (index * storage.chunkSize)).take storage.chunkSize) := by
    refine List.mem_map.mpr ⟨chunk, List.mem_filter.mpr ⟨asked, ?_⟩, ?_⟩
    · rw [List.length_replicate]
      exact decide_eq_true ⟨bounded, inside⟩
    · rw [List.drop_replicate, List.take_replicate, Nat.succ_mul]
      congr 2
      omega
  rw [same] at served
  obtain ⟨index, _, equal⟩ := List.mem_map.mp served
  have bytes := congrArg Prod.snd equal
  have zero : (0 : UInt8) ∈ List.replicate storage.chunkSize (0 : UInt8) :=
    List.mem_replicate.mpr ⟨Nat.pos_iff_ne_zero.mp positive, rfl⟩
  dsimp only at bytes
  rw [← bytes, List.drop_replicate, List.take_replicate] at zero
  exact absurd (List.eq_of_mem_replicate zero) (by decide)

/-- **What an answer tells about excluded files**: it tells nothing exactly if it was not asked
for chunks of one. -/
theorem conceals_iff (storage : StorageConfig) (index : SyncIndex) (request : SyncRequest) :
    Conceals storage index request ↔ ¬ AsksExcluded storage index request := by
  refine ⟨?_, conceals_of_not_asks⟩
  rintro conceals ⟨path, chunkIndices, rfl, plain, excluded, positive, chunk, asked, bounded⟩
  let disk (byte : UInt8) : Disk :=
    .aloneAt path.rel (List.replicate ((chunk + 1) * storage.chunkSize) byte)
  have same : SameOutside index (disk 0) (disk 1) := by
    refine ⟨fun query => ?_, fun query => ?_, fun query included => ?_⟩
    · rw [Disk.pathExists, Disk.pathExists, Disk.at?_aloneAt, Disk.at?_aloneAt]
      split <;> rfl
    · rw [Disk.isFile, Disk.isFile, Disk.read_aloneAt, Disk.read_aloneAt]
      split <;> rfl
    · have apart : query ≠ path.rel := by
        rintro rfl
        exact absurd (included.symm.trans excluded) Bool.false_ne_true
      rw [Disk.read_aloneAt, Disk.read_aloneAt, if_neg apart, if_neg apart]
  have answers := conceals (disk 0) (disk 1) none same
  rw [handleInboundRequest, handleInboundRequest, SafePath.of?_raw] at answers
  dsimp only at answers
  rw [readAccepted_eq_some_iff.mpr ⟨plain, (Disk.read_aloneAt _ _ _).trans (if_pos rfl)⟩,
    readAccepted_eq_some_iff.mpr ⟨plain, (Disk.read_aloneAt _ _ _).trans (if_pos rfl)⟩] at answers
  exact serveChunks_replicate_ne positive asked bounded (SyncResponse.chunks.inj answers).2

end Answers

section Concrete

attribute [local instance] Sample.blake3

/-- A peer that excludes `f` gives its chunks away. -/
theorem exists_disclosed :
    ∃ (storage : StorageConfig) (index : SyncIndex) (disk disk' : Disk) (request : SyncRequest),
      SameOutside index disk disk' ∧ handleInboundRequest storage index disk none request ≠
        handleInboundRequest storage index disk' none request := by
  refine ⟨(Sample.ctx .one).storage, { Sample.index .one [] with excludePatterns := [['f']] },
    .aloneAt Sample.path [1], .aloneAt Sample.path [2], .getChunks ['f'] [0],
    ⟨fun query => ?_, fun query => ?_, fun query included => ?_⟩, ?_⟩
  · rw [Disk.pathExists, Disk.pathExists, Disk.at?_aloneAt, Disk.at?_aloneAt]
    split <;> rfl
  · rw [Disk.isFile, Disk.isFile, Disk.read_aloneAt, Disk.read_aloneAt]
    split <;> rfl
  · have apart : query ≠ Sample.path := by
      rintro rfl
      exact absurd included (by decide)
    rw [Disk.read_aloneAt, Disk.read_aloneAt, if_neg apart, if_neg apart]
  · intro same
    have served : serveChunks (Sample.ctx .one).storage [1] [0] =
        serveChunks (Sample.ctx .one).storage [2] [0] := (SyncResponse.chunks.inj same).2
    exact absurd served (by decide)

end Concrete

end P2Sync
