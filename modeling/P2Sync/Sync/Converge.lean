import P2Sync.Core.Scan
import P2Sync.Net.Reconcile
import P2Sync.Support.TwoCopies

/-!
# Two reconciliations against each other

Two peers that discover each other both reconcile, each with the other. What they do with
one path is what two sides do that bring their copies over each other (`TwoCopies`): a
tree or a root hash is a look, a walk that comes to the path plans a fetch, the answer to
it is what the side is given, and the write ends it (`Viewed`, `view_turn`). Trees are
late by one index update, and a look at one shows the first content or the last.

So the two end with one content, unless a peer answers a fetch of the path while it has
still to write its own answer for it (`converged_of_apart`). Equal hashes are taken to mean
equal contents.
-/

set_option autoImplicit false

namespace P2Sync

/-- A content that no limit of a peer stops. -/
structure StorageConfig.Fits (storage : StorageConfig) (length : Nat) : Prop where
  size : length ≤ storage.maxFileSize
  index : length ≤ storage.maxChunkIndex * storage.chunkSize
  machine : length < 2 ^ 64

theorem StorageConfig.Fits.mono {storage : StorageConfig} {length bound : Nat}
    (fits : storage.Fits bound) (short : length ≤ bound) : storage.Fits length :=
  ⟨short.trans fits.size, short.trans fits.index, lt_of_le_of_lt short fits.machine⟩

/-! ## Fetches of a content that has changed -/

section Served

variable [Blake3] {sender receiver : StorageConfig} {data : Bytes}

/-- The first chunks of a file are those of its beginning. -/
theorem serveChunks_range (positive : 0 < sender.chunkSize) (count : Nat) :
    serveChunks sender data (List.range count) =
      serveChunks sender (data.take (count * sender.chunkSize)) (List.range count) := by
  have before : ∀ index ∈ List.range count,
      (index + 1) * sender.chunkSize ≤ count * sender.chunkSize := fun index member =>
    Nat.mul_le_mul_right _ (List.mem_range.mp member)
  rw [serveChunks_eq positive, serveChunks_eq positive]
  have same : ∀ index ∈ List.range count,
      (index < sender.maxChunkIndex ∧ index * sender.chunkSize < data.length ↔
        index < sender.maxChunkIndex ∧ index * sender.chunkSize <
          (data.take (count * sender.chunkSize)).length) := by
    intro index member
    have inside := before index member
    rw [Nat.succ_mul] at inside
    rw [List.length_take, lt_min_iff]
    exact and_congr_right fun _ => (and_iff_right (by omega)).symm
  rw [List.filter_congr fun index member => decide_eq_decide.mpr (same index member)]
  refine List.map_congr_left fun index member => ?_
  have inside := before index (List.mem_filter.mp member).1
  rw [Nat.succ_mul] at inside
  rw [List.drop_take, List.take_take, min_eq_left (by omega)]

/-- **The first chunks of a file over an old content** give the beginning of the file over
it. -/
theorem spliceAll_serveChunks_range (positive : 0 < sender.chunkSize)
    (sameSize : sender.chunkSize = receiver.chunkSize) (bySender : sender.Fits data.length)
    (byReceiver : receiver.Fits data.length) (count : Nat) (old : Bytes) :
    Overlay.spliceAll 0 old (keptPieces receiver (serveChunks sender data (List.range count))) =
      TwoCopies.writtenOver (data.take (count * sender.chunkSize)) old := by
  have length : (data.take (count * sender.chunkSize)).length =
      min (count * sender.chunkSize) data.length := List.length_take
  have machine := bySender.machine
  rw [serveChunks_range positive, spliceAll_serveChunks positive sameSize (by omega)]
  · rfl
  · intro index inside
    rw [length, lt_min_iff] at inside
    have sendable := lt_of_lt_of_le inside.2 bySender.index
    have receivable := lt_of_lt_of_le inside.2 byReceiver.index
    rw [← sameSize] at receivable
    exact ⟨List.mem_range.mpr (Nat.lt_of_mul_lt_mul_right inside.1),
      Nat.lt_of_mul_lt_mul_right sendable, Nat.lt_of_mul_lt_mul_right receivable⟩

/-- What is served of a file ends where the file does. -/
theorem keptPieces_serveChunks_le (positive : 0 < sender.chunkSize)
    (sameSize : sender.chunkSize = receiver.chunkSize) {chunkIndices : List Nat}
    {piece : Nat × Bytes}
    (member : piece ∈ keptPieces receiver (serveChunks sender data chunkIndices)) :
    piece.1 + piece.2.length ≤ data.length := by
  obtain ⟨chunk, kept, rfl⟩ := List.mem_map.mp member
  have served := (List.mem_filter.mp kept).1
  rw [serveChunks_eq positive] at served
  obtain ⟨index, inside, rfl⟩ := List.mem_map.mp served
  have bound := (of_decide_eq_true (List.mem_filter.mp inside).2).2
  dsimp only
  rw [← sameSize, List.length_take, List.length_drop]
  omega

/-- So many chunks reach to the end of a file. -/
theorem length_le_metadata (positive : 0 < sender.chunkSize) :
    data.length ≤ (Chunk.metadata data sender.chunkSize).length * sender.chunkSize := by
  by_contra short
  have inside := (Chunk.lt_slices_iff positive).mpr (Nat.lt_of_not_le short)
  rw [Chunk.length_metadata, Chunk.length_slices] at inside
  exact absurd inside (lt_irrefl _)

end Served

/-! ## A peer as a side -/

/-- A stage in which nothing is under way for the path. -/
def Stage.Away {ι : Type} (path : RelPath) : Stage ι → Prop
  | .idle => True
  | .asked fetch => fetch.path.rel ≠ path
  | .answered fetch _ => fetch.path.rel ≠ path
  | .loaded fetch _ => fetch.path.rel ≠ path
  | .written fetch _ => fetch.path.rel ≠ path
  | _ => False

section Sides

variable {ι : Type} [Blake3]

/-- How far a reconciliation has come with a path. What was seen of the other peer's tree is
known from then on, and so is what equal hashes mean there. -/
inductive Stands (storage : StorageConfig) (names : List Str) (tree : Node)
    (initial copy : Option Bytes) (task : Task ι) : TwoCopies.Phase UInt8 → Prop where
  | asksRoot (source : ι) (stage : task.stage = .askedRoot source) (todo : task.todo = []) :
      Stands storage names tree initial copy task (.early none)
  | hasRoot (source : ι) (hash : Hash) (content : Option Bytes)
      (stage : task.stage = .gotRoot source hash) (todo : task.todo = [])
      (same : tree.hash = hash → content = initial) :
      Stands storage names tree initial copy task (.early (some content))
  | asksTree (source : ι) (stage : task.stage = .askedTree source) (todo : task.todo = []) :
      Stands storage names tree initial copy task (.early none)
  | hasTree (source : ι) (remoteTree : Node) (content : Option Bytes)
      (stage : task.stage = .gotTree source remoteTree) (todo : task.todo = [])
      (proper : remoteTree.Proper)
      (shows : Merkle.Shows storage.chunkSize remoteTree names content)
      (same : Merkle.Hidden names tree remoteTree → content = initial) :
      Stands storage names tree initial copy task (.early (some content))
  | waits (data : Bytes) (away : task.stage.Away (names.map OsStr.utf8))
      (left : fetchesOf (names.map OsStr.utf8) task.todo =
        [(Chunk.metadata data storage.chunkSize).length])
      (joined : ∀ source raw chunkCount, .fetchFile source raw chunkCount ∈ task.todo →
        JoinedNames raw) :
      Stands storage names tree initial copy task (.due data)
  | asks (data : Bytes) (fetch : Fetch ι) (stage : task.stage = .asked fetch)
      (here : fetch.path.rel = names.map OsStr.utf8)
      (plain : fetch.path.namesDirectory = false)
      (all : fetch.chunkIndices = List.range (Chunk.metadata data storage.chunkSize).length)
      (left : fetchesOf (names.map OsStr.utf8) task.todo = []) :
      Stands storage names tree initial copy task (.due data)
  | answered (fetch : Fetch ι) (chunks : List (Nat × Bytes))
      (stage : task.stage = .answered fetch chunks) (here : fetch.path.rel = names.map OsStr.utf8)
      (left : fetchesOf (names.map OsStr.utf8) task.todo = [])
      (small : ∀ piece ∈ keptPieces storage chunks,
        piece.1 + piece.2.length ≤ storage.maxFileSize) :
      Stands storage names tree initial copy task
        (.held (Overlay.spliceAll 0 (copy.getD []) (keptPieces storage chunks)))
  | loaded (fetch : Fetch ι) (data : Bytes) (stage : task.stage = .loaded fetch data)
      (here : fetch.path.rel = names.map OsStr.utf8)
      (left : fetchesOf (names.map OsStr.utf8) task.todo = []) :
      Stands storage names tree initial copy task (.held data)
  | wrote (fetch : Fetch ι) (data : Bytes) (stage : task.stage = .written fetch data)
      (here : fetch.path.rel = names.map OsStr.utf8)
      (left : fetchesOf (names.map OsStr.utf8) task.todo = []) :
      Stands storage names tree initial copy task .closed
  | ended (away : task.stage.Away (names.map OsStr.utf8))
      (left : fetchesOf (names.map OsStr.utf8) task.todo = []) :
      Stands storage names tree initial copy task .closed

/-- A peer seen as a side: its copy is the file at the path, and its tree shows the copy it
started with, or the one it has when it is done. -/
structure Viewed (storage : StorageConfig) (names : List Str) (source : ι) (number : Nat)
    (peer : Peer ι) (side : TwoCopies.Side UInt8) : Prop where
  copy : side.copy = peer.disk.read (names.map OsStr.utf8)
  task : ∃ task, peer.tasks[number]? = some task ∧ Toward source task ∧
    Stands storage names peer.index.tree side.initial side.copy task side.phase ∧
      ∀ fetch data, task.stage = .written fetch data → peer.disk.read fetch.path.rel = some data
  tree : Merkle.Shows storage.chunkSize peer.index.tree names side.initial ∨
    side.phase = .closed ∧ Merkle.Shows storage.chunkSize peer.index.tree names side.copy
  grown : side.copy = none → side.initial = none
  proper : peer.index.tree.Proper
  files : ∀ query hash size chunks,
    Merkle.findNames query peer.index.tree = some (.file hash size chunks) →
      ∃ data, peer.disk.read (query.map OsStr.utf8) = some data
  patterns : peer.index.excludePatterns = []

variable {storage : StorageConfig} {names : List Str} {source : ι} {number : Nat}
  {before after : Peer ι} {side other : TwoCopies.Side UInt8}

/-- A tree shows what the other side can see. -/
theorem Viewed.sees (viewed : Viewed storage names source number before side) :
    ∃ content, Merkle.Shows storage.chunkSize before.index.tree names content ∧
      TwoCopies.Sees side content := by
  rcases viewed.tree with initial | ⟨finished, copy⟩
  · exact ⟨_, initial, Or.inl rfl⟩
  · exact ⟨_, copy, Or.inr ⟨finished, rfl⟩⟩

/-- A step of the task that changes neither files nor index. -/
theorem Viewed.set (viewed : Viewed storage names source number before side) {task : Task ι}
    (found : before.tasks[number]? = some task) {task' : Task ι} {phase : TwoCopies.Phase UInt8}
    (toward : Toward source task')
    (stands : Stands storage names before.index.tree side.initial side.copy task' phase)
    (unwritten : ∀ fetch data, task'.stage = .written fetch data →
      before.disk.read fetch.path.rel = some data)
    (going : side.phase = .closed → phase = .closed) :
    Viewed storage names source number { before with tasks := before.tasks.set number task' }
      { side with phase := phase } where
  copy := viewed.copy
  task := by
    refine ⟨task', ?_, toward, stands, unwritten⟩
    exact List.getElem?_set_self (List.getElem?_eq_some_iff.mp found).1
  tree := viewed.tree.imp_right fun shown => ⟨going shown.1, shown.2⟩
  grown := viewed.grown
  proper := viewed.proper
  files := viewed.files
  patterns := viewed.patterns

/-! ## Answers -/

omit [Blake3] in
/-- An answer for another path leaves the task away from the path. -/
theorem Stage.Away.answered {path : RelPath} {stage stage' : Stage ι}
    {response : Option SyncResponse} (away : stage.Away path)
    (reply : Peer.answer stage response = some stage') :
    stage'.Away path ∧ ∀ fetch data, stage' ≠ .written fetch data := by
  cases Peer.reply_cases reply with
  | chunks => exact ⟨away, fun _ _ other => nomatch other⟩
  | noChunks => exact ⟨trivial, fun _ _ other => nomatch other⟩
  | _ => exact away.elim

/-- What equal hashes of two trees are taken to mean for a path. -/
def SameShown (chunkSize : Nat) (names : List Str) (tree remoteTree : Node) : Prop :=
  Merkle.Hidden names tree remoteTree → ∀ mine theirs,
    Merkle.Shows chunkSize tree names mine → Merkle.Shows chunkSize remoteTree names theirs →
      theirs = mine

/-- **An answer is a move of the side**, or nothing to it. -/
theorem Viewed.answered {remoteStorage : StorageConfig} {remote : Peer ι} {source' : ι}
    {number' bound : Nat} (positive : 0 < storage.chunkSize)
    (sameSize : remoteStorage.chunkSize = storage.chunkSize) (fits : storage.Fits bound)
    (remoteFits : remoteStorage.Fits bound) (within : other.Within bound)
    (viewed : Viewed storage names source number before side)
    (remoteViewed : Viewed remoteStorage names source' number' remote other) {task : Task ι}
    (found : before.tasks[number]? = some task) {asked : ι} {request : SyncRequest}
    (requested : task.stage.request = some (asked, request)) {stage : Stage ι}
    (reply : Peer.answer task.stage (some (handleInboundRequest remoteStorage remote.index
      remote.disk none request)) = some stage)
    (faithful : request = .getRootHash ∨ request = .getTree →
      SameShown storage.chunkSize names before.index.tree remote.index.tree)
    (apart : ∀ fetch, task.stage = .asked fetch → fetch.path.rel = names.map OsStr.utf8 →
      ¬ TwoCopies.Crosses side other) :
    ∃ side', (side' = side ∨ TwoCopies.Moves side other side' ∧ ¬ TwoCopies.Crosses side other) ∧
      Viewed storage names source number
        { before with tasks := before.tasks.set number { task with stage := stage } } side' := by
  obtain ⟨task', found', toward, stands, unwritten⟩ := viewed.task
  cases found.symm.trans found'
  have toward := toward.answered reply
  obtain ⟨content, shown, sees⟩ := remoteViewed.sees
  rw [sameSize] at shown
  have early : ∀ seen, side.phase = .early seen →
      Merkle.Shows storage.chunkSize before.index.tree names side.initial := by
    intro seen phase
    exact viewed.tree.resolve_right fun finished => absurd (phase.symm.trans finished.1) (by simp)
  generalize phase_eq : side.phase = phase at stands
  cases stands with
  | asksRoot asked' waiting todo =>
      rw [waiting] at requested reply
      cases requested
      cases reply
      refine ⟨{ side with phase := .early (some content) },
        Or.inr ⟨.looks content phase_eq sees, TwoCopies.not_crosses_of_early phase_eq⟩,
        viewed.set found toward (.hasRoot _ _ content rfl todo fun same => ?_)
          (fun _ _ other => absurd other (by simp))
            fun finished => absurd (phase_eq.symm.trans finished) (by simp)⟩
      exact faithful (Or.inl rfl) (hidden_of_hash same) _ _ (early _ phase_eq) shown
  | asksTree asked' waiting todo =>
      rw [waiting] at requested reply
      cases requested
      cases reply
      refine ⟨{ side with phase := .early (some content) },
        Or.inr ⟨.looks content phase_eq sees, TwoCopies.not_crosses_of_early phase_eq⟩,
        viewed.set found toward (.hasTree _ _ content rfl todo remoteViewed.proper shown
          fun hidden => ?_)
          (fun _ _ other => absurd other (by simp))
            fun finished => absurd (phase_eq.symm.trans finished) (by simp)⟩
      exact faithful (Or.inr rfl) hidden _ _ (early _ phase_eq) shown
  | waits data away left joined =>
      obtain ⟨away, unwritten⟩ := away.answered reply
      have stays := viewed.set found toward (.waits data away left joined)
        (fun fetch data written => absurd written (unwritten fetch data))
        fun finished => absurd (phase_eq.symm.trans finished) (by simp)
      rw [← phase_eq] at stays
      exact ⟨side, Or.inl rfl, stays⟩
  | ended away left =>
      obtain ⟨away, unwritten⟩ := away.answered reply
      have stays := viewed.set found toward (.ended away left)
        (fun fetch data written => absurd written (unwritten fetch data)) fun _ => rfl
      rw [← phase_eq] at stays
      exact ⟨side, Or.inl rfl, stays⟩
  | asks data fetch waiting here plain all left =>
      have separate := apart fetch waiting here
      rw [waiting] at requested reply
      cases requested
      rw [handleInboundRequest, SafePath.of?_raw] at reply
      dsimp only at reply
      rw [readAccepted, plain, if_neg Bool.false_ne_true, here, ← remoteViewed.copy] at reply
      cases there : other.copy with
      | none =>
          simp only [there] at reply
          cases reply
          exact ⟨{ side with phase := .closed }, Or.inr ⟨.misses phase_eq there, separate⟩,
            viewed.set found toward (.ended trivial left) (fun _ _ other => absurd other (by simp))
              fun _ => rfl⟩
      | some given =>
          simp only [there] at reply
          cases reply
          have short := within.copy given there
          have mine := fits.mono short
          have spliced := spliceAll_serveChunks_range (sameSize ▸ positive) sameSize
            (remoteFits.mono short) mine (Chunk.metadata data storage.chunkSize).length
            (side.copy.getD [])
          rw [sameSize, ← all] at spliced
          refine ⟨{ side with phase := .held (TwoCopies.writtenOver _ _) },
            Or.inr ⟨.receives given _ phase_eq there (length_le_metadata positive), separate⟩,
            viewed.set found toward ?_ (fun _ _ other => absurd other (by simp))
              fun finished => absurd (phase_eq.symm.trans finished) (by simp)⟩
          rw [← spliced]
          refine .answered fetch _ rfl here left fun piece member => ?_
          exact (keptPieces_serveChunks_le (sameSize ▸ positive) sameSize member).trans mine.size
  | hasRoot _ _ _ waiting | hasTree _ _ _ waiting | answered _ _ waiting | loaded _ _ waiting
  | wrote _ _ waiting =>
      rw [waiting] at requested
      exact absurd requested (Option.some_ne_none _).symm

/-! ## Stretches of the task -/

section Inversion

variable {tree : Node} {initial copy : Option Bytes} {task task' : Task ι}
  {phase : TwoCopies.Phase UInt8}

/-- A task that is away from the path has yet to come to it, or is done with it. -/
theorem Stands.of_away (stands : Stands storage names tree initial copy task phase)
    (away : task.stage.Away (names.map OsStr.utf8)) :
    (∃ data, phase = .due data ∧ fetchesOf (names.map OsStr.utf8) task.todo =
        [(Chunk.metadata data storage.chunkSize).length] ∧
          ∀ source raw chunkCount, .fetchFile source raw chunkCount ∈ task.todo →
            JoinedNames raw) ∨
      phase = .closed ∧ fetchesOf (names.map OsStr.utf8) task.todo = [] := by
  cases stands with
  | waits data _ left joined => exact Or.inl ⟨data, rfl, left, joined⟩
  | ended _ left => exact Or.inr ⟨rfl, left⟩
  | asks _ _ stage here | answered _ _ stage here | loaded _ _ stage here | wrote _ _ stage here =>
      rw [stage] at away
      exact absurd here away
  | asksRoot _ stage | hasRoot _ _ _ stage | asksTree _ stage | hasTree _ _ _ stage =>
      rw [stage] at away
      exact away.elim

/-- Steps elsewhere leave a task where it stands. -/
theorem Stands.stays {tree' : Node} (stands : Stands storage names tree initial copy task phase)
    (away : task.stage.Away (names.map OsStr.utf8))
    (away' : task'.stage.Away (names.map OsStr.utf8))
    (same : fetchesOf (names.map OsStr.utf8) task'.todo =
      fetchesOf (names.map OsStr.utf8) task.todo) (fewer : task'.todo ⊆ task.todo) :
    Stands storage names tree' initial copy task' phase := by
  rcases stands.of_away away with ⟨data, rfl, left, joined⟩ | ⟨rfl, left⟩
  · exact .waits data away' (same.trans left) fun source raw chunkCount member =>
      joined source raw chunkCount (fewer member)
  · exact .ended away' (same.trans left)

theorem Stands.of_answered (stands : Stands storage names tree initial copy task phase)
    {fetch : Fetch ι} {chunks : List (Nat × Bytes)} (stage : task.stage = .answered fetch chunks)
    (here : fetch.path.rel = names.map OsStr.utf8) :
    phase = .held (Overlay.spliceAll 0 (copy.getD []) (keptPieces storage chunks)) ∧
      fetchesOf (names.map OsStr.utf8) task.todo = [] ∧
        ∀ piece ∈ keptPieces storage chunks, piece.1 + piece.2.length ≤ storage.maxFileSize := by
  cases stands with
  | answered fetch' chunks' stage' _ left small =>
      cases stage.symm.trans stage'
      exact ⟨rfl, left, small⟩
  | waits _ away | ended away =>
      rw [stage] at away
      exact absurd here away
  | asksRoot _ other | hasRoot _ _ _ other | asksTree _ other | hasTree _ _ _ other
  | asks _ _ other | loaded _ _ other | wrote _ _ other => exact nomatch stage.symm.trans other

theorem Stands.of_loaded (stands : Stands storage names tree initial copy task phase)
    {fetch : Fetch ι} {data : Bytes} (stage : task.stage = .loaded fetch data)
    (here : fetch.path.rel = names.map OsStr.utf8) :
    phase = .held data ∧ fetchesOf (names.map OsStr.utf8) task.todo = [] := by
  cases stands with
  | loaded fetch' data' stage' _ left =>
      cases stage.symm.trans stage'
      exact ⟨rfl, left⟩
  | waits _ away | ended away =>
      rw [stage] at away
      exact absurd here away
  | asksRoot _ other | hasRoot _ _ _ other | asksTree _ other | hasTree _ _ _ other
  | asks _ _ other | answered _ _ other | wrote _ _ other => exact nomatch stage.symm.trans other

theorem Stands.of_written (stands : Stands storage names tree initial copy task phase)
    {fetch : Fetch ι} {data : Bytes} (stage : task.stage = .written fetch data)
    (here : fetch.path.rel = names.map OsStr.utf8) :
    phase = .closed ∧ fetchesOf (names.map OsStr.utf8) task.todo = [] := by
  cases stands with
  | wrote fetch' data' stage' _ left => exact ⟨rfl, left⟩
  | waits _ away | ended away =>
      rw [stage] at away
      exact absurd here away
  | asksRoot _ other | hasRoot _ _ _ other | asksTree _ other | hasTree _ _ _ other
  | asks _ _ other | answered _ _ other | loaded _ _ other => exact nomatch stage.symm.trans other

theorem Stands.of_gotRoot (stands : Stands storage names tree initial copy task phase)
    {asked : ι} {hash : Hash} (stage : task.stage = .gotRoot asked hash) :
    ∃ content, phase = .early (some content) ∧ (tree.hash = hash → content = initial) ∧
      task.todo = [] := by
  cases stands with
  | hasRoot _ _ content stage' todo same =>
      cases stage.symm.trans stage'
      exact ⟨content, rfl, same, todo⟩
  | waits _ away | ended away =>
      rw [stage] at away
      exact away.elim
  | asksRoot _ other | asksTree _ other | hasTree _ _ _ other | asks _ _ other
  | answered _ _ other | loaded _ _ other | wrote _ _ other => exact nomatch stage.symm.trans other

theorem Stands.of_gotTree (stands : Stands storage names tree initial copy task phase)
    {asked : ι} {remoteTree : Node} (stage : task.stage = .gotTree asked remoteTree) :
    ∃ content, phase = .early (some content) ∧ remoteTree.Proper ∧
      Merkle.Shows storage.chunkSize remoteTree names content ∧
        (Merkle.Hidden names tree remoteTree → content = initial) := by
  cases stands with
  | hasTree _ _ content stage' todo proper shows same =>
      cases stage.symm.trans stage'
      exact ⟨content, rfl, proper, shows, same⟩
  | waits _ away | ended away =>
      rw [stage] at away
      exact away.elim
  | asksRoot _ other | hasRoot _ _ _ other | asksTree _ other | asks _ _ other
  | answered _ _ other | loaded _ _ other | wrote _ _ other => exact nomatch stage.symm.trans other

end Inversion

/-- A step of the task that changes files of which none disappears. -/
theorem Viewed.store (viewed : Viewed storage names source number before side) {task : Task ι}
    (found : before.tasks[number]? = some task) {task' : Task ι} {disk : Disk} {watch : Watch}
    {copy : Option Bytes} {phase : TwoCopies.Phase UInt8} (toward : Toward source task')
    (grows : ∀ query old, before.disk.read query = some old → ∃ new, disk.read query = some new)
    (copied : copy = disk.read (names.map OsStr.utf8))
    (stands : Stands storage names before.index.tree side.initial copy task' phase)
    (stored : ∀ fetch data, task'.stage = .written fetch data →
      disk.read fetch.path.rel = some data)
    (tree : Merkle.Shows storage.chunkSize before.index.tree names side.initial ∨
      phase = .closed ∧ Merkle.Shows storage.chunkSize before.index.tree names copy) :
    Viewed storage names source number
      { before with disk := disk, watch := watch, tasks := before.tasks.set number task' }
      { side with copy := copy, phase := phase } where
  copy := copied
  task := ⟨task', List.getElem?_set_self (List.getElem?_eq_some_iff.mp found).1, toward, stands,
    stored⟩
  tree := tree
  grown := by
    intro gone
    refine viewed.grown ?_
    cases had : side.copy with
    | none => rfl
    | some old =>
        obtain ⟨new, has⟩ := grows _ old (viewed.copy.symm.trans had)
        exact absurd (gone.symm.trans (copied.trans has)) (Option.some_ne_none new).symm
  proper := viewed.proper
  files := by
    intro query hash size chunks shown
    obtain ⟨old, had⟩ := viewed.files query hash size chunks shown
    exact grows _ old had
  patterns := viewed.patterns

/-- A written file is in the tree now. -/
theorem Viewed.commit (viewed : Viewed storage names source number before side) {task : Task ι}
    (found : before.tasks[number]? = some task) {fetch : Fetch ι} {data : Bytes}
    (toward : Toward source task) (stage : task.stage = .written fetch data) :
    Viewed storage names source number
      { before with
        index := before.index.fetched fetch.path.rel data storage.chunkSize fetch.origin
        tasks := before.tasks.set number { task with stage := .idle } } side := by
  obtain ⟨task', found', _, stands, stored⟩ := viewed.task
  cases found.symm.trans found'
  have here : before.disk.read fetch.path.rel = some data := stored fetch data stage
  obtain ⟨written, path_eq, named⟩ := exists_names_of_safeRel fetch.path.accepted
  have inserted : (before.index.fetched fetch.path.rel data storage.chunkSize fetch.origin).tree =
      Merkle.insertRecursive written (Merkle.fileNodeWithChunkSize data storage.chunkSize)
        before.index.tree := by
    rw [SyncIndex.fetched, Merkle.updateFileWithChunkSize, Merkle.insertNode, path_eq,
      Merkle.pathNames_map_utf8]
  have missing : written ≠ names → written <+: names ∨ names <+: written →
      before.disk.read (names.map OsStr.utf8) = none := by
    intro apart related
    rw [path_eq] at here
    exact Disk.read_of_related here (fun same => apart (utf8_injective same))
      (related.imp (fun reaches => reaches.map OsStr.utf8) fun reaches => reaches.map OsStr.utf8)
  refine ⟨viewed.copy, ⟨_, List.getElem?_set_self (List.getElem?_eq_some_iff.mp found).1,
    ⟨fun asked dealt => absurd dealt (Option.some_ne_none asked).symm, toward.todo⟩, ?_,
    fun _ _ absurd' => nomatch absurd'⟩, ?_, viewed.grown, ?_, ?_, viewed.patterns⟩
  · by_cases same : fetch.path.rel = names.map OsStr.utf8
    · obtain ⟨finished, left⟩ := stands.of_written stage same
      rw [finished]
      exact .ended trivial left
    · exact stands.stays (by rw [stage]; exact same) trivial rfl (List.Subset.refl _)
  · dsimp only
    rw [inserted]
    by_cases same : written = names
    · subst same
      obtain ⟨finished, _⟩ := stands.of_written stage path_eq
      have copy : side.copy = some data := by rw [viewed.copy, ← path_eq, here]
      by_cases empty : written = []
      · subst empty
        have unchanged : Merkle.insertRecursive [] (Merkle.fileNodeWithChunkSize data
            storage.chunkSize) before.index.tree = before.index.tree := by
          cases before.index.tree <;> rfl
        rw [unchanged]
        exact viewed.tree
      · refine Or.inr ⟨finished, ?_⟩
        rw [copy]
        refine Merkle.shows_insert_self empty (fun blocked => ?_) data
        obtain ⟨above, below, hash, size, chunks, rfl, proper, standing⟩ := blocked
        obtain ⟨old, file⟩ := viewed.files above hash size chunks standing
        have hidden := Disk.read_append _ (below.map OsStr.utf8) _ file
          (fun empty => proper (List.map_eq_nil_iff.mp empty))
        rw [path_eq, List.map_append, hidden] at here
        exact absurd here (Option.some_ne_none data).symm
    · have none : written <+: names ∨ names <+: written → side.copy = none := fun related =>
        viewed.copy.trans (missing same related)
      exact viewed.tree.imp
        (fun shown =>
          Merkle.shows_insert_of_ne same (fun related => viewed.grown (none related)) shown)
        fun shown => ⟨shown.1, Merkle.shows_insert_of_ne same none shown.2⟩
  · dsimp only
    rw [inserted]
    exact Merkle.proper_insertRecursive named (.file _ _ _) viewed.proper
  · intro query hash size chunks shown
    dsimp only at shown
    rw [inserted] at shown
    by_cases same : written = query
    · subst same
      exact ⟨data, by rw [← path_eq]; exact here⟩
    · exact viewed.files query hash size chunks (Merkle.findNames_of_insert same shown)

omit [Blake3] in
theorem fetchesOf_cons_counted (path : RelPath) (files : Nat) (rest : List (Walk ι)) :
    fetchesOf path (.counted files :: rest) = fetchesOf path rest := rfl

omit [Blake3] in
theorem fetchesOf_cons_fetch (path : RelPath) (asked : ι) (raw : Str) (chunkCount : Nat)
    (rest : List (Walk ι)) :
    fetchesOf path (.fetchFile asked raw chunkCount :: rest) =
      if safeRel raw = some path then chunkCount :: fetchesOf path rest
      else fetchesOf path rest := by
  rw [fetchesOf, List.filterMap_cons, Walk.countOf]
  split_ifs <;> rfl

/-- The next file of a walk: a fetch of the path starts what was due. -/
theorem Stands.started {tree : Node} {initial copy : Option Bytes} {task : Task ι}
    {phase : TwoCopies.Phase UInt8} (stands : Stands storage names tree initial copy task phase)
    (patterns : before.index.excludePatterns = []) {asked : ι} {raw : Str} {chunkCount : Nat}
    {rest : List (Walk ι)} (ended : task.stage = .idle)
    (next : task.todo = .fetchFile asked raw chunkCount :: rest) (origin : RemoteOrigin)
    (cause : Cause) :
    Stands storage names tree initial copy
      { task with
        todo := rest
        stage := before.startFetch asked raw (List.range chunkCount) origin cause } phase := by
  have away : task.stage.Away (names.map OsStr.utf8) := by
    rw [ended]
    trivial
  have included : ∀ path, before.index.isExcluded path = false := by
    intro path
    rw [SyncIndex.isExcluded, patterns]
    rfl
  have cases := stands.of_away away
  rw [next, fetchesOf_cons_fetch] at cases
  simp only [List.mem_cons] at cases
  rw [Peer.startFetch]
  cases guarded : SafePath.of? raw with
  | none =>
      have rejected : safeRel raw ≠ some (names.map OsStr.utf8) := by
        intro accepted
        have taken : SafePath.of? raw = some ⟨raw, _, accepted⟩ :=
          SafePath.of?_raw ⟨raw, _, accepted⟩
        exact absurd (guarded.symm.trans taken) (Option.some_ne_none _).symm
      rw [if_neg rejected] at cases
      rcases cases with ⟨data, rfl, left, joined⟩ | ⟨rfl, left⟩
      · exact .waits data trivial left fun _ _ _ member => joined _ _ _ (Or.inr member)
      · exact .ended trivial left
  | some path =>
      obtain rfl := SafePath.of?_eq_some_iff.mp guarded
      dsimp only
      rw [if_neg (by rw [included]; exact Bool.false_ne_true)]
      rw [path.accepted] at cases
      by_cases here : path.rel = names.map OsStr.utf8
      · rw [if_pos (congrArg some here)] at cases
        rcases cases with ⟨data, rfl, left, joined⟩ | ⟨rfl, left⟩
        · obtain ⟨rfl, rest⟩ := List.cons.inj left
          exact .asks data _ rfl here (joined _ _ _ (Or.inl rfl)).namesDirectory rfl rest
        · exact absurd left (List.cons_ne_nil _ _)
      · rw [if_neg fun same => here (Option.some.inj same)] at cases
        rcases cases with ⟨data, rfl, left, joined⟩ | ⟨rfl, left⟩
        · exact .waits data here left fun _ _ _ member => joined _ _ _ (Or.inr member)
        · exact .ended here left

omit [Blake3] in
theorem startFetch_not_written {asked : ι} {raw : Str} {chunkIndices : List Nat}
    {origin : RemoteOrigin} {cause : Cause} (fetch : Fetch ι) (data : Bytes) :
    before.startFetch asked raw chunkIndices origin cause ≠ .written fetch data := by
  rw [Peer.startFetch]
  split
  · simp
  · split <;> simp

omit [Blake3] in
/-- A fetch loses no file. -/
theorem store_grows (path : RelPath) (data : Bytes) (disk : Disk) (query : RelPath) (old : Bytes)
    (had : disk.read query = some old) : ∃ new, (disk.store path data).read query = some new := by
  by_cases here : query = path
  · subst here
    exact ⟨data, Disk.read_store_self (Disk.writable_of_read had)⟩
  · exact ⟨old, (Disk.read_store_of_ne here).trans had⟩

/-- A write that gets nowhere closes the side when it is for the path, which is free then. -/
theorem Viewed.fails (viewed : Viewed storage names source number before side) {task : Task ι}
    (found : before.tasks[number]? = some task) {fetch : Fetch ι} {data : Bytes} {watch : Watch}
    (toward : Toward source { task with stage := .idle }) (ready : task.stage = .loaded fetch data)
    (obstructed : ¬ before.disk.Writable fetch.path.rel) :
    ∃ side', (side' = side ∨ TwoCopies.Moves side other side' ∧ ¬ TwoCopies.Crosses side other) ∧
      Viewed storage names source number
        { before with
          disk := before.disk.store fetch.path.rel data
          watch := watch
          tasks := before.tasks.set number { task with stage := .idle } } side' := by
  obtain ⟨task', found', _, stands, _⟩ := viewed.task
  cases found.symm.trans found'
  by_cases here : fetch.path.rel = names.map OsStr.utf8
  · obtain ⟨held, left⟩ := stands.of_loaded ready here
    have lacks : side.copy = none := by
      rw [viewed.copy]
      cases had : before.disk.read (names.map OsStr.utf8) with
      | none => rfl
      | some old => exact absurd (here ▸ Disk.writable_of_read had) obstructed
    refine ⟨{ side with phase := .closed }, Or.inr ⟨.fails held lacks,
      TwoCopies.not_crosses_of_held held⟩, viewed.store found toward (store_grows _ _ _) ?_
        (.ended trivial left) (fun _ _ other => absurd other (by simp)) ?_⟩
    · rw [Disk.read_store_of_not_writable obstructed, viewed.copy]
    · exact viewed.tree.imp_right fun shown => ⟨rfl, shown.2⟩
  · refine ⟨side, Or.inl rfl, viewed.store found toward (store_grows _ _ _) ?_
      (stands.stays ?_ trivial rfl (List.Subset.refl _))
        (fun _ _ other => absurd other (by simp)) viewed.tree⟩
    · rw [Disk.read_store_of_ne fun same => here same.symm, viewed.copy]
    · rw [ready]
      exact here

/-- A write that succeeds is the write of the side when it is for the path. -/
theorem Viewed.writes (viewed : Viewed storage names source number before side) {task : Task ι}
    (found : before.tasks[number]? = some task) {fetch : Fetch ι} {data : Bytes} {watch : Watch}
    (toward : Toward source { task with stage := .written fetch data })
    (ready : task.stage = .loaded fetch data)
    (written : (before.disk.store fetch.path.rel data).read fetch.path.rel = some data) :
    ∃ side', (side' = side ∨ TwoCopies.Moves side other side' ∧ ¬ TwoCopies.Crosses side other) ∧
      Viewed storage names source number
        { before with
          disk := before.disk.store fetch.path.rel data
          watch := watch
          tasks := before.tasks.set number { task with stage := .written fetch data } } side' := by
  obtain ⟨task', found', _, stands, _⟩ := viewed.task
  cases found.symm.trans found'
  have stored : ∀ fetch' data', Stage.written fetch data = .written fetch' data' →
      (before.disk.store fetch.path.rel data).read fetch'.path.rel = some data' := by
    intro fetch' data' same
    cases same
    exact written
  by_cases here : fetch.path.rel = names.map OsStr.utf8
  · obtain ⟨held, left⟩ := stands.of_loaded ready here
    refine ⟨{ side with copy := some data, phase := .closed }, Or.inr ⟨.writes held,
      TwoCopies.not_crosses_of_held held⟩, viewed.store found toward (store_grows _ _ _) ?_
        (.wrote fetch data rfl here left) stored ?_⟩
    · rw [← here, written]
    · exact Or.inl (viewed.tree.resolve_right fun shown =>
        absurd (held.symm.trans shown.1) (by simp))
  · refine ⟨side, Or.inl rfl, viewed.store found toward (store_grows _ _ _) ?_
      (stands.stays ?_ here rfl (List.Subset.refl _)) stored viewed.tree⟩
    · rw [Disk.read_store_of_ne fun same => here same.symm, viewed.copy]
    · rw [ready]
      exact here

/-- Equal root hashes pass the side over, and others make it ask for the tree. -/
theorem Viewed.compares (viewed : Viewed storage names source number before side) {task : Task ι}
    (found : before.tasks[number]? = some task) {asked : ι} {hash : Hash}
    (toward : Toward source { task with
      stage := if before.index.tree.hash = hash then .idle else .askedTree asked })
    (waiting : task.stage = .gotRoot asked hash) :
    ∃ side', (side' = side ∨ TwoCopies.Moves side other side' ∧ ¬ TwoCopies.Crosses side other) ∧
      Viewed storage names source number
        { before with
          tasks := before.tasks.set number { task with
            stage := if before.index.tree.hash = hash then .idle else .askedTree asked } }
        side' := by
  obtain ⟨task', found', _, stands, _⟩ := viewed.task
  cases found.symm.trans found'
  obtain ⟨content, seen, same, todo⟩ := stands.of_gotRoot waiting
  by_cases equal : before.index.tree.hash = hash
  · rw [if_pos equal] at toward ⊢
    refine ⟨{ side with phase := .closed }, Or.inr ⟨.passes seen (Or.inr (same equal)),
      TwoCopies.not_crosses_of_early seen⟩, viewed.set found toward (.ended trivial ?_)
        (fun _ _ other => absurd other (by simp)) fun _ => rfl⟩
    rw [todo]
    rfl
  · rw [if_neg equal] at toward ⊢
    exact ⟨{ side with phase := .early none }, Or.inr ⟨.forgets seen,
      TwoCopies.not_crosses_of_early seen⟩, viewed.set found toward (.asksTree asked rfl todo)
        (fun _ _ other => absurd other (by simp))
          fun finished => absurd (seen.symm.trans finished) (by simp)⟩

/-- A walk plans a fetch of the path when it comes to it, and passes the side over when not. -/
theorem Viewed.walks {noPull : Bool} (pulls : noPull = false)
    (viewed : Viewed storage names source number before side) {task : Task ι}
    (found : before.tasks[number]? = some task) {asked : ι} {remoteTree : Node}
    (toward : Toward source { task with
      stage := .idle
      todo := walkDiff asked noPull before.index.tree remoteTree })
    (waiting : task.stage = .gotTree asked remoteTree) :
    ∃ side', (side' = side ∨ TwoCopies.Moves side other side' ∧ ¬ TwoCopies.Crosses side other) ∧
      Viewed storage names source number
        { before with
          tasks := before.tasks.set number { task with
            stage := .idle
            todo := walkDiff asked noPull before.index.tree remoteTree } } side' := by
  obtain ⟨task', found', _, stands, _⟩ := viewed.task
  cases found.symm.trans found'
  obtain ⟨content, seen, proper, shows, same⟩ := stands.of_gotTree waiting
  rcases @fetchesOf_walkDiff ι asked noPull before.index.tree remoteTree proper
      (names.map OsStr.utf8) with ⟨chunkCount, comes, once⟩ | ⟨never, nothing⟩
  · obtain ⟨names', hash, size, chunks, named, file, rfl, _⟩ := comes.shown
    obtain rfl := utf8_injective named
    cases content with
    | none => exact absurd file (shows hash size chunks)
    | some data =>
        cases file.symm.trans shows
        exact ⟨{ side with phase := .due data }, Or.inr ⟨.plans seen,
          TwoCopies.not_crosses_of_early seen⟩, viewed.set found toward
            (.waits data trivial once fun _ _ _ member =>
              joinedNames_of_mem_walkDiff proper member) (fun _ _ other => absurd other (by simp))
              fun finished => absurd (seen.symm.trans finished) (by simp)⟩
  · have needless : content = none ∨ content = side.initial := by
      cases content with
      | none => exact Or.inl rfl
      | some data =>
          refine Or.inr (same ?_)
          by_contra shown
          exact never _ ⟨pulls, names, _, _, _, rfl, shows, rfl, shown⟩
    exact ⟨{ side with phase := .closed }, Or.inr ⟨.passes seen needless,
      TwoCopies.not_crosses_of_early seen⟩, viewed.set found toward (.ended trivial nothing)
        (fun _ _ other => absurd other (by simp)) fun _ => rfl⟩

/-- **A stretch of the task is a move of the side**, or nothing to it. -/
theorem Viewed.resumed {ctx : Ctx ι} (pulls : ctx.noPull = false)
    (viewed : Viewed ctx.storage names source number before side) {task task' : Task ι}
    (found : before.tasks[number]? = some task)
    (ran : Peer.Ran ctx {} before task after task') :
    ∃ side', (side' = side ∨ TwoCopies.Moves side other side' ∧ ¬ TwoCopies.Crosses side other) ∧
      Viewed ctx.storage names source number
        { after with tasks := after.tasks.set number task' } side' := by
  obtain ⟨task', found', ours, stands, stored⟩ := viewed.task
  cases found.symm.trans found'
  have toward := ours.ran ran
  cases ran with
  | counted files rest ended next =>
      have away : task.stage.Away (names.map OsStr.utf8) := by
        rw [ended]
        trivial
      refine ⟨side, Or.inl rfl,
        viewed.set found toward (stands.stays away away ?_ ?_) stored id⟩
      · rw [next, fetchesOf_cons_counted]
      · rw [next]
        exact List.subset_cons_self _ _
  | started asked raw chunkCount rest ended next =>
      exact ⟨side, Or.inl rfl, viewed.set found toward
        (stands.started viewed.patterns ended next _ _)
        (fun fetch data written => absurd written (startFetch_not_written fetch data)) id⟩
  | forgotten tombstone path unlinked =>
      generalize side.phase = phase at stands
      cases stands with
      | waits _ away | ended away =>
          rw [unlinked] at away
          exact away.elim
      | asksRoot _ other | hasRoot _ _ _ other | asksTree _ other | hasTree _ _ _ other
      | asks _ _ other | answered _ _ other | loaded _ _ other | wrote _ _ other =>
          exact absurd (unlinked.symm.trans other) (by simp)
  | refused fetch chunks answered large =>
      by_cases here : fetch.path.rel = names.map OsStr.utf8
      · obtain ⟨_, _, small⟩ := stands.of_answered answered here
        rw [applyChunks_eq_some_iff.mpr ⟨small, rfl⟩] at large
        exact absurd large (Option.some_ne_none _)
      · refine ⟨side, Or.inl rfl, viewed.set found toward
          (stands.stays ?_ trivial rfl (List.Subset.refl _))
          (fun _ _ other => absurd other (by simp)) id⟩
        rw [answered]
        exact here
  | loaded fetch chunks data answered assembled =>
      by_cases here : fetch.path.rel = names.map OsStr.utf8
      · obtain ⟨held, left, _⟩ := stands.of_answered answered here
        rw [Peer.oldData, if_pos rfl, here, ← viewed.copy] at assembled
        obtain ⟨_, rfl⟩ := applyChunks_eq_some_iff.mp assembled
        refine ⟨side, Or.inl rfl, viewed.set found toward ?_
          (fun _ _ other => absurd other (by simp)) id⟩
        rw [held]
        exact .loaded fetch _ rfl here left
      · refine ⟨side, Or.inl rfl, viewed.set found toward
          (stands.stays ?_ here rfl (List.Subset.refl _))
          (fun _ _ other => absurd other (by simp)) id⟩
        rw [answered]
        exact here
  | failed fetch data disk watch ready failure =>
      obtain rfl : before.disk.store fetch.path.rel data = disk := congrArg Prod.snd failure
      refine viewed.fails found toward ready fun writable => ?_
      obtain ⟨written, success⟩ := Option.isSome_iff_exists.mp
        ((@Disk.write_createDirAll_isSome_iff fetch.path.rel data before.disk).mpr writable)
      have succeeded : Outcome.succeeds.write fetch.path.rel data
          (before.makeParents {} fetch.path.rel) = (true, written) :=
        Outcome.write_succeeds_iff.mpr ⟨rfl, success⟩
      exact absurd (congrArg Prod.fst (failure.symm.trans succeeded)) Bool.false_ne_true
  | wrote fetch data disk watch ready success =>
      obtain rfl : before.disk.store fetch.path.rel data = disk := congrArg Prod.snd success
      exact viewed.writes found toward ready
        (Disk.read_write_self (Outcome.write_succeeds_iff.mp success).2)
  | committed fetch data stage =>
      exact ⟨side, Or.inl rfl, viewed.commit found ours stage⟩
  | compared asked hash waiting => exact viewed.compares found toward waiting
  | walked asked remoteTree waiting => exact viewed.walks pulls found toward waiting

end Sides

/-! ## Two peers -/

/-- A peer with the task that reconciles it. -/
structure Party (ι : Type) where
  site : ι
  number : Nat

/-- A stage that has an answer for the path and has not written it. -/
def Stage.Holds {ι : Type} (path : RelPath) : Stage ι → Prop
  | .answered fetch _ => fetch.path.rel = path
  | .loaded fetch _ => fetch.path.rel = path
  | _ => False

namespace Swarm

variable {ι : Type} [Blake3] (ctx : ι → Ctx ι) (swarm : Swarm ι)

/-- A peer that has discovered another one, with an index that matches its folder and nothing
that stops a file on its way to either of them. -/
structure Discovers (me other : Party ι) : Prop where
  asked : (swarm.peer me.site).tasks[me.number]? = some { stage := .askedRoot other.site }
  pulls : (ctx me.site).noPull = false
  included : (swarm.peer me.site).index.excludePatterns = []
  mirrors : Merkle.Mirrors (ctx me.site).storage.chunkSize (swarm.peer me.site).index.tree
    (swarm.peer me.site).disk
  fits : ∀ path data, (swarm.peer me.site).disk.read path = some data →
    (ctx me.site).storage.Fits data.length ∧ (ctx other.site).storage.Fits data.length

/-- Two peers that have discovered each other and use one chunk size. -/
structure Meet (left right : Party ι) : Prop where
  apart : left.site ≠ right.site
  positive : 0 < (ctx left.site).storage.chunkSize
  sameSize : (ctx right.site).storage.chunkSize = (ctx left.site).storage.chunkSize
  first : Discovers ctx swarm left right
  second : Discovers ctx swarm right left

/-- What the path holds at one peer goes on from what it holds at another. -/
def Comparable (path : RelPath) (site source : ι) : Prop :=
  ((swarm.peer site).disk.read path).getD [] <+: ((swarm.peer source).disk.read path).getD [] ∨
    ((swarm.peer source).disk.read path).getD [] <+: ((swarm.peer site).disk.read path).getD []

/-- What is asked of an answer: one that tells about a tree is not about equal hashes of
different contents, and no peer gives the path away before it has written its own answer for
it, unless its content and the other one go on from each other. -/
def ApartStage (path : RelPath) (site : ι) : Stage ι → Prop
  | .askedRoot source => ∀ names : List Str, path = names.map OsStr.utf8 →
      SameShown (ctx site).storage.chunkSize names (swarm.peer site).index.tree
        (swarm.peer source).index.tree
  | .askedTree source => ∀ names : List Str, path = names.map OsStr.utf8 →
      SameShown (ctx site).storage.chunkSize names (swarm.peer site).index.tree
        (swarm.peer source).index.tree
  | .asked fetch => fetch.path.rel = path →
      (∃ task ∈ (swarm.peer fetch.source).tasks, task.stage.Holds path) →
        Comparable swarm path site fetch.source
  | _ => True

/-- A turn that keeps the two copies of a path apart. -/
def Apart (path : RelPath) : Turn ι → Prop
  | .serve site number none => ∀ task, (swarm.peer site).tasks[number]? = some task →
      ApartStage ctx swarm path site task.stage
  | _ => True

variable {ctx} [DecidableEq ι] {names : List Str} {bound : Nat} {me other : Party ι}
  {before after : Swarm ι} {side theirs : TwoCopies.Side UInt8}

/-- A peer seen as a side of two. -/
abbrev View (ctx : ι → Ctx ι) (names : List Str) (me other : Party ι) (swarm : Swarm ι)
    (side : TwoCopies.Side UInt8) : Prop :=
  Viewed (ctx me.site).storage names other.site me.number (swarm.peer me.site) side

/-- **A turn of one peer is a move of its side**, next to the other one. -/
theorem view_turn (apart : other.site ≠ me.site) (positive : 0 < (ctx me.site).storage.chunkSize)
    (sameSize : (ctx other.site).storage.chunkSize = (ctx me.site).storage.chunkSize)
    (pulls : (ctx me.site).noPull = false) (fits : (ctx me.site).storage.Fits bound)
    (otherFits : (ctx other.site).storage.Fits bound) (within : theirs.Within bound)
    (viewed : View ctx names me other before side)
    (otherViewed : View ctx names other me before theirs)
    {turn : Turn ι} (ours : TurnOf me.site me.number turn)
    (careful : Apart ctx before (names.map OsStr.utf8) turn)
    (stepped : before.step ctx turn = some after) :
    ∃ side', (side' = side ∨
        TwoCopies.Moves side theirs side' ∧ ¬ TwoCopies.Crosses side theirs) ∧
      View ctx names me other after side' ∧ View ctx names other me after theirs := by
  obtain ⟨task, found, toward, _⟩ := viewed.task
  obtain ⟨next, task', others, here, _, advances⟩ := ours.cases stepped found
  have settled : (∃ side', (side' = side ∨
      TwoCopies.Moves side theirs side' ∧ ¬ TwoCopies.Crosses side theirs) ∧
        Viewed (ctx me.site).storage names other.site me.number next side') →
      ∃ side', (side' = side ∨
        TwoCopies.Moves side theirs side' ∧ ¬ TwoCopies.Crosses side theirs) ∧
          View ctx names me other after side' ∧ View ctx names other me after theirs := by
    rintro ⟨side', moved, viewed'⟩
    refine ⟨side', moved, ?_, ?_⟩
    · rw [View, here]
      exact viewed'
    · rw [View, others other.site apart]
      exact otherViewed
  refine settled ?_
  cases advances with
  | served asked request stage' requested reply =>
      have stage := careful task found
      obtain rfl := toward.stage asked (Stage.source?_of_request requested)
      refine viewed.answered positive sameSize fits otherFits within otherViewed found requested
        reply ?_ ?_
      · intro looks
        cases waiting : task.stage with
        | askedRoot source | askedTree source =>
            rw [waiting] at stage requested
            cases requested
            exact stage names rfl
        | asked fetch =>
            rw [waiting] at requested
            have asks := congrArg Prod.snd (Option.some.inj requested)
            rcases looks with rfl | rfl <;> exact nomatch asks
        | _ =>
            rw [waiting] at requested
            exact nomatch requested
      · rintro fetch waiting here ⟨_, ⟨result, held⟩, differ⟩
        rw [waiting] at stage requested
        have source : fetch.source = other.site :=
          congrArg Prod.fst (Option.some.inj requested)
        dsimp only [ApartStage] at stage
        rw [source] at stage
        obtain ⟨task', listed, _, stands, _⟩ := otherViewed.task
        refine differ ?_
        rw [viewed.copy, otherViewed.copy]
        refine stage here ⟨task', List.mem_of_getElem? listed, ?_⟩
        rw [held] at stands
        cases stands with
        | answered fetch' chunks stage' here' =>
            rw [stage']
            exact here'
        | loaded fetch' data stage' here' =>
            rw [stage']
            exact here'
  | resumed middle task' ran => exact viewed.resumed pulls found ran

/-! ## Both together -/

/-- Two peers seen as two sides, with copies of a bounded length. -/
def Paired (ctx : ι → Ctx ι) (names : List Str) (bound : Nat) (me other : Party ι)
    (swarm : Swarm ι) : Prop :=
  ∃ side theirs, View ctx names me other swarm side ∧ View ctx names other me swarm theirs ∧
    TwoCopies.Both side theirs ∧ side.Within bound ∧ theirs.Within bound

omit [DecidableEq ι] in
theorem Paired.symm (paired : Paired ctx names bound me other before) :
    Paired ctx names bound other me before := by
  obtain ⟨side, theirs, viewed, otherViewed, both, within, otherWithin⟩ := paired
  exact ⟨theirs, side, otherViewed, viewed, both.symm, otherWithin, within⟩

/-- A turn of one of the two keeps them a pair. -/
theorem Paired.keeps (apart : other.site ≠ me.site) (positive : 0 < (ctx me.site).storage.chunkSize)
    (sameSize : (ctx other.site).storage.chunkSize = (ctx me.site).storage.chunkSize)
    (pulls : (ctx me.site).noPull = false) (fits : (ctx me.site).storage.Fits bound)
    (otherFits : (ctx other.site).storage.Fits bound)
    (paired : Paired ctx names bound me other before) {turn : Turn ι}
    (ours : TurnOf me.site me.number turn)
    (careful : Apart ctx before (names.map OsStr.utf8) turn)
    (stepped : before.step ctx turn = some after) : Paired ctx names bound me other after := by
  obtain ⟨side, theirs, viewed, otherViewed, both, within, otherWithin⟩ := paired
  obtain ⟨side', moved, viewed', otherViewed'⟩ := view_turn apart positive sameSize pulls fits
    otherFits otherWithin viewed otherViewed ours careful stepped
  rcases moved with rfl | ⟨moves, separate⟩
  · exact ⟨_, theirs, viewed', otherViewed', both, within, otherWithin⟩
  · exact ⟨side', theirs, viewed', otherViewed', both.moves moves separate,
      within.moves otherWithin moves, otherWithin⟩

omit [DecidableEq ι] in
/-- A peer that has just discovered another one is a side that has not begun. -/
theorem Discovers.view (discovers : Discovers ctx before me other) (names : List Str) :
    View ctx names me other before
      ⟨(before.peer me.site).disk.read (names.map OsStr.utf8),
        (before.peer me.site).disk.read (names.map OsStr.utf8), .early none⟩ where
  copy := rfl
  task := by
    refine ⟨_, discovers.asked, ⟨fun _ dealt => (Option.some.inj dealt).symm, ?_⟩,
      .asksRoot other.site rfl rfl, fun _ _ written => nomatch written⟩
    exact fun _ _ _ absent => absurd absent List.not_mem_nil
  tree := Or.inl (discovers.mirrors.shows names)
  grown := id
  proper := discovers.mirrors.proper
  files := by
    intro query hash size chunks file
    have shown := discovers.mirrors.shows query
    cases had : (before.peer me.site).disk.read (query.map OsStr.utf8) with
    | some data => exact ⟨data, rfl⟩
    | none =>
        rw [had] at shown
        exact absurd file (shown hash size chunks)
  patterns := discovers.included

omit [DecidableEq ι] in
/-- Nothing at all fits everywhere, and so does what is at a path. -/
theorem Discovers.fits_getD (discovers : Discovers ctx before me other) (path : RelPath) :
    (ctx me.site).storage.Fits (((before.peer me.site).disk.read path).getD []).length ∧
      (ctx other.site).storage.Fits (((before.peer me.site).disk.read path).getD []).length := by
  cases had : (before.peer me.site).disk.read path with
  | none =>
      exact ⟨⟨Nat.zero_le _, Nat.zero_le _, by decide⟩, ⟨Nat.zero_le _, Nat.zero_le _, by decide⟩⟩
  | some data => exact discovers.fits path data had

omit [DecidableEq ι] in
theorem Meet.paired (meet : Meet ctx before me other) (names : List Str) :
    ∃ bound, (ctx me.site).storage.Fits bound ∧ (ctx other.site).storage.Fits bound ∧
      Paired ctx names bound me other before := by
  have mine := meet.first.fits_getD (names.map OsStr.utf8)
  have theirs := meet.second.fits_getD (names.map OsStr.utf8)
  refine ⟨max (((before.peer me.site).disk.read (names.map OsStr.utf8)).getD []).length
      (((before.peer other.site).disk.read (names.map OsStr.utf8)).getD []).length, ?_, ?_, _, _,
    meet.first.view names, meet.second.view names, TwoCopies.both_start _ _,
    ⟨fun list copied => ?_, fun _ held => nomatch held⟩,
    ⟨fun list copied => ?_, fun _ held => nomatch held⟩⟩
  · exact max_rec' _ mine.1 theirs.2
  · exact max_rec' _ mine.2 theirs.1
  · dsimp only at copied
    rw [copied]
    exact le_max_left _ _
  · dsimp only at copied
    rw [copied]
    exact le_max_right _ _

/-- Two reconciliations against each other, in any order, to the end of both. -/
structure Mutual (ctx : ι → Ctx ι) (first : Swarm ι) (left right : Party ι)
    (trace : List (Swarm ι × Turn ι)) (last : Swarm ι) : Prop where
  meet : Meet ctx first left right
  run : Run (step ctx) first trace last
  turns : ∀ entry ∈ trace,
    TurnOf left.site left.number entry.2 ∨ TurnOf right.site right.number entry.2
  leftEnded : ∃ task, (last.peer left.site).tasks[left.number]? = some task ∧ task.stage = .idle ∧
    task.todo = []
  rightEnded : ∃ task, (last.peer right.site).tasks[right.number]? = some task ∧
    task.stage = .idle ∧ task.todo = []

variable {first last : Swarm ι} {left right : Party ι} {trace : List (Swarm ι × Turn ι)}

omit [DecidableEq ι] in
/-- A side whose task has nothing left to do is done. -/
theorem View.closed (viewed : View ctx names me other before side)
    (ended : ∃ task, (before.peer me.site).tasks[me.number]? = some task ∧ task.stage = .idle ∧
      task.todo = []) : side.phase = .closed := by
  obtain ⟨task, found, idle, done⟩ := ended
  obtain ⟨task', found', _, stands, _⟩ := viewed.task
  cases found.symm.trans found'
  rcases stands.of_away (by rw [idle]; trivial) with ⟨data, _, left, _⟩ | ⟨finished, _⟩
  · rw [done] at left
    exact absurd left.symm (List.cons_ne_nil _ _)
  · exact finished

/-- A file that was not there before was fetched, and has a path of names. -/
theorem exists_names_of_turn {turn : Turn ι} {site : ι}
    (ours : TurnOf left.site left.number turn ∨ TurnOf right.site right.number turn)
    (stepped : before.step ctx turn = some after) {path : RelPath} {data : Bytes}
    (here : (after.peer site).disk.read path = some data) :
    (before.peer site).disk.read path = some data ∨
      ∃ names : List Str, path = names.map OsStr.utf8 := by
  obtain ⟨site', act, next, published, does, happened, rfl⟩ := step_cases stepped
  by_cases same : site = site'
  · subst same
    dsimp only at here
    rw [Function.update_self] at here
    rcases happened.read path with kept | rewrites
    · exact Or.inl (kept.symm.trans here)
    · right
      generalize next.disk.read path = content at rewrites
      cases rewrites with
      | written _ _ _ fetch _ _ _ _ at' =>
          obtain ⟨names, path_eq, _⟩ := exists_names_of_safeRel fetch.path.accepted
          exact ⟨names, at'.symm.trans path_eq⟩
      | user | copied | removed =>
          rcases ours with ours | ours <;> cases ours <;> cases does
  · dsimp only at here
    rw [Function.update_of_ne same] at here
    exact Or.inl here

/-- Every file of a peer has a path of names. -/
theorem Mutual.named (mutually : Mutual ctx first left right trace last) {path : RelPath}
    {data : Bytes} (here : (last.peer left.site).disk.read path = some data) :
    ∃ names : List Str, path = names.map OsStr.utf8 := by
  have held := mutually.run.invariant
    (fun swarm => ∀ path data, (swarm.peer left.site).disk.read path = some data →
      ∃ names : List Str, path = names.map OsStr.utf8)
    (fun _ turn => TurnOf left.site left.number turn ∨ TurnOf right.site right.number turn)
    mutually.turns mutually.meet.first.mirrors.named
    fun before turn after named ours stepped path data here => ?_
  · exact held path data here
  · rcases exists_names_of_turn ours stepped here with there | names
    · exact named path data there
    · exact names

/-- **Two reconciliations against each other leave one content** at every path that both
peers have a file at, in a run whose turns keep the copies of the path apart. -/
theorem converged_of_apart (mutually : Mutual ctx first left right trace last) {path : RelPath}
    (careful : ∀ entry ∈ trace, Apart ctx entry.1 path entry.2) {mine theirs : Bytes}
    (here : (last.peer left.site).disk.read path = some mine)
    (there : (last.peer right.site).disk.read path = some theirs) : mine = theirs := by
  obtain ⟨names, rfl⟩ := mutually.named here
  obtain ⟨meet, run, turns, leftEnded, rightEnded⟩ := mutually
  obtain ⟨bound, fits, otherFits, paired⟩ := meet.paired names
  have held := run.invariant (Paired ctx names bound left right)
    (fun before turn => (TurnOf left.site left.number turn ∨ TurnOf right.site right.number turn) ∧
      Apart ctx before (names.map OsStr.utf8) turn)
    (fun entry member => ⟨turns entry member, careful entry member⟩) paired
    fun before turn after paired ours stepped => ?_
  · obtain ⟨side, theirs', viewed, otherViewed, both, _⟩ := held
    exact both.agree (viewed.closed leftEnded) (otherViewed.closed rightEnded)
      (viewed.copy.trans here) (otherViewed.copy.trans there)
  · obtain ⟨mine | theirs, careful⟩ := ours
    · exact paired.keeps meet.apart.symm meet.positive meet.sameSize meet.first.pulls fits otherFits
        mine careful stepped
    · exact (paired.symm.keeps meet.apart (meet.sameSize ▸ meet.positive) meet.sameSize.symm
        meet.second.pulls otherFits fits theirs careful stepped).symm

end Swarm

/-! ## Two concrete reconciliations -/

namespace Sample

attribute [local instance] blake3

theorem mirrors (site : Site) (data : Bytes) :
    Merkle.Mirrors 2 (index site data).tree (folder data) := by
  have built : SyncIndex.build (folder data) (ctx site).localId [] (ctx site).storage 10 =
      some (index site data) := rfl
  exact mirrors_build (proper_folder data) built

theorem read_folder {data content : Bytes} {query : RelPath}
    (here : (folder data).read query = some content) : content = data := by
  obtain ⟨rest, inside⟩ := Disk.exists_read_of_single here
  cases rest with
  | nil => exact (Option.some.inj inside).symm
  | cons _ _ => exact absurd inside (Option.some_ne_none content).symm

/-- Two peers with different contents of `f` have just discovered each other. -/
def meeting : Swarm Site where
  peer
    | .one => { peer .one [2] with tasks := [{ stage := .askedRoot .two }] }
    | .two => { peer .two [3] with tasks := [{ stage := .askedRoot .one }] }
    | .three => peer .three []
  log := []
  edited _ _ := false

theorem meet : Swarm.Meet ctx meeting ⟨.one, 0⟩ ⟨.two, 0⟩ := by
  have fits : ∀ data : Bytes, data.length = 1 → ∀ site site' query content,
      (folder data).read query = some content →
        (ctx site).storage.Fits content.length ∧ (ctx site').storage.Fits content.length := by
    intro data short site site' query content here
    obtain rfl := read_folder here
    have small : ∀ site, (ctx site).storage.Fits content.length := by
      intro site
      rw [short]
      exact ⟨(by decide : 1 ≤ 1024 * 1024 * 1024), (by decide : 1 ≤ 16384 * 2), by decide⟩
    exact ⟨small site, small site'⟩
  exact
    { apart := by decide
      positive := by decide
      sameSize := rfl
      first := ⟨rfl, rfl, rfl, mirrors .one [2], fits [2] rfl .one .two⟩
      second := ⟨rfl, rfl, rfl, mirrors .two [3], fits [3] rfl .two .one⟩ }

/-- A reconciliation up to its request for `f`. -/
def asksFor (site : Site) : List (Turn Site) :=
  [.serve site 0 none, .own site (.resume 0 {}), .serve site 0 none, .own site (.resume 0 {}),
    .own site (.resume 0 {})]

/-- A reconciliation from the answer for `f` on. -/
def takesIn (site : Site) : List (Turn Site) :=
  [.own site (.resume 0 {}), .own site (.resume 0 {}), .own site (.resume 0 {}),
    .own site (.resume 0 {})]

/-- Both peers have asked for `f` before one of them is answered. -/
def inTurn : List (Turn Site) :=
  asksFor .one ++ asksFor .two ++ .serve .one 0 none :: takesIn .one ++
    .serve .two 0 none :: takesIn .two

/-- Both peers are answered before one of them has written. -/
def atOnce : List (Turn Site) :=
  asksFor .one ++ asksFor .two ++ .serve .one 0 none :: .serve .two 0 none :: takesIn .one ++
    takesIn .two

theorem turnOf_asksFor (site : Site) : ∀ turn ∈ asksFor site, Swarm.TurnOf site 0 turn := by
  simp only [asksFor, List.forall_mem_cons]
  exact ⟨.served, .resumed, .served, .resumed, .resumed, List.forall_mem_nil _⟩

theorem turnOf_takesIn (site : Site) : ∀ turn ∈ takesIn site, Swarm.TurnOf site 0 turn := by
  simp only [takesIn, List.forall_mem_cons]
  exact ⟨.resumed, .resumed, .resumed, .resumed, List.forall_mem_nil _⟩

theorem turnOf_inTurn :
    ∀ turn ∈ inTurn, Swarm.TurnOf Site.one 0 turn ∨ Swarm.TurnOf Site.two 0 turn := by
  simp only [inTurn, List.forall_mem_append, List.forall_mem_cons]
  exact ⟨⟨⟨fun turn member => Or.inl (turnOf_asksFor .one turn member),
    fun turn member => Or.inr (turnOf_asksFor .two turn member)⟩, Or.inl .served,
    fun turn member => Or.inl (turnOf_takesIn .one turn member)⟩, Or.inr .served,
    fun turn member => Or.inr (turnOf_takesIn .two turn member)⟩

theorem turnOf_atOnce :
    ∀ turn ∈ atOnce, Swarm.TurnOf Site.one 0 turn ∨ Swarm.TurnOf Site.two 0 turn := by
  simp only [atOnce, List.forall_mem_append, List.forall_mem_cons]
  exact ⟨⟨⟨fun turn member => Or.inl (turnOf_asksFor .one turn member),
    fun turn member => Or.inr (turnOf_asksFor .two turn member)⟩, Or.inl .served, Or.inr .served,
    fun turn member => Or.inl (turnOf_takesIn .one turn member)⟩,
    fun turn member => Or.inr (turnOf_takesIn .two turn member)⟩

/-- Whether two trees have different hashes at the root and at `f`. -/
def differ : Node → Node → Bool
  | .directory oldHash oldChildren, .directory hash children =>
      decide (oldHash ≠ hash) &&
        match SortedMap.lookup ['f'] oldChildren, SortedMap.lookup ['f'] children with
        | some oldChild, some child => decide (oldChild.hash ≠ child.hash)
        | _, _ => true
  | _, _ => false

theorem not_hidden_of_differ {old new : Node} (checked : differ old new = true) :
    ¬ Merkle.Hidden [['f']] old new := by
  cases old with
  | file => exact absurd checked Bool.false_ne_true
  | directory oldHash oldChildren =>
      cases new with
      | file => exact absurd checked Bool.false_ne_true
      | directory hash children =>
          rw [differ, Bool.and_eq_true, decide_eq_true_eq] at checked
          rw [hidden_cons_iff]
          rintro (root | ⟨oldChild, child, had, has, inside⟩)
          · exact checked.1 root
          · rw [had, has] at checked
            exact of_decide_eq_true checked.2 (hidden_nil_iff.mp inside)

/-- A check of `Apart` for the path `f`. -/
def keepsApart (swarm : Swarm Site) : Turn Site → Bool
  | .serve site number none =>
      match (swarm.peer site).tasks[number]? with
      | some { stage := .askedRoot source, .. } =>
          differ (swarm.peer site).index.tree (swarm.peer source).index.tree
      | some { stage := .askedTree source, .. } =>
          differ (swarm.peer site).index.tree (swarm.peer source).index.tree
      | some { stage := .asked fetch, .. } => (swarm.peer fetch.source).tasks.all fun task =>
          match task.stage with
          | .answered _ _ => false
          | .loaded _ _ => false
          | _ => true
      | _ => true
  | _ => true

theorem apart_of_keepsApart {swarm : Swarm Site} {turn : Turn Site}
    (checked : keepsApart swarm turn = true) : Swarm.Apart ctx swarm path turn := by
  have shown : ∀ {tree remoteTree : Node}, differ tree remoteTree = true →
      ∀ names : List Str, path = names.map OsStr.utf8 → ∀ chunkSize,
        SameShown chunkSize names tree remoteTree := by
    intro tree remoteTree checked names same chunkSize hidden
    obtain rfl : [['f']] = names := utf8_injective same
    exact absurd hidden (not_hidden_of_differ checked)
  cases turn with
  | serve site number failure =>
      cases failure with
      | some _ => trivial
      | none =>
          intro task found
          rw [keepsApart, found] at checked
          obtain ⟨stage, todo, filesSynced⟩ := task
          cases stage with
          | askedRoot source => exact fun names same => shown checked names same _
          | askedTree source => exact fun names same => shown checked names same _
          | asked fetch =>
              rintro _ ⟨task, member, holds⟩
              have open' := List.all_eq_true.mp checked task member
              cases stage : task.stage <;> rw [stage] at open' holds <;> first
                | exact absurd open' Bool.false_ne_true
                | exact holds.elim
          | _ => trivial
  | _ => trivial

end Sample

namespace Swarm

attribute [local instance] Sample.blake3

theorem mutual_sample {trace : List (Swarm Sample.Site × Turn Sample.Site)}
    {last : Swarm Sample.Site} (run : Run (step Sample.ctx) Sample.meeting trace last)
    (turns : trace.map Prod.snd = Sample.inTurn ∨ trace.map Prod.snd = Sample.atOnce)
    (one : (last.peer .one).tasks.length = 1) (oneEnded : Sample.atEnd (last.peer .one) = true)
    (two : (last.peer .two).tasks.length = 1) (twoEnded : Sample.atEnd (last.peer .two) = true) :
    Mutual Sample.ctx Sample.meeting ⟨.one, 0⟩ ⟨.two, 0⟩ trace last := by
  have ended : ∀ site, (last.peer site).tasks.length = 1 → Sample.atEnd (last.peer site) = true →
      ∃ task, (last.peer site).tasks[0]? = some task ∧ task.stage = .idle ∧ task.todo = [] := by
    intro site single atEnd
    obtain ⟨task, alone⟩ := List.length_eq_one_iff.mp single
    refine ⟨task, by rw [alone]; rfl, Sample.of_atEnd atEnd ?_⟩
    rw [alone]
    exact List.mem_singleton_self task
  refine ⟨Sample.meet, run, fun entry member => ?_,
    ended .one one oneEnded, ended .two two twoEnded⟩
  have listed : entry.2 ∈ trace.map Prod.snd := List.mem_map.mpr ⟨entry, member, rfl⟩
  rcases turns with turns | turns
  · rw [turns] at listed
    exact Sample.turnOf_inTurn _ listed
  · rw [turns] at listed
    exact Sample.turnOf_atOnce _ listed

/-- Both peers are answered before one of them writes: they exchange their contents. -/
theorem exists_exchanged :
    ∃ first trace last, Mutual Sample.ctx first ⟨.one, 0⟩ ⟨.two, 0⟩ trace last ∧
      (last.peer .one).disk.read Sample.path = some [3] ∧
        (last.peer .two).disk.read Sample.path = some [2] := by
  obtain ⟨trace, last, run, turns, checked⟩ := exists_run_of_any (by decide +kernel :
    (runActs (step Sample.ctx) Sample.meeting Sample.atOnce).any (fun last =>
      decide ((last.peer .one).tasks.length = 1) && Sample.atEnd (last.peer .one) &&
        (decide ((last.peer .two).tasks.length = 1) && Sample.atEnd (last.peer .two)) &&
          (decide ((last.peer .one).disk.read Sample.path = some [3]) &&
            decide ((last.peer .two).disk.read Sample.path = some [2]))) = true)
  simp only [Bool.and_eq_true, decide_eq_true_eq] at checked
  obtain ⟨⟨⟨one, oneEnded⟩, two, twoEnded⟩, here, there⟩ := checked
  exact ⟨_, trace, last, mutual_sample run (Or.inr turns) one oneEnded two twoEnded, here, there⟩

/-- The same reconciliations, where the second peer is answered after the first one has
written. -/
theorem converged_of_apart_sample :
    ∃ trace last mine theirs, Mutual Sample.ctx Sample.meeting ⟨.one, 0⟩ ⟨.two, 0⟩ trace last ∧
      (∀ entry ∈ trace, Apart Sample.ctx entry.1 Sample.path entry.2) ∧
        (last.peer .one).disk.read Sample.path = some mine ∧
          (last.peer .two).disk.read Sample.path = some theirs ∧ mine = theirs := by
  obtain ⟨trace, last, run, turns, apart, checked⟩ := exists_checked_run (by decide +kernel :
    (runActs (checked (step Sample.ctx) Sample.keepsApart) Sample.meeting Sample.inTurn).any
      (fun last => decide ((last.peer .one).tasks.length = 1) && Sample.atEnd (last.peer .one) &&
        (decide ((last.peer .two).tasks.length = 1) && Sample.atEnd (last.peer .two)) &&
          (((last.peer .one).disk.read Sample.path).isSome &&
            ((last.peer .two).disk.read Sample.path).isSome)) = true)
  simp only [Bool.and_eq_true, decide_eq_true_eq, Option.isSome_iff_exists] at checked
  obtain ⟨⟨⟨one, oneEnded⟩, two, twoEnded⟩, ⟨mine, here⟩, theirs, there⟩ := checked
  have exchange := mutual_sample run (Or.inl turns) one oneEnded two twoEnded
  have careful : ∀ entry ∈ trace, Apart Sample.ctx entry.1 Sample.path entry.2 :=
    fun entry member => Sample.apart_of_keepsApart (apart entry member)
  exact ⟨trace, last, mine, theirs, exchange, careful, here, there,
    converged_of_apart exchange careful here there⟩

end Swarm

end P2Sync
