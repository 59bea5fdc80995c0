import P2Sync.Core.Rebuild
import P2Sync.Net.Reconcile
import P2Sync.Sync.Transfer

/-!
# A remote tree in an empty folder

A reconciliation fetches the files below the differences, and a write makes the folders
above its file. No other folder is ever made: one that has no file below it stands in the
remote tree, and counts for its hash, but nothing brings it.

So while a peer with an empty folder reconciles, its tree is a part of the remote one, and
all of that part leads to files (`Transports`, `Transports.ran`). In the end it has every file
(`Fetching.leaves`), which makes it the remote tree exactly when every folder there has a
file below it (`mirrored_iff`). Otherwise the hashes differ for good.
-/

set_option autoImplicit false

namespace P2Sync

/-- Every folder of a tree but the root has a file below it. -/
def Node.Filled (tree : Node) : Prop :=
  ∀ names hash children, names ≠ [] →
    Merkle.findNames names tree = some (.directory hash children) →
      ∃ below hash size chunks,
        Merkle.findNames (names ++ below) tree = some (.file hash size chunks)

theorem Node.filled_iff {tree : Node} :
    tree.Filled ↔ ∀ names, names ≠ [] → Merkle.entries tree names = some .branch →
      PathMap.Leads (Merkle.entries tree) names := by
  constructor
  · intro filled names proper branch
    obtain ⟨hash, children, found⟩ := Merkle.entries_eq_branch_iff.mp branch
    obtain ⟨below, hash, size, chunks, file⟩ := filled names hash children proper found
    exact ⟨below, (hash, size, chunks), Merkle.entries_eq_leaf_iff.mpr file⟩
  · intro leads names hash children proper found
    obtain ⟨below, ⟨hash, size, chunks⟩, leaf⟩ :=
      leads names proper (Merkle.entries_eq_branch_iff.mpr ⟨hash, children, found⟩)
    exact ⟨below, hash, size, chunks, Merkle.entries_eq_leaf_iff.mp leaf⟩

section

variable [Blake3]

/-! ## A folder and its tree -/

/-- A folder whose scan is a tree, with nothing excluded. -/
structure Disk.ScansTo (chunkSize : Nat) (disk : Disk) (tree : Node) : Prop where
  folder : ∃ entries, disk = .dir entries
  proper : disk.Proper
  scanned : fromPathConfigured (fun _ => false) chunkSize [] disk = some tree

namespace Disk.ScansTo

variable {chunkSize : Nat} {disk : Disk} {tree whole : Node} {names : List Str} {data : Bytes}

theorem mirrors (scans : disk.ScansTo chunkSize tree) : Merkle.Mirrors chunkSize tree disk :=
  mirrors_of_scan scans.proper scans.scanned

theorem ordered (scans : disk.ScansTo chunkSize tree) : tree.Ordered :=
  Merkle.ordered_fromPathConfigured scans.scanned

theorem consistent (scans : disk.ScansTo chunkSize tree) : tree.Consistent :=
  Merkle.consistent_of_scanned (scanned_fromPathConfigured scans.proper scans.scanned)

theorem root (scans : disk.ScansTo chunkSize tree) : Merkle.entries tree [] = some .branch := by
  obtain ⟨entries, rfl⟩ := scans.folder
  have scanned := scans.scanned
  rw [fromPathConfigured] at scanned
  obtain ⟨children, _, rfl⟩ := Option.map_eq_some_iff.mp scanned
  rfl

/-- A file of the folder is a leaf of the tree. -/
theorem leaf (scans : disk.ScansTo chunkSize tree)
    (here : disk.read (names.map OsStr.utf8) = some data) :
    Merkle.entries tree names = some (Merkle.fileNodeWithChunkSize data chunkSize).entry := by
  have shown := scans.mirrors.shows names
  rw [here] at shown
  rw [Merkle.entries, show Merkle.findNames names tree = _ from shown, Option.map_some]

/-- A leaf of the tree is a file of the folder. -/
theorem read (scans : disk.ScansTo chunkSize tree) {value : Hash × Nat × List ChunkMeta}
    (leaf : Merkle.entries tree names = some (.leaf value)) :
    ∃ data, disk.read (names.map OsStr.utf8) = some data ∧
      Merkle.entries tree names = some (Merkle.fileNodeWithChunkSize data chunkSize).entry := by
  cases here : disk.read (names.map OsStr.utf8) with
  | some data => exact ⟨data, rfl, scans.leaf here⟩
  | none =>
      have shown := scans.mirrors.shows names
      rw [here] at shown
      obtain ⟨hash, size, chunks⟩ := value
      exact absurd (Merkle.entries_eq_leaf_iff.mp leaf) (shown hash size chunks)

/-- **A leaf of the whole can be written** into the folder of a part. -/
theorem writable (scans : disk.ScansTo chunkSize tree)
    (part : PathMap.PartOf (Merkle.entries whole) (Merkle.entries tree))
    {value : Hash × Nat × List ChunkMeta}
    (leaf : Merkle.entries whole names = some (.leaf value)) :
    disk.Writable (names.map OsStr.utf8) := by
  refine ⟨fun above below split proper => ?_, fun entries stands => ?_⟩
  · obtain ⟨front, back, rfl, rfl, rfl⟩ := List.map_eq_append_iff.mp split
    cases here : disk.read (front.map OsStr.utf8) with
    | none => rfl
    | some old =>
        have blocks := (part front _ (scans.leaf here)).1
        have empty := (Merkle.treelike_entries whole).eq_nil_of_leaf blocks leaf
        exact absurd (congrArg (List.map OsStr.utf8) empty) proper
  · obtain ⟨node, found, scanned⟩ :=
      exists_node_of_at? scans.proper scans.scanned (fun _ _ _ => rfl) stands
    rw [fromPathConfigured] at scanned
    obtain ⟨children, _, rfl⟩ := Option.map_eq_some_iff.mp scanned
    have branch := Merkle.entries_eq_branch_iff.mpr ⟨_, _, found⟩
    exact absurd (leaf.symm.trans (part names _ branch).1) (by simp)

/-- **A file of the whole stored in the folder of a part** leaves the folder of a part. -/
theorem store (scans : disk.ScansTo chunkSize tree)
    (part : PathMap.PartOf (Merkle.entries whole) (Merkle.entries tree))
    (named : ∀ text ∈ names, (OsStr.utf8 text).IsName)
    (leaf : Merkle.entries whole names =
      some (Merkle.fileNodeWithChunkSize data chunkSize).entry) :
    (disk.store (names.map OsStr.utf8) data).ScansTo chunkSize
        (Merkle.updateFileWithChunkSize tree (names.map OsStr.utf8) data chunkSize) ∧
      PathMap.PartOf (Merkle.entries whole) (Merkle.entries
        (Merkle.updateFileWithChunkSize tree (names.map OsStr.utf8) data chunkSize)) := by
  have writable := scans.writable part leaf
  obtain ⟨entries, rfl⟩ := scans.folder
  have nonempty : names ≠ [] := by
    rintro rfl
    exact writable.notDir entries (Disk.at?_nil _)
  rw [Merkle.updateFileWithChunkSize, Merkle.insertNode, Merkle.pathNames_map_utf8]
  constructor
  · obtain ⟨after, stored, proper⟩ :=
      @proper_store _ data _ (List.forall_mem_map.mpr named) scans.proper writable
    rw [stored]
    refine ⟨⟨after, rfl⟩, proper, ?_⟩
    rw [← stored]
    exact scan_store nonempty scans.proper scans.scanned (fun _ _ _ => rfl) writable
  · have free : ¬ Merkle.Blocked names tree := by
      rintro ⟨above, below, hash, size, chunks, rfl, proper, file⟩
      have blocks := (part above _ (Merkle.entries_eq_leaf_iff.mpr file)).1
      exact proper ((Merkle.treelike_entries whole).eq_nil_of_leaf blocks leaf)
    have same : Merkle.entries (Merkle.fileNodeWithChunkSize data chunkSize) =
        PathMap.below names (Merkle.entries whole) := by
      obtain ⟨node, found, entry⟩ := Option.map_eq_some_iff.mp leaf
      obtain rfl := Node.entry_eq_leaf_iff.mp entry
      funext rest
      exact (Merkle.entries_of_findNames found rest).symm
    rw [Merkle.entries_insertRecursive nonempty free, same]
    exact part.replace_leaf (Merkle.treelike_entries whole) leaf

end Disk.ScansTo

/-! ## The task -/

section Task

variable {ι : Type}

/-- The tree when what a task has written is in the index. -/
def Stage.settled (chunkSize : Nat) (tree : Node) : Stage ι → Node
  | .written fetch data => Merkle.updateFileWithChunkSize tree fetch.path.rel data chunkSize
  | _ => tree

/-- A peer with a tree to be fetched: the scan of its folder, chunked as the other side does,
with all files within the limits of both. -/
structure Offers (ctx : Ctx ι) (storage : StorageConfig) (remote : Peer ι) : Prop where
  scans : remote.disk.ScansTo storage.chunkSize remote.index.tree
  positive : 0 < storage.chunkSize
  sameSize : storage.chunkSize = ctx.storage.chunkSize
  within : ∀ path data, remote.disk.read path = some data →
    Within storage data storage ∧ Within storage data ctx.storage

/-- What is known of a stage: it deals with a file of the remote peer as that stands there. -/
def Stage.Deals (storage : StorageConfig) (remote : Peer ι) : Stage ι → Prop
  | .gotTree _ tree => tree = remote.index.tree
  | .asked fetch => ∃ data, readAccepted remote.disk fetch.path = some data ∧
      fetch.chunkIndices = advertised storage data
  | .answered fetch chunks => ∃ data, remote.disk.read fetch.path.rel = some data ∧
      chunks = serveChunks storage data (advertised storage data)
  | .loaded fetch data => remote.disk.read fetch.path.rel = some data
  | .written fetch data => remote.disk.read fetch.path.rel = some data
  | .removed _ _ => False
  | _ => True

/-- A task that brings the remote tree: what it has brought is a part of it. -/
structure Transports (ctx : Ctx ι) (storage : StorageConfig) (remote peer : Peer ι)
    (task : Task ι) : Prop where
  todo : ∀ source (path : SafePath) count, .fetchFile source path.raw count ∈ task.todo →
    ∃ data, readAccepted remote.disk path = some data ∧
      List.range count = advertised storage data
  deals : task.stage.Deals storage remote
  scans : peer.disk.ScansTo ctx.storage.chunkSize
    (task.stage.settled ctx.storage.chunkSize peer.index.tree)
  part : PathMap.PartOf (Merkle.entries remote.index.tree)
    (Merkle.entries (task.stage.settled ctx.storage.chunkSize peer.index.tree))

variable {ctx : Ctx ι} {storage : StorageConfig} {remote before after : Peer ι}
  {task task' : Task ι}

/-- A file of the remote tree is one of the remote folder, with as many chunks. -/
theorem Offers.file (offers : Offers ctx storage remote) {names : List Str} {hash : Hash}
    {size : Nat} {chunks : List ChunkMeta}
    (found : Merkle.findNames names remote.index.tree = some (.file hash size chunks)) :
    ∃ data, remote.disk.read (names.map OsStr.utf8) = some data ∧
      List.range chunks.length = advertised storage data := by
  obtain ⟨data, here, leaf⟩ := offers.scans.read (Merkle.entries_eq_leaf_iff.mpr found)
  rw [Merkle.entries, found, Option.map_some, Option.some.injEq] at leaf
  obtain ⟨rfl⟩ := Node.entry_eq_leaf_iff.mp leaf.symm
  refine ⟨data, here, ?_⟩
  rw [advertised, Chunk.metadata_map_index, Chunk.length_metadata, Chunk.length_slices]

/-- What is fetched of the remote tree is listed as the remote file is chunked. -/
theorem Offers.listed (offers : Offers ctx storage remote) {peer source : ι} {noPull : Bool}
    {localTree : Node} {path : SafePath} {count : Nat}
    (member : .fetchFile source path.raw count ∈ walkDiff peer noPull localTree remote.index.tree) :
    ∃ data, readAccepted remote.disk path = some data ∧
      List.range count = advertised storage data := by
  have proper := offers.scans.mirrors.proper
  have fetched : count ∈ fetchesOf path.rel (walkDiff peer noPull localTree remote.index.tree) := by
    refine List.mem_filterMap.mpr ⟨_, member, ?_⟩
    rw [Walk.countOf, if_pos path.accepted]
  rcases @fetchesOf_walkDiff ι peer noPull localTree remote.index.tree proper path.rel with
    ⟨chunkCount, comes, once⟩ | ⟨_, nothing⟩
  · rw [once, List.mem_singleton] at fetched
    obtain ⟨names, hash, size, chunks, named, found, rfl, _⟩ := comes.shown
    obtain ⟨data, here, listed⟩ := offers.file found
    have plain := (joinedNames_of_mem_walkDiff proper member).namesDirectory
    rw [fetched]
    exact ⟨data, readAccepted_eq_some_iff.mpr ⟨plain, named ▸ here⟩, listed⟩
  · rw [nothing] at fetched
    exact absurd fetched List.not_mem_nil

/-- **An answer brings nothing wrong.** -/
theorem Transports.answered (brings : Transports ctx storage remote before task) {asked : ι}
    {request : SyncRequest} (requested : task.stage.request = some (asked, request))
    {stage : Stage ι}
    (reply : Peer.answer task.stage (some (handleInboundRequest storage remote.index remote.disk
      none request)) = some stage) :
    Transports ctx storage remote before { task with stage := stage } := by
  obtain ⟨todo, deals, scans, part⟩ := brings
  cases waiting : task.stage with
  | asked fetch =>
      rw [waiting] at requested reply deals scans part
      cases requested
      obtain ⟨data, here, all⟩ := deals
      rw [handleInboundRequest, SafePath.of?_raw] at reply
      simp only [here] at reply
      cases reply
      exact ⟨todo, ⟨data, (readAccepted_eq_some_iff.mp here).2, by rw [all]⟩, scans, part⟩
  | askedRoot source =>
      rw [waiting] at requested reply scans part
      cases requested
      cases reply
      exact ⟨todo, trivial, scans, part⟩
  | askedTree source =>
      rw [waiting] at requested reply scans part
      cases requested
      cases reply
      exact ⟨todo, rfl, scans, part⟩
  | _ =>
      rw [waiting] at requested
      exact absurd requested (Option.some_ne_none _).symm

/-- What a peer with a part of the tree makes of an answer is the remote file. -/
theorem Offers.transferred (offers : Offers ctx storage remote)
    (scans : before.disk.ScansTo ctx.storage.chunkSize before.index.tree)
    (part : PathMap.PartOf (Merkle.entries remote.index.tree) (Merkle.entries before.index.tree))
    {names : List Str} {data : Bytes} (here : remote.disk.read (names.map OsStr.utf8) = some data) :
    transfer storage ctx.storage data (advertised storage data)
      ((before.disk.read (names.map OsStr.utf8)).getD []) = some data := by
  obtain ⟨bySender, byReceiver⟩ := offers.within _ _ here
  have short : ((before.disk.read (names.map OsStr.utf8)).getD []).length ≤ data.length := by
    cases there : before.disk.read (names.map OsStr.utf8) with
    | none => exact Nat.zero_le _
    | some old =>
        have both := (part names _ (scans.leaf there)).1.symm.trans (offers.scans.leaf here)
        simp only [Merkle.fileNodeWithChunkSize, Node.entry, Option.some.injEq,
          PathMap.Entry.leaf.injEq, Prod.mk.injEq] at both
        exact both.2.1.le
  rw [transfer_of_agrees offers.positive offers.sameSize bySender byReceiver fun index inside =>
      Or.inl ((mem_advertised offers.positive).mpr inside),
    List.drop_eq_nil_of_le short, List.append_nil]

/-- A remote file is stored by a peer with a part of the tree. -/
theorem Offers.stored (offers : Offers ctx storage remote)
    (scans : before.disk.ScansTo ctx.storage.chunkSize before.index.tree)
    (part : PathMap.PartOf (Merkle.entries remote.index.tree) (Merkle.entries before.index.tree))
    {path : SafePath} {data : Bytes} (here : remote.disk.read path.rel = some data) :
    ((before.disk.store path.rel data).ScansTo ctx.storage.chunkSize
        (Merkle.updateFileWithChunkSize before.index.tree path.rel data ctx.storage.chunkSize) ∧
      PathMap.PartOf (Merkle.entries remote.index.tree) (Merkle.entries
        (Merkle.updateFileWithChunkSize before.index.tree path.rel data
          ctx.storage.chunkSize))) ∧
      Outcome.succeeds.write path.rel data (before.makeParents {} path.rel) =
        (true, before.disk.store path.rel data) := by
  obtain ⟨names, named, plain⟩ := exists_names_of_safeRel path.accepted
  rw [named] at here ⊢
  have leaf := offers.scans.leaf here
  rw [offers.sameSize] at leaf
  refine ⟨scans.store part plain leaf, ?_⟩
  obtain ⟨written, success⟩ := Option.isSome_iff_exists.mp
    ((@Disk.write_createDirAll_isSome_iff _ data _).mpr (scans.writable part leaf))
  have parents : before.makeParents {} (names.map OsStr.utf8) =
      (before.disk.createDirAll (names.map OsStr.utf8).dropLast).getD before.disk := rfl
  rw [parents, Disk.store, Outcome.write, success]

/-- **A stretch of the task brings a file as it stands there**, or nothing. -/
theorem Transports.ran (offers : Offers ctx storage remote)
    (brings : Transports ctx storage remote before task)
    (ran : Peer.Ran ctx {} before task after task') :
    Transports ctx storage remote after task' := by
  obtain ⟨todo, deals, scans, part⟩ := brings
  cases ran with
  | counted files rest ended next =>
      rw [next] at todo
      exact ⟨fun source path count member => todo source path count
        (List.mem_cons_of_mem _ member), deals, scans, part⟩
  | started source raw count rest ended next =>
      rw [next] at todo
      rw [ended] at scans part
      have later : ∀ source' (path : SafePath) count', .fetchFile source' path.raw count' ∈ rest →
          ∃ data, readAccepted remote.disk path = some data ∧
            List.range count' = advertised storage data :=
        fun source' path count' member => todo source' path count'
          (List.mem_cons_of_mem _ member)
      rw [Peer.startFetch]
      cases guarded : SafePath.of? raw with
      | none => exact ⟨later, trivial, scans, part⟩
      | some path =>
          obtain rfl := SafePath.of?_eq_some_iff.mp guarded
          dsimp only
          split
          · exact ⟨later, trivial, scans, part⟩
          · exact ⟨later, todo source path count List.mem_cons_self, scans, part⟩
  | forgotten tombstone path unlinked =>
      rw [unlinked] at deals
      exact deals.elim
  | refused fetch chunks answered large =>
      rw [answered] at scans part
      exact ⟨todo, trivial, scans, part⟩
  | loaded fetch chunks data answered applied =>
      rw [answered] at deals scans part
      refine ⟨todo, ?_, scans, part⟩
      obtain ⟨content, here, rfl⟩ := deals
      obtain ⟨names, named⟩ := fetch.path.exists_rel_eq
      rw [Peer.oldData, if_pos rfl, named] at applied
      have transferred := offers.transferred scans part (named ▸ here)
      cases applied.symm.trans transferred
      exact here
  | failed fetch data disk watch ready failure =>
      rw [ready] at deals scans part
      obtain ⟨_, written⟩ := offers.stored scans part deals
      rw [failure] at written
      exact absurd (congrArg Prod.fst written) Bool.false_ne_true
  | wrote fetch data disk watch ready success =>
      rw [ready] at deals scans part
      obtain ⟨⟨scans', part'⟩, written⟩ := offers.stored scans part deals
      rw [success] at written
      obtain rfl := congrArg Prod.snd written
      exact ⟨todo, deals, scans', part'⟩
  | committed fetch data written =>
      rw [written] at scans part
      exact ⟨todo, trivial, scans, part⟩
  | compared source hash asked =>
      rw [asked] at scans part
      split
      · exact ⟨todo, trivial, scans, part⟩
      · exact ⟨todo, trivial, scans, part⟩
  | walked source tree asked =>
      rw [asked] at deals scans part
      obtain rfl : tree = remote.index.tree := deals
      exact ⟨fun source' path count member => offers.listed member, trivial, scans, part⟩

end Task

/-! ## The run -/

namespace Swarm

variable {ι : Type} [DecidableEq ι] {ctx : ι → Ctx ι} {first before after last : Swarm ι}
  {site source : ι} {number : Nat} {trace : List (Swarm ι × Turn ι)}

/-- A reconciliation that brings the tree of a remote peer, which stays as it was. -/
structure Reproducing (ctx : ι → Ctx ι) (first : Swarm ι) (site source : ι) (number : Nat)
    (swarm : Swarm ι) : Prop where
  remote : swarm.peer source = first.peer source
  task : ∃ task, (swarm.peer site).tasks[number]? = some task ∧ Toward source task ∧
    Transports (ctx site) (ctx source).storage (first.peer source) (swarm.peer site) task

/-- A turn of the reconciliation brings nothing wrong. -/
theorem Reproducing.keeps (apart : source ≠ site)
    (offers : Offers (ctx site) (ctx source).storage (first.peer source))
    (held : Reproducing ctx first site source number before) {turn : Turn ι}
    (ours : TurnOf site number turn) (stepped : before.step ctx turn = some after) :
    Reproducing ctx first site source number after := by
  obtain ⟨remote, task, found, toward, brings⟩ := held
  obtain ⟨next, task', others, here, found', advances⟩ := ours.cases stepped found
  refine ⟨(others source apart).trans remote, task', here ▸ found', ?_⟩
  rw [here]
  cases advances with
  | served asked request stage requested reply =>
      obtain rfl := toward.stage asked (Stage.source?_of_request requested)
      rw [answerOf, remote] at reply
      obtain ⟨todo, deals, scans, part⟩ := brings.answered requested reply
      exact ⟨toward.answered reply, todo, deals, scans, part⟩
  | resumed middle task' ran =>
      obtain ⟨todo, deals, scans, part⟩ := brings.ran offers ran
      exact ⟨toward.ran ran, todo, deals, scans, part⟩

/-- A peer with an empty folder and one with a tree to fetch, which only an empty folder has
the hash of an empty folder. -/
structure Fetching (ctx : ι → Ctx ι) (swarm : Swarm ι) (site source : ι) : Prop where
  offers : Offers (ctx site) (ctx source).storage (swarm.peer source)
  empty : (swarm.peer site).disk = .dir []
  blank : (swarm.peer site).index.tree = Merkle.dirNode []
  included : (swarm.peer site).index.excludePatterns = []
  pulls : (ctx site).noPull = false
  tell : (swarm.peer source).index.tree.hash = (Merkle.dirNode []).hash →
    (swarm.peer source).index.tree = Merkle.dirNode []

omit [DecidableEq ι] in
/-- An empty folder is a part of any other. -/
theorem Fetching.part (fetching : Fetching ctx first site source) :
    (first.peer site).disk.ScansTo (ctx site).storage.chunkSize (first.peer site).index.tree ∧
      PathMap.PartOf (Merkle.entries (first.peer source).index.tree)
        (Merkle.entries (first.peer site).index.tree) := by
  rw [fetching.empty, fetching.blank]
  refine ⟨⟨⟨[], rfl⟩, .dir _ .nil (List.forall_mem_nil _) (List.forall_mem_nil _), rfl⟩, ?_⟩
  intro query entry stands
  cases query with
  | nil =>
      obtain rfl := Option.some.inj stands
      exact ⟨fetching.offers.scans.root, Or.inl rfl⟩
  | cons name rest => exact absurd stands (Option.some_ne_none entry).symm

omit [DecidableEq ι] in
/-- No file of the remote tree is hidden from a reconciliation of an empty folder. -/
theorem Fetching.shown (fetching : Fetching ctx first site source) {names : List Str} {hash : Hash}
    {size : Nat} {chunks : List ChunkMeta}
    (found : Merkle.findNames names (first.peer source).index.tree =
      some (.file hash size chunks)) :
    ¬ Merkle.Hidden names (first.peer site).index.tree (first.peer source).index.tree := by
  rw [fetching.blank]
  rintro ⟨above, below, oldNode, newNode, rfl, inOld, inNew, same⟩
  cases above with
  | cons name rest => exact absurd inOld (Option.some_ne_none oldNode).symm
  | nil =>
      obtain rfl := Option.some.inj inOld
      obtain rfl := Option.some.inj inNew
      rw [fetching.tell same.symm] at found
      cases below with
      | nil => exact absurd found (by simp [Merkle.dirNode])
      | cons name rest => exact absurd found (Option.some_ne_none _).symm

/-- **What a reconciliation has brought in the end** is a part of the remote tree. -/
theorem Fetching.brought (fetching : Fetching ctx first site source)
    (reconciles : Reconciles ctx first site source number trace last) :
    last.peer source = first.peer source ∧
      (last.peer site).disk.ScansTo (ctx site).storage.chunkSize (last.peer site).index.tree ∧
        PathMap.PartOf (Merkle.entries (first.peer source).index.tree)
          (Merkle.entries (last.peer site).index.tree) := by
  obtain ⟨scans, part⟩ := fetching.part
  have held := reconciles.run.invariant (Reproducing ctx first site source number)
    (fun _ turn => TurnOf site number turn) reconciles.alone
    ⟨rfl, _, reconciles.asked, ⟨fun _ dealt => (Option.some.inj dealt).symm,
      fun _ _ _ absent => absurd absent List.not_mem_nil⟩,
      fun _ _ _ absent => absurd absent List.not_mem_nil, trivial, scans, part⟩
    fun before turn after held ours stepped =>
      held.keeps reconciles.apart fetching.offers ours stepped
  obtain ⟨remote, task, found, _, brings⟩ := held
  obtain ⟨task', found', idle, done⟩ := reconciles.ended
  cases found.symm.trans found'
  have scans := brings.scans
  have part := brings.part
  rw [idle] at scans part
  exact ⟨remote, scans, part⟩

/-- **All files of the remote tree have been brought.** -/
theorem Fetching.leaves (fetching : Fetching ctx first site source)
    (reconciles : Reconciles ctx first site source number trace last) {names : List Str}
    {value : Hash × Nat × List ChunkMeta}
    (leaf : Merkle.entries (first.peer source).index.tree names = some (.leaf value)) :
    Merkle.entries (last.peer site).index.tree names = some (.leaf value) := by
  obtain ⟨_, scans, _⟩ := fetching.brought reconciles
  obtain ⟨scans₀, part₀⟩ := fetching.part
  obtain ⟨hash, size, chunks⟩ := value
  have found := Merkle.entries_eq_leaf_iff.mp leaf
  obtain ⟨data, here, all⟩ := fetching.offers.file found
  have arrived : (last.peer site).disk.read (names.map OsStr.utf8) = some data := by
    rw [reconciles.disk]
    refine (Setting.read_walk_iff fetching.offers.scans.mirrors.proper _ _ _).mpr (Or.inl ?_)
    obtain ⟨small, spliced⟩ :=
      applyChunks_eq_some_iff.mp (fetching.offers.transferred scans₀ part₀ here)
    rw [← all] at small spliced
    have comes : ComesTo (ctx site).noPull (first.peer site).index.tree
        (first.peer source).index.tree (names.map OsStr.utf8) chunks.length :=
      ⟨fetching.pulls, names, hash, size, chunks, rfl, found, rfl, fetching.shown found⟩
    refine ⟨_, ⟨⟨_, data, comes, here, rfl⟩, ?_, small, scans₀.writable part₀ leaf⟩,
      Overlay.spliceAll_eq_iff.mp spliced⟩
    exact congrArg (shouldExclude _) fetching.included
  rw [scans.leaf arrived, ← fetching.offers.sameSize, ← fetching.offers.scans.leaf here, leaf]

/-- A peer that reconciles again is done when it has the root hash. -/
def AlreadyInSync (ctx : ι → Ctx ι) (swarm : Swarm ι) (site source : ι) : Prop :=
  ∃ last, runActs (step ctx) swarm
      [.own site (.discovered source), .serve site (swarm.peer site).tasks.length none,
        .own site (.resume (swarm.peer site).tasks.length {})] = some last ∧
    (last.peer site).tasks[(swarm.peer site).tasks.length]? = some { stage := .idle }

theorem alreadyInSync_iff (apart : source ≠ site) {swarm : Swarm ι} :
    AlreadyInSync ctx swarm site source ↔
      (swarm.peer site).index.tree.hash = (swarm.peer source).index.tree.hash := by
  have taken : ∃ last, runActs (step ctx) swarm
      [.own site (.discovered source), .serve site (swarm.peer site).tasks.length none,
        .own site (.resume (swarm.peer site).tasks.length {})] = some last ∧
      (last.peer site).tasks[(swarm.peer site).tasks.length]? = some
        { stage := if (swarm.peer site).index.tree.hash = (swarm.peer source).index.tree.hash then
            .idle else .askedTree source } := by
    simp [runActs, step, actOf, Act.isOwn, Peer.step, Peer.spawn, Function.update_of_ne apart,
      Stage.request, answerOf, handleInboundRequest, Peer.answer, Peer.runTask]
  obtain ⟨last, acts, ended⟩ := taken
  constructor
  · rintro ⟨last', acts', idle⟩
    cases acts.symm.trans acts'
    by_contra differ
    rw [ended, if_neg differ] at idle
    cases idle
  · intro same
    rw [if_pos same] at ended
    exact ⟨last, acts, ended⟩

/-- A peer has the tree of another one, and finds so when it reconciles again. -/
structure Mirrored (ctx : ι → Ctx ι) (swarm : Swarm ι) (site source : ι) : Prop where
  tree : (swarm.peer site).index.tree = (swarm.peer source).index.tree
  settled : AlreadyInSync ctx swarm site source

/-- **When an empty folder comes to mirror a remote tree**: exactly when every folder of
that has a file below it. -/
theorem mirrored_iff (fetching : Fetching ctx first site source)
    (reconciles : Reconciles ctx first site source number trace last) :
    Mirrored ctx last site source ↔ (first.peer source).index.tree.Filled := by
  obtain ⟨remote, scans, part⟩ := fetching.brought reconciles
  have same : Merkle.entries (last.peer site).index.tree =
      Merkle.entries (first.peer source).index.tree ↔ (first.peer source).index.tree.Filled := by
    rw [Node.filled_iff]
    exact part.eq_iff (Merkle.treelike_entries _)
      (scans.root.trans fetching.offers.scans.root.symm) fun _ _ leaf =>
        fetching.leaves reconciles leaf
  rw [← same]
  constructor
  · intro mirrored
    rw [mirrored.tree, remote]
  · intro same
    have tree : (last.peer site).index.tree = (last.peer source).index.tree := by
      rw [remote]
      exact Merkle.eq_of_entries_eq scans.ordered fetching.offers.scans.ordered scans.consistent
        fetching.offers.scans.consistent same
    exact ⟨tree, (alreadyInSync_iff reconciles.apart).mpr (congrArg Node.hash tree)⟩

end Swarm

end

/-! ## Two concrete folders -/

namespace Sample

attribute [local instance] Merkle.keepsLength

open Merkle (holding nested nestedTree)

/-- A peer that has just indexed a folder. -/
def keeper (site : Site) (disk : Disk) (tree : Node) : Peer Site where
  index := { index site [] with
    tree := tree
    fileMeta := collectFileMeta tree [] (ctx site).localId 10 ∅ }
  disk := disk
  tasks := []
  now := 10
  watch := ⟨∅, ∅, [], 0⟩

/-- The first peer has an empty folder and starts to reconcile with the second one. -/
def fetching (disk : Disk) (tree : Node) : Swarm Site where
  peer site :=
    if site = .one then (keeper .one (.dir []) (Merkle.dirNode [])).spawn (.askedRoot .two)
    else keeper site disk tree
  log := []
  edited _ _ := false

/-- A reconciliation that finds no file to fetch. -/
def looks : List (Turn Site) :=
  [.serve .one 0 none, .own .one (.resume 0 {}), .serve .one 0 none, .own .one (.resume 0 {}),
    .own .one (.resume 0 {})]

theorem turnOf_looks : ∀ turn ∈ looks, Swarm.TurnOf Site.one 0 turn := by
  simp only [looks, List.forall_mem_cons]
  exact ⟨.served, .resumed, .served, .resumed, .resumed, List.forall_mem_nil _⟩

theorem fetching_fetching {inner : Disk} {tree : Node} (proper : inner.Proper)
    (scanned : fromPathConfigured (fun _ => false) 2 [] (holding inner) = some tree)
    (small : ∀ path data, inner.read path = some data → data = [1, 2, 3])
    (tell : tree.hash ≠ (Merkle.dirNode []).hash) :
    Swarm.Fetching ctx (fetching (holding inner) tree) .one .two where
  offers :=
    { scans := by
        refine ⟨⟨_, rfl⟩, .dir _ (List.pairwise_singleton _ _) ?_ ?_, scanned⟩
        · exact List.forall_mem_singleton.mpr (by decide : (OsStr.utf8 ['a']).IsName)
        · exact List.forall_mem_singleton.mpr proper
      positive := by decide
      sameSize := rfl
      within := by
        intro path data here
        obtain ⟨rest, inside⟩ := Disk.exists_read_of_single here
        have same := small rest data inside
        rw [same]
        exact ⟨⟨by decide, by decide, by decide⟩, ⟨by decide, by decide, by decide⟩⟩ }
  empty := rfl
  blank := rfl
  included := rfl
  pulls := rfl
  tell same := absurd same tell

end Sample

namespace Swarm

attribute [local instance] Merkle.keepsLength

open Merkle (holding nested nestedTree)

/-- The remote folder has an empty directory. It is not made, and the two peers never come to
have one root hash. -/
theorem exists_never_in_sync :
    ∃ first trace last, Fetching Sample.ctx first .one .two ∧
      Reconciles Sample.ctx first .one .two 0 trace last ∧
        ¬ Mirrored Sample.ctx last .one .two := by
  have fetching : Fetching Sample.ctx (Sample.fetching (holding (.dir []))
      (Merkle.dirNode [(['a'], Merkle.dirNode [])])) .one .two := by
    refine Sample.fetching_fetching
      (.dir _ .nil (List.forall_mem_nil _) (List.forall_mem_nil _)) rfl
      (fun path data here => ?_) (by decide +kernel)
    cases path <;> exact absurd here (Option.some_ne_none data).symm
  obtain ⟨trace, last, run, turns, checked⟩ := exists_run_of_any (by decide +kernel :
    (runActs (step Sample.ctx) (Sample.fetching (holding (.dir []))
      (Merkle.dirNode [(['a'], Merkle.dirNode [])])) Sample.looks).any (fun last =>
        decide ((last.peer .one).tasks.length = 1) && Sample.atEnd (last.peer .one) &&
          decide ((last.peer .one).index.tree.hash ≠ (last.peer .two).index.tree.hash)) = true)
  simp only [Bool.and_eq_true, decide_eq_true_eq] at checked
  obtain ⟨⟨one, ended⟩, differ⟩ := checked
  exact ⟨_, trace, last, fetching,
    reconciles_of_turns rfl run (turns ▸ Sample.turnOf_looks) one ended,
    fun mirrored => differ (congrArg Node.hash mirrored.tree)⟩

theorem filled_nestedTree : nestedTree.Filled := by
  intro names hash children proper found
  obtain ⟨first, rest, rfl⟩ := List.exists_cons_of_ne_nil proper
  rw [nestedTree, Merkle.dirNode, Merkle.findNames_cons_directory, SortedMap.lookup_cons] at found
  split at found
  · rename_i here
    subst here
    cases rest with
    | nil => exact ⟨[['b']], _, _, _, rfl⟩
    | cons second later =>
        rw [Option.bind_some, Merkle.dirNode, Merkle.findNames_cons_directory,
          SortedMap.lookup_cons] at found
        split at found
        · cases later <;> cases found
        · exact absurd found (Option.some_ne_none _).symm
  · exact absurd found (Option.some_ne_none _).symm

/-- A file two directories down. -/
theorem mirrored_iff_nested :
    ∃ trace last, Reconciles Sample.ctx (Sample.fetching nested nestedTree) .one .two 0 trace last ∧
      Mirrored Sample.ctx last .one .two := by
  have fetching : Fetching Sample.ctx (Sample.fetching nested nestedTree) .one .two := by
    cases Merkle.proper_nested with
    | dir _ _ _ proper =>
        refine Sample.fetching_fetching (proper _ List.mem_cons_self) Merkle.scan_nested
          (fun path data here => ?_) (by decide +kernel)
        obtain ⟨rest, inside⟩ := Disk.exists_read_of_single here
        cases rest with
        | nil => exact (Option.some.inj inside).symm
        | cons _ _ => exact absurd inside (Option.some_ne_none data).symm
  obtain ⟨trace, last, run, turns, checked⟩ := exists_run_of_any (by decide +kernel :
    (runActs (step Sample.ctx) (Sample.fetching nested nestedTree) (Sample.reconciles .one 0)).any
      (fun last =>
        decide ((last.peer .one).tasks.length = 1) && Sample.atEnd (last.peer .one)) = true)
  simp only [Bool.and_eq_true, decide_eq_true_eq] at checked
  have reconciles := reconciles_of_turns rfl run (turns ▸ Sample.turnOf_reconciles .one 0)
    checked.1 checked.2
  exact ⟨trace, last, reconciles, (mirrored_iff fetching reconciles).mpr filled_nestedTree⟩

end Swarm

end P2Sync
