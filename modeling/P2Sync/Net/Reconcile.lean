import P2Sync.Core.Writable
import P2Sync.Net.Swarm
import P2Sync.Net.Walk

/-!
# A reconciliation by itself

While nothing else happens, a reconciliation is a calculation: it visits the entries of
its walk one after another and stores what the remote peer's files make of the local ones
(`Setting.visit`). `Setting.finish` is the folder a task will leave; no step of the task
changes it (`finish_keeps`), so it is what the run ends with (`reconciled_disk`).

The walk comes to a path once at most, and what it stores elsewhere neither opens nor
obstructs the path. What is read at a path afterwards is therefore decided before
(`read_visits_iff`): the pieces the remote peer serves of it laid over what was there, if
the walk comes to it and a file can be written there, and else what was there.
-/

set_option autoImplicit false

namespace P2Sync

/-- What a reconciliation depends on and leaves alone. -/
structure Setting where
  storage : StorageConfig
  noPull : Bool
  excluded : RelPath → Bool
  remoteStorage : StorageConfig
  remoteTree : Node
  remoteDisk : Disk

namespace Setting

variable {ι : Type} [Blake3] (setting : Setting)

omit [Blake3] in
/-- The folder after an answer was put over the file at a path. -/
def applied (path : RelPath) (chunks : List (Nat × Bytes)) (disk : Disk) : Disk :=
  match applyChunks setting.storage chunks ((disk.read path).getD []) with
  | some data => disk.store path data
  | none => disk

/-- The folder after a fetch. -/
def fetched (path : SafePath) (chunkIndices : List Nat) (disk : Disk) : Disk :=
  match readAccepted setting.remoteDisk path with
  | some data => setting.applied path.rel (serveChunks setting.remoteStorage data chunkIndices) disk
  | none => disk

/-- The folder after one entry of the walk. -/
def visit (disk : Disk) : Walk ι → Disk
  | .fetchFile _ raw chunkCount =>
      match SafePath.of? raw with
      | some path =>
          if setting.excluded path.rel then disk
          else setting.fetched path (List.range chunkCount) disk
      | none => disk
  | .counted _ => disk

/-- The walk of the reconciliation. -/
def walk (source : ι) (tree : Node) : List (Walk ι) :=
  walkDiff source setting.noPull tree setting.remoteTree

/-- The folder that a task leaves at its end, when nothing else happens. -/
def finish (tree : Node) (disk : Disk) (task : Task ι) : Disk :=
  match task.stage with
  | .asked fetch =>
      task.todo.foldl setting.visit (setting.fetched fetch.path fetch.chunkIndices disk)
  | .answered fetch chunks =>
      task.todo.foldl setting.visit (setting.applied fetch.path.rel chunks disk)
  | .loaded fetch data => task.todo.foldl setting.visit (disk.store fetch.path.rel data)
  | .askedRoot source =>
      if tree.hash = setting.remoteTree.hash then task.todo.foldl setting.visit disk
      else (setting.walk source tree).foldl setting.visit disk
  | .gotRoot source hash =>
      if tree.hash = hash then task.todo.foldl setting.visit disk
      else (setting.walk source tree).foldl setting.visit disk
  | .askedTree source => (setting.walk source tree).foldl setting.visit disk
  | .gotTree source remoteTree =>
      (walkDiff source setting.noPull tree remoteTree).foldl setting.visit disk
  | _ => task.todo.foldl setting.visit disk

/-! ## The steps of the task -/

/-- A peer works under the setting. -/
structure Fits (ctx : Ctx ι) (peer : Peer ι) : Prop where
  storage : ctx.storage = setting.storage
  noPull : ctx.noPull = setting.noPull
  excluded : ∀ path, peer.index.isExcluded path = setting.excluded path

variable {setting} {ctx : Ctx ι} {before after : Peer ι} {task task' : Task ι}

/-- **No stretch of a task changes what it will leave.** -/
theorem finish_ran (fits : setting.Fits ctx before)
    (ran : Peer.Ran ctx {} before task after task') :
    setting.finish after.index.tree after.disk task' =
      setting.finish before.index.tree before.disk task := by
  have stored : ∀ (fetch : Fetch ι) (data : Bytes) (disk : Disk) (success : Bool),
      Outcome.succeeds.write fetch.path.rel data (before.makeParents {} fetch.path.rel) =
        (success, disk) → disk = before.disk.store fetch.path.rel data := by
    intro fetch data disk success written
    have parents : before.makeParents {} fetch.path.rel =
        (before.disk.createDirAll fetch.path.rel.dropLast).getD before.disk := rfl
    rw [Disk.store, ← parents, written]
  cases ran with
  | counted files rest ended next =>
      rw [finish, finish, ended, next]
      rfl
  | started source raw chunkCount rest ended next =>
      rw [finish, finish, ended, next]
      dsimp only [List.foldl_cons]
      rw [Peer.startFetch, visit]
      cases SafePath.of? raw with
      | none => rfl
      | some path =>
          dsimp only
          rw [fits.excluded]
          by_cases excluded : setting.excluded path.rel = true
          · rw [if_pos excluded, if_pos excluded]
          · rw [if_neg excluded, if_neg excluded]
  | forgotten tombstone path unlinked => rw [finish, finish, unlinked]
  | refused fetch chunks answered large =>
      rw [finish, finish, answered]
      dsimp only
      rw [applied, ← fits.storage]
      rw [Peer.oldData, if_pos rfl] at large
      rw [large]
  | loaded fetch chunks data answered assembled =>
      rw [finish, finish, answered]
      dsimp only
      rw [applied, ← fits.storage]
      rw [Peer.oldData, if_pos rfl] at assembled
      rw [assembled]
  | failed fetch data disk watch ready failure =>
      rw [finish, finish, ready]
      dsimp only
      rw [stored fetch data disk false failure]
  | wrote fetch data disk watch ready success =>
      rw [finish, finish, ready]
      dsimp only
      rw [stored fetch data disk true success]
  | committed fetch data written => rw [finish, finish, written]
  | compared source hash asked =>
      rw [finish.eq_def _ _ _ task, asked]
      dsimp only
      by_cases same : before.index.tree.hash = hash
      · rw [if_pos same, finish, if_pos same]
      · rw [if_neg same, finish, if_neg same]
  | walked source tree asked =>
      rw [finish, finish, asked]
      dsimp only
      rw [fits.noPull]

/-! ## What is read after the walk -/

omit [Blake3] in
theorem applied_cases (path : RelPath) (chunks : List (Nat × Bytes)) (disk : Disk) :
    setting.applied path chunks disk = disk ∨
      ∃ data, setting.applied path chunks disk = disk.store path data := by
  rw [applied]
  split
  · exact Or.inr ⟨_, rfl⟩
  · exact Or.inl rfl

/-- A visit stores one file at most. -/
theorem visit_cases (disk : Disk) (entry : Walk ι) :
    setting.visit disk entry = disk ∨ ∃ path chunkCount data,
      entry.countOf path = some chunkCount ∧ setting.visit disk entry = disk.store path data := by
  cases entry with
  | counted files => exact Or.inl rfl
  | fetchFile source raw chunkCount =>
      rw [visit]
      cases guarded : SafePath.of? raw with
      | none => exact Or.inl rfl
      | some path =>
          obtain rfl := SafePath.of?_eq_some_iff.mp guarded
          dsimp only
          split
          · exact Or.inl rfl
          · rw [fetched]
            split
            · rename_i data there
              rcases applied_cases path.rel _ disk with same | ⟨content, stored⟩
              · exact Or.inl same
              · exact Or.inr ⟨path.rel, chunkCount, content,
                  by rw [Walk.countOf, path.accepted, if_pos rfl], stored⟩
            · exact Or.inl rfl

/-- Visits of other paths change nothing at a path. -/
theorem read_visits_of_apart {path : RelPath} {walk : List (Walk ι)}
    (apart : ∀ entry ∈ walk, entry.countOf path = none) (disk : Disk) :
    (walk.foldl setting.visit disk).read path = disk.read path := by
  induction walk generalizing disk with
  | nil => rfl
  | cons entry rest ih =>
      rw [List.forall_mem_cons] at apart
      rw [List.foldl_cons, ih apart.2]
      rcases setting.visit_cases disk entry with same | ⟨other, count, data, counted, stored⟩
      · rw [same]
      · rw [stored]
        refine Disk.read_store_of_ne fun here => ?_
        rw [← here, apart.1] at counted
        exact absurd counted (Option.some_ne_none count).symm

/-- Visits of paths that are neither above nor below do not decide whether a file can be
written. -/
theorem writable_visits_iff {path : RelPath} {walk : List (Walk ι)}
    (unrelated : ∀ entry ∈ walk, ∀ other chunkCount, entry.countOf other = some chunkCount →
      ¬ path <+: other ∧ ¬ other <+: path) (disk : Disk) :
    (walk.foldl setting.visit disk).Writable path ↔ disk.Writable path := by
  induction walk generalizing disk with
  | nil => exact Iff.rfl
  | cons entry rest ih =>
      rw [List.forall_mem_cons] at unrelated
      rw [List.foldl_cons, ih unrelated.2]
      rcases setting.visit_cases disk entry with same | ⟨other, count, data, counted, stored⟩
      · rw [same]
      · rw [stored]
        obtain ⟨notAbove, notBelow⟩ := unrelated.1 other count counted
        exact Disk.writable_store_iff notAbove notBelow

/-- The pieces of a file that the walk brings to a path and the device stores there. -/
structure Arrives (setting : Setting) (tree : Node) (disk : Disk) (path : RelPath)
    (pieces : List (Nat × Bytes)) : Prop where
  served : ∃ chunkCount data, ComesTo setting.noPull tree setting.remoteTree path chunkCount ∧
    setting.remoteDisk.read path = some data ∧ pieces = keptPieces setting.storage
      (serveChunks setting.remoteStorage data (List.range chunkCount))
  included : setting.excluded path = false
  small : ∀ piece ∈ pieces, piece.1 + piece.2.length ≤ setting.storage.maxFileSize
  writable : disk.Writable path

/-- What a path holds in the end: the pieces that arrive over what was there, or what was
there when none arrive. -/
def EndsAs (setting : Setting) (tree : Node) (disk : Disk) (path : RelPath) (content : Bytes) :
    Prop :=
  (∃ pieces, setting.Arrives tree disk path pieces ∧
      Overlay.Assembles 0 ((disk.read path).getD []) pieces content) ∨
    (∀ pieces, ¬ setting.Arrives tree disk path pieces) ∧ disk.read path = some content

/-- What a path holds after one visit of it. -/
theorem read_visit_self {path : SafePath} {source : ι} {chunkCount : Nat} {disk : Disk}
    {tree : Node} (joined : JoinedNames path.raw)
    (comes : ComesTo setting.noPull tree setting.remoteTree path.rel chunkCount)
    (once : ∀ other, ComesTo setting.noPull tree setting.remoteTree path.rel other →
      other = chunkCount) (content : Bytes) :
    (setting.visit disk (.fetchFile source path.raw chunkCount)).read path.rel = some content ↔
      setting.EndsAs tree disk path.rel content := by
  have unchanged : (∀ pieces, ¬ setting.Arrives tree disk path.rel pieces) →
      (disk.read path.rel = some content ↔ setting.EndsAs tree disk path.rel content) := by
    refine fun stays => ⟨fun here => Or.inr ⟨stays, here⟩, ?_⟩
    rintro (⟨pieces, arrives, _⟩ | ⟨_, here⟩)
    · exact absurd arrives (stays pieces)
    · exact here
  rw [visit, SafePath.of?_raw]
  dsimp only
  by_cases excluded : setting.excluded path.rel = true
  · rw [if_pos excluded]
    exact unchanged fun pieces arrives => absurd (arrives.included.symm.trans excluded)
      Bool.false_ne_true
  · rw [if_neg excluded, fetched]
    cases accepted : readAccepted setting.remoteDisk path with
    | none =>
        refine unchanged fun pieces arrives => ?_
        obtain ⟨_, data, _, present, _⟩ := arrives.served
        rw [readAccepted_eq_some_iff.mpr ⟨joined.namesDirectory, present⟩] at accepted
        exact absurd accepted (Option.some_ne_none data)
    | some data =>
        have there := (readAccepted_eq_some_iff.mp accepted).2
        have pieces_eq : ∀ pieces, setting.Arrives tree disk path.rel pieces → pieces =
            keptPieces setting.storage
              (serveChunks setting.remoteStorage data (List.range chunkCount)) := by
          intro pieces arrives
          obtain ⟨count, data', comes', present, rfl⟩ := arrives.served
          rw [once count comes']
          cases there.symm.trans present
          rfl
        dsimp only
        rw [applied]
        cases assembled : applyChunks setting.storage
            (serveChunks setting.remoteStorage data (List.range chunkCount))
            ((disk.read path.rel).getD []) with
        | none =>
            refine unchanged fun pieces arrives => ?_
            have small := arrives.small
            rw [pieces_eq pieces arrives] at small
            rw [applyChunks_eq_some_iff.mpr ⟨small, rfl⟩] at assembled
            exact absurd assembled (Option.some_ne_none _)
        | some result =>
            dsimp only
            obtain ⟨small, spliced⟩ := applyChunks_eq_some_iff.mp assembled
            by_cases writable : disk.Writable path.rel
            · rw [Disk.read_store_self writable, Option.some.injEq]
              have arrives : setting.Arrives tree disk path.rel _ :=
                ⟨⟨chunkCount, data, comes, there, rfl⟩, Bool.eq_false_iff.mpr excluded, small,
                  writable⟩
              constructor
              · rintro rfl
                exact Or.inl ⟨_, arrives, Overlay.spliceAll_eq_iff.mp spliced⟩
              · rintro (⟨pieces, arrives', assembles⟩ | ⟨stays, _⟩)
                · rw [← Overlay.spliceAll_eq_iff, pieces_eq pieces arrives'] at assembles
                  exact spliced.symm.trans assembles
                · exact absurd arrives (stays _)
            · rw [Disk.read_store_of_not_writable writable]
              exact unchanged fun pieces arrives => absurd arrives.writable writable

/-- **What a path holds after the walk**, in terms of what there was before. -/
theorem read_walk_iff {source : ι} {tree : Node} (proper : setting.remoteTree.Proper)
    (disk : Disk) (path : RelPath) (content : Bytes) :
    ((setting.walk source tree).foldl setting.visit disk).read path = some content ↔
      setting.EndsAs tree disk path content := by
  rcases @fetchesOf_walkDiff ι source setting.noPull tree setting.remoteTree proper path with
    ⟨chunkCount, comes, once⟩ | ⟨never, nothing⟩
  · obtain ⟨early, entry, late, split, before, here, after⟩ := List.filterMap_eq_cons_iff.mp once
    have after : ∀ entry ∈ late, entry.countOf path = none := by
      intro entry member
      exact List.filterMap_eq_nil_iff.mp after entry member
    have unrelated : ∀ entry ∈ early, ∀ other count, entry.countOf other = some count →
        ¬ path <+: other ∧ ¬ other <+: path := by
      intro entry member other count counted
      have apart : path ≠ other := by
        rintro rfl
        rw [before entry member] at counted
        exact absurd counted (Option.some_ne_none count).symm
      have visited : count ∈ fetchesOf other (setting.walk source tree) := by
        rw [walk, split]
        exact List.mem_filterMap.mpr ⟨entry, List.mem_append_left _ member, counted⟩
      have comes' : ComesTo setting.noPull tree setting.remoteTree other count := by
        rcases @fetchesOf_walkDiff ι source setting.noPull tree setting.remoteTree proper other with
          ⟨count', comes', once'⟩ | ⟨_, nothing⟩
        · rw [walk, once', List.mem_singleton] at visited
          exact visited ▸ comes'
        · rw [walk, nothing] at visited
          exact absurd visited List.not_mem_nil
      exact ⟨fun reaches => apart (comes.eq_of_prefix comes' reaches).1,
        fun reaches => apart (comes'.eq_of_prefix comes reaches).1.symm⟩
    have kept : (early.foldl setting.visit disk).read path = disk.read path :=
      read_visits_of_apart before disk
    have moved : setting.EndsAs tree (early.foldl setting.visit disk) path content ↔
        setting.EndsAs tree disk path content := by
      have same : ∀ pieces, setting.Arrives tree (early.foldl setting.visit disk) path pieces ↔
          setting.Arrives tree disk path pieces := by
        intro pieces
        have writable := @writable_visits_iff _ _ setting path early unrelated disk
        exact ⟨fun arrives => { arrives with writable := writable.mp arrives.writable },
          fun arrives => { arrives with writable := writable.mpr arrives.writable }⟩
      simp only [EndsAs, same, kept]
    have shape : ∃ asked safe, entry = .fetchFile asked (SafePath.raw safe) chunkCount ∧
        safe.rel = path := by
      cases entry with
      | counted files => exact absurd here (Option.some_ne_none chunkCount).symm
      | fetchFile asked raw count =>
          rw [Walk.countOf, Option.ite_none_right_eq_some, Option.some.injEq] at here
          obtain ⟨accepted, rfl⟩ := here
          exact ⟨asked, ⟨raw, path, accepted⟩, rfl, rfl⟩
    obtain ⟨asked, safe, rfl, rfl⟩ := shape
    have joined : JoinedNames safe.raw := by
      have member : .fetchFile asked safe.raw chunkCount ∈ setting.walk source tree := by
        rw [walk, split]
        exact List.mem_append_right _ List.mem_cons_self
      exact joinedNames_of_mem_walkDiff proper member
    rw [walk, split, List.foldl_append, List.foldl_cons, read_visits_of_apart after,
      read_visit_self joined comes (fun other comes' =>
        (comes'.eq_of_prefix comes List.prefix_rfl).2), moved]
  · have apart : ∀ entry ∈ setting.walk source tree, entry.countOf path = none :=
      fun entry member => List.filterMap_eq_nil_iff.mp nothing entry member
    rw [read_visits_of_apart apart]
    refine ⟨fun here => Or.inr ⟨fun pieces arrives => ?_, here⟩, ?_⟩
    · obtain ⟨count, _, comes, _⟩ := arrives.served
      exact never count comes
    · rintro (⟨pieces, arrives, _⟩ | ⟨_, here⟩)
      · obtain ⟨count, _, comes, _⟩ := arrives.served
        exact absurd comes (never count)
      · exact here

/-- A file that is there stays as it is when the pieces that arrive hold nothing else. -/
theorem endsAs_iff_of_read {tree : Node} {disk : Disk} {path : RelPath} {content : Bytes}
    (here : disk.read path = some content) :
    setting.EndsAs tree disk path content ↔
      ∀ pieces, setting.Arrives tree disk path pieces →
        Overlay.Assembles 0 content pieces content := by
  have once : ∀ {pieces pieces'}, setting.Arrives tree disk path pieces →
      setting.Arrives tree disk path pieces' → pieces = pieces' := by
    intro pieces pieces' arrives arrives'
    obtain ⟨count, data, comes, there, rfl⟩ := arrives.served
    obtain ⟨count', data', comes', there', rfl⟩ := arrives'.served
    cases there.symm.trans there'
    rw [(comes.eq_of_prefix comes' List.prefix_rfl).2]
  rw [EndsAs, here, Option.getD_some]
  constructor
  · rintro (⟨pieces, arrives, assembles⟩ | ⟨stays, _⟩) pieces' arrives'
    · exact once arrives arrives' ▸ assembles
    · exact absurd arrives' (stays pieces')
  · intro spared
    by_cases arrives : ∃ pieces, setting.Arrives tree disk path pieces
    · obtain ⟨pieces, arrives⟩ := arrives
      exact Or.inl ⟨pieces, arrives, spared pieces arrives⟩
    · exact Or.inr ⟨fun pieces arrives' => arrives ⟨pieces, arrives'⟩, rfl⟩

end Setting

/-! ## The run -/

/-- The peer that a task in a stage deals with. -/
def Stage.source? {ι : Type} : Stage ι → Option ι
  | .asked fetch => some fetch.source
  | .answered fetch _ => some fetch.source
  | .loaded fetch _ => some fetch.source
  | .written fetch _ => some fetch.source
  | .askedRoot peer => some peer
  | .gotRoot peer _ => some peer
  | .askedTree peer => some peer
  | .gotTree peer _ => some peer
  | _ => none

/-- Whatever a task asks for it asks one peer for. -/
structure Toward {ι : Type} (source : ι) (task : Task ι) : Prop where
  stage : ∀ asked, task.stage.source? = some asked → asked = source
  todo : ∀ asked raw chunkCount, .fetchFile asked raw chunkCount ∈ task.todo → asked = source

section Runs

variable {ι : Type} {source : ι} {task task' : Task ι}

theorem Stage.source?_of_request {stage : Stage ι} {asked : ι} {request : SyncRequest}
    (requested : stage.request = some (asked, request)) : stage.source? = some asked := by
  cases stage <;> cases requested <;> rfl

theorem Toward.answered {response : Option SyncResponse} {stage : Stage ι}
    (toward : Toward source task) (reply : Peer.answer task.stage response = some stage) :
    Toward source { task with stage := stage } := by
  refine ⟨fun asked dealt => toward.stage asked ?_, toward.todo⟩
  have replied := Peer.reply_cases reply
  generalize task.stage = waiting at replied
  cases replied with
  | chunks | root | tree => exact dealt
  | _ => exact absurd dealt (Option.some_ne_none asked).symm

theorem Toward.ran [Blake3] {ctx : Ctx ι} {device : Device} {before after : Peer ι}
    (toward : Toward source task) (ran : Peer.Ran ctx device before task after task') :
    Toward source task' := by
  cases ran with
  | counted files rest ended next =>
      refine ⟨toward.stage, fun asked raw count member => toward.todo asked raw count ?_⟩
      rw [next]
      exact List.mem_cons_of_mem _ member
  | started asked raw chunkCount rest ended next =>
      refine ⟨fun other dealt => ?_, fun other raw' count member => toward.todo other raw' count ?_⟩
      · have here := toward.todo asked raw chunkCount (next ▸ List.mem_cons_self)
        revert dealt
        dsimp only
        rw [Peer.startFetch]
        split
        · exact fun dealt => absurd dealt (Option.some_ne_none other).symm
        · split
          · exact fun dealt => absurd dealt (Option.some_ne_none other).symm
          · exact fun dealt => (Option.some.inj dealt).symm.trans here
      · rw [next]
        exact List.mem_cons_of_mem _ member
  | loaded fetch chunks data answered =>
      exact ⟨fun asked dealt => toward.stage asked (answered ▸ dealt), toward.todo⟩
  | wrote fetch data disk watch ready =>
      exact ⟨fun asked dealt => toward.stage asked (ready ▸ dealt), toward.todo⟩
  | compared asked hash waiting =>
      refine ⟨fun other dealt => toward.stage other ?_, toward.todo⟩
      rw [waiting]
      dsimp only at dealt
      split at dealt
      · exact absurd dealt (Option.some_ne_none other).symm
      · exact dealt
  | walked asked tree waiting =>
      have here := toward.stage asked (by rw [waiting]; rfl)
      refine ⟨fun other dealt => absurd dealt (Option.some_ne_none other).symm, ?_⟩
      exact fun other raw count member => (source_of_mem_walkDiff member).trans here
  | _ => exact ⟨fun other dealt => absurd dealt (Option.some_ne_none other).symm, toward.todo⟩

end Runs

namespace Swarm

variable {ι : Type} [DecidableEq ι] [Blake3] (ctx : ι → Ctx ι)

/-- A turn of one task of a peer, in which nothing fails. -/
inductive TurnOf (site : ι) (number : Nat) : Turn ι → Prop where
  | served : TurnOf site number (.serve site number none)
  | resumed : TurnOf site number (.own site (.resume number {}))

/-- What a reconciliation of two peers depends on. -/
def settingOf (swarm : Swarm ι) (site source : ι) : Setting where
  storage := (ctx site).storage
  noPull := (ctx site).noPull
  excluded := (swarm.peer site).index.isExcluded
  remoteStorage := (ctx source).storage
  remoteTree := (swarm.peer source).index.tree
  remoteDisk := (swarm.peer source).disk

/-- A reconciliation that has run since a swarm: it will leave what it would have left then. -/
structure Reconciling (first : Swarm ι) (site source : ι) (number : Nat) (task : Task ι)
    (swarm : Swarm ι) : Prop where
  remote : swarm.peer source = first.peer source
  excluded : (swarm.peer site).index.excludePatterns = (first.peer site).index.excludePatterns
  finish : ∃ task', (swarm.peer site).tasks[number]? = some task' ∧ Toward source task' ∧
    (settingOf ctx first site source).finish (swarm.peer site).index.tree (swarm.peer site).disk
        task' =
      (settingOf ctx first site source).finish (first.peer site).index.tree (first.peer site).disk
        task

variable {ctx} {first before after : Swarm ι} {site source : ι} {number : Nat} {task : Task ι}

omit [DecidableEq ι] in
/-- **No answer of the remote peer changes what the task will leave.** -/
theorem finish_answered {setting : Setting} {tree : Node} {disk : Disk} {remote : Peer ι}
    {stage : Stage ι} {asked : ι} {request : SyncRequest}
    (remoteTree : setting.remoteTree = remote.index.tree)
    (remoteDisk : setting.remoteDisk = remote.disk)
    (requested : task.stage.request = some (asked, request))
    (reply : Peer.answer task.stage (some (handleInboundRequest setting.remoteStorage remote.index
      remote.disk none request)) = some stage) :
    setting.finish tree disk { task with stage := stage } = setting.finish tree disk task := by
  cases waiting : task.stage with
  | asked fetch =>
      rw [waiting] at requested reply
      cases requested
      rw [handleInboundRequest, SafePath.of?_raw] at reply
      rw [Setting.finish.eq_def _ _ _ task, waiting]
      dsimp only
      rw [Setting.fetched, remoteDisk]
      cases found : readAccepted remote.disk fetch.path with
      | none =>
          simp only [found] at reply
          cases reply
          rfl
      | some data =>
          simp only [found] at reply
          cases reply
          rfl
  | askedRoot asked' =>
      rw [waiting] at requested reply
      cases requested
      cases reply
      rw [Setting.finish.eq_def _ _ _ task, waiting]
      dsimp only
      rw [remoteTree]
      rfl
  | askedTree asked' =>
      rw [waiting] at requested reply
      cases requested
      cases reply
      rw [Setting.finish.eq_def _ _ _ task, waiting]
      dsimp only
      rw [Setting.walk, remoteTree]
      rfl
  | _ =>
      rw [waiting] at requested
      exact absurd requested (Option.some_ne_none _).symm

/-- What a turn of a task does to the peer and to the task. -/
inductive Advances (ctx : ι → Ctx ι) (before : Swarm ι) (site : ι) (number : Nat) (task : Task ι) :
    Turn ι → Peer ι → Task ι → Prop where
  | served (asked : ι) (request : SyncRequest) (stage : Stage ι)
      (requested : task.stage.request = some (asked, request))
      (reply : Peer.answer task.stage (some (before.answerOf ctx asked none request)) =
        some stage) :
      Advances ctx before site number task (.serve site number none)
        { before.peer site with
          tasks := (before.peer site).tasks.set number { task with stage := stage } }
        { task with stage := stage }
  | resumed (middle : Peer ι) (task' : Task ι)
      (ran : Peer.Ran (ctx site) {} (before.peer site) task middle task') :
      Advances ctx before site number task (.own site (.resume number {}))
        { middle with tasks := middle.tasks.set number task' } task'

/-- **The cases of a turn of a task**: the others stay as they are. -/
theorem TurnOf.cases {turn : Turn ι} (ours : TurnOf site number turn)
    (stepped : before.step ctx turn = some after)
    (found : (before.peer site).tasks[number]? = some task) :
    ∃ next task', (∀ other, other ≠ site → after.peer other = before.peer other) ∧
      after.peer site = next ∧ next.tasks[number]? = some task' ∧
        Advances ctx before site number task turn next task' := by
  obtain ⟨site', act, next, published, does, happened, rfl⟩ := step_cases stepped
  have inside : number < (before.peer site).tasks.length := (List.getElem?_eq_some_iff.mp found).1
  cases ours with
  | served =>
      cases does with
      | served _ _ failure entry asked request found' requested =>
          cases found.symm.trans found'
          cases happened with
          | quiet _ watch idle => cases idle
          | answered _ response entry stage found'' reply =>
              cases found.symm.trans found''
              exact ⟨_, _, fun other apart => Function.update_of_ne apart _ _,
                Function.update_self _ _ _, List.getElem?_set_self inside,
                .served asked request stage requested reply⟩
  | resumed =>
      cases does with
      | own =>
          cases happened with
          | quiet _ watch idle => cases idle
          | resumed _ device entry middle entry' found' taken =>
              cases found.symm.trans found'
              have ran := Peer.run_cases taken
              refine ⟨_, _, fun other apart => Function.update_of_ne apart _ _,
                Function.update_self _ _ _, ?_, .resumed middle entry' ran⟩
              dsimp only
              rw [ran.tasks, List.getElem?_set_self inside]

/-- A turn of the reconciliation leaves it what it will leave. -/
theorem Reconciling.keeps (apart : source ≠ site)
    (held : Reconciling ctx first site source number task before) {turn : Turn ι}
    (ours : TurnOf site number turn) (stepped : before.step ctx turn = some after) :
    Reconciling ctx first site source number task after := by
  obtain ⟨remote, excluded, task', found, toward, finish⟩ := held
  obtain ⟨next, task'', others, here, found', advances⟩ := ours.cases stepped found
  have remote' : after.peer source = first.peer source := (others source apart).trans remote
  rw [← here] at found'
  cases advances with
  | served asked request stage requested reply =>
      obtain rfl := toward.stage asked (Stage.source?_of_request requested)
      refine ⟨remote', by rw [here, excluded], _, found', toward.answered reply, ?_⟩
      rw [here, ← finish]
      refine finish_answered rfl rfl requested ?_
      rw [settingOf, ← remote]
      exact reply
  | resumed middle task'' ran =>
      have fits : (settingOf ctx first site source).Fits (ctx site) (before.peer site) :=
        ⟨rfl, rfl, fun path => by rw [SyncIndex.isExcluded, excluded]; rfl⟩
      refine ⟨remote', ?_, _, found', toward.ran ran, ?_⟩
      · rw [here, ran.fixed.excludePatterns, excluded]
      · rw [here, ← finish, ← Setting.finish_ran fits ran]

/-- A run of one reconciliation by itself, from its start to its end. -/
structure Reconciles (ctx : ι → Ctx ι) (first : Swarm ι) (site source : ι) (number : Nat)
    (trace : List (Swarm ι × Turn ι)) (last : Swarm ι) : Prop where
  apart : source ≠ site
  asked : (first.peer site).tasks[number]? = some { stage := .askedRoot source }
  run : Run (step ctx) first trace last
  alone : ∀ entry ∈ trace, TurnOf site number entry.2
  ended : ∃ task, (last.peer site).tasks[number]? = some task ∧ task.stage = .idle ∧ task.todo = []

/-- **What a reconciliation leaves**: the folder after the visits of its walk. -/
theorem Reconciles.disk {trace : List (Swarm ι × Turn ι)} {last : Swarm ι}
    (reconciles : Reconciles ctx first site source number trace last) :
    (last.peer site).disk =
      ((settingOf ctx first site source).walk source (first.peer site).index.tree).foldl
        (settingOf ctx first site source).visit (first.peer site).disk := by
  have held := reconciles.run.invariant
    (Reconciling ctx first site source number { stage := .askedRoot source })
    (fun _ turn => TurnOf site number turn) reconciles.alone
    ⟨rfl, rfl, _, reconciles.asked, ⟨fun _ dealt => (Option.some.inj dealt).symm,
      fun _ _ _ absent => absurd absent List.not_mem_nil⟩, rfl⟩
    fun before turn after held ours stepped => held.keeps reconciles.apart ours stepped
  obtain ⟨task, found, idle, done⟩ := reconciles.ended
  obtain ⟨_, _, task', found', _, finish⟩ := held
  cases found.symm.trans found'
  rw [Setting.finish.eq_def _ _ _ task, idle, done] at finish
  refine finish.trans ?_
  rw [Setting.finish]
  dsimp only
  by_cases same : (first.peer site).index.tree.hash =
      (settingOf ctx first site source).remoteTree.hash
  · rw [if_pos same, Setting.walk, walkDiff_of_hash same]
  · rw [if_neg same]

end Swarm

/-! ## Concrete reconciliations -/

namespace Sample

/-- A task reconciles a folder with one file that differs. -/
def reconciles (site : Site) (task : Nat) : List (Turn Site) :=
  [.serve site task none, .own site (.resume task {}), .serve site task none,
    .own site (.resume task {}), .own site (.resume task {})] ++ fetches site task ++
      [.own site (.resume task {})]

theorem turnOf_reconciles (site : Site) (task : Nat) :
    ∀ turn ∈ reconciles site task, Swarm.TurnOf site task turn := by
  simp only [reconciles, fetches, List.forall_mem_append, List.forall_mem_cons]
  exact ⟨⟨⟨.served, .resumed, .served, .resumed, .resumed, List.forall_mem_nil _⟩,
    .served, .resumed, .resumed, .resumed, List.forall_mem_nil _⟩, .resumed, List.forall_mem_nil _⟩

end Sample

namespace Swarm

/-- Turns of the first task of the first peer that leave it nothing to do. -/
theorem reconciles_of_turns [Blake3] {first last : Swarm Sample.Site}
    {trace : List (Swarm Sample.Site × Turn Sample.Site)}
    (asked : (first.peer .one).tasks[0]? = some { stage := .askedRoot .two })
    (run : Run (step Sample.ctx) first trace last)
    (ours : ∀ turn ∈ trace.map Prod.snd, TurnOf Sample.Site.one 0 turn)
    (one : (last.peer .one).tasks.length = 1) (ended : Sample.atEnd (last.peer .one) = true) :
    Reconciles Sample.ctx first .one .two 0 trace last := by
  refine ⟨by decide, asked, run, fun entry member => ours _ (List.mem_map_of_mem member), ?_⟩
  obtain ⟨task, alone⟩ := List.length_eq_one_iff.mp one
  refine ⟨task, by rw [alone]; rfl, Sample.of_atEnd ended ?_⟩
  rw [alone]
  exact List.mem_singleton_self task

end Swarm

end P2Sync
