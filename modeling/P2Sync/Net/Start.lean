import P2Sync.Net.Step
import Mathlib.Data.Fintype.Basic

/-!
# Peers from their start

A peer starts by scanning its folder; no task is running and no file event is waiting.
What a step never changes (the settings of the index) is the same in every state it
reaches (`Step.fixed`, `Reachable.localPeer`).

The last section has the parameters of the concrete runs of later modules.
-/

set_option autoImplicit false

namespace P2Sync

namespace Peer

variable {ι : Type} [Blake3] {ctx : Ctx ι}

/-- The start of `run`: index the folder, then listen. -/
def start (ctx : Ctx ι) (disk : Disk) (excludePatterns : List Str) (now : Nat) :
    Option (Peer ι) :=
  (SyncIndex.build disk ctx.localId excludePatterns ctx.storage now).map fun index =>
    { index := index, disk := disk, tasks := [], now := now, watch := ⟨∅, ∅, [], 0⟩ }

/-- A step without what it publishes. -/
def next (ctx : Ctx ι) (peer : Peer ι) (act : Act ι) : Option (Peer ι) :=
  (peer.step ctx act).map Prod.fst

theorem next_cases {before after : Peer ι} {act : Act ι}
    (stepped : before.next ctx act = some after) :
    ∃ published, Step ctx before act after published := by
  obtain ⟨⟨after', published⟩, taken, rfl⟩ := Option.map_eq_some_iff.mp stepped
  exact ⟨published, step_cases taken⟩

theorem next_resume {before : Peer ι} {number : Nat} {device : Device} {task : Task ι}
    (found : before.tasks[number]? = some task) :
    before.next ctx (.resume number device) =
      (before.runTask ctx device task).map fun ran =>
        { ran.1 with tasks := ran.1.tasks.set number ran.2 } := by
  rw [next, step, found, Option.bind_some, Option.map_map]
  rfl

theorem next_respond {before : Peer ι} {number : Nat} {response : Option SyncResponse}
    {task : Task ι} (found : before.tasks[number]? = some task) :
    before.next ctx (.respond number response) =
      (answer task.stage response).map fun stage =>
        { before with tasks := before.tasks.set number { task with stage := stage } } := by
  rw [next, step, found, Option.bind_some, Option.map_map]
  rfl

section Stretches

variable {before after : Peer ι} {number : Nat} {device : Device} {task : Task ι} {fetch : Fetch ι}
  {data : Bytes}

/-- A task that has ended is not resumed. -/
theorem next_ended (stepped : before.next ctx (.resume number device) = some after)
    (found : before.tasks[number]? = some task) (ended : task.stage = .idle)
    (alone : task.todo = []) : False := by
  rw [next_resume found, runTask, ended, alone] at stepped
  exact absurd stepped (Option.some_ne_none after).symm

/-- The stretch from the answer to the new content. -/
theorem next_answered {chunks : List (Nat × Bytes)}
    (stepped : before.next ctx (.resume number device) = some after)
    (found : before.tasks[number]? = some task) (answered : task.stage = .answered fetch chunks) :
    after = { before with
      tasks := before.tasks.set number { task with
        stage := (applyChunks ctx.storage chunks (before.oldData device fetch.path.rel)).elim .idle
          (Stage.loaded fetch) } } := by
  rw [next_resume found, runTask, answered] at stepped
  dsimp only at stepped
  cases assembled : applyChunks ctx.storage chunks (before.oldData device fetch.path.rel) <;>
    rw [assembled] at stepped <;> exact (Option.some.inj stepped).symm

/-- The stretch that writes the file. -/
theorem next_loaded (stepped : before.next ctx (.resume number device) = some after)
    (found : before.tasks[number]? = some task) (ready : task.stage = .loaded fetch data) :
    after = { before.markWrite fetch.path.rel with
      disk := (device.writes.write fetch.path.rel data
        (before.makeParents device fetch.path.rel)).2
      tasks := before.tasks.set number { task with
        stage := if (device.writes.write fetch.path.rel data
            (before.makeParents device fetch.path.rel)).1 then .written fetch data
          else .idle } } := by
  rw [next_resume found, runTask, ready] at stepped
  exact (Option.some.inj stepped).symm

/-- The stretch that brings the index up to date. -/
theorem next_written (stepped : before.next ctx (.resume number device) = some after)
    (found : before.tasks[number]? = some task) (stored : task.stage = .written fetch data) :
    after = { before with
      index := before.index.fetched fetch.path.rel data ctx.storage.chunkSize fetch.origin
      tasks := before.tasks.set number { task with stage := .idle } } := by
  rw [next_resume found, runTask, stored] at stepped
  exact (Option.some.inj stepped).symm

end Stretches

/-- The states a peer can be in. -/
def Reachable (ctx : Ctx ι) (peer : Peer ι) : Prop :=
  ∃ disk excludePatterns now first trace,
    start ctx disk excludePatterns now = some first ∧ Run (next ctx) first trace peer

/-- What was true of the index of a starting peer. -/
theorem start_index {disk : Disk} {excludePatterns : List Str} {now : Nat} {peer : Peer ι}
    (started : start ctx disk excludePatterns now = some peer) :
    peer.index.localPeer = ctx.localId ∧ peer.tasks = [] ∧ peer.disk = disk ∧
      ∀ path, peer.index.clockOf path = .new := by
  obtain ⟨index, built, rfl⟩ := Option.map_eq_some_iff.mp started
  refine ⟨?_, rfl, rfl, SyncIndex.build_clock built⟩
  obtain ⟨tree, _, rfl⟩ := Option.map_eq_some_iff.mp built
  rfl

omit [Blake3] in
@[simp] theorem backUp_index (peer : Peer ι) (device : Device) (path : SafePath) (loser : PeerId) :
    (peer.backUp device path loser).index = peer.index := by
  rw [backUp]
  split <;> rfl

omit [Blake3] in
@[simp] theorem backUp_tasks (peer : Peer ι) (device : Device) (path : SafePath) (loser : PeerId) :
    (peer.backUp device path loser).tasks = peer.tasks := by
  rw [backUp]
  split <;> rfl

omit [Blake3] in
@[simp] theorem backUp_now (peer : Peer ι) (device : Device) (path : SafePath) (loser : PeerId) :
    (peer.backUp device path loser).now = peer.now := by
  rw [backUp]
  split <;> rfl

omit [Blake3] in
/-- A new task stands after the old ones. -/
theorem spawn_getElem? {peer middle : Peer ι} {stage : Stage ι} (same : middle.tasks = peer.tasks) :
    (middle.spawn stage).tasks[peer.tasks.length]? = some { stage := stage } := by
  rw [spawn, same, List.getElem?_concat_length]

omit [Blake3] in
/-- What the handler does with a concurrent version. -/
theorem handleNotification_conflict {peer : Peer ι} {device : Device} {source : ι}
    {path : SafePath} {hash : Hash} {metas : List ChunkMeta} {clock : VectorClock}
    {timestamp : Nat} {writer : PeerId} (foreign : writer ≠ ctx.localId)
    (concurrent : (peer.index.clockOf path.rel).compare clock = .concurrent) :
    peer.handleNotification ctx device source
        (.fileChanged path.raw hash metas clock timestamp writer) =
      if remoteWins (peer.index.lastModifiedOf path.rel) timestamp writer ctx.localId then
        (peer.backUp device path ctx.localId).spawn
          (peer.startFetch source path.raw (metas.map ChunkMeta.index) ⟨clock, timestamp, writer⟩
            (.lost hash))
      else
        peer.spawn (peer.startFetch source (path.backup writer).raw (metas.map ChunkMeta.index)
          ⟨clock, timestamp, writer⟩ (.kept hash)) := by
  rw [handleNotification, if_neg foreign, SafePath.of?_raw]
  dsimp only
  rw [resolve_conflict_iff.mpr ⟨concurrent, rfl⟩]
  dsimp only
  by_cases wins : remoteWins (peer.index.lastModifiedOf path.rel) timestamp writer ctx.localId
  · rw [if_pos wins, if_pos wins, if_pos rfl]
  · rw [if_neg wins, if_neg wins, if_neg foreign, path.backup_raw]

/-- What an index is built with and keeps. -/
structure Fixed (before after : SyncIndex) : Prop where
  localPeer : after.localPeer = before.localPeer
  excludePatterns : after.excludePatterns = before.excludePatterns
  tombstoneTtlSecs : after.tombstoneTtlSecs = before.tombstoneTtlSecs

/-- No stretch of a task changes the settings of the index. -/
theorem Ran.fixed {device : Device} {before after : Peer ι} {task task' : Task ι}
    (ran : Ran ctx device before task after task') :
    Fixed before.index after.index := by
  cases ran <;> exact ⟨rfl, rfl, rfl⟩

/-- No step changes the settings of the index. -/
theorem Step.fixed {before after : Peer ι} {act : Act ι} {published : Option SyncNotification}
    (stepped : Step ctx before act after published) :
    Fixed before.index after.index := by
  cases stepped with
  | lost =>
      rw [spawn, backUp_index]
      exact ⟨rfl, rfl, rfl⟩
  | resumed task device entry after entry' found ran => exact (run_cases ran).fixed
  | _ => exact ⟨rfl, rfl, rfl⟩

theorem Reachable.localPeer {peer : Peer ι} (reachable : Reachable ctx peer) :
    peer.index.localPeer = ctx.localId := by
  obtain ⟨disk, excludePatterns, now, first, trace, started, run⟩ := reachable
  refine run.invariant (fun peer => peer.index.localPeer = ctx.localId) (fun _ _ => True)
    (fun _ _ => trivial) (start_index started).1 fun before act after held _ stepped => ?_
  obtain ⟨published, cases⟩ := next_cases stepped
  rw [cases.fixed.localPeer, held]

/-- No step changes the chunk size of the index. -/
theorem Step.chunkSize {before after : Peer ι} {act : Act ι} {published : Option SyncNotification}
    (stepped : Step ctx before act after published) :
    after.index.chunkSize = before.index.chunkSize := by
  cases stepped with
  | lost => rw [spawn, backUp_index]
  | resumed task device entry after entry' found ran => cases run_cases ran <;> rfl
  | _ => rfl

/-- A peer chunks files as its settings say. -/
theorem Reachable.chunkSize {peer : Peer ι} (reachable : Reachable ctx peer) :
    peer.index.chunkSize = ctx.storage.chunkSize := by
  obtain ⟨disk, excludePatterns, now, first, trace, started, run⟩ := reachable
  refine run.invariant (fun peer => peer.index.chunkSize = ctx.storage.chunkSize) (fun _ _ => True)
    (fun _ _ => trivial) ?_ fun before act after held _ stepped => ?_
  · obtain ⟨index, built, rfl⟩ := Option.map_eq_some_iff.mp started
    obtain ⟨tree, _, rfl⟩ := Option.map_eq_some_iff.mp built
    rfl
  · obtain ⟨published, cases⟩ := next_cases stepped
    rw [cases.chunkSize, held]

omit [Blake3] in
/-- The number of the task whose step an action is. -/
def taskOf : Act ι → Option Nat
  | .respond number _ => some number
  | .resume number _ => some number
  | _ => none

/-- What a step does to the task with a number. -/
inductive Turned (ctx : Ctx ι) (number : Nat) (before : Peer ι) (task : Task ι) :
    Act ι → Peer ι → Task ι → Prop where
  | left (act : Act ι) (after : Peer ι) (other : taskOf act ≠ some number) :
      Turned ctx number before task act after task
  | answered (response : Option SyncResponse) (stage : Stage ι)
      (reply : answer task.stage response = some stage) :
      Turned ctx number before task (.respond number response)
        { before with tasks := before.tasks.set number { task with stage := stage } }
        { task with stage := stage }
  | resumed (device : Device) (middle : Peer ι) (task' : Task ι)
      (ran : Ran ctx device before task middle task') :
      Turned ctx number before task (.resume number device)
        { middle with tasks := middle.tasks.set number task' } task'

/-- **What becomes of a task in a step.** -/
theorem Step.turned {before after : Peer ι} {act : Act ι} {published : Option SyncNotification}
    (stepped : Step ctx before act after published) {number : Nat} {task : Task ι}
    (found : before.tasks[number]? = some task) :
    ∃ task', after.tasks[number]? = some task' ∧ Turned ctx number before task act after task' := by
  have inside : number < before.tasks.length := (List.getElem?_eq_some_iff.mp found).1
  have spawned : ∀ {middle : Peer ι} (stage : Stage ι), middle.tasks = before.tasks →
      (middle.spawn stage).tasks[number]? = some task := by
    intro middle stage same
    rw [spawn, same, List.getElem?_append_left inside, found]
  cases stepped with
  | accepted | kept | unlinked | discovered =>
      exact ⟨task, spawned _ rfl, .left _ _ (Option.some_ne_none number).symm⟩
  | lost source path =>
      exact ⟨task, spawned _ (before.backUp_tasks _ path _),
        .left _ _ (Option.some_ne_none number).symm⟩
  | answered other response entry stage found' reply =>
      by_cases ours : other = number
      · subst ours
        obtain rfl := Option.some.inj (found.symm.trans found')
        exact ⟨_, List.getElem?_set_self inside, .answered response stage reply⟩
      · refine ⟨task, ?_, .left _ _ fun same => ours (Option.some.inj same)⟩
        rw [← found]
        exact List.getElem?_set_ne ours
  | resumed other device entry after entry' found' ran =>
      have ran := run_cases ran
      by_cases ours : other = number
      · subst ours
        obtain rfl := Option.some.inj (found.symm.trans found')
        refine ⟨entry', ?_, .resumed device after entry' ran⟩
        dsimp only
        rw [ran.tasks, List.getElem?_set_self inside]
      · refine ⟨task, ?_, .left _ _ fun same => ours (Option.some.inj same)⟩
        dsimp only
        rw [ran.tasks, List.getElem?_set_ne ours, found]
  | quiet act watch idle =>
      refine ⟨task, found, .left _ _ ?_⟩
      cases act with
      | respond | resume => exact absurd idle Bool.false_ne_true
      | _ => exact (Option.some_ne_none number).symm
  | _ => exact ⟨task, found, .left _ _ (Option.some_ne_none number).symm⟩

/-- A state reached by a concrete run from a start, with a test of it. -/
theorem reachable_of_any {disk : Disk} {excludePatterns : List Str} {now : Nat}
    {acts : List (Act ι)} {test : Peer ι → Bool}
    (passed : ((start ctx disk excludePatterns now).bind fun first =>
      runActs (next ctx) first acts).any test = true) :
    ∃ peer, Reachable ctx peer ∧ test peer = true := by
  cases started : start ctx disk excludePatterns now with
  | none =>
      rw [started] at passed
      exact absurd passed Bool.false_ne_true
  | some first =>
      rw [started] at passed
      obtain ⟨trace, peer, run, _, success⟩ := exists_run_of_any passed
      exact ⟨peer, ⟨disk, excludePatterns, now, first, trace, started, run⟩, success⟩

end Peer

/-! ## Parameters of concrete runs -/

namespace Sample

/-- A hash that keeps the last 32 bytes. -/
@[reducible] def blake3 : Blake3 where
  hash bytes := ⟨(bytes.reverse ++ List.replicate 32 0).take 32, by simp⟩

/-- Three places where peers run. -/
inductive Site where
  | one
  | two
  | three
deriving DecidableEq, Inhabited

instance fintypeSite : Fintype Site := ⟨{.one, .two, .three}, fun site => by cases site <;> decide⟩

/-- The peer whose identifier starts with a byte. -/
def peerId (first : UInt8) : PeerId := ⟨[first, 0, 0, 0, 0, 0, 0, 0], rfl⟩

/-- The identifier of the peer at a site. -/
def shortId : Site → PeerId
  | .one => peerId 1
  | .two => peerId 2
  | .three => peerId 3

/-- The settings of the peer at a site: small chunks, no debouncing. -/
def ctx (site : Site) : Ctx Site where
  localId := shortId site
  shortPeerId := shortId
  storage := { chunkSize := 2 }
  writeGuardTtl := 0
  debounce := 0

/-- The file `f`. -/
def path : RelPath := [.utf8 ['f']]

def safe : SafePath := ⟨['f'], path, by decide⟩

/-- A folder with the file `f`. -/
def folder (data : Bytes) : Disk := .dir [(.utf8 ['f'], .file data)]

theorem proper_folder (data : Bytes) : (folder data).Proper := by
  refine .dir _ (List.pairwise_singleton _ _) ?_ ?_
  · intro entry member
    rw [List.mem_singleton.mp member]
    exact (by decide : (OsStr.utf8 ['f']).IsName)
  · intro entry member
    rw [List.mem_singleton.mp member]
    exact .file data

attribute [local instance] blake3

/-- The index of a folder with the file `f`. -/
def index (site : Site) (data : Bytes) : SyncIndex where
  tree := Merkle.dirNode [(['f'], Merkle.fileNodeWithChunkSize data 2)]
  fileMeta := Finmap.insert path ⟨.new, 10, (ctx site).localId⟩ ∅
  tombstones := []
  localPeer := (ctx site).localId
  excludePatterns := []
  chunkSize := 2
  tombstoneTtlSecs := 3600

/-- A peer that has indexed a folder with the file `f`. -/
def peer (site : Site) (data : Bytes) : Peer Site :=
  ⟨index site data, folder data, [], 10, ⟨∅, ∅, [], 0⟩⟩

theorem start_peer (site : Site) (data : Bytes) :
    Peer.start (ctx site) (folder data) [] 10 = some (peer site data) := rfl

end Sample

end P2Sync
