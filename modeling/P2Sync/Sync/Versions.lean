import P2Sync.Net.Swarm
import P2Sync.Net.Walk

/-!
# Which version a reconciliation writes

A reconciliation asks for as many chunks of a file as the remote tree lists, and gets those
the file has when the request is answered. In between the file can be replaced, and nothing
compares what arrives with the tree. So the first bytes of the version served are written,
as many as the listed chunks hold: all of it when it has no more chunks than the listed
version, and else a content that the file need never have had (`wholeVersion_iff`).
-/

set_option autoImplicit false

namespace P2Sync

section Cut

variable [Blake3] {receiver sender : StorageConfig} {version data : Bytes}

/-- **The first chunks of a file** put into a new one are its first bytes. -/
theorem applyChunks_range_nil {count : Nat} (positive : 0 < sender.chunkSize)
    (sameSize : sender.chunkSize = receiver.chunkSize) (small : version.length < 2 ^ 64)
    (applied : applyChunks receiver (serveChunks sender version (List.range count)) [] =
      some data) :
    data = version.take
      (min count (min sender.maxChunkIndex receiver.maxChunkIndex) * sender.chunkSize) := by
  obtain ⟨_, rfl⟩ := applyChunks_eq_some_iff.mp applied
  rw [keptPieces_serveChunks positive sameSize small]
  generalize limit : min count (min sender.maxChunkIndex receiver.maxChunkIndex) = bound
  have listed : ∀ index, index ∈ (List.range count).filter (fun index =>
      (index < sender.maxChunkIndex ∧ index * sender.chunkSize < version.length) ∧
        index < receiver.maxChunkIndex) ↔
      index < bound ∧ index * sender.chunkSize < version.length := by
    intro index
    rw [List.mem_filter, List.mem_range, decide_eq_true_eq, ← limit, lt_min_iff, lt_min_iff]
    tauto
  have cut : ∀ index < bound, index * sender.chunkSize + sender.chunkSize ≤
      bound * sender.chunkSize := by
    intro index below
    rw [← Nat.succ_mul]
    exact Nat.mul_le_mul_right _ below
  have same : Chunk.pieces version sender.chunkSize ((List.range count).filter fun index =>
      (index < sender.maxChunkIndex ∧ index * sender.chunkSize < version.length) ∧
        index < receiver.maxChunkIndex) =
      Chunk.pieces (version.take (bound * sender.chunkSize)) sender.chunkSize
        ((List.range count).filter fun index =>
          (index < sender.maxChunkIndex ∧ index * sender.chunkSize < version.length) ∧
            index < receiver.maxChunkIndex) := by
    refine List.map_congr_left fun index member => ?_
    have whole := cut index ((listed index).mp member).1
    rw [List.drop_take, List.take_take, min_eq_left (by omega)]
  rw [same, Chunk.spliceAll_pieces positive, List.drop_nil, List.append_nil]
  · intro index member
    obtain ⟨below, inside⟩ := (listed index).mp member
    have whole := cut index below
    rw [List.length_take]
    omega
  · intro index inside
    rw [List.length_take, lt_min_iff] at inside
    exact (listed index).mpr ⟨Nat.lt_of_mul_lt_mul_right inside.1, inside.2⟩

end Cut

namespace Swarm

variable {ι : Type} [Blake3] (ctx : ι → Ctx ι) (site : ι) (number : Nat)

/-- The turn answers the task with the tree of a peer. -/
structure SendsTree (entry : Swarm ι × Turn ι) (source : ι) : Prop where
  served : ∃ failure, entry.2 = .serve site number failure
  asked : ∃ task, (entry.1.peer site).tasks[number]? = some task ∧ task.stage = .askedTree source

/-- The turn answers the task with chunks of a version of a file. -/
structure SendsChunks (entry : Swarm ι × Turn ι) (fetch : Fetch ι) (version : Bytes) : Prop where
  served : entry.2 = .serve site number none
  asked : ∃ task, (entry.1.peer site).tasks[number]? = some task ∧ task.stage = .asked fetch
  read : (entry.1.peer fetch.source).disk.read fetch.path.rel = some version

/-- A tree was answered in which the walk finds a file with so many chunks, and the turns
since. -/
def Listed (trace : List (Swarm ι × Turn ι)) (source : ι) (raw : Str) (count : Nat)
    (since : List (Swarm ι × Turn ι)) : Prop :=
  ∃ earlier sent localTree, trace = earlier ++ sent :: since ∧ SendsTree site number sent source ∧
    .fetchFile source raw count ∈
      walkDiff source (ctx site).noPull localTree (sent.1.peer source).index.tree

/-- A file was listed with so many chunks, and these were answered of a version, with the
turns from the one answer to the other. -/
def Transferred (trace : List (Swarm ι × Turn ι)) (fetch : Fetch ι) (count : Nat)
    (moments : List (Swarm ι × Turn ι)) (version : Bytes) : Prop :=
  ∃ between answer rest, Listed ctx site number trace fetch.source fetch.path.raw count
      (between ++ answer :: rest) ∧ fetch.chunkIndices = List.range count ∧
    SendsChunks site number answer fetch version ∧ moments = between ++ [answer]

/-- The file had a content at one of the moments. -/
def HeldAt (moments : List (Swarm ι × Turn ι)) (source : ι) (path : RelPath) (content : Bytes) :
    Prop :=
  ∃ entry ∈ moments, (entry.1.peer source).disk.read path = some content

/-- The task had the answer for the file while a file was at its path. -/
def FindsFile (trace : List (Swarm ι × Turn ι)) (fetch : Fetch ι) : Prop :=
  ∃ entry ∈ trace, ∃ task chunks, (entry.1.peer site).tasks[number]? = some task ∧
    task.stage = .answered fetch chunks ∧ (entry.1.peer site).disk.read fetch.path.rel ≠ none

/-- What is known of the stage of a reconciliation. -/
def Traced (trace : List (Swarm ι × Turn ι)) : Stage ι → Prop
  | .gotTree source tree => ∃ earlier sent since, trace = earlier ++ sent :: since ∧
      SendsTree site number sent source ∧ tree = (sent.1.peer source).index.tree
  | .asked fetch => ∃ count since,
      Listed ctx site number trace fetch.source fetch.path.raw count since ∧
        fetch.chunkIndices = List.range count
  | .answered fetch chunks => ∃ count moments version,
      Transferred ctx site number trace fetch count moments version ∧
        chunks = serveChunks (ctx fetch.source).storage version (List.range count)
  | .loaded fetch data => ∃ count moments version old,
      Transferred ctx site number trace fetch count moments version ∧
        applyChunks (ctx site).storage
          (serveChunks (ctx fetch.source).storage version (List.range count)) old = some data ∧
        (old = [] ∨ FindsFile site number trace fetch)
  | _ => True

/-- Everything the task still asks for is listed in a tree it got. -/
structure Follows (trace : List (Swarm ι × Turn ι)) (task : Task ι) : Prop where
  todo : ∀ source raw count, .fetchFile source raw count ∈ task.todo →
    ∃ since, Listed ctx site number trace source raw count since
  stage : Traced ctx site number trace task.stage

variable {ctx site number} {trace : List (Swarm ι × Turn ι)} {before after : Swarm ι}
  {turn : Turn ι} {task task' : Task ι} {entry : Swarm ι × Turn ι} {fetch : Fetch ι}

/-! ## What is known stays known -/

omit [Blake3] in
theorem Listed.later {source : ι} {raw : Str} {count : Nat} {since : List (Swarm ι × Turn ι)}
    (listed : Listed ctx site number trace source raw count since) :
    Listed ctx site number (trace ++ [entry]) source raw count (since ++ [entry]) := by
  obtain ⟨earlier, sent, localTree, rfl, sends, walked⟩ := listed
  exact ⟨earlier, sent, localTree, by simp, sends, walked⟩

omit [Blake3] in
theorem Transferred.later {count : Nat} {moments : List (Swarm ι × Turn ι)} {version : Bytes}
    (transferred : Transferred ctx site number trace fetch count moments version) :
    Transferred ctx site number (trace ++ [entry]) fetch count moments version := by
  obtain ⟨between, answer, rest, listed, indices, sends, rfl⟩ := transferred
  refine ⟨between, answer, rest ++ [entry], ?_, indices, sends, rfl⟩
  have later : Listed ctx site number (trace ++ [entry]) _ _ _ _ := listed.later
  rwa [List.append_assoc, List.cons_append] at later

omit [Blake3] in
theorem FindsFile.later (finds : FindsFile site number trace fetch) :
    FindsFile site number (trace ++ [entry]) fetch := by
  obtain ⟨entry', member, finds⟩ := finds
  exact ⟨entry', List.mem_append_left _ member, finds⟩

theorem Traced.later {stage : Stage ι} (known : Traced ctx site number trace stage) :
    Traced ctx site number (trace ++ [entry]) stage := by
  cases stage with
  | gotTree source tree =>
      obtain ⟨earlier, sent, since, rfl, sends, same⟩ := known
      exact ⟨earlier, sent, since ++ [entry], by simp, sends, same⟩
  | asked fetch =>
      obtain ⟨count, since, listed, indices⟩ := known
      exact ⟨count, _, listed.later, indices⟩
  | answered fetch chunks =>
      obtain ⟨count, moments, version, transferred, same⟩ := known
      exact ⟨count, moments, version, transferred.later, same⟩
  | loaded fetch data =>
      obtain ⟨count, moments, version, old, transferred, applied, read⟩ := known
      exact ⟨count, moments, version, old, transferred.later, applied, read.imp_right .later⟩
  | _ => trivial

theorem Follows.later (follows : Follows ctx site number trace task) :
    Follows ctx site number (trace ++ [entry]) task := by
  refine ⟨fun source raw count member => ?_, follows.stage.later⟩
  obtain ⟨since, listed⟩ := follows.todo source raw count member
  exact ⟨_, listed.later⟩

omit [Blake3] in
/-- The version served is the last of the versions in between. -/
theorem Transferred.heldAt {count : Nat} {moments : List (Swarm ι × Turn ι)} {version : Bytes}
    (transferred : Transferred ctx site number trace fetch count moments version) :
    HeldAt moments fetch.source fetch.path.rel version := by
  obtain ⟨between, answer, rest, _, _, sends, rfl⟩ := transferred
  exact ⟨answer, List.mem_append_right _ (List.mem_singleton_self _), sends.read⟩

omit [Blake3] in
/-- The version served was there on the way. -/
theorem Transferred.exists_read {count : Nat} {moments : List (Swarm ι × Turn ι)} {version : Bytes}
    (transferred : Transferred ctx site number trace fetch count moments version) :
    HeldAt trace fetch.source fetch.path.rel version := by
  obtain ⟨between, answer, rest, ⟨earlier, sent, _, rfl, _⟩, _, sends, _⟩ := transferred
  exact ⟨answer, by simp, sends.read⟩

/-! ## What is known after a turn -/

/-- What is known after a turn that leaves the task the rest of its walk. -/
theorem Follows.goesOn {stage : Stage ι} {files : Nat}
    (follows : Follows ctx site number trace task)
    (known : Traced ctx site number (trace ++ [entry]) stage) :
    Follows ctx site number (trace ++ [entry])
      { task with stage := stage, filesSynced := files } := by
  have later : Follows ctx site number (trace ++ [entry]) task := follows.later
  exact ⟨later.todo, known⟩

theorem Follows.served {failure : Option String} {source : ι} {request : SyncRequest}
    {stage : Stage ι} (follows : Follows ctx site number trace task)
    (found : (before.peer site).tasks[number]? = some task)
    (requested : task.stage.request = some (source, request))
    (reply : Peer.answer task.stage (some (before.answerOf ctx source failure request)) =
      some stage) :
    Follows ctx site number (trace ++ [(before, .serve site number failure)])
      { task with stage := stage } := by
  refine follows.goesOn ?_
  have known := follows.stage
  cases waiting : task.stage with
  | asked fetch =>
      rw [waiting] at known requested reply
      cases requested
      obtain ⟨count, since, listed, indices⟩ := known
      cases answer : before.answerOf ctx fetch.source failure
          (.getChunks fetch.path.raw fetch.chunkIndices) with
      | chunks echoed chunks =>
          rw [answer] at reply
          cases reply
          obtain ⟨rfl, version, read, rfl⟩ := handleInboundRequest_chunks answer
          refine ⟨count, _, version, ⟨since, (before, .serve site number none), [], ?_, indices,
            ⟨rfl, ⟨task, found, waiting⟩, read⟩, rfl⟩, by rw [indices]⟩
          exact listed.later
      | _ =>
          rw [answer] at reply
          cases reply
          trivial
  | askedRoot peer =>
      rw [waiting] at requested reply
      cases requested
      cases reply
      trivial
  | askedTree peer =>
      rw [waiting] at requested reply
      cases requested
      cases reply
      exact ⟨trace, (before, .serve site number failure), [], rfl,
        ⟨⟨failure, rfl⟩, task, found, waiting⟩, rfl⟩
  | _ =>
      rw [waiting] at requested
      exact absurd requested (Option.some_ne_none _).symm

theorem Follows.failed {stage : Stage ι} (follows : Follows ctx site number trace task)
    (reply : Peer.answer task.stage none = some stage) :
    Follows ctx site number (trace ++ [(before, .fail site number)])
      { task with stage := stage } := by
  refine follows.goesOn ?_
  revert reply
  cases task.stage <;> intro reply <;> cases reply <;> trivial

theorem Follows.ran {device : Device} {middle : Peer ι}
    (follows : Follows ctx site number trace task)
    (found : (before.peer site).tasks[number]? = some task)
    (ran : Peer.Ran (ctx site) device (before.peer site) task middle task') :
    Follows ctx site number (trace ++ [(before, .own site (.resume number device))]) task' := by
  have later : Follows ctx site number (trace ++ [(before, .own site (.resume number device))])
    task := follows.later
  cases ran with
  | counted files rest ended next =>
      refine ⟨fun source raw count member => later.todo source raw count ?_, later.stage⟩
      rw [next]
      exact List.mem_cons_of_mem _ member
  | started source raw count rest ended next =>
      refine ⟨fun source raw count member => later.todo source raw count ?_, ?_⟩
      · rw [next]
        exact List.mem_cons_of_mem _ member
      · obtain ⟨since, listed⟩ := later.todo source raw count (next ▸ List.mem_cons_self)
        dsimp only
        rw [Peer.startFetch]
        cases guarded : SafePath.of? raw with
        | none => trivial
        | some path =>
            obtain rfl := SafePath.of?_eq_some_iff.mp guarded
            dsimp only
            split
            · trivial
            · exact ⟨count, since, listed, rfl⟩
  | loaded fetch chunks data answered applied =>
      refine ⟨later.todo, ?_⟩
      have known := later.stage
      rw [answered] at known
      obtain ⟨count, moments, version, transferred, rfl⟩ := known
      refine ⟨count, moments, version, _, transferred, applied, ?_⟩
      cases there : (before.peer site).disk.read fetch.path.rel with
      | none =>
          refine Or.inl ?_
          rw [Peer.oldData, there]
          split <;> rfl
      | some old =>
          refine Or.inr ⟨_, List.mem_append_right _ (List.mem_singleton_self _), task, _, found,
            answered, ?_⟩
          rw [there]
          exact Option.some_ne_none old
  | compared source hash asked =>
      refine ⟨later.todo, ?_⟩
      dsimp only
      split <;> trivial
  | walked source tree asked =>
      refine ⟨fun source' raw count member => ?_, trivial⟩
      have known := later.stage
      rw [asked] at known
      obtain ⟨earlier, sent, since, split, sends, rfl⟩ := known
      obtain rfl := source_of_mem_walkDiff member
      exact ⟨since, earlier, sent, _, split, sends, member⟩
  | _ => exact ⟨later.todo, trivial⟩

/-- **A task of a reconciliation asks for what was listed**, whatever happens in between. -/
theorem Follows.turned (follows : Follows ctx site number trace task)
    (found : (before.peer site).tasks[number]? = some task)
    (turned : Turned ctx before site number task turn after task') :
    Follows ctx site number (trace ++ [(before, turn)]) task' := by
  cases turned with
  | left => exact follows.later
  | served failure source request stage after requested reply =>
      exact follows.served found requested reply
  | failed stage after reply => exact follows.failed reply
  | resumed device middle task' after ran => exact follows.ran found ran

variable [DecidableEq ι]

theorem Follows.run {first last : Swarm ι} {source : ι} (run : Run (step ctx) first trace last)
    (asked : (first.peer site).tasks[number]? = some { stage := .askedRoot source })
    (found : (last.peer site).tasks[number]? = some task) :
    Follows ctx site number trace task := by
  obtain ⟨task', found', follows⟩ := run.history
    (fun trace swarm => ∃ task, (swarm.peer site).tasks[number]? = some task ∧
      Follows ctx site number trace task)
    (fun _ _ _ => True) (fun _ _ _ _ => trivial)
    ⟨_, asked, ⟨fun _ _ _ absent => absurd absent List.not_mem_nil, by trivial⟩⟩
    fun trace before turn after held _ stepped => by
      obtain ⟨task, found, follows⟩ := held
      obtain ⟨task', found', turned⟩ := Swarm.turned stepped found
      exact ⟨task', found', follows.turned found turned⟩
  obtain rfl := Option.some.inj (found.symm.trans found')
  exact follows

/-- What a turn has written that brings a task to the end of its write. -/
theorem read_of_written {data : Bytes} (stepped : before.step ctx turn = some after)
    (found : (before.peer site).tasks[number]? = some task)
    (ready : task.stage = .loaded fetch data)
    (found' : (after.peer site).tasks[number]? = some task')
    (written : task'.stage = .written fetch data) :
    (after.peer site).disk.read fetch.path.rel = some data := by
  obtain ⟨task'', found'', turned⟩ := turned stepped found
  obtain rfl := Option.some.inj (found'.symm.trans found'')
  cases turned with
  | left => cases ready.symm.trans written
  | served failure source request stage after requested =>
      rw [ready] at requested
      exact absurd requested (Option.some_ne_none _).symm
  | failed stage after reply =>
      rw [ready] at reply
      exact absurd reply (Option.some_ne_none _).symm
  | resumed device middle task' after ran here =>
      cases ran with
      | wrote fetch' data' disk watch ready' success =>
          cases ready.symm.trans ready'
          rw [here]
          exact Disk.read_write_self (Outcome.write_succeeds_iff.mp success).2
      | counted files rest ended | started source raw count rest ended =>
          cases ready.symm.trans ended
      | compared source hash asked => cases ready.symm.trans asked
      | loaded fetch chunks data answered => cases ready.symm.trans answered
      | _ => cases written

variable (ctx site) in
/-- How many bytes of a file can come with so many listed chunks. -/
def reachOf (source : ι) (count : Nat) : Nat :=
  min count (min (ctx source).storage.maxChunkIndex (ctx site).storage.maxChunkIndex) *
    (ctx source).storage.chunkSize

/-- **Exactly when a reconciliation writes a version of the file**, one that the remote peer
had between the answer with the tree and the answer with the chunks. -/
theorem wholeVersion_iff {first last : Swarm ι} {source : ι} {data : Bytes}
    (run : Run (step ctx) first trace last)
    (asked : (first.peer site).tasks[number]? = some { stage := .askedRoot source })
    (found : (last.peer site).tasks[number]? = some task) (ready : task.stage = .loaded fetch data)
    (stepped : last.step ctx turn = some after)
    (found' : (after.peer site).tasks[number]? = some task')
    (written : task'.stage = .written fetch data)
    (absent : ¬ FindsFile site number trace fetch)
    (positive : 0 < (ctx fetch.source).storage.chunkSize)
    (sameSize : (ctx fetch.source).storage.chunkSize = (ctx site).storage.chunkSize)
    (small : ∀ entry ∈ trace, ∀ content, (entry.1.peer fetch.source).disk.read fetch.path.rel =
      some content → content.length < 2 ^ 64) :
    ∃ content count moments version,
      (after.peer site).disk.read fetch.path.rel = some content ∧
      Transferred ctx site number trace fetch count moments version ∧
      content = version.take (reachOf ctx site fetch.source count) ∧
      (HeldAt moments fetch.source fetch.path.rel content ↔
        version.length ≤ reachOf ctx site fetch.source count ∨
          ∃ part, part <+: version ∧ part.length = reachOf ctx site fetch.source count ∧
            HeldAt moments fetch.source fetch.path.rel part) := by
  have known := (Follows.run run asked found).stage
  rw [ready] at known
  obtain ⟨count, moments, version, old, transferred, applied, read⟩ := known
  obtain rfl := read.resolve_right absent
  obtain ⟨entry, member, present⟩ := transferred.exists_read
  have short := small entry member version present
  obtain rfl := applyChunks_range_nil positive sameSize short applied
  refine ⟨_, count, _, version, read_of_written stepped found ready found' written, transferred,
    rfl, ?_⟩
  rw [← reachOf]
  by_cases whole : version.length ≤ reachOf ctx site fetch.source count
  · rw [List.take_of_length_le whole]
    exact iff_of_true transferred.heldAt (Or.inl whole)
  · rw [or_iff_right whole]
    constructor
    · exact fun cut => ⟨_, List.take_prefix _ _, List.length_take_of_le (by omega), cut⟩
    · rintro ⟨part, reaches, length, cut⟩
      rw [← length, ← List.prefix_iff_eq_take.mp reaches]
      exact cut

end Swarm

/-! ## A file that grows in between -/

namespace Swarm

attribute [local instance] Sample.blake3

/-- The first peer has an empty folder and starts to reconcile with the second, whose file
`f` holds one byte. -/
def growing : Swarm Sample.Site where
  peer site :=
    if site = .one then
      Peer.spawn ⟨{ Sample.index .one [] with tree := Merkle.dirNode [], fileMeta := ∅ }, .dir [],
        [], 10, ⟨∅, ∅, [], 0⟩⟩ (.askedRoot .two)
    else Sample.peer site [1]
  log := []
  edited _ _ := false

/-- The turns up to the write: the second peer's file is replaced after its tree is sent. -/
def replacedBy (data : Bytes) : List (Turn Sample.Site) :=
  [.serve .one 0 none, .own .one (.resume 0 {}), .serve .one 0 none,
    .own .two (.user (Sample.folder data)), .own .one (.resume 0 {}), .own .one (.resume 0 {}),
    .serve .one 0 none, .own .one (.resume 0 {})]

/-- The task is about to write a content. -/
def aboutToWrite (content : Bytes) (swarm : Swarm Sample.Site) : Bool :=
  match (swarm.peer .one).tasks[0]?.map Task.stage with
  | some (.loaded fetch data) =>
      decide (fetch.source = .two ∧ fetch.path.rel = Sample.path ∧ data = content) &&
        (Outcome.succeeds.write fetch.path.rel data
          ((swarm.peer .one).makeParents {} fetch.path.rel)).1
  | _ => false

theorem exists_write_of_aboutToWrite {content : Bytes} {swarm : Swarm Sample.Site}
    (passed : aboutToWrite content swarm = true) :
    ∃ task fetch after task', (swarm.peer .one).tasks[0]? = some task ∧
      task.stage = .loaded fetch content ∧ fetch.source = .two ∧ fetch.path.rel = Sample.path ∧
        swarm.step Sample.ctx (.own .one (.resume 0 {})) = some after ∧
          (after.peer .one).tasks[0]? = some task' ∧ task'.stage = .written fetch content := by
  rw [aboutToWrite] at passed
  cases found : (swarm.peer .one).tasks[0]? with
  | none =>
      rw [found] at passed
      exact absurd passed Bool.false_ne_true
  | some task =>
      rw [found] at passed
      cases ready : task.stage with
      | loaded fetch data =>
          simp only [Option.map_some, ready, Bool.and_eq_true, decide_eq_true_eq] at passed
          obtain ⟨⟨source, path, rfl⟩, success⟩ := passed
          obtain ⟨next, stepped⟩ : ∃ next, (swarm.peer .one).next (Sample.ctx .one)
              (.resume 0 {}) = some next := by
            rw [Peer.next_resume found, Peer.runTask, ready]
            exact ⟨_, rfl⟩
          have same := Peer.next_loaded stepped found ready
          obtain ⟨⟨next', published⟩, taken, rfl⟩ := Option.map_eq_some_iff.mp stepped
          refine ⟨task, fetch, _, { task with stage := .written fetch data }, rfl, ready, source,
            path, step_of Sample.ctx rfl taken, ?_, rfl⟩
          dsimp only at same ⊢
          rw [Function.update_self, same, if_pos success]
          exact List.getElem?_set_self (List.getElem?_eq_some_iff.mp found).1
      | _ =>
          simp only [Option.map_some, ready] at passed
          exact absurd passed Bool.false_ne_true

/-- No file stands at `f` here, and the other peer's file is `[1]` or a new version. -/
def holdsOneOf (version : Bytes) (swarm : Swarm Sample.Site) (_ : Turn Sample.Site) : Bool :=
  decide ((swarm.peer .one).disk.read Sample.path = none) &&
    decide ((swarm.peer .two).disk.read Sample.path = some [1] ∨
      (swarm.peer .two).disk.read Sample.path = some version)

/-- The file grows to two chunks after one was listed, and its first chunk is written: a
content it never had. -/
theorem exists_torn_file :
    ∃ trace last after, Run (step Sample.ctx) growing trace last ∧
      last.step Sample.ctx (.own .one (.resume 0 {})) = some after ∧
        (after.peer .one).disk.read Sample.path = some [2, 3] ∧
          ∀ entry ∈ trace, (entry.1.peer .two).disk.read Sample.path ≠ some [2, 3] := by
  obtain ⟨trace, last, run, _, held, passed⟩ := exists_checked_run (by decide +kernel :
    (runActs (checked (step Sample.ctx) (holdsOneOf [2, 3, 4])) growing
      (replacedBy [2, 3, 4])).any (aboutToWrite [2, 3]) = true)
  obtain ⟨task, fetch, after, task', found, ready, _, path, stepped, found', written⟩ :=
    exists_write_of_aboutToWrite passed
  have stored := read_of_written stepped found ready found' written
  rw [path] at stored
  refine ⟨trace, last, after, run, stepped, stored, fun entry member torn => ?_⟩
  have versions := held entry member
  simp only [holdsOneOf, Bool.and_eq_true, decide_eq_true_eq, torn] at versions
  exact absurd versions.2 (by decide)

/-- The file is replaced by one with as many chunks. -/
theorem wholeVersion_iff_sample :
    ∃ trace last after moments, Run (step Sample.ctx) growing trace last ∧
      last.step Sample.ctx (.own .one (.resume 0 {})) = some after ∧
        (after.peer .one).disk.read Sample.path = some [2, 3] ∧
          HeldAt moments Sample.Site.two Sample.path [2, 3] := by
  obtain ⟨trace, last, run, _, held, passed⟩ := exists_checked_run (by decide +kernel :
    (runActs (checked (step Sample.ctx) (holdsOneOf [2, 3])) growing
      (replacedBy [2, 3])).any (aboutToWrite [2, 3]) = true)
  obtain ⟨task, fetch, after, task', found, ready, source, path, stepped, found', written⟩ :=
    exists_write_of_aboutToWrite passed
  simp only [holdsOneOf, Bool.and_eq_true, decide_eq_true_eq] at held
  have absent : ¬ FindsFile .one 0 trace fetch := by
    rintro ⟨entry, member, _, _, _, _, present⟩
    rw [path] at present
    exact present (held entry member).1
  have versions : ∀ entry ∈ trace, ∀ content, (entry.1.peer fetch.source).disk.read
      fetch.path.rel = some content → content = [1] ∨ content = [2, 3] := by
    intro entry member content read
    rw [source, path] at read
    refine (held entry member).2.imp ?_ ?_ <;>
      exact fun same => Option.some.inj (read.symm.trans same)
  obtain ⟨content, count, moments, version, read, transferred, cut, whole⟩ :=
    wholeVersion_iff run rfl found ready stepped found' written absent
      (by rw [source]; exact Nat.zero_lt_two) (by rw [source]; rfl) (by
        intro entry member content read
        rcases versions entry member content read with rfl | rfl <;> decide)
  obtain rfl := Option.some.inj (read.symm.trans
    (read_of_written stepped found ready found' written))
  obtain ⟨entry, member, present⟩ := transferred.exists_read
  have short : version.length ≤ reachOf Sample.ctx .one fetch.source count := by
    -- Two bytes are written, and no version has more.
    have two := congrArg List.length cut
    rw [List.length_take] at two
    rcases versions entry member version present with rfl | rfl <;>
      simp only [List.length_cons, List.length_nil] at two ⊢ <;> omega
  have stored := whole.mpr (Or.inl short)
  rw [source, path] at stored
  rw [path] at read
  exact ⟨trace, last, after, moments, run, stepped, read, stored⟩

end Swarm

end P2Sync
