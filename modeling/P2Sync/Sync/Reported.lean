import P2Sync.Net.Swarm
import P2Sync.Net.Walk

/-!
# What a reconciliation reports

`fetch_node_recursive` swallows what becomes of each file, and `reconcile` adds the number of
all files below a difference to what it reports. Along every run of a reconciliation the
books balance: what is counted and still to be counted are the files written, those that
failed, the one in flight and those still to be fetched (`Balanced`). So it reports the files
written and the files that failed (`reported_eq`), and exactly the files written when none
fails (`reported_iff`).
-/

set_option autoImplicit false

namespace P2Sync

variable {ι : Type}

/-! ## Files of a walk -/

/-- The files a step of the walk adds to the number reported. -/
def Walk.counts : Walk ι → Nat
  | .fetchFile _ _ _ => 0
  | .counted files => files

/-- The files a step of the walk fetches. -/
def Walk.fetches : Walk ι → Nat
  | .fetchFile _ _ _ => 1
  | .counted _ => 0

/-- The number of all that the steps of a walk are to add. -/
def owed (walk : List (Walk ι)) : Nat := (walk.map Walk.counts).sum

/-- The number of files that a walk is to fetch. -/
def pending (walk : List (Walk ι)) : Nat := (walk.map Walk.fetches).sum

@[simp] theorem owed_nil : owed ([] : List (Walk ι)) = 0 := rfl

@[simp] theorem pending_nil : pending ([] : List (Walk ι)) = 0 := rfl

@[simp] theorem owed_cons (entry : Walk ι) (rest : List (Walk ι)) :
    owed (entry :: rest) = entry.counts + owed rest := by
  rw [owed, List.map_cons, List.sum_cons, owed]

@[simp] theorem pending_cons (entry : Walk ι) (rest : List (Walk ι)) :
    pending (entry :: rest) = entry.fetches + pending rest := by
  rw [pending, List.map_cons, List.sum_cons, pending]

@[simp] theorem owed_append (early late : List (Walk ι)) :
    owed (early ++ late) = owed early + owed late := by
  rw [owed, List.map_append, List.sum_append, owed, owed]

@[simp] theorem pending_append (early late : List (Walk ι)) :
    pending (early ++ late) = pending early + pending late := by
  rw [pending, List.map_append, List.sum_append, pending, pending]

section Walks

variable (peer : ι)

mutual

/-- Every file below a node is fetched, and nothing is counted on the way. -/
theorem books_fetchNode (base : Str) : ∀ node : Node,
    pending (fetchNodeRecursive peer base node) = countFiles node ∧
      owed (fetchNodeRecursive peer base node) = 0
  | .file _ _ _ => ⟨rfl, rfl⟩
  | .directory _ children => books_fetchChildren base children

theorem books_fetchChildren (base : Str) : ∀ children : List (Str × Node),
    pending (fetchChildren peer base children) = countChildren children ∧
      owed (fetchChildren peer base children) = 0
  | [] => ⟨rfl, rfl⟩
  | (name, child) :: rest => by
      rw [fetchChildren, countChildren, pending_append, owed_append,
        (books_fetchNode (pathJoin base name) child).1,
        (books_fetchNode (pathJoin base name) child).2,
        (books_fetchChildren base rest).1, (books_fetchChildren base rest).2]
      exact ⟨rfl, rfl⟩

end

/-- **A walk counts as many files as it fetches.** -/
theorem owed_walkDiff (noPull : Bool) (localTree remoteTree : Node) :
    owed (walkDiff peer noPull localTree remoteTree) =
      pending (walkDiff peer noPull localTree remoteTree) := by
  have entry : ∀ diff,
      owed (walkEntry peer noPull diff) = pending (walkEntry peer noPull diff) := by
    intro diff
    cases diff with
    | removed => rfl
    | added path node | modified path _ node =>
        rw [walkEntry]
        split
        · rfl
        · obtain ⟨fetched, counted⟩ := books_fetchNode peer path node
          rw [owed_append, pending_append, fetched, counted]
          simp [Walk.counts, Walk.fetches]
  rw [walkDiff]
  induction Merkle.diff localTree remoteTree with
  | nil => rfl
  | cons diff rest ih => rw [List.flatMap_cons, owed_append, pending_append, entry, ih]

end Walks

/-- Whether a file is on its way. -/
def Stage.inFlight : Stage ι → Nat
  | .asked _ => 1
  | .answered _ _ => 1
  | .loaded _ _ => 1
  | _ => 0

/-- The task has not come to its walk. -/
def Stage.beforeWalk : Stage ι → Bool
  | .askedRoot _ => true
  | .gotRoot _ _ => true
  | .askedTree _ => true
  | .gotTree _ _ => true
  | _ => false

/-- The chunks of an answer keep to the size limit when something is made of them. -/
theorem small_eq_isSome (storage : StorageConfig) (chunks : List (Nat × Bytes)) (old : Bytes) :
    ((keptPieces storage chunks).all fun piece =>
        decide (piece.1 + piece.2.length ≤ storage.maxFileSize)) =
      (applyChunks storage chunks old).isSome := by
  rw [Bool.eq_iff_iff, List.all_eq_true, Option.isSome_iff_exists]
  simp only [decide_eq_true_eq, applyChunks_eq_some_iff, exists_and_left, exists_eq', and_true]

namespace Peer

variable [Blake3] (ctx : Ctx ι) (number : Nat)

/-! ## Files written and files that failed -/

omit [Blake3] in
/-- The step of the task writes a file. -/
def writes (before : Peer ι) (act : Act ι) : Bool :=
  match act, before.tasks[number]? with
  | .resume other device, some task =>
      decide (other = number) && match task.stage with
        | .loaded fetch data =>
            (device.writes.write fetch.path.rel data (before.makeParents device fetch.path.rel)).1
        | _ => false
  | _, _ => false

/-- Nothing goes wrong with a file in the step of the task: its path is accepted and not
excluded, the answer to its request has chunks, none of them ends past the size limit, and
the device writes the file. -/
def spares (before : Peer ι) (act : Act ι) : Bool :=
  match act, before.tasks[number]? with
  | .respond other response, some task =>
      !decide (other = number) || match task.stage, response with
        | .asked _, some (.chunks _ _) => true
        | .asked _, _ => false
        | _, _ => true
  | .resume other device, some task =>
      !decide (other = number) || match task.stage, task.todo with
        | .idle, .fetchFile _ raw _ :: _ =>
            match SafePath.of? raw with
            | some path => !before.index.isExcluded path.rel
            | none => false
        | .answered _ chunks, _ =>
            (keptPieces ctx.storage chunks).all fun piece =>
              decide (piece.1 + piece.2.length ≤ ctx.storage.maxFileSize)
        | .loaded fetch data, _ =>
            decide (device.writes = .succeeds) &&
              ((before.makeParents device fetch.path.rel).write fetch.path.rel data).isSome
        | _, _ => true
  | _, _ => true

omit [Blake3] in
/-- The number of files the task has written. -/
def filesWritten (trace : List (Peer ι × Act ι)) : Nat :=
  trace.countP fun entry => writes number entry.1 entry.2

/-- The number of files that have failed. -/
def filesFailed (trace : List (Peer ι × Act ι)) : Nat :=
  trace.countP fun entry => !spares ctx number entry.1 entry.2

/-- The books of a task. -/
structure Balanced (trace : List (Peer ι × Act ι)) (task : Task ι) : Prop where
  early : task.stage.beforeWalk = true → task.todo = []
  balance : task.filesSynced + owed task.todo =
    filesWritten number trace + filesFailed ctx number trace + task.stage.inFlight +
      pending task.todo

variable {ctx number} {trace : List (Peer ι × Act ι)} {before after : Peer ι} {act : Act ι}
  {task task' : Task ι}

omit [Blake3] in
theorem filesWritten_concat :
    filesWritten number (trace ++ [(before, act)]) =
      filesWritten number trace + (writes number before act).toNat := by
  rw [filesWritten, List.countP_append, List.countP_singleton, filesWritten]
  cases writes number before act <;> rfl

omit [Blake3] in
theorem filesFailed_concat :
    filesFailed ctx number (trace ++ [(before, act)]) =
      filesFailed ctx number trace + (!spares ctx number before act).toNat := by
  rw [filesFailed, List.countP_append, List.countP_singleton, filesFailed]
  cases spares ctx number before act <;> rfl

omit [Blake3] in
/-- The books after a step, when it moves a file from one place in them to another. -/
theorem Balanced.moved (balanced : Balanced ctx number trace task)
    (early : task'.stage.beforeWalk = true → task'.todo = [])
    (moved : task'.filesSynced + owed task'.todo + task.stage.inFlight + pending task.todo =
      task.filesSynced + owed task.todo + (writes number before act).toNat +
        (!spares ctx number before act).toNat + task'.stage.inFlight + pending task'.todo) :
    Balanced ctx number (trace ++ [(before, act)]) task' := by
  refine ⟨early, ?_⟩
  rw [filesWritten_concat, filesFailed_concat]
  have balance := balanced.balance
  omega

omit [Blake3] in
/-- The steps of other tasks neither write nor fail for this one. -/
theorem quiet_of_other (other : taskOf act ≠ some number) :
    writes number before act = false ∧ spares ctx number before act = true := by
  cases act with
  | respond response | resume response =>
      have apart : response ≠ number := fun same => other (congrArg some same)
      cases found : before.tasks[number]? <;> simp [writes, spares, apart, found]
  | _ => exact ⟨rfl, rfl⟩

/-- A stretch of the task keeps its books. -/
theorem Balanced.ran {device : Device} (balanced : Balanced ctx number trace task)
    (found : before.tasks[number]? = some task) (ran : Ran ctx device before task after task') :
    Balanced ctx number (trace ++ [(before, .resume number device)]) task' := by
  have late : ∀ {early : Bool}, early = false → early = true → task'.todo = [] :=
    fun same early => absurd (same.symm.trans early) Bool.false_ne_true
  cases ran with
  | counted files rest ended next =>
      refine balanced.moved (late (by rw [ended]; rfl)) ?_
      simp [writes, spares, found, ended, next, Walk.counts, Walk.fetches]
      omega
  | started source raw chunkCount rest ended next =>
      -- A path that is refused fails at once, and any other is in flight.
      rw [startFetch]
      cases guarded : SafePath.of? raw with
      | none =>
          refine balanced.moved (late rfl) ?_
          simp [writes, spares, found, ended, next, guarded, Walk.counts, Walk.fetches,
            Stage.inFlight]
          omega
      | some path =>
          cases excluded : before.index.isExcluded path.rel <;>
            refine balanced.moved (late (by simp [excluded, Stage.beforeWalk])) ?_ <;>
            simp [writes, spares, found, ended, next, guarded, excluded, Walk.counts,
              Walk.fetches, Stage.inFlight] <;> omega
  | forgotten tombstone path unlinked =>
      refine balanced.moved (late rfl) ?_
      simp [writes, spares, found, unlinked, Stage.inFlight]
  | refused fetch chunks answered large =>
      refine balanced.moved (late rfl) ?_
      have small := small_eq_isSome ctx.storage chunks (before.oldData device fetch.path.rel)
      rw [large] at small
      simp [writes, spares, found, answered, small, Stage.inFlight]
  | loaded fetch chunks data answered applied =>
      refine balanced.moved (late rfl) ?_
      have small := small_eq_isSome ctx.storage chunks (before.oldData device fetch.path.rel)
      rw [applied] at small
      simp only [writes, spares, found, answered, small]
      simp [Stage.inFlight]
  | failed fetch data disk watch ready failure =>
      refine balanced.moved (late rfl) ?_
      have failure := congrArg Prod.fst failure
      rw [Outcome.write_fst] at failure
      simp [writes, spares, found, ready, Outcome.write_fst, failure, Stage.inFlight]
  | wrote fetch data disk watch ready success =>
      refine balanced.moved (late rfl) ?_
      simp [writes, spares, found, ready, ← Outcome.write_fst, success, Stage.inFlight]
  | committed fetch data stored =>
      refine balanced.moved (late rfl) ?_
      simp [writes, spares, found, stored, Stage.inFlight]
  | compared source hash asked =>
      refine balanced.moved (fun _ => balanced.early (by rw [asked]; rfl)) ?_
      dsimp only
      split <;> simp [writes, spares, found, asked, Stage.inFlight]
  | walked source tree asked =>
      refine balanced.moved (late rfl) ?_
      have todo := balanced.early (by rw [asked]; rfl)
      simp [writes, spares, found, asked, todo, Stage.inFlight, owed_walkDiff]

/-- **No step unbalances the books.** -/
theorem Balanced.turned (balanced : Balanced ctx number trace task)
    (found : before.tasks[number]? = some task)
    (turned : Turned ctx number before task act after task') :
    Balanced ctx number (trace ++ [(before, act)]) task' := by
  cases turned with
  | left act after other =>
      refine balanced.moved balanced.early ?_
      obtain ⟨none, fine⟩ := quiet_of_other other
      rw [none, fine]
      rfl
  | answered response stage reply =>
      have replied := reply_cases reply
      generalize waiting : task.stage = old at replied
      cases replied with
      | chunks fetch echoed chunks =>
          refine balanced.moved (fun early => absurd early Bool.false_ne_true) ?_
          simp [writes, spares, found, waiting, Stage.inFlight]
      | noChunks fetch response other =>
          refine balanced.moved (fun early => absurd early Bool.false_ne_true) ?_
          have fails : spares ctx number before (.respond number response) = false := by
            simp [spares, found, waiting]
          simp [writes, fails, waiting, Stage.inFlight]
      | _ =>
          have todo := balanced.early (by rw [waiting]; rfl)
          refine balanced.moved (fun _ => todo) ?_
          simp [writes, spares, found, waiting, Stage.inFlight]
  | resumed device middle task' ran => exact balanced.ran found ran

/-- **What a reconciliation reports** are the files it wrote and those that failed. -/
theorem reported_eq {first last : Peer ι} {source : ι} (run : Run (next ctx) first trace last)
    (asked : first.tasks[number]? = some { stage := .askedRoot source })
    (found : last.tasks[number]? = some task) (ended : task.stage = .idle)
    (done : task.todo = []) :
    task.filesSynced = filesWritten number trace + filesFailed ctx number trace := by
  obtain ⟨task', found', balanced⟩ := run.history
    (fun trace peer => ∃ task, peer.tasks[number]? = some task ∧ Balanced ctx number trace task)
    (fun _ _ _ => True) (fun _ _ _ _ => trivial)
    ⟨_, asked, ⟨fun _ => rfl, rfl⟩⟩
    fun trace before act after held _ stepped => by
      obtain ⟨task, found, balanced⟩ := held
      obtain ⟨published, cases⟩ := next_cases stepped
      obtain ⟨task', found', turned⟩ := cases.turned found
      exact ⟨task', found', balanced.turned found turned⟩
  obtain rfl := Option.some.inj (found.symm.trans found')
  have balance := balanced.balance
  rw [ended, done] at balance
  exact balance

/-- **Exactly when a reconciliation reports the files it wrote.** -/
theorem reported_iff {first last : Peer ι} {source : ι} (run : Run (next ctx) first trace last)
    (asked : first.tasks[number]? = some { stage := .askedRoot source })
    (found : last.tasks[number]? = some task) (ended : task.stage = .idle)
    (done : task.todo = []) :
    task.filesSynced = filesWritten number trace ↔
      ∀ entry ∈ trace, spares ctx number entry.1 entry.2 = true := by
  rw [reported_eq run asked found ended done, Nat.add_eq_left, filesFailed, List.countP_eq_zero]
  simp only [Bool.not_eq_true', Bool.not_eq_false]

end Peer

/-! ## A request that fails -/

namespace Peer

attribute [local instance] Sample.blake3

/-- The tree of a peer with one file. -/
def oneFile : Node := (Sample.index .two [5]).tree

/-- A reconciliation with a peer that has one file, up to the request for the file. -/
def upToRequest : List (Act Sample.Site) :=
  [.respond 0 (some (.rootHash oneFile.hash)), .resume 0 {}, .respond 0 (some (.tree oneFile)),
    .resume 0 {}, .resume 0 {}]

/-- A peer that is about to reconcile. -/
def asking : Peer Sample.Site := (Sample.peer .one [1]).spawn (.askedRoot .two)

/-- The task has ended and reports so many files, and has written so many. -/
def reports (files written : Nat) (trace : List (Peer Sample.Site × Act Sample.Site))
    (last : Peer Sample.Site) : Bool :=
  Sample.atEnd last && decide (last.tasks[0]?.map Task.filesSynced = some files) &&
    decide (filesWritten 0 trace = written)

theorem exists_task_of_reports {files written : Nat}
    {trace : List (Peer Sample.Site × Act Sample.Site)} {last : Peer Sample.Site}
    (passed : reports files written trace last = true) :
    ∃ task, last.tasks[0]? = some task ∧ task.stage = .idle ∧ task.todo = [] ∧
      task.filesSynced = files ∧ filesWritten 0 trace = written := by
  simp only [reports, Bool.and_eq_true, decide_eq_true_eq] at passed
  obtain ⟨⟨atEnd, counted⟩, wrote⟩ := passed
  obtain ⟨task, found, counted⟩ := Option.map_eq_some_iff.mp counted
  obtain ⟨ended, done⟩ := Sample.of_atEnd atEnd (List.mem_of_getElem? found)
  exact ⟨task, found, ended, done, counted, wrote⟩

/-- No step of the task fails. -/
def allSpared (_ : List (Peer Sample.Site × Act Sample.Site))
    (entry : Peer Sample.Site × Act Sample.Site) : Bool :=
  spares (Sample.ctx .one) 0 entry.1 entry.2

/-- The request for the file fails, nothing is written, and one file is reported. -/
theorem exists_false_report :
    ∃ trace last task, Run (next (Sample.ctx .one)) asking trace last ∧
      last.tasks[0]? = some task ∧ task.stage = .idle ∧ task.todo = [] ∧
        task.filesSynced ≠ filesWritten 0 trace := by
  obtain ⟨trace, last, run, _, _, passed⟩ := @exists_history_run _ _ (next (Sample.ctx .one)) asking
    (upToRequest ++ [.respond 0 none, .resume 0 {}]) (fun _ _ => true) (reports 1 0)
    (by decide +kernel)
  obtain ⟨task, found, ended, done, counted, wrote⟩ := exists_task_of_reports passed
  refine ⟨trace, last, task, run, found, ended, done, ?_⟩
  rw [counted, wrote]
  exact Nat.one_ne_zero

/-- The same with the file coming through. -/
theorem reported_iff_sample :
    ∃ trace last task, Run (next (Sample.ctx .one)) asking trace last ∧
      last.tasks[0]? = some task ∧ task.filesSynced = 1 ∧
        task.filesSynced = filesWritten 0 trace := by
  obtain ⟨trace, last, run, _, fine, passed⟩ := @exists_history_run _ _ (next (Sample.ctx .one))
    asking (upToRequest ++ [.respond 0 (some (.chunks ['f'] [(0, [5])])), .resume 0 {},
      .resume 0 {}, .resume 0 {}, .resume 0 {}]) allSpared (reports 1 1) (by decide +kernel)
  obtain ⟨task, found, ended, done, counted, _⟩ := exists_task_of_reports passed
  refine ⟨trace, last, task, run, found, counted,
    (reported_iff run rfl found ended done).mpr fun entry member => ?_⟩
  obtain ⟨earlier, later, split⟩ := List.append_of_mem member
  exact fine earlier entry later split

end Peer

end P2Sync
