import P2Sync.Net.Start

/-!
# One fetch from start to end

`fetchAndApply` is the whole of `fetch_and_apply` when nothing else happens at the peer in
the meantime, with all its exits (`FetchEnd`). It is what the stretches of a fetching task
do one after another (`fetchAndApply_run`).

A fetch that is answered writes the bytes its loop makes of the old file and the chunks
(`applyFetched_cases`); every other fetch changes nothing (`fetchAndApply_cases`).
-/

set_option autoImplicit false

namespace P2Sync

/-- How a call of `fetch_and_apply` ends. -/
inductive FetchEnd where
  /-- The path is no path below the root. -/
  | rejected
  | excluded
  | requestFailed
  /-- The peer answered with an error. -/
  | peerError
  /-- The peer answered another question. -/
  | unexpected
  /-- A chunk ends past the size limit. -/
  | tooLarge
  | writeFailed
  | synced
deriving DecidableEq

namespace Peer

variable {ι : Type} [Blake3] (ctx : Ctx ι) (device : Device)

/-- The end of `fetch_and_apply`, with the chunks of the answer at hand. -/
def applyFetched (chunks : List (Nat × Bytes)) (path : SafePath) (origin : RemoteOrigin)
    (peer : Peer ι) : Peer ι × FetchEnd :=
  match applyChunks ctx.storage chunks (peer.oldData device path.rel) with
  | none => (peer, .tooLarge)
  | some data =>
      let (success, disk) :=
        device.writes.write path.rel data (peer.makeParents device path.rel)
      let peer := { peer.markWrite path.rel with disk := disk }
      if success then
        ({ peer with index := peer.index.fetched path.rel data ctx.storage.chunkSize origin },
          .synced)
      else (peer, .writeFailed)

/-- `fetch_and_apply`; `ask` sends a request to the other peer and waits for the answer. -/
def fetchAndApply (ask : SyncRequest → Option SyncResponse) (path : Str)
    (chunkIndices : List Nat) (origin : RemoteOrigin) (peer : Peer ι) : Peer ι × FetchEnd :=
  match SafePath.of? path with
  | none => (peer, .rejected)
  | some path =>
      if peer.index.isExcluded path.rel then (peer, .excluded)
      else
        match ask (.getChunks path.raw chunkIndices) with
        | some (.chunks _ chunks) => peer.applyFetched ctx device chunks path origin
        | some (.error _) => (peer, .peerError)
        | some _ => (peer, .unexpected)
        | none => (peer, .requestFailed)

omit [Blake3] in
/-- The steps of the task with a number, from its answer on. -/
def fetchSteps (number : Nat) (response : Option SyncResponse) : List (Act ι) :=
  [.respond number response, .resume number device, .resume number device, .resume number device]

variable {ctx device} {peer : Peer ι} {path : SafePath} {origin : RemoteOrigin}
  {chunks : List (Nat × Bytes)} {data : Bytes}

/-! ## Exits -/

/-- What a fetch does whose write succeeds. -/
theorem applyFetched_synced {disk : Disk}
    (assembled : applyChunks ctx.storage chunks (peer.oldData device path.rel) = some data)
    (written : device.writes.write path.rel data (peer.makeParents device path.rel) =
      (true, disk)) :
    peer.applyFetched ctx device chunks path origin =
      ({ peer.markWrite path.rel with
        disk := disk
        index := peer.index.fetched path.rel data ctx.storage.chunkSize origin }, .synced) := by
  rw [applyFetched, assembled]
  dsimp only
  rw [written]
  rfl

/-- What a fetch does whose write fails. -/
theorem applyFetched_writeFailed {disk : Disk}
    (assembled : applyChunks ctx.storage chunks (peer.oldData device path.rel) = some data)
    (written : device.writes.write path.rel data (peer.makeParents device path.rel) =
      (false, disk)) :
    peer.applyFetched ctx device chunks path origin =
      ({ peer.markWrite path.rel with disk := disk }, .writeFailed) := by
  rw [applyFetched, assembled]
  dsimp only
  rw [written]
  rfl

theorem applyFetched_tooLarge
    (refused : applyChunks ctx.storage chunks (peer.oldData device path.rel) = none) :
    peer.applyFetched ctx device chunks path origin = (peer, .tooLarge) := by
  rw [applyFetched, refused]

/-- The rest of a fetch with an answer: it is refused as a whole, or written. -/
theorem applyFetched_cases (ctx : Ctx ι) (device : Device) (peer : Peer ι)
    (chunks : List (Nat × Bytes)) (path : SafePath) (origin : RemoteOrigin) :
    (applyChunks ctx.storage chunks (peer.oldData device path.rel) = none ∧
        peer.applyFetched ctx device chunks path origin = (peer, .tooLarge)) ∨
      ∃ data disk,
        applyChunks ctx.storage chunks (peer.oldData device path.rel) = some data ∧
          (device.writes.write path.rel data (peer.makeParents device path.rel) = (true, disk) ∧
            peer.applyFetched ctx device chunks path origin =
              ({ peer.markWrite path.rel with
                disk := disk
                index := peer.index.fetched path.rel data ctx.storage.chunkSize origin },
                .synced) ∨
          device.writes.write path.rel data (peer.makeParents device path.rel) = (false, disk) ∧
            peer.applyFetched ctx device chunks path origin =
              ({ peer.markWrite path.rel with disk := disk }, .writeFailed)) := by
  cases assembled : applyChunks ctx.storage chunks (peer.oldData device path.rel) with
  | none => exact Or.inl ⟨rfl, applyFetched_tooLarge assembled⟩
  | some data =>
      cases written : device.writes.write path.rel data (peer.makeParents device path.rel) with
      | mk success disk =>
          refine Or.inr ⟨data, disk, rfl, ?_⟩
          cases success with
          | true => exact Or.inl ⟨written, applyFetched_synced assembled written⟩
          | false => exact Or.inr ⟨written, applyFetched_writeFailed assembled written⟩

variable {ask : SyncRequest → Option SyncResponse} {chunkIndices : List Nat}

/-- A fetch of an included path that is answered goes on with the chunks. -/
theorem fetchAndApply_answered {raw : Str} (included : peer.index.isExcluded path.rel = false)
    (answered : ask (.getChunks path.raw chunkIndices) = some (.chunks raw chunks)) :
    peer.fetchAndApply ctx device ask path.raw chunkIndices origin =
      peer.applyFetched ctx device chunks path origin := by
  rw [fetchAndApply, SafePath.of?_raw]
  dsimp only
  rw [if_neg (by rw [included]; exact Bool.false_ne_true), answered]

/-- **A fetch changes nothing, or goes on with the chunks of an answer.** -/
theorem fetchAndApply_cases (ctx : Ctx ι) (device : Device)
    (ask : SyncRequest → Option SyncResponse) (raw : Str) (chunkIndices : List Nat)
    (peer : Peer ι) (origin : RemoteOrigin) :
    ((peer.fetchAndApply ctx device ask raw chunkIndices origin).1 = peer ∧
        (peer.fetchAndApply ctx device ask raw chunkIndices origin).2 ≠ .synced) ∨
      ∃ (path : SafePath) (echoed : Str) (chunks : List (Nat × Bytes)), path.raw = raw ∧
        peer.index.isExcluded path.rel = false ∧
          ask (.getChunks path.raw chunkIndices) = some (.chunks echoed chunks) ∧
            peer.fetchAndApply ctx device ask raw chunkIndices origin =
              peer.applyFetched ctx device chunks path origin := by
  cases guarded : SafePath.of? raw with
  | none =>
      rw [fetchAndApply, guarded]
      exact Or.inl ⟨rfl, by simp⟩
  | some path =>
      obtain rfl := SafePath.of?_eq_some_iff.mp guarded
      cases excluded : peer.index.isExcluded path.rel with
      | true =>
          rw [fetchAndApply, guarded]
          dsimp only
          rw [if_pos excluded]
          exact Or.inl ⟨rfl, by simp⟩
      | false =>
          cases answered : ask (.getChunks path.raw chunkIndices) with
          | none =>
              rw [fetchAndApply, guarded]
              dsimp only
              rw [if_neg (by rw [excluded]; exact Bool.false_ne_true), answered]
              exact Or.inl ⟨rfl, by simp⟩
          | some response =>
              cases response with
              | chunks echoed chunks =>
                  exact Or.inr ⟨path, echoed, chunks, rfl, excluded, answered,
                    fetchAndApply_answered excluded answered⟩
              | _ =>
                  rw [fetchAndApply, guarded]
                  dsimp only
                  rw [if_neg (by rw [excluded]; exact Bool.false_ne_true), answered]
                  exact Or.inl ⟨rfl, by simp⟩

/-! ## The stretches of a fetching task -/

section Stretches

variable {stage next' : Stage ι} {fetch : Fetch ι}

omit [Blake3] in
theorem spawn_set {after : Peer ι} (same : after.tasks = (peer.spawn stage).tasks) :
    { after with tasks := after.tasks.set peer.tasks.length { stage := next' } } =
      { after with tasks := peer.tasks }.spawn next' := by
  rw [same, spawn, spawn]
  simp

theorem next_spawn_respond (response : Option SyncResponse) :
    (peer.spawn stage).next ctx (.respond peer.tasks.length response) =
      (answer stage response).map peer.spawn := by
  rw [next_respond (spawn_getElem? rfl)]
  cases answer stage response with
  | none => rfl
  | some next' => exact congrArg some (spawn_set rfl)

theorem next_spawn_resume (after : Peer ι)
    (ran : (peer.spawn stage).runTask ctx device { stage := stage } =
      some (after, { stage := next' })) (same : after.tasks = (peer.spawn stage).tasks) :
    (peer.spawn stage).next ctx (.resume peer.tasks.length device) =
      some ({ after with tasks := peer.tasks }.spawn next') := by
  rw [next_resume (spawn_getElem? rfl), ran]
  exact congrArg some (spawn_set same)

theorem next_spawn_answered (assembled : Option Bytes)
    (applied : applyChunks ctx.storage chunks (peer.oldData device fetch.path.rel) = assembled) :
    (peer.spawn (.answered fetch chunks)).next ctx (.resume peer.tasks.length device) =
      some (peer.spawn (assembled.elim .idle (.loaded fetch))) := by
  subst applied
  refine next_spawn_resume (peer.spawn (.answered fetch chunks)) ?_ rfl
  have old : (peer.spawn (.answered fetch chunks)).oldData device fetch.path.rel =
      peer.oldData device fetch.path.rel := rfl
  simp only [runTask, old]
  cases applyChunks ctx.storage chunks (peer.oldData device fetch.path.rel) <;> rfl

theorem next_spawn_loaded {success : Bool} {disk : Disk}
    (written : device.writes.write fetch.path.rel data (peer.makeParents device fetch.path.rel) =
      (success, disk)) :
    (peer.spawn (.loaded fetch data)).next ctx (.resume peer.tasks.length device) =
      some ({ peer.markWrite fetch.path.rel with disk := disk }.spawn
        (if success then .written fetch data else .idle)) := by
  have parents : (peer.spawn (.loaded fetch data)).makeParents device fetch.path.rel =
      peer.makeParents device fetch.path.rel := rfl
  refine next_spawn_resume
    { (peer.spawn (.loaded fetch data)).markWrite fetch.path.rel with disk := disk } ?_ rfl
  simp only [runTask, parents, written]

theorem next_spawn_written :
    (peer.spawn (.written fetch data)).next ctx (.resume peer.tasks.length device) =
      some ({ peer with
        index := peer.index.fetched fetch.path.rel data ctx.storage.chunkSize fetch.origin }.spawn
          .idle) :=
  next_spawn_resume { peer.spawn (.written fetch data) with
    index := peer.index.fetched fetch.path.rel data ctx.storage.chunkSize fetch.origin } rfl rfl

end Stretches

/-- The stretches of an answered fetch are the rest of `fetch_and_apply`. -/
theorem applyFetched_run (ctx : Ctx ι) (device : Device) (peer : Peer ι)
    (chunks : List (Nat × Bytes)) (fetch : Fetch ι) :
    ∃ acts, acts <+: [.resume peer.tasks.length device, .resume peer.tasks.length device,
        .resume peer.tasks.length device] ∧
      runActs (next ctx) (peer.spawn (.answered fetch chunks)) acts =
        some ((peer.applyFetched ctx device chunks fetch.path fetch.origin).1.spawn .idle) := by
  rcases applyFetched_cases ctx device peer chunks fetch.path fetch.origin with
    ⟨refused, result⟩ | ⟨data, disk, assembled, ⟨written, result⟩ | ⟨written, result⟩⟩
  · refine ⟨[.resume peer.tasks.length device], by simp, ?_⟩
    rw [result, runActs, next_spawn_answered none refused]
    rfl
  · refine ⟨_, List.prefix_refl _, ?_⟩
    rw [result, runActs, next_spawn_answered _ assembled, Option.bind_some, Option.elim_some,
      runActs, next_spawn_loaded written, Option.bind_some, if_pos rfl, runActs]
    exact Option.bind_eq_some_iff.mpr ⟨_, next_spawn_written, rfl⟩
  · refine ⟨[.resume peer.tasks.length device, .resume peer.tasks.length device], by simp, ?_⟩
    rw [result, runActs, next_spawn_answered _ assembled, Option.bind_some, Option.elim_some,
      runActs, next_spawn_loaded written, Option.bind_some, if_neg Bool.false_ne_true]
    rfl

/-- **The stretches of a fetching task are `fetch_and_apply`**, when nothing comes between
them. -/
theorem fetchAndApply_run (source : ι) (raw : Str) (cause : Cause) :
    ∃ acts, acts <+: fetchSteps device peer.tasks.length (ask (.getChunks raw chunkIndices)) ∧
      runActs (next ctx) (peer.spawn (peer.startFetch source raw chunkIndices origin cause)) acts =
        some ((peer.fetchAndApply ctx device ask raw chunkIndices origin).1.spawn .idle) := by
  rw [startFetch, fetchAndApply]
  cases guarded : SafePath.of? raw with
  | none => exact ⟨[], List.nil_prefix, rfl⟩
  | some path =>
      obtain rfl := SafePath.of?_eq_some_iff.mp guarded
      dsimp only
      split
      · exact ⟨[], List.nil_prefix, rfl⟩
      · cases answered : ask (.getChunks path.raw chunkIndices) with
        | none =>
            refine ⟨[.respond peer.tasks.length none], by simp [fetchSteps], ?_⟩
            rw [runActs, next_spawn_respond]
            rfl
        | some response =>
            cases response with
            | chunks echoed chunks =>
                obtain ⟨acts, stretches, ran⟩ := applyFetched_run ctx device peer chunks
                  ⟨source, path, chunkIndices, origin, cause⟩
                refine ⟨.respond peer.tasks.length (some (.chunks echoed chunks)) :: acts,
                  List.cons_prefix_cons.mpr ⟨rfl, stretches⟩, ?_⟩
                rw [runActs, next_spawn_respond]
                exact ran
            | _ =>
                refine ⟨[.respond peer.tasks.length (some _)], List.cons_prefix_cons.mpr
                  ⟨rfl, List.nil_prefix⟩, ?_⟩
                rw [runActs, next_spawn_respond]
                rfl

end Peer

end P2Sync
