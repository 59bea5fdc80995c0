import P2Sync.Net.Flight
import P2Sync.Net.Files

/-!
# Peers together

A swarm is a group of peers and what they have published so far. Gossip delivers a
published notification to any peer, any number of times and in any order, through
whichever peer passed it on, and the receiver takes that peer for the source. A request
is answered by the peer it went to, from its index and folder as they are at that moment;
until the asking task goes on the answer may be under way.

A turn of a swarm is a step of one of its peers (`Swarm.step_cases`). What a peer of a
swarm does is therefore read off `Peer.Step`, with what the others contribute to it.
-/

set_option autoImplicit false

namespace P2Sync

/-- A group of peers, with the notifications published so far. -/
structure Swarm (ι : Type) where
  peer : ι → Peer ι
  log : List SyncNotification
  /-- Where someone changed a file and no event for it has been indexed since. No step
  depends on this. -/
  edited : ι → RelPath → Bool

/-- A peer takes its turn. -/
inductive Turn (ι : Type) where
  /-- Something happens at a peer that no other peer has a part in. -/
  | own (site : ι) (act : Act ι)
  | deliver (site source : ι) (notification : SyncNotification) (device : Device)
  /-- The request of a task is answered by the peer it went to. -/
  | serve (site : ι) (task : Nat) (failure : Option String)
  /-- The request of a task fails on the way. -/
  | fail (site : ι) (task : Nat)

/-- The peer a stage has sent a request to, with the request. -/
def Stage.request {ι : Type} : Stage ι → Option (ι × SyncRequest)
  | .asked fetch => some (fetch.source, .getChunks fetch.path.raw fetch.chunkIndices)
  | .askedRoot peer => some (peer, .getRootHash)
  | .askedTree peer => some (peer, .getTree)
  | _ => none

/-- Whether a peer acts without hearing from another one. -/
def Act.isOwn {ι : Type} : Act ι → Bool
  | .notified _ _ _ => false
  | .respond _ _ => false
  | _ => true

namespace Swarm

variable {ι : Type} [DecidableEq ι] [Blake3] (ctx : ι → Ctx ι) (swarm : Swarm ι)

omit [DecidableEq ι] in
/-- What a peer answers to a request. -/
def answerOf (source : ι) (failure : Option String) (request : SyncRequest) : SyncResponse :=
  handleInboundRequest (ctx source).storage (swarm.peer source).index (swarm.peer source).disk
    failure request

omit [DecidableEq ι] in
/-- The peer whose turn it is, and what happens there. -/
def actOf : Turn ι → Option (ι × Act ι)
  | .own site act => if act.isOwn then some (site, act) else none
  | .deliver site source notification device =>
      if notification ∈ swarm.log then some (site, .notified source notification device) else none
  | .serve site task failure =>
      (swarm.peer site).tasks[task]?.bind fun entry =>
        entry.stage.request.map fun (source, request) =>
          (site, .respond task (some (swarm.answerOf ctx source failure request)))
  | .fail site task => some (site, .respond task none)

omit [Blake3] in
/-- Whether a path is still to be indexed after an action of a peer. -/
def stillEdited (site : ι) : Act ι → ι → RelPath → Bool
  | .user disk, other, path =>
      swarm.edited other path ||
        (decide (other = site) && decide (disk.read path ≠ (swarm.peer site).disk.read path))
  | .fsEvent reads, other, path =>
      swarm.edited other path &&
        !(decide (other = site) &&
          decide ((swarm.peer site).indexed (ctx site) reads = some path))
  | _, other, path => swarm.edited other path

/-- One turn. -/
def step (swarm : Swarm ι) (turn : Turn ι) : Option (Swarm ι) :=
  (swarm.actOf ctx turn).bind fun (site, act) =>
    ((swarm.peer site).step (ctx site) act).map fun (after, published) =>
      { peer := Function.update swarm.peer site after
        log := swarm.log ++ published.toList
        edited := swarm.stillEdited ctx site act }

/-! ## Cases of a turn -/

omit [DecidableEq ι] in
/-- What happens at a peer in a turn. -/
inductive Does : Turn ι → ι → Act ι → Prop where
  | own (site : ι) (act : Act ι) (own : act.isOwn = true) : Does (.own site act) site act
  | delivered (site source : ι) (notification : SyncNotification) (device : Device)
      (published : notification ∈ swarm.log) :
      Does (.deliver site source notification device) site (.notified source notification device)
  | served (site : ι) (task : Nat) (failure : Option String) (entry : Task ι) (source : ι)
      (request : SyncRequest) (found : (swarm.peer site).tasks[task]? = some entry)
      (asked : entry.stage.request = some (source, request)) :
      Does (.serve site task failure) site
        (.respond task (some (swarm.answerOf ctx source failure request)))
  | failed (site : ι) (task : Nat) : Does (.fail site task) site (.respond task none)

variable {ctx swarm}

/-- A turn is a step of one peer, the others stay as they are. -/
theorem exists_does {turn : Turn ι} {after : Swarm ι} (stepped : swarm.step ctx turn = some after) :
    ∃ site act next published, Does ctx swarm turn site act ∧
      (swarm.peer site).step (ctx site) act = some (next, published) ∧
        after = ⟨Function.update swarm.peer site next, swarm.log ++ published.toList,
          swarm.stillEdited ctx site act⟩ := by
  obtain ⟨⟨site, act⟩, acted, mapped⟩ := Option.bind_eq_some_iff.mp stepped
  obtain ⟨⟨next, published⟩, taken, rfl⟩ := Option.map_eq_some_iff.mp mapped
  refine ⟨site, act, next, published, ?_, taken, rfl⟩
  cases turn with
  | own site' act' =>
      simp only [actOf, Option.ite_none_right_eq_some, Option.some.injEq, Prod.mk.injEq] at acted
      obtain ⟨own, rfl, rfl⟩ := acted
      exact .own _ _ own
  | deliver site' source notification device =>
      simp only [actOf, Option.ite_none_right_eq_some, Option.some.injEq, Prod.mk.injEq] at acted
      obtain ⟨published, rfl, rfl⟩ := acted
      exact .delivered _ _ _ _ published
  | serve site' task failure =>
      obtain ⟨entry, found, mapped⟩ := Option.bind_eq_some_iff.mp acted
      obtain ⟨⟨source, request⟩, asked, same⟩ := Option.map_eq_some_iff.mp mapped
      cases same
      exact .served _ task failure entry source request found asked
  | fail site' task =>
      cases acted
      exact .failed _ task

/-- **The cases of a turn**: a step of one peer, the others stay as they are. -/
theorem step_cases {turn : Turn ι} {after : Swarm ι}
    (stepped : swarm.step ctx turn = some after) :
    ∃ site act next published, Does ctx swarm turn site act ∧
      Peer.Step (ctx site) (swarm.peer site) act next published ∧
        after = ⟨Function.update swarm.peer site next, swarm.log ++ published.toList,
          swarm.stillEdited ctx site act⟩ := by
  obtain ⟨site, act, next, published, does, taken, after⟩ := exists_does stepped
  exact ⟨site, act, next, published, does, Peer.step_cases taken, after⟩

omit [DecidableEq ι] in
/-- An answer comes from the peer that was asked. -/
theorem Does.answered {turn : Turn ι} {site : ι} {number : Nat} {response : SyncResponse}
    (does : Does ctx swarm turn site (.respond number (some response))) :
    ∃ failure task source request, turn = .serve site number failure ∧
      (swarm.peer site).tasks[number]? = some task ∧
        task.stage.request = some (source, request) ∧
          response = swarm.answerOf ctx source failure request := by
  generalize same : Act.respond number (some response) = act at does
  cases does with
  | own _ _ own =>
      rw [← same] at own
      exact absurd own Bool.false_ne_true
  | delivered => cases same
  | served _ task failure entry source request found asked =>
      cases same
      exact ⟨failure, entry, source, request, rfl, found, asked, rfl⟩
  | failed => cases same

/-- What a turn does to the task of a peer with a number. -/
inductive Turned (ctx : ι → Ctx ι) (before : Swarm ι) (site : ι) (number : Nat) (task : Task ι) :
    Turn ι → Swarm ι → Task ι → Prop where
  | left (turn : Turn ι) (after : Swarm ι) : Turned ctx before site number task turn after task
  | served (failure : Option String) (source : ι) (request : SyncRequest) (stage : Stage ι)
      (after : Swarm ι) (requested : task.stage.request = some (source, request))
      (reply : Peer.answer task.stage (some (before.answerOf ctx source failure request)) =
        some stage) :
      Turned ctx before site number task (.serve site number failure) after
        { task with stage := stage }
  | failed (stage : Stage ι) (after : Swarm ι) (reply : Peer.answer task.stage none = some stage) :
      Turned ctx before site number task (.fail site number) after { task with stage := stage }
  | resumed (device : Device) (middle : Peer ι) (task' : Task ι) (after : Swarm ι)
      (ran : Peer.Ran (ctx site) device (before.peer site) task middle task')
      (here : after.peer site = { middle with tasks := middle.tasks.set number task' }) :
      Turned ctx before site number task (.own site (.resume number device)) after task'

/-- **What becomes of a task in a turn.** -/
theorem turned {turn : Turn ι} {after : Swarm ι} (stepped : swarm.step ctx turn = some after)
    {site : ι} {number : Nat} {task : Task ι}
    (found : (swarm.peer site).tasks[number]? = some task) :
    ∃ task', (after.peer site).tasks[number]? = some task' ∧
      Turned ctx swarm site number task turn after task' := by
  obtain ⟨site', act, next, published, does, cases, rfl⟩ := step_cases stepped
  dsimp only
  by_cases here : site' = site
  · subst here
    obtain ⟨task', found', turned⟩ := cases.turned found
    refine ⟨task', by rw [Function.update_self, found'], ?_⟩
    cases turned with
    | left => exact .left _ _
    | answered response stage reply =>
        cases does with
        | own _ _ own => exact absurd own Bool.false_ne_true
        | served _ _ failure entry source request found'' requested =>
            obtain rfl := Option.some.inj (found.symm.trans found'')
            exact .served failure source request stage _ requested reply
        | failed => exact .failed stage _ reply
    | resumed device middle task' ran =>
        cases does with
        | own => exact .resumed device middle task' _ ran (Function.update_self ..)
  · refine ⟨task, ?_, .left _ _⟩
    rw [Function.update_of_ne (Ne.symm here), found]

/-! ## Fetches come to their end -/

/-- The turns in which nothing fails and nobody touches a file. -/
inductive Exchange : Turn ι → Prop where
  | delivered (site source : ι) (notification : SyncNotification) :
      Exchange (.deliver site source notification {})
  | served (site : ι) (task : Nat) : Exchange (.serve site task none)
  | resumed (site : ι) (task : Nat) : Exchange (.own site (.resume task {}))

variable (ctx) in
theorem step_of {turn : Turn ι} {site : ι} {act : Act ι} {next : Peer ι}
    {published : Option SyncNotification} (acted : swarm.actOf ctx turn = some (site, act))
    (taken : (swarm.peer site).step (ctx site) act = some (next, published)) :
    swarm.step ctx turn = some ⟨Function.update swarm.peer site next,
      swarm.log ++ published.toList, swarm.stillEdited ctx site act⟩ := by
  rw [step, acted, Option.bind_some]
  dsimp only
  rw [taken]
  rfl

/-- The swarms that differ in one task of one peer, and in that peer's files and index. -/
structure Moved (before : Swarm ι) (site : ι) (number : Nat) (task : Task ι) (after : Swarm ι) :
    Prop where
  log : after.log = before.log
  others : ∀ other, other ≠ site → after.peer other = before.peer other
  tasks : (after.peer site).tasks = (before.peer site).tasks.set number task

omit [DecidableEq ι] [Blake3] in
theorem Moved.trans {before middle after : Swarm ι} {site : ι} {number : Nat}
    {first second : Task ι} (earlier : Moved before site number first middle)
    (later : Moved middle site number second after) : Moved before site number second after where
  log := later.log.trans earlier.log
  others other apart := (later.others other apart).trans (earlier.others other apart)
  tasks := by rw [later.tasks, earlier.tasks, List.set_set]

omit [Blake3] in
theorem moved_update {site : ι} {number : Nat} {task : Task ι} {next : Peer ι}
    {edited : ι → RelPath → Bool}
    (tasks : next.tasks = (swarm.peer site).tasks.set number task) :
    Moved swarm site number task
      ⟨Function.update swarm.peer site next, swarm.log ++ (none : Option SyncNotification).toList,
        edited⟩ where
  log := List.append_nil _
  others other apart := Function.update_of_ne apart _ _
  tasks := by
    dsimp only
    rw [Function.update_self, tasks]

/-- A fetch can always go on. -/
theorem exists_turn {site : ι} {number : Nat} {task : Task ι}
    (found : (swarm.peer site).tasks[number]? = some task)
    (working : task.stage.fetch?.isSome = true) :
    ∃ turn after stage, Exchange turn ∧ swarm.step ctx turn = some after ∧
      Moved swarm site number { task with stage := stage } after ∧
        (stage = .idle ∨
          stage.fetch?.isSome = true ∧ task.stage.progress < stage.progress) := by
  have resume : ∀ {next : Peer ι} {task' : Task ι},
      (swarm.peer site).runTask (ctx site) {} task = some (next, task') →
        ∃ after, swarm.step ctx (.own site (.resume number {})) = some after ∧
          Moved swarm site number task' after := by
    intro next task' ran
    have taken : (swarm.peer site).step (ctx site) (.resume number {}) =
        some ({ next with tasks := next.tasks.set number task' }, none) := by
      rw [Peer.step, found, Option.bind_some, ran]
      rfl
    refine ⟨_, step_of ctx rfl taken, moved_update ?_⟩
    rw [(Peer.run_cases ran).tasks]
  cases stage : task.stage with
  | asked fetch =>
      have reply : ∃ stage', Peer.answer task.stage (some (swarm.answerOf ctx fetch.source none
          (.getChunks fetch.path.raw fetch.chunkIndices))) = some stage' ∧
            (stage' = .idle ∨ stage'.fetch?.isSome = true ∧ 0 < stage'.progress) := by
        rw [stage, Peer.answer.eq_def]
        cases swarm.answerOf ctx fetch.source none
            (.getChunks fetch.path.raw fetch.chunkIndices) with
        | chunks path chunks => exact ⟨_, rfl, Or.inr ⟨rfl, Nat.zero_lt_one⟩⟩
        | _ => exact ⟨_, rfl, Or.inl rfl⟩
      obtain ⟨stage', reply, later⟩ := reply
      have acted : swarm.actOf ctx (.serve site number none) =
          some (site, .respond number (some (swarm.answerOf ctx fetch.source none
            (.getChunks fetch.path.raw fetch.chunkIndices)))) := by
        rw [actOf, found, Option.bind_some, stage]
        rfl
      have taken : (swarm.peer site).step (ctx site) (.respond number (some (swarm.answerOf ctx
          fetch.source none (.getChunks fetch.path.raw fetch.chunkIndices)))) =
            some ({ swarm.peer site with
              tasks := (swarm.peer site).tasks.set number { task with stage := stage' } },
              none) := by
        rw [Peer.step, found, Option.bind_some, reply]
        rfl
      exact ⟨_, _, stage', .served site number, step_of ctx acted taken, moved_update rfl, later⟩
  | answered fetch chunks =>
      cases assembled : applyChunks (ctx site).storage chunks
          ((swarm.peer site).oldData {} fetch.path.rel) with
      | none =>
          obtain ⟨after, stepped, moved⟩ :=
            resume (by rw [Peer.runTask, stage]; dsimp only; rw [assembled])
          exact ⟨_, after, _, .resumed site number, stepped, moved, Or.inl rfl⟩
      | some data =>
          obtain ⟨after, stepped, moved⟩ :=
            resume (by rw [Peer.runTask, stage]; dsimp only; rw [assembled])
          exact ⟨_, after, _, .resumed site number, stepped, moved, Or.inr ⟨rfl, Nat.one_lt_two⟩⟩
  | loaded fetch data =>
      obtain ⟨after, stepped, moved⟩ := resume (by rw [Peer.runTask, stage])
      refine ⟨_, after, _, .resumed site number, stepped, moved, ?_⟩
      split
      · exact Or.inr ⟨rfl, Nat.lt_add_one 2⟩
      · exact Or.inl rfl
  | written fetch data =>
      obtain ⟨after, stepped, moved⟩ := resume (by rw [Peer.runTask, stage])
      exact ⟨_, after, _, .resumed site number, stepped, moved, Or.inl rfl⟩
  | _ =>
      rw [stage] at working
      exact absurd working Bool.false_ne_true

/-- **A fetch in flight can be brought to its end** without a failure, and without anything
else happening. -/
theorem exists_end {first current : Swarm ι} {trace : List (Swarm ι × Turn ι)}
    {site : ι} {number : Nat}
    {task : Task ι} (run : Run (step ctx) first trace current)
    (found : (current.peer site).tasks[number]? = some task)
    (working : task.stage.fetch?.isSome = true) :
    ∃ more after, Run (step ctx) first (trace ++ more) after ∧
      (∀ entry ∈ more, Exchange entry.2) ∧
        Moved current site number { task with stage := .idle } after := by
  obtain ⟨turn, next, stage, exchange, stepped, moved, ended | ⟨working', later⟩⟩ :=
    exists_turn found working
  · refine ⟨[(current, turn)], next, run.snoc stepped, ?_, ended ▸ moved⟩
    exact fun entry member => List.mem_singleton.mp member ▸ exchange
  · have found' : (next.peer site).tasks[number]? = some { task with stage := stage } := by
      rw [moved.tasks, List.getElem?_set_self (List.getElem?_eq_some_iff.mp found).1]
    have going : ({ task with stage := stage } : Task ι).stage.fetch?.isSome = true := working'
    obtain ⟨more, after, whole, exchanges, moved'⟩ :=
      exists_end (run.snoc stepped) found' going
    refine ⟨(current, turn) :: more, after, by simpa using whole, fun entry member => ?_,
      moved.trans moved'⟩
    rcases List.mem_cons.mp member with rfl | member
    · exact exchange
    · exact exchanges entry member
termination_by 3 - task.stage.progress
decreasing_by
  have bound : stage.progress ≤ 3 := by cases stage <;> simp [Stage.progress]
  omega

end Swarm

/-! ## A concrete swarm -/

namespace Sample

attribute [local instance] blake3

/-- Three peers that have just indexed a folder with the file `f`. -/
def swarm (data : Site → Bytes) : Swarm Site :=
  ⟨fun site => peer site (data site), [], fun _ _ => false⟩

/-- A peer saves new content of `f`, and the event is taken up. -/
def saves (site : Site) (data : Bytes) : List (Turn Site) :=
  [.own site (.user (folder data)), .own site (.watched (.modified path)),
    .own site (.fsEvent ⟨true, some data, some data⟩)]

/-- What a peer publishes after its first edit of `f`, at second 10. -/
def update (number : UInt8) (data : Bytes) : SyncNotification :=
  .fileChanged ['f'] (Chunk.fileHash (Chunk.metadata data 2)) (Chunk.metadata data 2)
    (VectorClock.new.tick (peerId number)) 10 (peerId number)

/-- A task goes through all stretches of a fetch. -/
def fetches (site : Site) (task : Nat) : List (Turn Site) :=
  [.serve site task none, .own site (.resume task {}), .own site (.resume task {}),
    .own site (.resume task {})]

/-- No task of the peer has anything left to do. -/
def atEnd (peer : Peer Site) : Bool :=
  peer.tasks.all fun task =>
    (match task.stage with | .idle => true | _ => false) && task.todo.isEmpty

theorem of_atEnd {peer : Peer Site} (ended : atEnd peer = true) {task : Task Site}
    (member : task ∈ peer.tasks) : task.stage = .idle ∧ task.todo = [] := by
  have both := List.all_eq_true.mp ended task member
  rw [Bool.and_eq_true, List.isEmpty_iff] at both
  refine ⟨?_, both.2⟩
  cases stage : task.stage <;> rw [stage] at both <;>
    first | rfl | exact absurd both.1 Bool.false_ne_true

end Sample

end P2Sync
