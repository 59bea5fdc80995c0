import P2Sync.Net.Promise

/-!
# Requests answered in one turn

Between a request and its reply a mesh takes many moves: the request waits for space, travels,
waits in line, is answered, and the answer goes the same way back. In a swarm a request is
answered in one turn. A run of a mesh is a run of a swarm all the same: what the peers do and
hear, other than replies, happens in the same order, and they end up the same
(`Mesh.refines_swarm`).

The turn is the one in which the asked peer makes the answer. In the swarm the task that asked has
its answer then, and in the mesh only when it arrives. An answer may also be lost on its way back,
and then the swarm must not give it. So how the two stand to each other depends on which of the
answers on their way will arrive, which is known at the end of the run only.
-/

set_option autoImplicit false

namespace P2Sync

namespace Peer

variable {ι : Type}

/-- A peer with other tasks. -/
def withTasks (peer : Peer ι) (tasks : List (Task ι)) : Peer ι := { peer with tasks := tasks }

variable [Blake3] {ctx : Ctx ι} {device : Device} {before after : Peer ι} {tasks : List (Task ι)}

/-! ## Tasks apart from each other -/

/-- A task does not look at the others. -/
theorem runTask_withTasks (task : Task ι) :
    (before.withTasks tasks).runTask ctx device task =
      (before.runTask ctx device task).map fun ran => (ran.1.withTasks tasks, ran.2) := by
  rw [runTask, runTask]
  cases task.stage with
  | idle =>
      cases task.todo with
      | nil => rfl
      | cons walk rest => cases walk <;> rfl
  | answered fetch chunks =>
      have same : (before.withTasks tasks).oldData device fetch.path.rel =
        before.oldData device fetch.path.rel := rfl
      dsimp only
      rw [same]
      cases applyChunks ctx.storage chunks (before.oldData device fetch.path.rel) <;> rfl
  | _ => rfl

/-- A task that waits does not run. -/
theorem runTask_eq_none {task : Task ι} (waits : task.stage.request.isSome = true) :
    before.runTask ctx device task = none := by
  rw [runTask]
  cases stage : task.stage with
  | asked | askedRoot | askedTree => rfl
  | _ =>
      rw [stage] at waits
      exact absurd waits Bool.false_ne_true

/-- A touched file is nothing to the tasks. -/
theorem handleTouched_withTasks (reads : FsReads) (path : RelPath) :
    (before.handleTouched ctx reads path).1.tasks = before.tasks ∧
      (before.withTasks tasks).handleTouched ctx reads path =
        ((before.handleTouched ctx reads path).1.withTasks tasks,
          (before.handleTouched ctx reads path).2) := by
  unfold handleTouched withTasks
  dsimp only
  repeat' split
  all_goals exact ⟨rfl, rfl⟩

theorem handleFsEvent_withTasks (reads : FsReads) (event : FsEvent) :
    (before.handleFsEvent ctx reads event).1.tasks = before.tasks ∧
      (before.withTasks tasks).handleFsEvent ctx reads event =
        ((before.handleFsEvent ctx reads event).1.withTasks tasks,
          (before.handleFsEvent ctx reads event).2) := by
  cases event with
  | created path | modified path => exact handleTouched_withTasks reads path
  | removed path => exact ⟨rfl, rfl⟩

omit [Blake3] in
theorem backUp_withTasks (path : SafePath) (loser : PeerId) :
    (before.backUp device path loser).tasks = before.tasks ∧
      (before.withTasks tasks).backUp device path loser =
        (before.backUp device path loser).withTasks tasks := by
  unfold backUp withTasks
  dsimp only
  split <;> exact ⟨rfl, rfl⟩

omit [Blake3] in
/-- A notification may start a task, which comes last. -/
theorem handleNotification_withTasks (source : ι) (notification : SyncNotification) :
    ∃ spawned, (before.handleNotification ctx device source notification).tasks =
        before.tasks ++ spawned ∧
      (before.withTasks tasks).handleNotification ctx device source notification =
        (before.handleNotification ctx device source notification).withTasks
          (tasks ++ spawned) := by
  have nothing : ∃ spawned, before.tasks = before.tasks ++ spawned ∧
      before.withTasks tasks = before.withTasks (tasks ++ spawned) :=
    ⟨[], (List.append_nil _).symm, by rw [List.append_nil]⟩
  cases notification with
  | peerJoined peer => exact nothing
  | fileChanged raw hash chunks clock timestamp writer =>
      rw [handleNotification, handleNotification]
      dsimp only [withTasks] at nothing ⊢
      by_cases own : writer = ctx.localId
      · rw [if_pos own, if_pos own]
        exact nothing
      · rw [if_neg own, if_neg own]
        cases SafePath.of? raw with
        | none => exact nothing
        | some path =>
            dsimp only
            cases resolve (before.index.clockOf path.rel) clock
                (before.index.lastModifiedOf path.rel) timestamp writer ctx.localId with
            | accept => exact ⟨[_], rfl, rfl⟩
            | reject => exact nothing
            | conflict loser =>
                dsimp only
                by_cases lost : loser = ctx.localId
                · rw [if_pos lost, if_pos lost]
                  obtain ⟨kept, moved⟩ := @backUp_withTasks _ device before tasks path loser
                  dsimp only [withTasks] at moved
                  rw [moved]
                  exact ⟨[_], congrArg (· ++ [_]) kept, rfl⟩
                · rw [if_neg lost, if_neg lost]
                  exact ⟨[_], rfl, rfl⟩
  | fileDeleted tombstone =>
      rw [handleNotification, handleNotification]
      dsimp only [withTasks] at nothing ⊢
      by_cases own : tombstone.deletedBy = ctx.localId
      · rw [if_pos own, if_pos own]
        exact nothing
      · rw [if_neg own, if_neg own]
        cases SafePath.of? tombstone.path with
        | none => exact nothing
        | some path => exact ⟨[_], rfl, rfl⟩

/-- **What happens at a peer does not depend on its tasks**, replies and the tasks' own steps
apart. New tasks come last. -/
theorem step_withTasks {act : Act ι} {published : Option SyncNotification}
    (other : ∀ number response, act ≠ .respond number response)
    (other' : ∀ number device, act ≠ .resume number device)
    (stepped : before.step ctx act = some (after, published)) :
    ∃ spawned, after.tasks = before.tasks ++ spawned ∧
      (before.withTasks tasks).step ctx act =
        some (after.withTasks (tasks ++ spawned), published) := by
  have nothing : before.tasks = before.tasks ++ [] := (List.append_nil _).symm
  cases act with
  | elapse | setTime | user | watched =>
      cases stepped
      refine ⟨[], nothing, ?_⟩
      rw [List.append_nil]
      rfl
  | fsEvent reads =>
      refine ⟨[], ?_⟩
      rw [List.append_nil, List.append_nil]
      rw [step] at stepped ⊢
      have same : (before.withTasks tasks).watch.fsQueue = before.watch.fsQueue := rfl
      rw [same]
      cases queue : before.watch.fsQueue with
      | nil =>
          rw [queue] at stepped
          exact absurd stepped (Option.some_ne_none _).symm
      | cons event rest =>
          rw [queue] at stepped
          dsimp only at stepped ⊢
          by_cases pushing : ctx.noPush = true
          · rw [if_pos pushing] at stepped ⊢
            cases stepped
            exact ⟨rfl, rfl⟩
          · rw [if_neg pushing] at stepped ⊢
            obtain ⟨kept, same⟩ := @handleFsEvent_withTasks _ _ ctx
              { before with watch := { before.watch with fsQueue := rest } } tasks reads event
            rw [Option.some.inj stepped] at kept same
            exact ⟨kept, congrArg some same⟩
  | notified source notification device =>
      rw [step] at stepped ⊢
      cases stepped
      by_cases pulling : ctx.noPull = true
      · rw [if_pos pulling, if_pos pulling]
        exact ⟨[], nothing, by rw [List.append_nil]⟩
      · rw [if_neg pulling, if_neg pulling]
        obtain ⟨spawned, last, same⟩ := @handleNotification_withTasks _ ctx device before tasks
          source notification
        exact ⟨spawned, last, by rw [same]⟩
  | discovered source =>
      cases stepped
      exact ⟨[_], rfl, rfl⟩
  | respond number response => exact absurd rfl (other number response)
  | resume number device => exact absurd rfl (other' number device)

end Peer

/-! ## What can be seen -/

/-- What happens at a peer in a turn, other than replies that come in. -/
def Swarm.shown {ι : Type} (_ : Swarm ι) : Turn ι → List (ι × Act ι)
  | .own site act => [(site, act)]
  | .deliver site source notification device => [(site, .notified source notification device)]
  | .serve _ _ _ => []
  | .fail site task => [(site, .respond task none)]

/-- What happens at a peer in a step of its loops, other than replies that come in. -/
def Loops.shown {ι : Type} (loops : Loops ι) : Beat ι → List (Act ι)
  | .networkEvent device _ =>
      match loops.events.head? with
      | some (.peerDiscovered source) => [.discovered source]
      | some (.notification source notification) => [.notified source notification device]
      | _ => []
  | .fsEvent reads => [.fsEvent reads]
  | .beside act => [act]
  | .swarmEvent (.outboundFailure requestId) =>
      (loops.pendingRequests.lookup requestId).toList.map fun task => .respond task none
  | _ => []

namespace Mesh

variable {ι : Type}

/-- What happens at a peer in a move, other than replies that come in. -/
def shown (mesh : Mesh ι) : Move ι → List (ι × Act ι)
  | .beat site beat => ((mesh.loops site).shown beat).map (Prod.mk site)
  | .failure site requestId =>
      ((mesh.loops site).shown (.swarmEvent (.outboundFailure requestId))).map (Prod.mk site)
  | _ => []

/-! ## Peers ahead -/

/-- A task as it is, or with the answer that is promised to it. -/
inductive Stands (promised : SyncResponse → Prop) (task : Task ι) : Task ι → Prop where
  | level (nothing : ∀ response, ¬ promised response) : Stands promised task task
  | ahead (response : SyncResponse) (stage : Stage ι) (coming : promised response)
      (reply : Peer.answer task.stage (some response) = some stage) :
      Stands promised task { task with stage := stage }

/-- Tasks with their promised answers beside the same tasks without. -/
def Abreast (promised : Nat → SyncResponse → Prop) (tasks tasks' : List (Task ι)) : Prop :=
  ∀ number : Nat, Option.Rel (Stands (promised number)) tasks[number]? tasks'[number]?

section Abreast

variable {promised promised' : Nat → SyncResponse → Prop} {tasks tasks' : List (Task ι)}
  {number : Nat} {task : Task ι}

theorem Abreast.refl (nothing : ∀ number response, ¬ promised number response) :
    Abreast promised tasks tasks := by
  intro number
  cases tasks[number]? with
  | none => exact .none
  | some task => exact .some (.level (nothing number))

theorem Abreast.congr (abreast : Abreast promised tasks tasks')
    (same : ∀ number response, promised number response ↔ promised' number response) :
    Abreast promised' tasks tasks' := by
  obtain rfl : promised = promised' := by
    funext number response
    exact propext (same number response)
  exact abreast

theorem Abreast.length_eq (abreast : Abreast promised tasks tasks') :
    tasks.length = tasks'.length := by
  have same : ∀ number : Nat, number < tasks.length ↔ number < tasks'.length := by
    intro number
    have here := abreast number
    rw [← not_iff_not, not_lt, not_lt, ← List.getElem?_eq_none_iff, ← List.getElem?_eq_none_iff]
    generalize tasks[number]? = first at here ⊢
    generalize tasks'[number]? = second at here ⊢
    cases here with
    | some => exact ⟨nofun, nofun⟩
    | none => exact Iff.rfl
  exact le_antisymm (not_lt.mp fun less => lt_irrefl _ ((same _).mp less))
    (not_lt.mp fun less => lt_irrefl _ ((same _).mpr less))

/-- A task without a promise is the same. -/
theorem Abreast.level (abreast : Abreast promised tasks tasks')
    (found : tasks[number]? = some task) (nothing : ∀ response, ¬ promised number response) :
    tasks'[number]? = some task := by
  have here := abreast number
  rw [found] at here
  generalize beside : tasks'[number]? = other at here
  cases here with
  | some stands =>
      cases stands with
      | level => rfl
      | ahead response stage coming => exact absurd coming (nothing response)

/-- Without promises the tasks are the same. -/
theorem Abreast.eq (abreast : Abreast promised tasks tasks')
    (nothing : ∀ number response, ¬ promised number response) : tasks' = tasks := by
  refine List.ext_getElem? fun number => ?_
  cases found : tasks[number]? with
  | none =>
      rw [List.getElem?_eq_none_iff] at found ⊢
      rwa [← abreast.length_eq]
  | some task => exact abreast.level found (nothing number)

/-- A task with a promise has its answer. -/
theorem Abreast.ahead (abreast : Abreast promised tasks tasks')
    (found : tasks[number]? = some task) {response : SyncResponse}
    (coming : promised number response)
    (unique : ∀ other, promised number other → other = response) :
    ∃ stage, Peer.answer task.stage (some response) = some stage ∧
      tasks'[number]? = some { task with stage := stage } := by
  have here := abreast number
  rw [found] at here
  generalize beside : tasks'[number]? = other at here
  cases here with
  | some stands =>
      cases stands with
      | level nothing => exact absurd coming (nothing response)
      | ahead other stage coming reply =>
          rw [unique other coming] at reply
          exact ⟨stage, reply, rfl⟩

/-- New tasks are promised nothing. -/
theorem Abreast.append (abreast : Abreast promised tasks tasks')
    (absent : ∀ number response, promised number response → number < tasks.length)
    (spawned : List (Task ι)) : Abreast promised (tasks ++ spawned) (tasks' ++ spawned) := by
  intro number
  rw [List.getElem?_append, List.getElem?_append, abreast.length_eq]
  split
  · exact abreast number
  · rename_i beyond
    rw [← abreast.length_eq] at beyond
    cases spawned[number - tasks'.length]? with
    | none => exact .none
    | some task =>
        exact .some (.level fun response coming => beyond (absent number response coming))

/-- One task moves on. -/
theorem Abreast.replace (abreast : Abreast promised tasks tasks') {after after' : List (Task ι)}
    (others : ∀ other, other ≠ number → promised' other = promised other ∧
      after[other]? = tasks[other]? ∧ after'[other]? = tasks'[other]?)
    (here : Option.Rel (Stands (promised' number)) after[number]? after'[number]?) :
    Abreast promised' after after' := by
  intro other
  by_cases same : other = number
  · rw [same]
    exact here
  · obtain ⟨unmoved, left, left'⟩ := others other same
    rw [unmoved, left, left']
    exact abreast other

/-- **What happens at a peer keeps its tasks abreast**, replies apart. -/
theorem Abreast.step [Blake3] {ctx : Ctx ι} {act : Act ι} {before after : Peer ι}
    {published : Option SyncNotification} (abreast : Abreast promised before.tasks tasks')
    (waits : ∀ number response, promised number response →
      ∃ task, before.tasks[number]? = some task ∧ task.stage.request.isSome = true)
    (other : ∀ number response, act ≠ .respond number response)
    (stepped : before.step ctx act = some (after, published)) :
    ∃ later, (before.withTasks tasks').step ctx act = some (after.withTasks later, published) ∧
      Abreast promised after.tasks later := by
  by_cases resumes : ∃ number device, act = .resume number device
  · obtain ⟨number, device, rfl⟩ := resumes
    obtain ⟨entry, found, mapped⟩ := Option.bind_eq_some_iff.mp stepped
    obtain ⟨⟨middle, entry'⟩, ran, same⟩ := Option.map_eq_some_iff.mp mapped
    cases same
    have nothing : ∀ response, ¬ promised number response := by
      intro response coming
      obtain ⟨task, found', waiting⟩ := waits number response coming
      obtain rfl := Option.some.inj (found.symm.trans found')
      rw [Peer.runTask_eq_none waiting] at ran
      exact (Option.some_ne_none _).symm ran
    have kept : middle.tasks = before.tasks := (Peer.run_cases ran).tasks
    refine ⟨tasks'.set number entry', ?_, ?_⟩
    · change (tasks'[number]?.bind fun entry => _) = _
      rw [abreast.level found nothing, Option.bind_some, Peer.runTask_withTasks, ran]
      rfl
    · have bound := (List.getElem?_eq_some_iff.mp found).1
      rw [kept]
      refine abreast.replace (fun other (apart : other ≠ number) => ?_) ?_
      · exact ⟨rfl, List.getElem?_set_ne apart.symm, List.getElem?_set_ne apart.symm⟩
      · rw [List.getElem?_set_self bound, List.getElem?_set_self (abreast.length_eq ▸ bound)]
        exact .some (.level nothing)
  · obtain ⟨spawned, last, same⟩ := @Peer.step_withTasks _ _ ctx before after tasks' act published
      other (fun number device same => resumes ⟨number, device, same⟩) stepped
    refine ⟨tasks' ++ spawned, same, ?_⟩
    rw [last]
    refine abreast.append (fun number response coming => ?_) spawned
    obtain ⟨task, found, _⟩ := waits number response coming
    exact (List.getElem?_eq_some_iff.mp found).1

end Abreast

/-- A swarm in which the answers that are promised have been given. -/
structure Ahead (fate : Nat → Bool) (mesh : Mesh ι) (swarm : Swarm ι) : Prop where
  peer : ∀ site, swarm.peer site = (mesh.loops site).peer.withTasks (swarm.peer site).tasks
  tasks : ∀ site, Abreast (mesh.Promised fate site) (mesh.loops site).peer.tasks
    (swarm.peer site).tasks
  log : ∀ notification, mesh.Spoken notification → notification ∈ swarm.log

/-- Before a run nothing is on its way. -/
theorem Ahead.start (fate : Nat → Bool) (peer : ι → Peer ι) (topic : Str) :
    Ahead fate (start peer topic) ⟨peer, [], fun _ _ => false⟩ where
  peer site := rfl
  tasks site := .refl fun number response promised => by
    obtain ⟨place, call, made, _⟩ := promised
    exact absurd made (Option.some_ne_none call).symm
  log notification spoken := by
    rcases spoken with gone | ⟨site, out | coming⟩
    · exact absurd gone List.not_mem_nil
    · exact absurd out List.not_mem_nil
    · exact absurd coming List.not_mem_nil

/-! ## Moves in which no reply comes in and no answer is made -/

variable [DecidableEq ι] [Blake3] {ctx : ι → Ctx ι} {capacity : Nat} {before middle : Mesh ι}
  {move : Move ι} {site : ι} {beat : Beat ι} {event : SwarmEvent ι} {next : Loops ι}
  {fate : Nat → Bool}
  {swarm : Swarm ι} {back : List Nat}

omit [DecidableEq ι] [Blake3] in
theorem Brings.routed (brings : Brings before move middle site beat) (routed : Routed before) :
    Routed middle := by
  cases brings <;>
    exact ⟨routed.waits, routed.issued, routed.named, routed.inbound, routed.pending⟩

omit [DecidableEq ι] [Blake3] in
theorem Brings.answered_iff (brings : Brings before move middle site beat)
    (silent : beat.replied? = none) {place : Nat} {response : SyncResponse} :
    middle.Answered place response ↔ before.Answered place response := by
  cases brings with
  | response => exact absurd silent (Option.some_ne_none _)
  | _ => exact Iff.rfl

/-- The promises stay as they are. -/
theorem promised_still (once : Once back before) (routed : Routed before)
    (brings : Brings before move middle site beat)
    (stepped : (middle.loops site).step (ctx site) capacity beat = some next)
    (silent : beat.replied? = none)
    (unmade : ((middle.loops site).made (ctx site) beat).toList.filterMap Command.answer? = [])
    (other : ι) : (middle.moved site beat next).Promised fate other =
      before.Promised fate other := by
  funext number response
  have known : ∀ place response, middle.Answered place response → place < middle.calls.length := by
    intro place response answered
    rw [brings.calls]
    exact (brings.answered answered).lt once
  have answered : ∀ {place : Nat}, (middle.moved site beat next).Answered place response ↔
      before.Answered place response := by
    intro place
    rw [answered_moved stepped, unmade, brings.answered_iff silent]
    exact or_iff_left List.not_mem_nil
  rw [promised_moved (brings.routed routed) known stepped, brings.calls, brings.loops, silent]
  refine propext (exists_congr fun place => exists_congr fun call => ?_)
  rw [answered]
  exact and_congr_right fun _ => and_congr_right fun _ => and_congr_right fun _ =>
    and_iff_right fun _ => nofun

omit [DecidableEq ι] [Blake3] in
/-- A notification that a move brings to a peer is on its way. -/
theorem Brings.spoken (brings : Brings before move middle site beat)
    {notification : SyncNotification}
    (reported : notification ∈
      ((middle.loops site).reported beat).toList.filterMap Event.notification?) :
    before.Spoken notification := by
  obtain ⟨event, comes, told⟩ := List.mem_filterMap.mp reported
  cases event with
  | notification source notification' =>
      cases told
      have arrives : beat = .swarmEvent (.message source (some notification)) :=
        Loops.reported_cases (Option.mem_toList.mp comes)
      cases brings with
      | beat site beat inside =>
          rw [arrives] at inside
          exact absurd inside Bool.false_ne_true
      | news site event news =>
          rw [Beat.swarmEvent.inj arrives] at news
          exact absurd news Bool.false_ne_true
      | message site propagationSource notification published =>
          cases arrives
          exact Or.inl published
      | request | response | failure => cases arrives
  | _ => exact absurd told (Option.some_ne_none _).symm

/-- Nobody speaks of what has not been published. -/
theorem spoken_cases (brings : Brings before move middle site beat)
    (stepped : (middle.loops site).step (ctx site) capacity beat = some next)
    {notification : SyncNotification} (spoken : (middle.moved site beat next).Spoken notification) :
    before.Spoken notification ∨
      notification ∈ (middle.loops site).published (ctx site) beat := by
  rcases spoken_moved stepped spoken with old | published | comes
  · refine Or.inl ?_
    cases brings <;> exact old
  · exact Or.inr published
  · exact Or.inl (brings.spoken comes)

/-- A peer and the same peer in the swarm have done the same, and the others nothing. -/
theorem Ahead.moves (ahead : Ahead fate before swarm) (once : Once back before)
    (routed : Routed before) (brings : Brings before move middle site beat)
    (stepped : (middle.loops site).step (ctx site) capacity beat = some next)
    (silent : beat.replied? = none)
    (unmade : ((middle.loops site).made (ctx site) beat).toList.filterMap Command.answer? = [])
    {later : Swarm ι} (others : ∀ other, other ≠ site → later.peer other = swarm.peer other)
    (here : later.peer site = next.peer.withTasks (later.peer site).tasks)
    (abreast : Abreast (before.Promised fate site) next.peer.tasks (later.peer site).tasks)
    (log : later.log = swarm.log ++ (middle.loops site).published (ctx site) beat) :
    Ahead fate (middle.moved site beat next) later := by
  refine ⟨fun other => ?_, fun other => ?_, fun notification spoken => ?_⟩
  · by_cases same : other = site
    · rw [same, loops_moved_self]
      exact here
    · rw [loops_moved_of_ne same, brings.loops, others other same]
      exact ahead.peer other
  · rw [promised_still once routed brings stepped silent unmade]
    by_cases same : other = site
    · rw [same, loops_moved_self]
      exact abreast
    · rw [loops_moved_of_ne same, brings.loops, others other same]
      exact ahead.tasks other
  · rw [log]
    exact List.mem_append.mpr ((spoken_cases brings stepped spoken).imp_left (ahead.log _))

/-- **The swarm takes the same step.** -/
theorem Ahead.acts (ahead : Ahead fate before swarm) (once : Once back before)
    (routed : Routed before) (brings : Brings before move middle site beat)
    (stepped : (middle.loops site).step (ctx site) capacity beat = some next)
    (silent : beat.replied? = none)
    (unmade : ((middle.loops site).made (ctx site) beat).toList.filterMap Command.answer? = [])
    {turn : Turn ι} {act : Act ι} {published : Option SyncNotification}
    (acted : swarm.actOf ctx turn = some (site, act))
    (other : ∀ number response, act ≠ .respond number response)
    (ran : (before.loops site).peer.step (ctx site) act = some (next.peer, published))
    (said : (middle.loops site).published (ctx site) beat = published.toList) :
    ∃ after, swarm.step ctx turn = some after ∧ Ahead fate (middle.moved site beat next) after := by
  have waits : ∀ number response, before.Promised fate site number response →
      ∃ task, (before.loops site).peer.tasks[number]? = some task ∧
        task.stage.request.isSome = true := by
    rintro number response ⟨place, call, made, asker, pending, _⟩
    exact (routed.waits site).pending pending
  obtain ⟨later, taken, abreast⟩ := (ahead.tasks site).step waits other ran
  rw [← ahead.peer site] at taken
  refine ⟨_, Swarm.step_of ctx acted taken, ahead.moves once routed brings stepped silent unmade
    (fun other apart => Function.update_of_ne apart ..) ?_ ?_ (by rw [said])⟩
  · dsimp only
    rw [Function.update_self]
    rfl
  · dsimp only
    rw [Function.update_self]
    exact abreast

/-- **The swarm waits** while messages go from place to place. -/
theorem Ahead.still (ahead : Ahead fate before swarm) (once : Once back before)
    (routed : Routed before) (brings : Brings before move middle site beat)
    (stepped : (middle.loops site).step (ctx site) capacity beat = some next)
    (silent : beat.replied? = none)
    (unmade : ((middle.loops site).made (ctx site) beat).toList.filterMap Command.answer? = [])
    (same : next.peer = (before.loops site).peer)
    (said : (middle.loops site).published (ctx site) beat = []) :
    Ahead fate (middle.moved site beat next) swarm := by
  refine ahead.moves once routed brings stepped silent unmade (fun _ _ => rfl) ?_ ?_ ?_
  · rw [same]
    exact ahead.peer site
  · rw [same]
    exact ahead.tasks site
  · rw [said, List.append_nil]

/-! ## An answer is made -/

/-- The promise that comes with an answer. -/
theorem promised_made (once : Once back before) (routed : Routed before)
    (stepped : (before.loops site).step (ctx site) capacity beat = some next)
    (silent : beat.replied? = none) {asker : ι} {requestId place : Nat} {request : SyncRequest}
    {response : SyncResponse}
    (made : before.calls[place]? = some ⟨asker, requestId, site, request⟩)
    (unmade : ((before.loops site).made (ctx site) beat).toList.filterMap Command.answer? =
      [(place, response)]) {other : ι} {number : Nat} {response' : SyncResponse} :
    (before.moved site beat next).Promised fate other number response' ↔
      before.Promised fate other number response' ∨
        other = asker ∧ (requestId, number) ∈ (before.loops asker).pendingRequests ∧
          fate place = true ∧ response' = response := by
  rw [promised_moved routed (fun _ _ answered => answered.lt once) stepped, silent]
  simp only [answered_moved stepped, unmade, List.mem_singleton]
  constructor
  · rintro ⟨place', call, made', asker', pending, _, coming, old | new⟩
    · exact Or.inl ⟨place', call, made', asker', pending, coming, old⟩
    · cases new
      obtain rfl := Option.some.inj (made.symm.trans made')
      obtain rfl := asker'
      exact Or.inr ⟨rfl, pending, coming, rfl⟩
  · rintro (⟨place', call, made', asker', pending, coming, old⟩ | ⟨rfl, pending, coming, rfl⟩)
    · exact ⟨place', call, made', asker', pending, nofun, coming, Or.inl old⟩
    · exact ⟨place, _, made, rfl, pending, nofun, coming, Or.inr rfl⟩

omit [DecidableEq ι] in
/-- A reply that is put in leaves the rest of the peer as it is. -/
theorem step_respond {ctx : Ctx ι} {peer : Peer ι} {number : Nat} {task : Task ι}
    {response : Option SyncResponse} {stage : Stage ι} (found : peer.tasks[number]? = some task)
    (reply : Peer.answer task.stage response = some stage) :
    peer.step ctx (.respond number response) =
      some (peer.withTasks (peer.tasks.set number { task with stage := stage }), none) := by
  rw [Peer.step, found, Option.bind_some, reply]
  rfl

/-- The swarm gives an answer that is promised from then on. -/
theorem Ahead.gives (ahead : Ahead fate before swarm) {after : Mesh ι}
    (peers : ∀ other, (after.loops other).peer = (before.loops other).peer)
    (log : ∀ notification, after.Spoken notification → notification ∈ swarm.log)
    {asker : ι} {number : Nat} {task : Task ι} {response : SyncResponse} {stage : Stage ι}
    (found : (before.loops asker).peer.tasks[number]? = some task)
    (reply : Peer.answer task.stage (some response) = some stage)
    (nothing : ∀ response, ¬ before.Promised fate asker number response)
    (promised : ∀ other number' response', after.Promised fate other number' response' ↔
      before.Promised fate other number' response' ∨
        other = asker ∧ number' = number ∧ response' = response) {turn : Turn ι}
    (acted : swarm.actOf ctx turn = some (asker, .respond number (some response))) :
    ∃ later, swarm.step ctx turn = some later ∧ Ahead fate after later := by
  have level := (ahead.tasks asker).level found nothing
  refine ⟨_, Swarm.step_of ctx acted (step_respond level reply), fun other => ?_, fun other => ?_,
    fun notification spoken => List.mem_append_left _ (log notification spoken)⟩
  · rw [peers]
    dsimp only
    by_cases here : other = asker
    · subst here
      rw [Function.update_self, ahead.peer other]
      rfl
    · rw [Function.update_of_ne here]
      exact ahead.peer other
  · rw [peers]
    dsimp only
    by_cases here : other = asker
    · subst here
      rw [Function.update_self]
      have bound := (List.getElem?_eq_some_iff.mp level).1
      refine (ahead.tasks other).replace (fun number' (apart : number' ≠ number) => ⟨?_, rfl,
        List.getElem?_set_ne apart.symm⟩) ?_
      · funext response'
        rw [promised, or_iff_left fun new => apart new.2.1]
      · have placed : ((swarm.peer other).tasks.set number { task with stage := stage })[number]? =
            some { task with stage := stage } := List.getElem?_set_self bound
        change Option.Rel _ _ ((swarm.peer other).tasks.set number _)[number]?
        rw [found, placed]
        exact .some (.ahead response stage ((promised ..).mpr (Or.inr ⟨rfl, rfl, rfl⟩)) reply)
    · rw [Function.update_of_ne here]
      refine (ahead.tasks other).congr fun number' response' => ?_
      rw [promised, or_iff_left fun new => here new.1]

/-- **The swarm answers a request when the asked peer does**, if the answer will arrive. -/
theorem Ahead.serves (ahead : Ahead fate before swarm) (once : Once back before)
    (routed : Routed before) {device : Device} {failure : Option String} {asker : ι}
    {request : SyncRequest} {place : Nat} {rest : List (Event ι)}
    (queue : (before.loops site).events = .inboundRequest asker request place :: rest)
    (stepped : (before.loops site).step (ctx site) capacity (.networkEvent device failure) =
      some next)
    (same : next.peer = (before.loops site).peer) :
    ∃ after, Shows (Swarm.step ctx) Swarm.shown swarm [] after ∧
      Ahead fate (before.moved site (.networkEvent device failure) next) after := by
  obtain ⟨requestId, made⟩ := routed.inbound site asker request place
    (List.mem_append_left _ (List.mem_filterMap.mpr ⟨_, queue ▸ List.mem_cons_self, rfl⟩))
  have inLine : place ∈ (before.loops site).incoming Event.channel? :=
    List.mem_append_left _ (List.mem_filterMap.mpr ⟨_, queue ▸ List.mem_cons_self, rfl⟩)
  let response := handleInboundRequest (ctx site).storage (before.loops site).peer.index
    (before.loops site).peer.disk failure request
  have unmade : ((before.loops site).made (ctx site)
      (.networkEvent device failure)).toList.filterMap Command.answer? = [(place, response)] := by
    rw [Loops.made, queue]
    rfl
  have promised : ∀ other number response',
      (before.moved site (.networkEvent device failure) next).Promised fate other number response' ↔
        before.Promised fate other number response' ∨
          other = asker ∧ (requestId, number) ∈ (before.loops asker).pendingRequests ∧
            fate place = true ∧ response' = response := fun _ _ _ =>
    promised_made once routed stepped rfl made unmade
  have log : ∀ notification,
      (before.moved site (.networkEvent device failure) next).Spoken notification →
        notification ∈ swarm.log := by
    intro notification spoken
    rcases spoken_cases (.beat site (.networkEvent device failure) rfl) stepped spoken with
      old | published
    · exact ahead.log notification old
    · rw [Loops.published, Loops.made, queue] at published
      exact absurd published List.not_mem_nil
  have peers : ∀ other, ((before.moved site (.networkEvent device failure) next).loops other).peer =
      (before.loops other).peer := by
    intro other
    by_cases here : other = site
    · rw [here, loops_moved_self, same]
    · rw [loops_moved_of_ne here]
  by_cases due : fate place = true ∧
      ∃ number, (requestId, number) ∈ (before.loops asker).pendingRequests
  · obtain ⟨coming, number, pending⟩ := due
    obtain ⟨place', call, task, made', asker', requestId', found, asked⟩ :=
      routed.pending asker requestId number pending
    obtain rfl := routed.named place' place call _ made' made asker' requestId'
    obtain rfl := Option.some.inj (made'.symm.trans made)
    have nothing : ∀ response, ¬ before.Promised fate asker number response := by
      rintro response' ⟨place, call, made'', asker'', pending', _, answered⟩
      have same := routed.named place place' call _ made'' made' asker''
        ((routed.waits asker).requestId_inj pending' pending)
      exact not_answered_of_incoming once inLine response' (same ▸ answered)
    have waiting : task.stage.request.isSome = true := by
      rw [asked]
      rfl
    obtain ⟨stage, reply⟩ := Peer.exists_answer waiting (some response)
    have acted : swarm.actOf ctx (.serve asker number failure) =
        some (asker, .respond number (some response)) := by
      rw [Swarm.actOf, (ahead.tasks asker).level found nothing, Option.bind_some, asked]
      dsimp only [Option.map_some]
      rw [Swarm.answerOf, ahead.peer site]
      rfl
    obtain ⟨later, taken, ahead'⟩ := ahead.gives peers log found reply nothing
      (fun other number' response' => by
        rw [promised]
        refine or_congr_right (and_congr_right fun _ => and_congr ?_ (and_iff_right coming))
        exact ⟨fun pending' => (routed.waits asker).number_inj pending' pending,
          fun same => same ▸ pending⟩) acted
    exact ⟨later, .single taken, ahead'⟩
  · refine ⟨swarm, .refl swarm, fun other => ?_, fun other => ?_, log⟩
    · rw [peers]
      exact ahead.peer other
    · rw [peers]
      refine (ahead.tasks other).congr fun number response' => ?_
      rw [promised, or_iff_left]
      rintro ⟨rfl, pending, coming, _⟩
      exact due ⟨coming, number, pending⟩

/-! ## A reply comes in -/

/-- A reply takes its promise with it. -/
theorem promised_replied (once : Once back before) (routed : Routed before)
    (brings : Brings before move middle site (.swarmEvent event))
    (stepped : (middle.loops site).step (ctx site) capacity (.swarmEvent event) = some next)
    {requestId : Nat} (reply : (Beat.swarmEvent event).replied? = some requestId) {other : ι}
    {number : Nat} {response : SyncResponse} :
    (middle.moved site (.swarmEvent event) next).Promised fate other number response ↔
      ∃ place call, before.calls[place]? = some call ∧ call.asker = other ∧
        (call.requestId, number) ∈ (before.loops other).pendingRequests ∧
          ¬ (other = site ∧ call.requestId = requestId) ∧ fate place = true ∧
            middle.Answered place response := by
  have known : ∀ place response, middle.Answered place response → place < middle.calls.length := by
    intro place response answered
    rw [brings.calls]
    exact (brings.answered answered).lt once
  rw [promised_moved (brings.routed routed) known stepped, brings.calls, brings.loops, reply]
  refine exists_congr fun place => exists_congr fun call => ?_
  rw [answered_moved stepped]
  refine and_congr_right fun _ => and_congr_right fun _ => and_congr_right fun _ =>
    and_congr ?_ (and_congr_right fun _ => or_iff_left List.not_mem_nil)
  exact ⟨fun apart both => apart both.1 (congrArg some both.2.symm),
    fun apart here same => apart ⟨here, (Option.some.inj same).symm⟩⟩

variable (fate) in
/-- The promises of a request that is given up count as if it were known before. -/
theorem promised_failure (once : Once back before) (routed : Routed before) {requestId : Nat}
    (stepped : (before.loops site).step (ctx site) capacity
      (.swarmEvent (.outboundFailure requestId)) = some next) (other : ι) :
    (before.moved site (.swarmEvent (.outboundFailure requestId)) next).Promised fate other =
      before.Promised (fun place => fate place && !(before.calls[place]?.any fun call =>
        decide (call.asker = site ∧ call.requestId = requestId))) other := by
  funext number response
  rw [promised_replied once routed (.failure site requestId) stepped rfl]
  refine propext (exists_congr fun place => exists_congr fun call =>
    and_congr_right fun made => and_congr_right fun asker => and_congr_right fun _ => ?_)
  dsimp only
  rw [made, Option.any_some, asker, Bool.and_eq_true, Bool.not_eq_true', decide_eq_false_iff_not,
    ← and_assoc]
  exact and_congr_left fun _ => and_comm

/-- The promise that an answer that arrives has kept counts as if it were known before. -/
theorem promised_response (once : Once back before) (routed : Routed before) {place : Nat}
    {number : Nat} {response : SyncResponse} {call : Call ι}
    (arrives : before.responses[place]? = some (number, response))
    (made : before.calls[number]? = some call)
    (stepped : (before.loops call.asker).step (ctx call.asker) capacity
      (.swarmEvent (.response call.requestId response)) = some next) {other : ι} {task : Nat}
    {response' : SyncResponse} :
    before.Promised (Function.update fate number true) other task response' ↔
      (Mesh.moved { before with responses := before.responses.eraseIdx place } call.asker
        (.swarmEvent (.response call.requestId response)) next).Promised fate other task response' ∨
      other = call.asker ∧ (call.requestId, task) ∈ (before.loops call.asker).pendingRequests ∧
        response' = response := by
  rw [promised_replied once routed (.response place number response call arrives made) stepped rfl]
  have here : before.Answered number response := Or.inl (List.mem_of_getElem? arrives)
  have middle : ∀ {other : Nat} {response' : SyncResponse},
      Answered { before with responses := before.responses.eraseIdx place } other response' ↔
        before.Answered other response' ∧ other ≠ number := by
    intro other response'
    constructor
    · refine fun answered => ⟨answered.imp_left List.mem_of_mem_eraseIdx, ?_⟩
      rintro rfl
      exact not_answered_of_back (once.response arrives)
        (List.mem_append_right _ (List.mem_singleton_self other)) response' answered
    · rintro ⟨coming | out, apart⟩
      · obtain ⟨bound, same⟩ := List.getElem?_eq_some_iff.mp arrives
        have place := (List.getElem_cons_eraseIdx_perm bound).mem_iff.mpr coming
        rw [same] at place
        exact Or.inl (List.mem_of_ne_of_mem (fun same => apart (Prod.mk.inj same).1) place)
      · exact Or.inr out
  simp only [middle]
  constructor
  · rintro ⟨number', call', made', rfl, pending, coming, answered⟩
    by_cases same : number' = number
    · subst same
      obtain rfl := Option.some.inj (made.symm.trans made')
      exact Or.inr ⟨rfl, pending, answered.unique once here⟩
    · refine Or.inl ⟨number', call', made', rfl, pending, fun both => same ?_, ?_, answered, same⟩
      · exact routed.named number' number call' call made' made both.1 both.2
      · rwa [Function.update_of_ne same] at coming
  · rintro (⟨number', call', made', rfl, pending, _, coming, answered, same⟩ | ⟨rfl, pending, rfl⟩)
    · refine ⟨number', call', made', rfl, pending, ?_, answered⟩
      rwa [Function.update_of_ne same]
    · exact ⟨number, call, made, rfl, pending, Function.update_self .., here⟩

omit [DecidableEq ι] in
theorem replied_of_step {ctx : Ctx ι} {loops : Loops ι} {requestId : Nat}
    {response : Option SyncResponse}
    (stepped : loops.step ctx capacity (.swarmEvent event) = some next)
    (reply : event.reply = some (requestId, response)) :
    next = loops.replied ctx requestId response := by
  cases Loops.beat_cases stepped with
  | forwarded event idle news => exact absurd (news.symm.trans reply) (Option.some_ne_none _).symm
  | replied event requestId' response' idle reply' =>
      cases reply.symm.trans reply'
      rfl

/-- A reply says nothing to the group. -/
theorem spoken_of_reply (ahead : Ahead fate before swarm)
    (brings : Brings before move middle site (.swarmEvent event))
    (stepped : (middle.loops site).step (ctx site) capacity (.swarmEvent event) = some next)
    (notification : SyncNotification)
    (spoken : (middle.moved site (.swarmEvent event) next).Spoken notification) :
    notification ∈ swarm.log :=
  (spoken_cases brings stepped spoken).elim (ahead.log notification) fun published =>
    absurd published List.not_mem_nil

variable (fate) in
/-- A task whose reply has come in is promised nothing more. -/
theorem not_promised_of_reply (once : Once back before) (routed : Routed before)
    (brings : Brings before move middle site (.swarmEvent event))
    (stepped : (middle.loops site).step (ctx site) capacity (.swarmEvent event) = some next)
    {requestId number : Nat} (reply : (Beat.swarmEvent event).replied? = some requestId)
    (pending : (requestId, number) ∈ (before.loops site).pendingRequests)
    (response : SyncResponse) :
    ¬ (middle.moved site (.swarmEvent event) next).Promised fate site number response := by
  rw [promised_replied once routed brings stepped reply]
  rintro ⟨place, call, _, asker, pending', apart, _⟩
  exact apart ⟨rfl, (routed.waits site).requestId_inj pending' pending⟩

/-- **An answer that arrives was given in the swarm before.** -/
theorem Ahead.receives (once : Once back before) (routed : Routed before) {place number : Nat}
    {response : SyncResponse} {call : Call ι}
    (arrives : before.responses[place]? = some (number, response))
    (made : before.calls[number]? = some call)
    (stepped : (before.loops call.asker).step (ctx call.asker) capacity
      (.swarmEvent (.response call.requestId response)) = some next)
    (ahead : Ahead (Function.update fate number true) before swarm) :
    Ahead fate (Mesh.moved { before with responses := before.responses.eraseIdx place } call.asker
      (.swarmEvent (.response call.requestId response)) next) swarm := by
  have brings : Brings before (.response place) _ _ _ :=
    .response place number response call arrives made
  have promised : ∀ other task response', before.Promised (Function.update fate number true) other
      task response' ↔ _ := fun other task response' =>
    promised_response once routed arrives made stepped
  have log := spoken_of_reply ahead brings stepped
  obtain rfl := replied_of_step stepped rfl
  rcases Loops.replied_cases (ctx call.asker) (routed.waits call.asker) call.requestId
      (some response) with ⟨nobody, nothing⟩ | ⟨task, entry, stage, handed, found, reply, done⟩
  · rw [nothing] at log promised ⊢
    have peers : (Mesh.moved { before with responses := before.responses.eraseIdx place } call.asker
        (.swarmEvent (.response call.requestId response)) (before.loops call.asker)).loops =
          before.loops := Function.update_eq_self ..
    refine ⟨fun other => ?_, fun other => ?_, log⟩
    · rw [peers]
      exact ahead.peer other
    · rw [peers]
      refine (ahead.tasks other).congr fun task response' => ?_
      rw [promised, or_iff_left]
      rintro ⟨rfl, pending, _⟩
      have apart := List.lookup_eq_none_iff.mp nobody _ pending
      rw [bne_self_eq_false] at apart
      exact Bool.false_ne_true apart
  · have pending := mem_of_lookup_eq handed
    have coming := (promised call.asker task response).mpr (Or.inr ⟨rfl, pending, rfl⟩)
    obtain ⟨stage', reply', given⟩ := (ahead.tasks call.asker).ahead found coming
      fun other promised' => promised'.unique once routed coming
    obtain rfl := Option.some.inj (reply.symm.trans reply')
    have nothing := not_promised_of_reply fate once routed brings stepped rfl pending
    rw [done] at log promised nothing ⊢
    refine ⟨fun other => ?_, fun other => ?_, log⟩
    · by_cases here : other = call.asker
      · rw [here, loops_moved_self, ahead.peer call.asker]
        rfl
      · rw [loops_moved_of_ne here]
        exact ahead.peer other
    · by_cases here : other = call.asker
      · rw [here, loops_moved_self]
        refine (ahead.tasks call.asker).replace (fun number (apart : number ≠ task) =>
          ⟨?_, List.getElem?_set_ne apart.symm, rfl⟩) ?_
        · funext response'
          rw [promised, or_iff_left fun new =>
            apart ((routed.waits call.asker).number_inj new.2.1 pending)]
        · have placed : ((before.loops call.asker).peer.tasks.set task
              { entry with stage := stage })[task]? = some { entry with stage := stage } :=
            List.getElem?_set_self (List.getElem?_eq_some_iff.mp found).1
          dsimp only
          rw [given, placed]
          exact .some (.level nothing)
      · rw [loops_moved_of_ne here]
        refine (ahead.tasks other).congr fun task' response' => ?_
        rw [promised, or_iff_left fun new => here new.1]

/-- **A request that is given up fails in the swarm.** -/
theorem Ahead.fails (once : Once back before) (routed : Routed before) {requestId : Nat}
    (stepped : (before.loops site).step (ctx site) capacity
      (.swarmEvent (.outboundFailure requestId)) = some next)
    (ahead : Ahead (fun place => fate place && !(before.calls[place]?.any fun call =>
      decide (call.asker = site ∧ call.requestId = requestId))) before swarm) :
    ∃ after,
      Shows (Swarm.step ctx) Swarm.shown swarm (before.shown (.failure site requestId)) after ∧
        Ahead fate (before.moved site (.swarmEvent (.outboundFailure requestId)) next) after := by
  have brings : Brings before (.failure site requestId) before site _ := .failure site requestId
  have same := promised_failure fate once routed stepped
  have log := spoken_of_reply ahead brings stepped
  obtain rfl := replied_of_step stepped rfl
  rcases Loops.replied_cases (ctx site) (routed.waits site) requestId none with
    ⟨nobody, nothing⟩ | ⟨task, entry, stage, handed, found, reply, done⟩
  · have peers : (before.moved site (.swarmEvent (.outboundFailure requestId))
        (before.loops site)).loops = before.loops := Function.update_eq_self ..
    rw [nothing] at log same ⊢
    have unseen : before.shown (.failure site requestId) = [] := by
      rw [shown, Loops.shown, nobody]
      rfl
    refine ⟨swarm, unseen ▸ .refl swarm, fun other => ?_, fun other => ?_, log⟩
    · rw [peers]
      exact ahead.peer other
    · rw [peers, same]
      exact ahead.tasks other
  · have pending := mem_of_lookup_eq handed
    have nothing := not_promised_of_reply fate once routed brings stepped rfl pending
    rw [same] at nothing
    have level := (ahead.tasks site).level found nothing
    rw [done] at log same ⊢
    have acted : swarm.actOf ctx (.fail site task) = some (site, .respond task none) := rfl
    have seen : before.shown (.failure site requestId) = [(site, .respond task none)] := by
      rw [shown, Loops.shown, handed]
      rfl
    rw [seen]
    refine ⟨_, .single (Swarm.step_of ctx acted (step_respond level reply)), fun other => ?_,
      fun other => ?_, fun notification spoken =>
        List.mem_append_left _ (log notification spoken)⟩
    · by_cases here : other = site
      · rw [here, loops_moved_self]
        dsimp only
        rw [Function.update_self, ahead.peer site]
        rfl
      · rw [loops_moved_of_ne here]
        dsimp only
        rw [Function.update_of_ne here]
        exact ahead.peer other
    · rw [same]
      by_cases here : other = site
      · rw [here, loops_moved_self]
        dsimp only
        rw [Function.update_self]
        refine (ahead.tasks site).replace (fun number (apart : number ≠ task) =>
          ⟨rfl, List.getElem?_set_ne apart.symm, List.getElem?_set_ne apart.symm⟩) ?_
        have placed : ∀ {tasks : List (Task ι)}, tasks[task]? = some entry →
            (tasks.set task { entry with stage := stage })[task]? =
              some { entry with stage := stage } := fun found =>
          List.getElem?_set_self (List.getElem?_eq_some_iff.mp found).1
        change Option.Rel _ _ ((swarm.peer site).tasks.set task _)[task]?
        rw [placed found, placed level]
        exact .some (.level nothing)
      · rw [loops_moved_of_ne here]
        dsimp only
        rw [Function.update_of_ne here]
        exact ahead.tasks other

/-! ## Every move -/

/-- **A mesh follows a swarm**, move by move. -/
theorem simulation :
    Simulation (step ctx capacity) shown (Swarm.step ctx) Swarm.shown
      (fun mesh => Routed mesh ∧ ∃ back, Once back mesh) Ahead where
  matched before move after ordered stepped fate := by
    obtain ⟨routed, back, once⟩ := ordered
    obtain ⟨middle, site, beat, next, brings, taken, rfl⟩ := step_cases stepped
    have still : beat.replied? = none →
        ((middle.loops site).made (ctx site) beat) = none →
          next.peer = (before.loops site).peer → before.shown move = [] →
            ∃ earlier, ∀ swarm, Ahead earlier before swarm → ∃ after,
              Shows (Swarm.step ctx) Swarm.shown swarm (before.shown move) after ∧
                Ahead fate (middle.moved site beat next) after := by
      intro silent unmade same nothing
      refine ⟨fate, fun swarm ahead => ⟨swarm, nothing ▸ .refl swarm,
        ahead.still once routed brings taken silent ?_ same ?_⟩⟩
      · rw [unmade]
        rfl
      · rw [Loops.published, unmade]
        rfl
    have acts : ∀ (act : Act ι) (published : Option SyncNotification), beat.replied? = none →
        ((middle.loops site).made (ctx site) beat) = published.map .notify →
          (∀ number response, act ≠ .respond number response) →
            (before.loops site).peer.step (ctx site) act = some (next.peer, published) →
              (∀ swarm, Ahead fate before swarm → ∃ turn,
                swarm.actOf ctx turn = some (site, act) ∧ swarm.shown turn = before.shown move) →
                ∃ earlier, ∀ swarm, Ahead earlier before swarm → ∃ after,
                  Shows (Swarm.step ctx) Swarm.shown swarm (before.shown move) after ∧
                    Ahead fate (middle.moved site beat next) after := by
      intro act published silent made other ran turns
      refine ⟨fate, fun swarm ahead => ?_⟩
      obtain ⟨turn, acted, seen⟩ := turns swarm ahead
      obtain ⟨after, stepped, ahead'⟩ := ahead.acts once routed brings taken silent
        (by rw [made]; cases published <;> rfl) acted other ran
        (by rw [Loops.published, made]; cases published <;> rfl)
      exact ⟨after, seen ▸ .single stepped, ahead'⟩
    cases brings with
    | beat site beat inside =>
        cases Loops.beat_cases taken with
        | forwarded | replied => exact absurd inside Bool.false_ne_true
        | eventSent | requested | notified | responded | commandSent | requestSent =>
            exact still rfl rfl rfl rfl
        | discovered device failure source rest free queue =>
            refine acts (.discovered source) none rfl ?_ (by simp) rfl fun swarm ahead =>
              ⟨.own site (.discovered source), rfl, ?_⟩
            · rw [Loops.made, queue]
              rfl
            · rw [shown, Loops.shown, queue]
              rfl
        | ignored device failure event rest free queue status =>
            have silence :
                (before.loops site).made (ctx site) (.networkEvent device failure) = none ∧
                  (before.loops site).shown (.networkEvent device failure) = [] := by
              rw [Loops.made, Loops.shown, queue]
              rcases status with ⟨peer, rfl⟩ | ⟨address, rfl⟩ <;> exact ⟨rfl, rfl⟩
            refine still rfl silence.1 rfl ?_
            rw [shown, silence.2]
            rfl
        | answered device failure asker request channel rest free queue =>
            have nothing : before.shown (.beat site (.networkEvent device failure)) = [] := by
              rw [shown, Loops.shown, queue]
              rfl
            rw [nothing]
            exact ⟨fate, fun swarm ahead => ahead.serves once routed queue taken rfl⟩
        | delivered device failure source notification rest next free queue ran =>
            refine acts (.notified source notification device) none rfl ?_ (by simp) ran
              fun swarm ahead => ⟨.deliver site source notification device, ?_, ?_⟩
            · rw [Loops.made, queue]
              rfl
            · refine if_pos (ahead.log notification (Or.inr ⟨site, Or.inr ?_⟩))
              exact List.mem_append_left _ (List.mem_filterMap.mpr
                ⟨_, queue ▸ List.mem_cons_self, rfl⟩)
            · rw [shown, Loops.shown, queue]
              rfl
        | fsEvent reads next published free ran =>
            refine acts (.fsEvent reads) published rfl ?_ (by simp) ran fun swarm ahead =>
              ⟨.own site (.fsEvent reads), rfl, rfl⟩
            rw [Loops.made, ran]
            rfl
        | beside act next aside ran =>
            refine acts act none rfl rfl (Peer.isBeside_ne_respond aside) ran fun swarm ahead =>
              ⟨.own site act, if_pos ?_, rfl⟩
            cases act with
            | notified | respond => exact absurd aside Bool.false_ne_true
            | _ => rfl
    | news site event news =>
        cases Loops.beat_cases taken with
        | forwarded event idle plain => exact still (by rw [Beat.replied?, plain]; rfl) rfl rfl rfl
        | replied event requestId response idle reply =>
            cases event with
            | response | outboundFailure => exact absurd news Bool.false_ne_true
            | _ => exact absurd reply (Option.some_ne_none _).symm
    | request place number call arrives made =>
        cases Loops.beat_cases taken with
        | forwarded => exact still rfl rfl rfl rfl
        | replied event requestId response idle reply =>
            exact absurd reply (Option.some_ne_none _).symm
    | response place number response call arrives made =>
        exact ⟨Function.update fate number true, fun swarm ahead =>
          ⟨swarm, .refl swarm, ahead.receives once routed arrives made taken⟩⟩
    | failure site requestId => exact ⟨_, fun swarm ahead => ahead.fails once routed taken⟩
    | message site source notification published =>
        cases Loops.beat_cases taken with
        | forwarded => exact still rfl rfl rfl rfl
        | replied event requestId response idle reply =>
            exact absurd reply (Option.some_ne_none _).symm

/-- A run of a mesh is followed by one of a swarm, which is ahead in nothing in the end. -/
theorem ahead_of_run {peer : ι → Peer ι} {topic : Str} {last : Mesh ι}
    {trace : List (Mesh ι × Move ι)}
    (run : Run (step ctx capacity) (start peer topic) trace last) :
    ∃ swarm, Shows (Swarm.step ctx) Swarm.shown ⟨peer, [], fun _ _ => false⟩
        (visible shown trace) swarm ∧
      (∀ site, swarm.peer site = (last.loops site).peer) ∧ Ahead (fun _ => false) last swarm := by
  obtain ⟨swarm, shows, ahead⟩ := simulation.run (fun fate => .start fate peer topic)
    (fun run => ⟨routed_of_run run, _, once_along run⟩) run fun _ => false
  refine ⟨swarm, shows, fun site => ?_, ahead⟩
  have level := (ahead.tasks site).eq fun number response promised => by
    obtain ⟨_, _, _, _, _, coming, _⟩ := promised
    exact Bool.false_ne_true coming
  rw [ahead.peer site, level]
  rfl

/-- **A run of a mesh is a run of a swarm**, in which each request is answered in one turn: what
happens at the peers, other than replies, is the same in the same order, the peers end up the same,
and what the group has been told has been published. -/
theorem refines_swarm {peer : ι → Peer ι} {topic : Str} {last : Mesh ι}
    {trace : List (Mesh ι × Move ι)}
    (run : Run (step ctx capacity) (start peer topic) trace last) :
    ∃ swarm, Shows (Swarm.step ctx) Swarm.shown ⟨peer, [], fun _ _ => false⟩
        (visible shown trace) swarm ∧
      (∀ site, swarm.peer site = (last.loops site).peer) ∧
        ∀ notification, last.Spoken notification → notification ∈ swarm.log := by
  obtain ⟨swarm, shows, same, ahead⟩ := ahead_of_run run
  exact ⟨swarm, shows, same, ahead.log⟩

end Mesh

/-! ## A concrete mesh -/

namespace Mesh

attribute [local instance] Sample.blake3

/-- What the first peer does until it has compared its root with that of the second one can be seen
in a swarm. -/
theorem exists_swarm :
    ∃ trace last swarm, Run (step Sample.ctx 1) (start (fun site => Sample.peer site [1]) ['g'])
      trace last ∧
        trace.map Prod.snd = asksRoot ++ [.response 0, .beat .one (.beside (.resume 0 {}))] ∧
          (visible shown trace).length = 2 ∧ Shows (Swarm.step Sample.ctx) Swarm.shown
            ⟨fun site => Sample.peer site [1], [], fun _ _ => false⟩ (visible shown trace) swarm ∧
            ∀ site, swarm.peer site = (last.loops site).peer := by
  obtain ⟨trace, last, run, acts, _, seen⟩ :=
    @exists_history_run _ _ (step Sample.ctx 1) (start (fun site => Sample.peer site [1]) ['g'])
      (asksRoot ++ [.response 0, .beat .one (.beside (.resume 0 {}))]) (fun _ _ => true)
      (fun trace _ => decide ((visible shown trace).length = 2)) (by decide +kernel)
  obtain ⟨swarm, shows, same, _⟩ := refines_swarm run
  exact ⟨trace, last, swarm, run, acts, of_decide_eq_true seen, shows, same⟩

end Mesh

end P2Sync
