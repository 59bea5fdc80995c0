import P2Sync.Net.Flight
import P2Sync.Net.Walk

/-!
# A share that takes nothing

With `no_pull` a peer still answers requests and still reconciles with every peer it
discovers, but ignores notifications, and the walk of a reconciliation is empty. So its
tasks only compare trees (`Task.Compares`), in every state it can reach, and nothing that
comes from the network changes its folder or its index (`noPull_frame`).
-/

set_option autoImplicit false

namespace P2Sync

/-- What the network reports to the engine. -/
inductive NetworkEvent (ι : Type) where
  | peerDiscovered (peer : ι)
  | peerDisconnected (peer : ι)
  | inboundRequest (request : SyncRequest) (failure : Option String)
  | notification (source : ι) (notification : SyncNotification) (device : Device)

/-- What can happen at a peer while nobody touches its folder: time passes, the network
reports something, and the tasks go on. -/
inductive NetworkAct (ι : Type) where
  | elapse (duration : Nat)
  | setTime (now : Nat)
  | event (event : NetworkEvent ι)
  | respond (task : Nat) (response : Option SyncResponse)
  | resume (task : Nat) (device : Device)

/-- A stage of a reconciliation before its first fetch. -/
def Stage.Compares {ι : Type} : Stage ι → Prop
  | .idle => True
  | .askedRoot _ => True
  | .gotRoot _ _ => True
  | .askedTree _ => True
  | .gotTree _ _ => True
  | _ => False

/-- A task that compares trees and fetches nothing. -/
structure Task.Compares {ι : Type} (task : Task ι) : Prop where
  stage : task.stage.Compares
  todo : task.todo = []

/-! ## Tasks that compare trees -/

section Tasks

variable {ι : Type} [Blake3] {ctx : Ctx ι} {before after : Peer ι} {task task' : Task ι}

omit [Blake3] in
theorem Stage.Compares.answered {stage stage' : Stage ι} {response : Option SyncResponse}
    (compares : stage.Compares) (reply : Peer.answer stage response = some stage') :
    stage'.Compares := by
  cases Peer.reply_cases reply with
  | chunks | noChunks => exact compares.elim
  | _ => trivial

/-- A stretch of such a task only changes the task. -/
theorem Task.Compares.ran (readOnly : ctx.noPull = true) {device : Device}
    (compares : task.Compares)
    (ran : Peer.Ran ctx device before task after task') : after = before ∧ task'.Compares := by
  obtain ⟨stage, todo⟩ := compares
  cases ran with
  | counted files rest ended next | started source path count rest ended next =>
      exact absurd (todo.symm.trans next) (List.cons_ne_nil _ _).symm
  | compared source hash waiting =>
      refine ⟨rfl, ?_, todo⟩
      dsimp only
      split <;> trivial
  | walked source tree waiting =>
      refine ⟨rfl, trivial, ?_⟩
      rw [readOnly]
      exact walkDiff_noPull _ _
  | forgotten _ _ waiting | refused _ _ waiting | loaded _ _ _ waiting | failed _ _ _ _ waiting
  | wrote _ _ _ _ waiting | committed _ _ waiting =>
      rw [waiting] at stage
      exact stage.elim

end Tasks

namespace Peer

variable {ι : Type} [Blake3] (ctx : Ctx ι) (peer : Peer ι)

/-- `handle_network_event`, with the response it sends. -/
def handleNetworkEvent : NetworkEvent ι → Peer ι × Option SyncResponse
  | .peerDiscovered source => (peer.spawn (.askedRoot source), none)
  | .peerDisconnected _ => (peer, none)
  | .inboundRequest request failure =>
      (peer, some (handleInboundRequest ctx.storage peer.index peer.disk failure request))
  | .notification source notification device =>
      (if ctx.noPull then peer else peer.handleNotification ctx device source notification, none)

/-- One step in which nobody touches the folder. -/
def networkStep (peer : Peer ι) : NetworkAct ι → Option (Peer ι)
  | .elapse duration => peer.next ctx (.elapse duration)
  | .setTime now => peer.next ctx (.setTime now)
  | .event event => some (peer.handleNetworkEvent ctx event).1
  | .respond task response => peer.next ctx (.respond task response)
  | .resume task device => peer.next ctx (.resume task device)

variable {ctx} {before after : Peer ι}

/-- The tasks of a peer compare trees. -/
def OnlyCompares (peer : Peer ι) : Prop := ∀ task ∈ peer.tasks, task.Compares

/-- **The tasks of a read-only share only compare trees**, whatever happens. -/
theorem OnlyCompares.step (readOnly : ctx.noPull = true) {act : Act ι}
    (only : before.OnlyCompares) (stepped : before.next ctx act = some after) :
    after.OnlyCompares := by
  by_cases notified : ∃ source notification device, act = .notified source notification device
  · obtain ⟨source, notification, device, rfl⟩ := notified
    rw [Peer.next, Peer.step, readOnly, if_pos rfl] at stepped
    obtain rfl := Option.some.inj stepped
    exact only
  · intro task member
    obtain ⟨published, cases⟩ := next_cases stepped
    rcases cases.task member with old | made
    · exact only task old
    · cases made with
      | accepted | lost | kept | unlinked => exact absurd ⟨_, _, _, rfl⟩ notified
      | discovered source => exact ⟨trivial, rfl⟩
      | answered number response task stage found reply =>
          have compares := only task (List.mem_of_getElem? found)
          exact ⟨compares.stage.answered reply, compares.todo⟩
      | resumed number device task task' next found ran =>
          exact ((only task (List.mem_of_getElem? found)).ran readOnly (run_cases ran)).2

theorem Reachable.onlyCompares (readOnly : ctx.noPull = true) (reachable : Reachable ctx peer) :
    peer.OnlyCompares := by
  obtain ⟨disk, excludePatterns, now, first, trace, started, run⟩ := reachable
  refine run.invariant OnlyCompares (fun _ _ => True) (fun _ _ => trivial) ?_
    fun before act after only _ stepped => only.step readOnly stepped
  intro task member
  rw [(start_index started).2.1] at member
  exact absurd member List.not_mem_nil

/-! ## The frame -/

/-- A step in which nobody touches the folder leaves folder and index as they are. -/
theorem networkStep_frame (readOnly : ctx.noPull = true) {act : NetworkAct ι}
    (only : before.OnlyCompares) (stepped : before.networkStep ctx act = some after) :
    after.disk = before.disk ∧ after.index = before.index ∧ after.OnlyCompares := by
  cases act with
  | elapse duration | setTime now =>
      obtain rfl := Option.some.inj stepped
      exact ⟨rfl, rfl, only⟩
  | event event =>
      obtain rfl := Option.some.inj stepped
      cases event with
      | peerDiscovered source =>
          refine ⟨rfl, rfl, fun task member => ?_⟩
          rcases List.mem_append.mp member with old | new
          · exact only task old
          · rw [List.mem_singleton.mp new]
            exact ⟨trivial, rfl⟩
      | peerDisconnected source => exact ⟨rfl, rfl, only⟩
      | inboundRequest request failure => exact ⟨rfl, rfl, only⟩
      | notification source notification device =>
          rw [handleNetworkEvent, readOnly, if_pos rfl]
          exact ⟨rfl, rfl, only⟩
  | respond number response =>
      refine ⟨?_, ?_, only.step readOnly stepped⟩ <;>
        (obtain ⟨published, cases⟩ := next_cases stepped; cases cases <;> rfl)
  | resume number device =>
      have kept := only.step readOnly stepped
      obtain ⟨published, cases⟩ := next_cases stepped
      cases cases with
      | quiet act watch idle => exact absurd idle Bool.false_ne_true
      | resumed number device task next task' found ran =>
          obtain ⟨rfl, _⟩ :=
            (only task (List.mem_of_getElem? found)).ran readOnly (run_cases ran)
          exact ⟨rfl, rfl, kept⟩

/-- **A read-only share is never changed from outside**: whatever the network reports, in any
order and from any number of peers, folder and index stay as they are. -/
theorem noPull_frame (readOnly : ctx.noPull = true) {first last : Peer ι}
    (reachable : Reachable ctx first) {trace : List (Peer ι × NetworkAct ι)}
    (run : Run (networkStep ctx) first trace last) :
    last.disk = first.disk ∧ last.index = first.index := by
  have held := run.invariant
    (fun peer => peer.disk = first.disk ∧ peer.index = first.index ∧ peer.OnlyCompares)
    (fun _ _ => True) (fun _ _ => trivial) ⟨rfl, rfl, reachable.onlyCompares _ readOnly⟩
    fun before act after held _ stepped => ?_
  · exact ⟨held.1, held.2.1⟩
  · obtain ⟨disk, index, only⟩ := held
    obtain ⟨disk', index', only'⟩ := networkStep_frame readOnly only stepped
    exact ⟨disk'.trans disk, index'.trans index, only'⟩

end Peer

/-! ## A concrete run -/

namespace Peer

attribute [local instance] Sample.blake3

/-- A share that takes nothing, with the file `f`. -/
def readOnlyCtx : Ctx Sample.Site := { Sample.ctx .one with noPull := true }

/-- Another peer is discovered, its tree has another `f`, and it deletes `f`. -/
def visits : List (NetworkAct Sample.Site) :=
  [.event (.peerDiscovered .two), .respond 0 (some (.rootHash (Sample.index .two [2]).tree.hash)),
    .resume 0 {}, .respond 0 (some (.tree (Sample.index .two [2]).tree)), .resume 0 {},
    .event (.notification .two (.fileDeleted ⟨['f'], Sample.peerId 2, .new, 20⟩) {}),
    .event (.inboundRequest (.getChunks ['f'] [0]) none), .event (.peerDisconnected .two)]

theorem noPull_frame_sample :
    ∃ trace last, Run (networkStep readOnlyCtx) (Sample.peer .one [1]) trace last ∧
      trace.map Prod.snd = visits ∧ last.disk = Sample.folder [1] ∧
        last.index = Sample.index .one [1] := by
  have reachable : Reachable readOnlyCtx (Sample.peer .one [1]) :=
    ⟨Sample.folder [1], [], 10, Sample.peer .one [1], [], rfl, .start⟩
  obtain ⟨trace, last, run, acts, _⟩ := exists_run_of_any (by decide +kernel :
    (runActs (networkStep readOnlyCtx) (Sample.peer .one [1]) visits).any (fun _ => true) = true)
  obtain ⟨disk, index⟩ := noPull_frame rfl reachable run
  exact ⟨trace, last, run, acts, disk, index⟩

end Peer

end P2Sync
