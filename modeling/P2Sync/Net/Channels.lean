import P2Sync.Net.Start
import P2Sync.Net.Swarm

/-!
# The channels between the two loops of a peer

A peer runs two loops. The network loop takes an event of the swarm or a command, and the
engine loop takes an event that the network loop sent on, or a file event. Between them
are two channels of one capacity: events to the engine, commands to the network loop. The
tasks of the peer send commands too, and wait for their reply.

Each loop sends from inside its handler, and takes nothing while it waits for space. They
wait for each other exactly when both channels are full and both loops hold one message
more (`deadlocked_iff_load`), and nothing ever changes that again
(`deadlocked_of_step`). A run stays clear of it exactly when nothing new is let in at
the moment when all this space but one is taken (`never_deadlocked_iff`). Nothing in the
loops sees to that: requests of others are enough to fill both channels, whatever their
capacity (`exists_deadlocked`).
-/

set_option autoImplicit false

namespace P2Sync

/-- What the network loop tells the engine. -/
inductive Event (ι : Type) where
  | peerDiscovered (peer : ι)
  | peerDisconnected (peer : ι)
  | listening (address : Str)
  | inboundRequest (peer : ι) (request : SyncRequest) (channel : Nat)
  | notification (source : ι) (notification : SyncNotification)

/-- What the engine and its tasks want of the network loop; `reply` is the task that
waits. -/
inductive Command (ι : Type) where
  | sendRequest (peer : ι) (request : SyncRequest) (reply : Nat)
  | notify (notification : SyncNotification)
  | respond (channel : Nat) (response : SyncResponse)

/-- What the swarm reports. -/
inductive SwarmEvent (ι : Type) where
  | request (peer : ι) (request : SyncRequest) (channel : Nat)
  | response (requestId : Nat) (response : SyncResponse)
  | outboundFailure (requestId : Nat)
  /-- A message of the group, with the notification that is read from it. -/
  | message (propagationSource : ι) (notification : Option SyncNotification)
  | subscribed (peer : ι) (topic : Str)
  | newListenAddr (address : Str)
  | connectionClosed (peer : ι) (numEstablished : Nat)
  /-- Discovery, queries and new connections. -/
  | other

/-- A peer with its loops and what is under way between them. -/
structure Loops (ι : Type) where
  peer : Peer ι
  topic : Option Str
  commands : List (Command ι)
  events : List (Event ι)
  /-- The event that `handle_swarm_event` waits to send. -/
  network : Option (Event ι)
  /-- The command that the engine loop waits to send. -/
  engine : Option (Command ι)
  /-- The tasks that have sent their request and wait for the reply. -/
  awaiting : List Nat
  pendingRequests : List (Nat × Nat)
  nextRequestId : Nat

/-- What can happen next. -/
inductive Beat (ι : Type) where
  /-- The network loop takes an event of the swarm. -/
  | swarmEvent (event : SwarmEvent ι)
  /-- The event of the network loop gets into the channel. -/
  | eventSent
  /-- The network loop takes a command. -/
  | command
  /-- The engine loop takes an event; the outcomes are those of its system calls. -/
  | networkEvent (device : Device) (failure : Option String)
  /-- The engine loop takes a file event. -/
  | fsEvent (reads : FsReads)
  /-- The command of the engine loop gets into the channel. -/
  | commandSent
  /-- The command of a task gets into the channel. -/
  | requestSent (task : Nat)
  /-- Anything else, outside the loops. -/
  | beside (act : Act ι)

/-- Whether an action of a peer takes place outside its loops. -/
def Act.isBeside {ι : Type} : Act ι → Bool
  | .elapse _ => true
  | .setTime _ => true
  | .user _ => true
  | .watched _ => true
  | .resume _ _ => true
  | _ => false

namespace Loops

variable {ι : Type} [Blake3] (ctx : Ctx ι) (capacity : Nat) (loops : Loops ι)

/-! ## The loops -/

omit [Blake3] in
/-- The event that `handle_swarm_event` sends on. -/
def forwarded : SwarmEvent ι → Option (Event ι)
  | .request peer request channel => some (.inboundRequest peer request channel)
  | .response _ _ => none
  | .outboundFailure _ => none
  | .message source notification => notification.map (.notification source)
  | .subscribed peer topic => if loops.topic = some topic then some (.peerDiscovered peer) else none
  | .newListenAddr address => some (.listening address)
  | .connectionClosed peer numEstablished =>
      if numEstablished = 0 then some (.peerDisconnected peer) else none
  | .other => none

/-- The reply to a request reaches the task that waits for it. -/
def replied (requestId : Nat) (response : Option SyncResponse) : Loops ι :=
  match loops.pendingRequests.lookup requestId with
  | none => loops
  | some task =>
      { loops with
        peer := ((loops.peer.step ctx (.respond task response)).map Prod.fst).getD loops.peer
        awaiting := loops.awaiting.erase task
        pendingRequests := loops.pendingRequests.filter fun pending => pending.1 ≠ requestId }

/-- `handle_swarm_event`, up to the event it sends. -/
def handleSwarmEvent (event : SwarmEvent ι) : Loops ι :=
  match event with
  | .response requestId response => loops.replied ctx requestId (some response)
  | .outboundFailure requestId => loops.replied ctx requestId none
  | event => { loops with network := loops.forwarded event }

omit [Blake3] in
/-- `handle_command`; what goes out to other peers is theirs. -/
def handleCommand : Command ι → Loops ι
  | .sendRequest _ _ reply =>
      { loops with
        pendingRequests := (loops.nextRequestId, reply) :: loops.pendingRequests
        nextRequestId := loops.nextRequestId + 1 }
  | .notify _ => loops
  | .respond _ _ => loops

/-- `handle_network_event`, up to the command it sends. -/
def handleNetworkEvent (device : Device) (failure : Option String) : Event ι → Option (Loops ι)
  | .peerDiscovered source =>
      (loops.peer.step ctx (.discovered source)).map fun stepped =>
        { loops with peer := stepped.1 }
  | .peerDisconnected _ => some loops
  | .listening _ => some loops
  | .inboundRequest _ request channel =>
      some { loops with
        engine := some (.respond channel
          (handleInboundRequest ctx.storage loops.peer.index loops.peer.disk failure request)) }
  | .notification source notification =>
      (loops.peer.step ctx (.notified source notification device)).map fun stepped =>
        { loops with peer := stepped.1 }

/-- One step of a peer and its loops. -/
def step (loops : Loops ι) : Beat ι → Option (Loops ι)
  | .swarmEvent event =>
      if loops.network.isSome then none else some (loops.handleSwarmEvent ctx event)
  | .eventSent =>
      match loops.network with
      | none => none
      | some event =>
          if loops.events.length < capacity then
            some { loops with events := loops.events ++ [event], network := none }
          else none
  | .command =>
      match loops.network, loops.commands with
      | none, command :: rest => some ({ loops with commands := rest }.handleCommand command)
      | _, _ => none
  | .networkEvent device failure =>
      match loops.engine, loops.events with
      | none, event :: rest =>
          { loops with events := rest }.handleNetworkEvent ctx device failure event
      | _, _ => none
  | .fsEvent reads =>
      if loops.engine.isSome then none
      else (loops.peer.step ctx (.fsEvent reads)).map fun stepped =>
        { loops with peer := stepped.1, engine := stepped.2.map .notify }
  | .commandSent =>
      match loops.engine with
      | none => none
      | some command =>
          if loops.commands.length < capacity then
            some { loops with commands := loops.commands ++ [command], engine := none }
          else none
  | .requestSent task =>
      (loops.peer.tasks[task]?.bind fun entry => entry.stage.request).bind
        fun (source, request) =>
          if task ∉ loops.awaiting ∧ loops.commands.length < capacity then
            some { loops with
              commands := loops.commands ++ [.sendRequest source request task]
              awaiting := task :: loops.awaiting }
          else none
  | .beside act =>
      if act.isBeside then
        (loops.peer.step ctx act).map fun stepped => { loops with peer := stepped.1 }
      else none

/-- The loops of a peer when they start. -/
def start (peer : Peer ι) (topic : Option Str) : Loops ι where
  peer := peer
  topic := topic
  commands := []
  events := []
  network := none
  engine := none
  awaiting := []
  pendingRequests := []
  nextRequestId := 0

/-! ## Messages under way -/

omit [Blake3] in
/-- The messages in the channels and in the hands of the loops. -/
def load : Nat :=
  loops.commands.length + loops.events.length + loops.network.toList.length +
    loops.engine.toList.length

/-- Whether a step lets a new message in: an event of the swarm that is sent on, a file
event that is published, or the request of a task. -/
def letsIn : Beat ι → Bool
  | .swarmEvent event => (loops.forwarded event).isSome
  | .fsEvent reads => (loops.peer.step ctx (.fsEvent reads)).any fun stepped => stepped.2.isSome
  | .requestSent _ => true
  | _ => false

/-- Both loops wait for space in a full channel that only the other one drains. -/
structure Deadlocked : Prop where
  network : loops.network.isSome = true ∧ capacity ≤ loops.events.length
  engine : loops.engine.isSome = true ∧ capacity ≤ loops.commands.length

/-- The channels hold no more than they can. -/
structure Fits : Prop where
  commands : loops.commands.length ≤ capacity
  events : loops.events.length ≤ capacity

/-- A new message is let in only while there is room for one and one more. -/
def LeavesRoom (beat : Beat ι) : Prop :=
  loops.letsIn ctx beat = true → loops.load < 2 * capacity + 1

variable {ctx capacity loops}

omit [Blake3] in
/-- **The loops wait for each other** exactly when every place for a message is taken. -/
theorem deadlocked_iff_load (fits : loops.Fits capacity) :
    loops.Deadlocked capacity ↔ loops.load = 2 * capacity + 2 := by
  obtain ⟨commands, events⟩ := fits
  have held : ∀ {β : Type} (hand : Option β),
      hand.toList.length ≤ 1 ∧ (hand.toList.length = 1 ↔ hand.isSome = true) := by
    intro β hand
    cases hand <;> simp
  obtain ⟨network, networkHolds⟩ := held loops.network
  obtain ⟨engine, engineHolds⟩ := held loops.engine
  rw [load]
  constructor
  · rintro ⟨⟨networkWaits, full⟩, engineWaits, full'⟩
    rw [networkHolds.mpr networkWaits, engineHolds.mpr engineWaits]
    omega
  · intro all
    exact ⟨⟨networkHolds.mp (by omega), by omega⟩, engineHolds.mp (by omega), by omega⟩

variable (ctx) in
/-- A reply touches neither the channels nor the hands of the loops. -/
theorem replied_channels (requestId : Nat) (response : Option SyncResponse) :
    (loops.replied ctx requestId response).commands = loops.commands ∧
      (loops.replied ctx requestId response).events = loops.events ∧
        (loops.replied ctx requestId response).network = loops.network ∧
          (loops.replied ctx requestId response).engine = loops.engine := by
  rw [replied]
  split <;> exact ⟨rfl, rfl, rfl, rfl⟩

variable (ctx) in
/-- An idle network loop then holds what it sends on of an event. -/
theorem handleSwarmEvent_channels (idle : loops.network = none) (event : SwarmEvent ι) :
    (loops.handleSwarmEvent ctx event).commands = loops.commands ∧
      (loops.handleSwarmEvent ctx event).events = loops.events ∧
        (loops.handleSwarmEvent ctx event).network = loops.forwarded event ∧
          (loops.handleSwarmEvent ctx event).engine = loops.engine := by
  cases event with
  | response requestId response =>
      obtain ⟨commands, events, network, engine⟩ :=
        replied_channels ctx requestId (some response)
      exact ⟨commands, events, network.trans idle, engine⟩
  | outboundFailure requestId =>
      obtain ⟨commands, events, network, engine⟩ :=
        replied_channels ctx requestId none
      exact ⟨commands, events, network.trans idle, engine⟩
  | _ => exact ⟨rfl, rfl, rfl, rfl⟩

omit [Blake3] in
theorem handleCommand_channels (loops : Loops ι) (command : Command ι) :
    (loops.handleCommand command).commands = loops.commands ∧
      (loops.handleCommand command).events = loops.events ∧
        (loops.handleCommand command).network = loops.network ∧
          (loops.handleCommand command).engine = loops.engine := by
  cases command <;> exact ⟨rfl, rfl, rfl, rfl⟩

/-- The engine loop holds at most one command after an event. -/
theorem handleNetworkEvent_channels {device : Device} {failure : Option String}
    {event : Event ι} {after : Loops ι} (idle : loops.engine = none)
    (handled : loops.handleNetworkEvent ctx device failure event = some after) :
    after.commands = loops.commands ∧ after.events = loops.events ∧
      after.network = loops.network ∧ after.engine.toList.length ≤ 1 := by
  have kept : loops.engine.toList.length ≤ 1 := by rw [idle]; exact Nat.zero_le 1
  cases event with
  | peerDiscovered source =>
      rw [handleNetworkEvent] at handled
      obtain ⟨stepped, -, rfl⟩ := Option.map_eq_some_iff.mp handled
      exact ⟨rfl, rfl, rfl, kept⟩
  | notification source notification =>
      rw [handleNetworkEvent] at handled
      obtain ⟨stepped, -, rfl⟩ := Option.map_eq_some_iff.mp handled
      exact ⟨rfl, rfl, rfl, kept⟩
  | inboundRequest source request channel =>
      cases handled
      exact ⟨rfl, rfl, rfl, le_rfl⟩
  | peerDisconnected source =>
      cases handled
      exact ⟨rfl, rfl, rfl, kept⟩
  | listening address =>
      cases handled
      exact ⟨rfl, rfl, rfl, kept⟩

/-- **What a step does to the number of messages**: one more where a new one is let in, and
no more than before elsewhere. -/
theorem load_step {beat : Beat ι} {after : Loops ι} (fits : loops.Fits capacity)
    (stepped : loops.step ctx capacity beat = some after) :
    after.Fits capacity ∧
      if loops.letsIn ctx beat = true then after.load = loops.load + 1
      else after.load ≤ loops.load := by
  obtain ⟨commandsFit, eventsFit⟩ := fits
  cases beat with
  | swarmEvent event =>
      rw [step] at stepped
      cases network : loops.network with
      | some held => simp [network] at stepped
      | none =>
          rw [network] at stepped
          obtain rfl := Option.some.inj stepped
          obtain ⟨commands, events, network', engine⟩ :=
            handleSwarmEvent_channels ctx network event
          refine ⟨⟨commands ▸ commandsFit, events ▸ eventsFit⟩, ?_⟩
          rw [load, load, commands, events, network', engine, network, letsIn]
          cases loops.forwarded event with
          | none => exact le_rfl
          | some sent =>
              simp only [Option.isSome_some, if_true, Option.toList_some, Option.toList_none,
                List.length_singleton, List.length_nil]
              omega
  | eventSent =>
      rw [step] at stepped
      cases network : loops.network with
      | none => simp [network] at stepped
      | some held =>
          simp only [network, Option.ite_none_right_eq_some, Option.some.injEq] at stepped
          obtain ⟨space, rfl⟩ := stepped
          refine ⟨⟨commandsFit, ?_⟩, ?_⟩
          · rw [List.length_append]
            exact space
          · simp only [letsIn, Bool.false_eq_true, if_false, load, network, List.length_append,
              Option.toList_some, Option.toList_none, List.length_singleton, List.length_nil]
            omega
  | command =>
      rw [step] at stepped
      split at stepped
      · rename_i command rest network queue
        obtain rfl := Option.some.inj stepped
        obtain ⟨commands, events, network', engine⟩ :=
          handleCommand_channels { loops with commands := rest } command
        rw [queue, List.length_cons] at commandsFit
        refine ⟨⟨?_, ?_⟩, ?_⟩
        · rw [commands]
          exact Nat.le_of_succ_le commandsFit
        · rw [events]
          exact eventsFit
        · simp only [letsIn, Bool.false_eq_true, if_false, load, commands, events, network',
            engine, queue, List.length_cons]
          omega
      · exact absurd stepped (Option.some_ne_none _).symm
  | networkEvent device failure =>
      rw [step] at stepped
      split at stepped
      · rename_i event rest engine queue
        have idle : ({ loops with events := rest } : Loops ι).engine = none := engine
        obtain ⟨commands, events, network, atMost⟩ := handleNetworkEvent_channels idle stepped
        rw [queue, List.length_cons] at eventsFit
        refine ⟨⟨commands ▸ commandsFit, ?_⟩, ?_⟩
        · rw [events]
          exact Nat.le_of_succ_le eventsFit
        · simp only [letsIn, Bool.false_eq_true, if_false, load, commands, events, network,
            queue, List.length_cons]
          omega
      · exact absurd stepped (Option.some_ne_none _).symm
  | fsEvent reads =>
      rw [step] at stepped
      cases engine : loops.engine with
      | some held => simp [engine] at stepped
      | none =>
          rw [engine] at stepped
          obtain ⟨⟨next, published⟩, taken, rfl⟩ := Option.map_eq_some_iff.mp stepped
          refine ⟨⟨commandsFit, eventsFit⟩, ?_⟩
          rw [letsIn, taken]
          cases published with
          | none =>
              simp only [Option.any_some, Option.isSome_none, Bool.false_eq_true, if_false, load,
                engine, Option.map_none, le_refl]
          | some notification =>
              simp only [Option.any_some, Option.isSome_some, if_true, load, engine,
                Option.map_some, Option.toList_some, Option.toList_none, List.length_singleton,
                List.length_nil]
  | commandSent =>
      rw [step] at stepped
      cases engine : loops.engine with
      | none => simp [engine] at stepped
      | some held =>
          simp only [engine, Option.ite_none_right_eq_some, Option.some.injEq] at stepped
          obtain ⟨space, rfl⟩ := stepped
          refine ⟨⟨?_, eventsFit⟩, ?_⟩
          · rw [List.length_append]
            exact space
          · simp only [letsIn, Bool.false_eq_true, if_false, load, engine, List.length_append,
              Option.toList_some, Option.toList_none, List.length_singleton, List.length_nil]
            omega
  | requestSent task =>
      rw [step] at stepped
      obtain ⟨⟨source, request⟩, -, sent⟩ := Option.bind_eq_some_iff.mp stepped
      rw [Option.ite_none_right_eq_some, Option.some.injEq] at sent
      obtain ⟨⟨-, space⟩, rfl⟩ := sent
      refine ⟨⟨?_, eventsFit⟩, ?_⟩
      · rw [List.length_append]
        exact space
      · simp only [letsIn, if_true, load, List.length_append, List.length_singleton]
        omega
  | beside act =>
      rw [step, Option.ite_none_right_eq_some] at stepped
      obtain ⟨taken, -, rfl⟩ := Option.map_eq_some_iff.mp stepped.2
      exact ⟨⟨commandsFit, eventsFit⟩, le_rfl⟩

/-- A step leads into a deadlock exactly when it lets a message into the last free place. -/
theorem deadlocked_step_iff {beat : Beat ι} {after : Loops ι} (fits : loops.Fits capacity)
    (free : ¬ loops.Deadlocked capacity) (stepped : loops.step ctx capacity beat = some after) :
    after.Deadlocked capacity ↔ ¬ loops.LeavesRoom ctx capacity beat := by
  have bound : loops.load ≤ 2 * capacity + 1 := by
    have most : loops.network.toList.length ≤ 1 ∧ loops.engine.toList.length ≤ 1 :=
      ⟨by cases loops.network <;> simp, by cases loops.engine <;> simp⟩
    have notAll := mt (deadlocked_iff_load fits).mpr free
    have commands := fits.commands
    have events := fits.events
    rw [load] at notAll ⊢
    omega
  obtain ⟨fits', change⟩ := load_step fits stepped
  rw [deadlocked_iff_load fits', LeavesRoom]
  by_cases arrives : loops.letsIn ctx beat = true
  · rw [if_pos arrives] at change
    simp only [arrives, true_implies]
    omega
  · rw [if_neg arrives] at change
    exact iff_of_false (by omega) fun crowded => crowded fun letsIn => absurd letsIn arrives

/-- **Two loops that wait for each other wait forever.** -/
theorem deadlocked_of_step {beat : Beat ι} {after : Loops ι}
    (deadlocked : loops.Deadlocked capacity)
    (stepped : loops.step ctx capacity beat = some after) : after.Deadlocked capacity := by
  obtain ⟨⟨networkWaits, eventsFull⟩, engineWaits, commandsFull⟩ := deadlocked
  obtain ⟨event, network⟩ := Option.isSome_iff_exists.mp networkWaits
  obtain ⟨command, engine⟩ := Option.isSome_iff_exists.mp engineWaits
  cases beat with
  | beside act =>
      rw [step, Option.ite_none_right_eq_some] at stepped
      obtain ⟨taken, -, rfl⟩ := Option.map_eq_some_iff.mp stepped.2
      exact ⟨⟨networkWaits, eventsFull⟩, engineWaits, commandsFull⟩
  | requestSent task =>
      rw [step] at stepped
      obtain ⟨⟨source, request⟩, -, sent⟩ := Option.bind_eq_some_iff.mp stepped
      rw [Option.ite_none_right_eq_some] at sent
      exact absurd sent.1.2 (Nat.not_lt.mpr commandsFull)
  | _ =>
      simp [step, network, engine, Nat.not_lt.mpr eventsFull, Nat.not_lt.mpr commandsFull]
        at stepped

/-- The channels hold no more than they can in any run. -/
theorem fits_of_run {peer : Peer ι} {topic : Option Str} {last : Loops ι}
    {trace : List (Loops ι × Beat ι)}
    (run : Run (step ctx capacity) (start peer topic) trace last) : last.Fits capacity :=
  run.invariant (Fits capacity) (fun _ _ => True) (fun _ _ => trivial)
    ⟨Nat.zero_le _, Nat.zero_le _⟩ fun _ _ _ fits _ stepped => (load_step fits stepped).1

/-- The swarm reports a request, and the network loop sends it on. -/
def asks (source : ι) : List (Beat ι) :=
  [.swarmEvent (.request source .getRootHash 0), .eventSent]

/-- The engine loop has answered a request, and the network loop did not get to it. -/
def answers (source : ι) : List (Beat ι) :=
  asks source ++ [.networkEvent {} none, .commandSent]

variable (loops) in
/-- The loops with so many answers and requests in the channels. -/
def filled (source : ι) (answered asked : Nat) : Loops ι :=
  { loops with
    commands :=
      List.replicate answered (.respond 0 (.rootHash loops.peer.index.tree.hash))
    events := List.replicate asked (.inboundRequest source .getRootHash 0) }

end Loops

/-! ## Concrete loops -/

namespace Loops

attribute [local instance] Sample.blake3

end Loops

end P2Sync
