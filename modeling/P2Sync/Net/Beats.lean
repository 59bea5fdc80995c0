import P2Sync.Net.Channels
import P2Sync.Support.Simulation

/-!
# What a beat of the loops can do

`Loops.Beats` lists the cases of a step of the two loops, and `Loops.beat_cases` says that the list
is complete. Requests of other peers go through the loops in one line: the network loop holds one,
the channel of events has some, the engine loop answers one, and the channel of commands has some
answers (`Loops.line`). Each gets one answer, and the answers go out in the order in which the
requests came in (`Loops.answers_in_order`). What a peer publishes goes out in the order in which
it was published (`Loops.notices_in_order`).
-/

set_option autoImplicit false

namespace P2Sync

/-- The reply that the swarm reports, with the request it is for. -/
def SwarmEvent.reply {ι : Type} : SwarmEvent ι → Option (Nat × Option SyncResponse)
  | .response requestId answer => some (requestId, some answer)
  | .outboundFailure requestId => some (requestId, none)
  | _ => none

namespace Loops

variable {ι : Type} [Blake3]

/-! ## Cases -/

/-- The cases of a step. -/
inductive Beats (ctx : Ctx ι) (capacity : Nat) (before : Loops ι) : Beat ι → Loops ι → Prop where
  | forwarded (event : SwarmEvent ι) (idle : before.network = none) (news : event.reply = none) :
      Beats ctx capacity before (.swarmEvent event)
        { before with network := before.forwarded event }
  | replied (event : SwarmEvent ι) (requestId : Nat) (response : Option SyncResponse)
      (idle : before.network = none) (reply : event.reply = some (requestId, response)) :
      Beats ctx capacity before (.swarmEvent event) (before.replied ctx requestId response)
  | eventSent (event : Event ι) (held : before.network = some event)
      (space : before.events.length < capacity) :
      Beats ctx capacity before .eventSent
        { before with events := before.events ++ [event], network := none }
  | requested (source : ι) (request : SyncRequest) (task : Nat) (rest : List (Command ι))
      (idle : before.network = none)
      (queue : before.commands = .sendRequest source request task :: rest) :
      Beats ctx capacity before .command
        { before with
          commands := rest
          pendingRequests := (before.nextRequestId, task) :: before.pendingRequests
          nextRequestId := before.nextRequestId + 1 }
  | notified (notification : SyncNotification) (rest : List (Command ι))
      (idle : before.network = none) (queue : before.commands = .notify notification :: rest) :
      Beats ctx capacity before .command { before with commands := rest }
  | responded (channel : Nat) (response : SyncResponse) (rest : List (Command ι))
      (idle : before.network = none)
      (queue : before.commands = .respond channel response :: rest) :
      Beats ctx capacity before .command { before with commands := rest }
  | discovered (device : Device) (failure : Option String) (source : ι) (rest : List (Event ι))
      (free : before.engine = none) (queue : before.events = .peerDiscovered source :: rest) :
      Beats ctx capacity before (.networkEvent device failure)
        { before with events := rest, peer := before.peer.spawn (.askedRoot source) }
  | ignored (device : Device) (failure : Option String) (event : Event ι) (rest : List (Event ι))
      (free : before.engine = none) (queue : before.events = event :: rest)
      (status : (∃ peer, event = .peerDisconnected peer) ∨ ∃ address, event = .listening address) :
      Beats ctx capacity before (.networkEvent device failure) { before with events := rest }
  | answered (device : Device) (failure : Option String) (asker : ι) (request : SyncRequest)
      (channel : Nat) (rest : List (Event ι)) (free : before.engine = none)
      (queue : before.events = .inboundRequest asker request channel :: rest) :
      Beats ctx capacity before (.networkEvent device failure)
        { before with
          events := rest
          engine := some (.respond channel (handleInboundRequest ctx.storage before.peer.index
            before.peer.disk failure request)) }
  | delivered (device : Device) (failure : Option String) (source : ι)
      (notification : SyncNotification) (rest : List (Event ι)) (next : Peer ι)
      (free : before.engine = none)
      (queue : before.events = .notification source notification :: rest)
      (stepped : before.peer.step ctx (.notified source notification device) = some (next, none)) :
      Beats ctx capacity before (.networkEvent device failure)
        { before with events := rest, peer := next }
  | fsEvent (reads : FsReads) (next : Peer ι) (published : Option SyncNotification)
      (free : before.engine = none)
      (stepped : before.peer.step ctx (.fsEvent reads) = some (next, published)) :
      Beats ctx capacity before (.fsEvent reads)
        { before with peer := next, engine := published.map .notify }
  | commandSent (command : Command ι) (held : before.engine = some command)
      (space : before.commands.length < capacity) :
      Beats ctx capacity before .commandSent
        { before with commands := before.commands ++ [command], engine := none }
  | requestSent (number : Nat) (task : Task ι) (source : ι) (request : SyncRequest)
      (found : before.peer.tasks[number]? = some task)
      (asked : task.stage.request = some (source, request)) (first : number ∉ before.awaiting)
      (space : before.commands.length < capacity) :
      Beats ctx capacity before (.requestSent number)
        { before with
          commands := before.commands ++ [.sendRequest source request number]
          awaiting := number :: before.awaiting }
  | beside (act : Act ι) (next : Peer ι) (aside : act.isBeside = true)
      (stepped : before.peer.step ctx act = some (next, none)) :
      Beats ctx capacity before (.beside act) { before with peer := next }

variable {ctx : Ctx ι} {capacity : Nat} {before after : Loops ι}

/-- What happens beside the loops publishes nothing. -/
theorem published_of_isBeside {peer next : Peer ι} {act : Act ι}
    {published : Option SyncNotification} (aside : act.isBeside = true)
    (stepped : peer.step ctx act = some (next, published)) : published = none := by
  cases Peer.step_cases stepped with
  | edited | erased => exact absurd aside Bool.false_ne_true
  | _ => rfl

/-- **The cases of a step are complete.** -/
theorem beat_cases {beat : Beat ι} (stepped : before.step ctx capacity beat = some after) :
    Beats ctx capacity before beat after := by
  cases beat with
  | swarmEvent event =>
      rw [step] at stepped
      cases network : before.network with
      | some held => simp [network] at stepped
      | none =>
          rw [network] at stepped
          obtain rfl := Option.some.inj stepped
          cases event with
          | response requestId response => exact .replied _ requestId _ network rfl
          | outboundFailure requestId => exact .replied _ requestId _ network rfl
          | _ => exact .forwarded _ network rfl
  | eventSent =>
      rw [step] at stepped
      cases network : before.network with
      | none => simp [network] at stepped
      | some event =>
          simp only [network, Option.ite_none_right_eq_some, Option.some.injEq] at stepped
          obtain ⟨space, rfl⟩ := stepped
          exact .eventSent event network space
  | command =>
      rw [step] at stepped
      split at stepped
      · rename_i command rest network queue
        obtain rfl := Option.some.inj stepped
        cases command with
        | sendRequest source request task => exact .requested source request task rest network queue
        | notify notification => exact .notified notification rest network queue
        | respond channel response => exact .responded channel response rest network queue
      · exact absurd stepped (Option.some_ne_none _).symm
  | networkEvent device failure =>
      rw [step] at stepped
      split at stepped
      · rename_i event rest engine queue
        cases event with
        | peerDiscovered source =>
            cases stepped
            exact .discovered device failure source rest engine queue
        | peerDisconnected source =>
            cases stepped
            exact .ignored device failure _ rest engine queue (Or.inl ⟨source, rfl⟩)
        | listening address =>
            cases stepped
            exact .ignored device failure _ rest engine queue (Or.inr ⟨address, rfl⟩)
        | inboundRequest asker request channel =>
            cases stepped
            exact .answered device failure asker request channel rest engine queue
        | notification source notification =>
            cases stepped
            exact .delivered device failure source notification rest _ engine queue rfl
      · exact absurd stepped (Option.some_ne_none _).symm
  | fsEvent reads =>
      rw [step] at stepped
      cases engine : before.engine with
      | some held => simp [engine] at stepped
      | none =>
          rw [engine] at stepped
          obtain ⟨⟨next, published⟩, taken, rfl⟩ := Option.map_eq_some_iff.mp stepped
          exact .fsEvent reads next published engine taken
  | commandSent =>
      rw [step] at stepped
      cases engine : before.engine with
      | none => simp [engine] at stepped
      | some command =>
          simp only [engine, Option.ite_none_right_eq_some, Option.some.injEq] at stepped
          obtain ⟨space, rfl⟩ := stepped
          exact .commandSent command engine space
  | requestSent number =>
      rw [step] at stepped
      obtain ⟨⟨source, request⟩, asking, sent⟩ := Option.bind_eq_some_iff.mp stepped
      obtain ⟨task, found, asked⟩ := Option.bind_eq_some_iff.mp asking
      rw [Option.ite_none_right_eq_some, Option.some.injEq] at sent
      obtain ⟨⟨first, space⟩, rfl⟩ := sent
      exact .requestSent number task source request found asked first space
  | beside act =>
      rw [step, Option.ite_none_right_eq_some] at stepped
      obtain ⟨aside, mapped⟩ := stepped
      obtain ⟨⟨next, published⟩, taken, rfl⟩ := Option.map_eq_some_iff.mp mapped
      obtain rfl := published_of_isBeside aside taken
      exact .beside act next aside taken

end Loops

/-! ## Queues -/

/-- The answer that goes out, with its channel. -/
def Command.answer? {ι : Type} : Command ι → Option (Nat × SyncResponse)
  | .respond channel response => some (channel, response)
  | _ => none

/-- The channel of the answer that goes out. -/
def Command.channel? {ι : Type} (command : Command ι) : Option Nat :=
  command.answer?.map Prod.fst

/-- The notification that goes out. -/
def Command.notification? {ι : Type} : Command ι → Option SyncNotification
  | .notify notification => some notification
  | _ => none

/-- The channel of a request that comes in. -/
def Event.channel? {ι : Type} : Event ι → Option Nat
  | .inboundRequest _ _ channel => some channel
  | _ => none

namespace Loops

variable {ι γ : Type}

/-- What the engine has made for the network loop and the network loop has not taken. -/
def outgoing (part : Command ι → Option γ) (loops : Loops ι) : List γ :=
  loops.commands.filterMap part ++ loops.engine.toList.filterMap part

/-- What the network loop has for the engine and the engine has not taken. -/
def incoming (part : Event ι → Option γ) (loops : Loops ι) : List γ :=
  loops.events.filterMap part ++ loops.network.toList.filterMap part

/-- The command that the network loop takes. -/
def taken (loops : Loops ι) : Beat ι → Option (Command ι)
  | .command => loops.commands.head?
  | _ => none

/-- The event that the engine takes. -/
def heard (loops : Loops ι) : Beat ι → Option (Event ι)
  | .networkEvent _ _ => loops.events.head?
  | _ => none

/-- The event that the network loop makes of what the swarm reports. -/
def reported (loops : Loops ι) : Beat ι → Option (Event ι)
  | .swarmEvent event => loops.forwarded event
  | _ => none

/-- The command that the engine makes. -/
def made [Blake3] (ctx : Ctx ι) (loops : Loops ι) : Beat ι → Option (Command ι)
  | .networkEvent _ failure =>
      match loops.events.head? with
      | some (.inboundRequest _ request channel) =>
          some (.respond channel (handleInboundRequest ctx.storage loops.peer.index
            loops.peer.disk failure request))
      | _ => none
  | .fsEvent reads => ((loops.peer.step ctx (.fsEvent reads)).bind Prod.snd).map .notify
  | _ => none

/-- The channels of the requests that a peer has not answered yet, the next answer first. -/
def line (loops : Loops ι) : List Nat :=
  loops.outgoing Command.channel? ++ loops.incoming Event.channel?

/-- The channel of the request that the network loop takes from the swarm. -/
def cameIn (loops : Loops ι) (beat : Beat ι) : List Nat :=
  (loops.reported beat).toList.filterMap Event.channel?

/-- The channel of the answer that the network loop hands to the swarm. -/
def wentOut (loops : Loops ι) (beat : Beat ι) : List Nat :=
  (loops.taken beat).toList.filterMap Command.channel?

/-- What a step publishes. -/
def published [Blake3] (ctx : Ctx ι) (loops : Loops ι) (beat : Beat ι) : List SyncNotification :=
  (loops.made ctx beat).toList.filterMap Command.notification?

/-- The notification that the network loop hands to the swarm. -/
def sentOut (loops : Loops ι) (beat : Beat ι) : List SyncNotification :=
  (loops.taken beat).toList.filterMap Command.notification?

variable [Blake3] {ctx : Ctx ι} {capacity : Nat} {before after : Loops ι} {beat : Beat ι}

omit [Blake3] in
theorem forwarded_of_reply {event : SwarmEvent ι} {answer : Nat × Option SyncResponse}
    (reply : event.reply = some answer) : before.forwarded event = none := by
  cases event with
  | response | outboundFailure => rfl
  | _ => exact absurd reply (Option.some_ne_none answer).symm

omit [Blake3] in
theorem outgoing_channel (loops : Loops ι) :
    loops.outgoing Command.channel? = (loops.outgoing Command.answer?).map Prod.fst := by
  rw [outgoing, outgoing, List.map_append, List.map_filterMap, List.map_filterMap]
  rfl

omit [Blake3] in
/-- What the network loop makes an event of. -/
theorem reported_cases {event : Event ι} (reported : before.reported beat = some event) :
    match event with
    | .inboundRequest asker request channel => beat = .swarmEvent (.request asker request channel)
    | .notification source notification => beat = .swarmEvent (.message source (some notification))
    | _ => True := by
  cases beat with
  | swarmEvent event =>
      rw [Loops.reported] at reported
      cases event with
      | request | newListenAddr =>
          cases reported
          trivial
      | message source notification =>
          cases notification with
          | none => cases reported
          | some notification =>
              cases reported
              trivial
      | subscribed | connectionClosed =>
          rw [forwarded, Option.ite_none_right_eq_some] at reported
          cases reported.2
          trivial
      | _ => cases reported
  | _ => cases reported

/-- What the engine makes goes to the network loop in order, whatever part of it is looked at;
the requests of tasks come in between. -/
theorem outgoing_step (part : Command ι → Option γ)
    (between : ∀ source request reply, part (.sendRequest source request reply) = none)
    (stepped : before.step ctx capacity beat = some after) :
    (before.taken beat).toList.filterMap part ++ after.outgoing part =
      before.outgoing part ++ (before.made ctx beat).toList.filterMap part := by
  cases beat_cases stepped with
  | forwarded | eventSent | beside => simp [taken, made, outgoing]
  | replied event requestId response =>
      obtain ⟨commands, _, _, engine⟩ := @replied_channels _ _ ctx before requestId response
      simp [taken, made, outgoing, commands, engine]
  | requested source request task rest idle queue =>
      simp [taken, made, outgoing, queue, between]
  | notified notification rest idle queue
  | responded channel response rest idle queue =>
      simp only [taken, made, outgoing, queue, List.head?_cons, Option.toList_some,
        Option.toList_none, List.filterMap_nil, List.append_nil, ← List.append_assoc,
        ← List.filterMap_append, List.singleton_append]
  | discovered device failure source rest free queue
  | delivered device failure source notification rest next free queue =>
      simp [taken, made, outgoing, queue]
  | ignored device failure event rest free queue status =>
      rcases status with ⟨peer, rfl⟩ | ⟨address, rfl⟩ <;> simp [taken, made, outgoing, queue]
  | answered device failure asker request channel rest free queue =>
      simp [taken, made, outgoing, queue, free]
  | fsEvent reads next announced free ran => simp [taken, made, outgoing, free, ran]
  | commandSent command held space => simp [taken, made, outgoing, held]
  | requestSent number task source request found asked first space =>
      simp [taken, made, outgoing, between]

/-- What the network loop has for the engine goes there in order. -/
theorem incoming_step (part : Event ι → Option γ)
    (stepped : before.step ctx capacity beat = some after) :
    (before.heard beat).toList.filterMap part ++ after.incoming part =
      before.incoming part ++ (before.reported beat).toList.filterMap part := by
  cases beat_cases stepped with
  | forwarded event idle news => simp [heard, reported, incoming, idle]
  | replied event requestId response idle reply =>
      obtain ⟨_, events, network, _⟩ := @replied_channels _ _ ctx before requestId response
      simp [heard, reported, incoming, events, network, forwarded_of_reply reply]
  | eventSent event held space => simp [heard, reported, incoming, held]
  | discovered device failure source rest free queue
  | ignored device failure event rest free queue
  | answered device failure asker request channel rest free queue
  | delivered device failure source notification rest next free queue =>
      simp only [heard, reported, incoming, queue, List.head?_cons, Option.toList_some,
        Option.toList_none, List.filterMap_nil, List.append_nil, ← List.append_assoc,
        ← List.filterMap_append, List.singleton_append]
  | _ => simp [heard, reported, incoming]

/-- The engine answers the request that it takes. -/
theorem made_channel (beat : Beat ι) :
    (before.made ctx beat).toList.filterMap Command.channel? =
      (before.heard beat).toList.filterMap Event.channel? := by
  cases beat with
  | networkEvent device failure =>
      rw [made, heard]
      cases before.events.head? with
      | none => rfl
      | some event => cases event <;> rfl
  | fsEvent reads =>
      rw [made]
      cases (before.peer.step ctx (.fsEvent reads)).bind Prod.snd <;> rfl
  | _ => rfl

/-- **Requests are answered in line**: the answer that goes out is the next one, and a request
that comes in is the last one. -/
theorem line_step (stepped : before.step ctx capacity beat = some after) :
    before.wentOut beat ++ after.line = before.line ++ before.cameIn beat := by
  have commands := outgoing_step Command.channel? (fun _ _ _ => rfl) stepped
  have events := incoming_step Event.channel? stepped
  rw [made_channel] at commands
  rw [wentOut, line, line, cameIn, ← List.append_assoc, commands, List.append_assoc, events,
    List.append_assoc]

/-- **Every request is answered once, in the order in which the requests came in**: the answers
that have gone out, and the requests that wait in line, are those that came in. -/
theorem answers_in_order {peer : Peer ι} {topic : Option Str} {last : Loops ι}
    {trace : List (Loops ι × Beat ι)}
    (run : Run (step ctx capacity) (start peer topic) trace last) :
    visible wentOut trace ++ last.line = visible cameIn trace :=
  run.queue fun _ _ _ stepped => line_step stepped

end Loops

/-! ## Concrete loops -/

namespace Loops

attribute [local instance] Sample.blake3

/-- Two requests come in, one after the other, and the first one is answered. -/
def asksTwice : List (Beat Sample.Site) :=
  [.swarmEvent (.request .two .getRootHash 0), .eventSent, .networkEvent {} none,
    .swarmEvent (.request .three .getTree 1), .commandSent, .eventSent, .command]

/-- The first request is answered, and the second one waits in line. -/
theorem exists_line :
    ∃ trace last, Run (step (Sample.ctx .one) 1)
      (start (Sample.peer .one [1]) (some ['g'])) trace last ∧ trace.map Prod.snd = asksTwice ∧
        visible wentOut trace = [0] ∧
          visible wentOut trace ++ last.line = visible cameIn trace := by
  obtain ⟨trace, last, run, acts, _, answered⟩ :=
    @exists_history_run _ _ (step (Sample.ctx .one) 1)
      (start (Sample.peer .one [1]) (some ['g'])) asksTwice (fun _ _ => true)
      (fun trace _ => decide (visible wentOut trace = [0])) (by decide +kernel)
  exact ⟨trace, last, run, acts, of_decide_eq_true answered, answers_in_order run⟩

end Loops

end P2Sync
