import P2Sync.Net.Atomic

/-!
# A swarm leaves nothing out

A run of a mesh is one of a swarm (`Mesh.refines_swarm`). The other way round, whatever happens in
a swarm can happen in a mesh whose channels have room for a message: each turn is taken in a few
moves, from a state in which nothing is under way to another one (`Swarm.refines_mesh`). A swarm is
therefore the mesh with the channels left out, with no run more and no run less.
-/

set_option autoImplicit false

namespace P2Sync

namespace Loops

variable {ι : Type}

/-- Nothing is under way between the two loops. -/
structure Clear (loops : Loops ι) : Prop where
  commands : loops.commands = []
  events : loops.events = []
  network : loops.network = none
  engine : loops.engine = none

end Loops

/-- Only a stage that has asked takes a reply. -/
theorem Peer.request_of_answer {ι : Type} {stage stage' : Stage ι} {response : Option SyncResponse}
    (reply : answer stage response = some stage') : ∃ asked, stage.request = some asked := by
  cases reply_cases reply <;> exact ⟨_, rfl⟩

namespace Mesh

variable {ι : Type} [DecidableEq ι] [Blake3] {ctx : ι → Ctx ι} {capacity : Nat} {mesh : Mesh ι}
  {site : ι} {loops next : Loops ι} {beat : Beat ι}

/-- A mesh with other loops of one peer. -/
def put (mesh : Mesh ι) (site : ι) (loops : Loops ι) : Mesh ι :=
  { mesh with loops := Function.update mesh.loops site loops }

omit [Blake3] in
theorem put_self (mesh : Mesh ι) (site : ι) : mesh.put site (mesh.loops site) = mesh := by
  rw [put, Function.update_eq_self]

omit [Blake3] in
theorem loops_put_of_ne (mesh : Mesh ι) {site other : ι} (apart : other ≠ site)
    (loops : Loops ι) : (mesh.put site loops).loops other = mesh.loops other :=
  Function.update_of_ne apart ..

omit [Blake3] in
theorem loops_put (mesh : Mesh ι) (site : ι) (loops : Loops ι) :
    (mesh.put site loops).loops site = loops :=
  Function.update_self ..

variable (ctx capacity) in
/-- What a run of moves shows. -/
abbrev Goes (mesh : Mesh ι) (sights : List (ι × Act ι)) (after : Mesh ι) : Prop :=
  Shows (step ctx capacity) shown mesh sights after

omit [Blake3] in
theorem moved_put : (mesh.put site loops).moved site beat next =
    put { mesh with
      calls := mesh.calls ++
        (loops.taken beat).toList.filterMap (Command.call site loops.nextRequestId)
      requests := mesh.requests ++
        ((loops.taken beat).toList.filterMap (Command.call site loops.nextRequestId)).map
          fun _ => mesh.calls.length
      responses := mesh.responses ++ (loops.taken beat).toList.filterMap Command.answer?
      gossip := mesh.gossip ++ if loops.topic.isSome then loops.sentOut beat else [] }
      site next := by
  simp only [moved, output, called, put, Function.update_self, Function.update_idem]

variable (mesh) in
/-- The loops of a peer take a step. -/
theorem goes_moved (inside : beat.isInside = true)
    (stepped : loops.step (ctx site) capacity beat = some next) :
    Goes ctx capacity (mesh.put site loops) ((loops.shown beat).map (Prod.mk site))
      ((mesh.put site loops).moved site beat next) := by
  have here := loops_put mesh site loops
  have taken : (mesh.put site loops).step ctx capacity (.beat site beat) =
      some ((mesh.put site loops).moved site beat next) := by
    rw [step, if_pos inside, beats, here, stepped, Option.map_some]
  have seen : (mesh.put site loops).shown (.beat site beat) =
      (loops.shown beat).map (Prod.mk site) := by
    rw [shown, here]
  exact seen ▸ .single taken

variable (mesh) in
/-- In most steps no command goes out. -/
theorem goes_put (inside : beat.isInside = true) (quiet : loops.taken beat = none)
    (stepped : loops.step (ctx site) capacity beat = some next) :
    Goes ctx capacity (mesh.put site loops) ((loops.shown beat).map (Prod.mk site))
      (mesh.put site next) := by
  have shows := goes_moved mesh inside stepped
  rw [moved_put, Loops.sentOut, quiet] at shows
  simpa using shows

/-- What the swarm reports gets to the engine. -/
theorem goes_heard (room : 0 < capacity) (clear : loops.Clear) {event : Event ι} :
    Goes ctx capacity (mesh.put site { loops with network := some event }) []
      (mesh.put site { loops with events := [event] }) := by
  have stepped : Loops.step (ctx site) capacity { loops with network := some event } .eventSent =
      some { loops with events := [event] } := by
    rw [Loops.step]
    simp [clear.events, room, clear.network]
  exact goes_put _ rfl rfl stepped

/-- What the engine makes gets to the network loop. -/
theorem goes_made (room : 0 < capacity) (clear : loops.Clear) {command : Command ι} :
    Goes ctx capacity (mesh.put site { loops with engine := some command }) []
      (mesh.put site { loops with commands := [command] }) := by
  have stepped : Loops.step (ctx site) capacity { loops with engine := some command }
      .commandSent = some { loops with commands := [command] } := by
    rw [Loops.step]
    simp [clear.commands, room, clear.engine]
  exact goes_put _ rfl rfl stepped

variable (ctx capacity mesh site) in
/-- A command goes out. -/
theorem goes_command (clear : loops.Clear) (command : Command ι) :
    Goes ctx capacity (mesh.put site { loops with commands := [command] }) []
      (put { mesh with
        calls := mesh.calls ++ [command].filterMap (Command.call site loops.nextRequestId)
        requests := mesh.requests ++
          ([command].filterMap (Command.call site loops.nextRequestId)).map
            fun _ => mesh.calls.length
        responses := mesh.responses ++ [command].filterMap Command.answer?
        gossip := mesh.gossip ++
          if loops.topic.isSome then [command].filterMap Command.notification? else [] }
        site (loops.handleCommand command)) := by
  have stepped : Loops.step (ctx site) capacity { loops with commands := [command] } .command =
      some (loops.handleCommand command) := by
    obtain ⟨⟩ := loops
    obtain ⟨rfl, rfl, rfl, rfl⟩ := clear
    rfl
  have shows := goes_moved mesh rfl stepped
  rw [moved_put] at shows
  exact shows

/-- What the engine answers goes out. -/
theorem goes_respond (room : 0 < capacity) (clear : loops.Clear) {channel : Nat}
    {response : SyncResponse} :
    Goes ctx capacity (mesh.put site { loops with engine := some (.respond channel response) }) []
      (put { mesh with responses := mesh.responses ++ [(channel, response)] } site loops) := by
  have out := goes_command ctx capacity mesh site clear (.respond channel response)
  simp only [List.filterMap_cons, Command.call, Command.answer?, Command.notification?,
    List.filterMap_nil, List.map_nil, List.append_nil, ite_self] at out
  exact (goes_made room clear).silent_trans out

/-- What a peer publishes goes out. -/
theorem goes_notify (room : 0 < capacity) (clear : loops.Clear) (joined : loops.topic.isSome = true)
    {notification : SyncNotification} :
    Goes ctx capacity (mesh.put site { loops with engine := some (.notify notification) }) []
      (put { mesh with gossip := mesh.gossip ++ [notification] } site loops) := by
  have out := goes_command ctx capacity mesh site clear (.notify notification)
  simp only [List.filterMap_cons, Command.call, Command.answer?, Command.notification?,
    List.filterMap_nil, List.map_nil, List.append_nil, if_pos joined] at out
  exact (goes_made room clear).silent_trans out

variable (ctx mesh site) in
/-- A task sends its request. -/
theorem goes_ask (room : 0 < capacity) (clear : loops.Clear) {number : Nat} {task : Task ι}
    {source : ι} {request : SyncRequest} (first : number ∉ loops.awaiting)
    (found : loops.peer.tasks[number]? = some task)
    (asked : task.stage.request = some (source, request)) :
    Goes ctx capacity (mesh.put site loops) []
      (put { mesh with
        calls := mesh.calls ++ [⟨site, loops.nextRequestId, source, request⟩]
        requests := mesh.requests ++ [mesh.calls.length] } site
        { loops with
          awaiting := number :: loops.awaiting
          pendingRequests := (loops.nextRequestId, number) :: loops.pendingRequests
          nextRequestId := loops.nextRequestId + 1 }) := by
  have sent : Loops.step (ctx site) capacity loops (.requestSent number) =
      some { loops with
        commands := [.sendRequest source request number]
        awaiting := number :: loops.awaiting } := by
    rw [Loops.step, found, Option.bind_some, asked]
    simp [first, room, clear.commands]
  have clear' : Loops.Clear { loops with awaiting := number :: loops.awaiting } :=
    ⟨clear.commands, clear.events, clear.network, clear.engine⟩
  have out := goes_command ctx capacity mesh site clear'
    (.sendRequest source request number)
  simp only [List.filterMap_cons, Command.call, Command.answer?, Command.notification?,
    List.filterMap_nil, List.map_nil, List.append_nil, ite_self, List.map_cons] at out
  exact (goes_put _ rfl rfl sent).silent_trans out

/-- The network loop takes what the swarm reports. -/
theorem beats_swarmEvent (idle : (mesh.loops site).network = none) (event : SwarmEvent ι) :
    mesh.beats ctx capacity site (.swarmEvent event) =
      some (mesh.put site ((mesh.loops site).handleSwarmEvent (ctx site) event)) := by
  have stepped : (mesh.loops site).step (ctx site) capacity (.swarmEvent event) =
      some ((mesh.loops site).handleSwarmEvent (ctx site) event) := by
    rw [Loops.step, idle]
    rfl
  have moved := @moved_put _ _ mesh site (mesh.loops site)
    ((mesh.loops site).handleSwarmEvent (ctx site) event) (.swarmEvent event)
  rw [put_self] at moved
  rw [beats, stepped, Option.map_some, moved]
  simp only [Loops.taken, Loops.sentOut, Option.toList_none, List.filterMap_nil, List.map_nil,
    List.append_nil, ite_self]

omit [DecidableEq ι] in
/-- The engine takes the only event. -/
theorem step_networkEvent (ctx : Ctx ι) (capacity : Nat) (clear : loops.Clear) (device : Device)
    (failure : Option String) (event : Event ι) :
    Loops.step ctx capacity { loops with events := [event] } (.networkEvent device failure) =
      loops.handleNetworkEvent ctx device failure event := by
  obtain ⟨⟩ := loops
  obtain ⟨rfl, rfl, rfl, rfl⟩ := clear
  rfl

variable (ctx) in
/-- **A peer answers a request that has arrived**, and is then as before. -/
theorem goes_serve (room : 0 < capacity) {place number : Nat} {call : Call ι}
    (arrives : mesh.requests[place]? = some number) (made : mesh.calls[number]? = some call)
    (clear : (mesh.loops call.source).Clear) (failure : Option String) :
    Goes ctx capacity mesh []
      { mesh with
        requests := mesh.requests.eraseIdx place
        responses := mesh.responses ++ [(number, handleInboundRequest (ctx call.source).storage
          (mesh.loops call.source).peer.index (mesh.loops call.source).peer.disk failure
          call.request)] } := by
  let rest := { mesh with requests := mesh.requests.eraseIdx place }
  let loops := mesh.loops call.source
  have idle : (rest.loops call.source).network = none := clear.network
  have brought : mesh.step ctx capacity (.request place) =
      some (rest.put call.source
        { loops with network := some (.inboundRequest call.asker call.request number) }) := by
    rw [step, arrives, Option.bind_some, made, Option.bind_some]
    exact beats_swarmEvent idle _
  have answered := goes_put rest rfl rfl (step_networkEvent (ctx call.source)
    capacity clear {} failure (.inboundRequest call.asker call.request number))
  have back := (Shows.single brought).silent_trans ((goes_heard room clear).silent_trans
    (answered.silent_trans (goes_respond room clear)))
  have same := put_self { rest with responses := mesh.responses ++ [(number,
    handleInboundRequest (ctx call.source).storage loops.peer.index loops.peer.disk failure
      call.request)] } call.source
  exact same ▸ back

/-! ## Turns -/

/-- The loops of a peer at rest, after a number of requests. -/
def atRest (peer : Peer ι) (topic : Str) (issued : Nat) : Loops ι :=
  { Loops.start peer (some topic) with nextRequestId := issued }

omit [DecidableEq ι] [Blake3] in
theorem clear_atRest (peer : Peer ι) (topic : Str) (issued : Nat) :
    (atRest peer topic issued).Clear :=
  ⟨rfl, rfl, rfl, rfl⟩

/-- A mesh in which nothing is under way, with the peers of a swarm. -/
structure Rests (topic : Str) (swarm : Swarm ι) (mesh : Mesh ι) : Prop where
  loops : ∀ site, ∃ issued, mesh.loops site = atRest (swarm.peer site) topic issued
  gossip : mesh.gossip = swarm.log

variable {topic : Str} {swarm : Swarm ι} {peer : Peer ι} {act : Act ι}
  {published : Option SyncNotification}

omit [Blake3] in
/-- One peer has moved on and published something. -/
theorem Rests.moved (rests : Rests topic swarm mesh) {after : Mesh ι}
    (loops : ∀ other, other ≠ site → after.loops other = mesh.loops other)
    (gossip : after.gossip = mesh.gossip ++ published.toList) (issued : Nat)
    (edited : ι → RelPath → Bool) :
    Rests topic ⟨Function.update swarm.peer site peer, swarm.log ++ published.toList, edited⟩
      (after.put site (atRest peer topic issued)) where
  loops other := by
    by_cases here : other = site
    · subst here
      refine ⟨issued, ?_⟩
      dsimp only
      rw [loops_put, Function.update_self]
    · obtain ⟨issued, same⟩ := rests.loops other
      refine ⟨issued, ?_⟩
      change Function.update after.loops site _ other = _
      dsimp only
      rw [Function.update_of_ne here, Function.update_of_ne here, loops other here, same]
  gossip := by
    change after.gossip = _
    rw [gossip, rests.gossip]

/-- What the engine does with an event makes a peer at rest move on. -/
theorem goes_event (room : 0 < capacity) {issued : Nat} {next : Peer ι} {event : Event ι}
    {device : Device}
    (handled : (atRest peer topic issued).handleNetworkEvent (ctx site) device none event =
      some (atRest next topic issued)) :
    Goes ctx capacity (mesh.put site { atRest peer topic issued with network := some event })
      (({ atRest peer topic issued with events := [event] } : Loops ι).shown
        (.networkEvent device none) |>.map (Prod.mk site))
      (mesh.put site (atRest next topic issued)) :=
  (goes_heard room (clear_atRest peer topic issued)).silent_trans (goes_put _ rfl rfl
    ((step_networkEvent _ _ (clear_atRest peer topic issued) device none event).trans handled))

omit [DecidableEq ι] in
/-- The reply to the one pending request. -/
theorem replied_atRest {ctx : Ctx ι} {number issued : Nat} {response : Option SyncResponse}
    {next : Peer ι} (ran : peer.step ctx (.respond number response) = some (next, published)) :
    Loops.replied ctx { atRest peer topic (issued + 1) with
      awaiting := [number], pendingRequests := [(issued, number)] } issued response =
        atRest next topic (issued + 1) := by
  have found : List.lookup issued [(issued, number)] = some number := by
    rw [List.lookup_cons_self]
  simp [Loops.replied, found, atRest, Loops.start, ran]

/-- What a peer does by itself, or with a file event. -/
theorem Rests.own (room : 0 < capacity) (rests : Rests topic swarm mesh) {next : Peer ι}
    (own : act.isOwn = true) (edited : ι → RelPath → Bool)
    (ran : (swarm.peer site).step (ctx site) act = some (next, published)) :
    ∃ after, Goes ctx capacity mesh [(site, act)] after ∧
      Rests topic ⟨Function.update swarm.peer site next, swarm.log ++ published.toList, edited⟩
        after := by
  obtain ⟨issued, here⟩ := rests.loops site
  have start : mesh.put site (atRest (swarm.peer site) topic issued) = mesh := by
    rw [← here, put_self]
  have quiet : mesh.gossip = mesh.gossip ++ (none : Option SyncNotification).toList :=
    (List.append_nil _).symm
  have beside : act.isBeside = true → ∃ after, Goes ctx capacity mesh [(site, act)] after ∧
      Rests topic ⟨Function.update swarm.peer site next, swarm.log ++ published.toList, edited⟩
        after := by
    intro aside
    obtain rfl := Loops.published_of_isBeside aside ran
    have stepped : (atRest (swarm.peer site) topic issued).step (ctx site) capacity (.beside act) =
        some (atRest next topic issued) := by
      rw [Loops.step, if_pos aside]
      change Option.map _ ((swarm.peer site).step (ctx site) act) = _
      rw [ran]
      rfl
    have shows := goes_put mesh rfl rfl stepped
    rw [start] at shows
    exact ⟨_, shows, rests.moved (fun _ _ => rfl) quiet issued edited⟩
  cases act with
  | notified | respond => exact absurd own Bool.false_ne_true
  | discovered source =>
      cases ran
      have idle : (mesh.loops site).network = none := by rw [here]; rfl
      have brought : mesh.step ctx capacity (.news site (.subscribed source topic)) =
          some (mesh.put site { atRest (swarm.peer site) topic issued with
            network := some (.peerDiscovered source) }) := by
        have news : (SwarmEvent.subscribed source topic).isNews = true := rfl
        rw [step, if_pos news, beats_swarmEvent idle, here]
        simp [Loops.handleSwarmEvent, Loops.forwarded, atRest, Loops.start]
      have handled : (atRest (swarm.peer site) topic issued).handleNetworkEvent (ctx site) {} none
          (.peerDiscovered source) =
            some (atRest ((swarm.peer site).spawn (.askedRoot source)) topic issued) := rfl
      exact ⟨_, (Shows.single brought).silent_trans (goes_event room handled),
        rests.moved (fun _ _ => rfl) quiet issued edited⟩
  | fsEvent reads =>
      have stepped : (atRest (swarm.peer site) topic issued).step (ctx site) capacity
          (.fsEvent reads) =
            some { atRest next topic issued with engine := published.map .notify } := by
        rw [Loops.step]
        change Option.map _ ((swarm.peer site).step (ctx site) (.fsEvent reads)) = _
        rw [ran]
        rfl
      have shows := goes_put mesh rfl rfl stepped
      rw [start] at shows
      cases published with
      | none => exact ⟨_, shows, rests.moved (fun _ _ => rfl) quiet issued edited⟩
      | some notification =>
          refine ⟨_, shows.trans_silent (goes_notify room (clear_atRest next topic issued) rfl),
            rests.moved ?_ ?_ issued edited⟩
          · exact fun _ _ => rfl
          · rfl
  | elapse | setTime | user | watched | resume => exact beside rfl

/-- A published notification gets to a peer. -/
theorem Rests.delivered (room : 0 < capacity) (rests : Rests topic swarm mesh) {next : Peer ι}
    {source : ι} {notification : SyncNotification} {device : Device}
    (spoken : notification ∈ swarm.log) (edited : ι → RelPath → Bool)
    (ran : (swarm.peer site).step (ctx site) (.notified source notification device) =
      some (next, published)) :
    ∃ after, Goes ctx capacity mesh [(site, .notified source notification device)] after ∧
      Rests topic ⟨Function.update swarm.peer site next, swarm.log ++ published.toList, edited⟩
        after := by
  obtain ⟨issued, here⟩ := rests.loops site
  have idle : (mesh.loops site).network = none := by rw [here]; rfl
  have brought : mesh.step ctx capacity (.message site source notification) =
      some (mesh.put site { atRest (swarm.peer site) topic issued with
        network := some (.notification source notification) }) := by
    rw [step, if_pos (rests.gossip ▸ spoken), beats_swarmEvent idle, here]
    rfl
  obtain rfl : published = none := by
    rw [Peer.step] at ran
    exact (Prod.mk.inj (Option.some.inj ran)).2.symm
  have handled : (atRest (swarm.peer site) topic issued).handleNetworkEvent (ctx site) device none
      (.notification source notification) = some (atRest next topic issued) := by
    have taken : (atRest (swarm.peer site) topic issued).peer.step (ctx site)
        (.notified source notification device) = some (next, none) := ran
    rw [Loops.handleNetworkEvent, taken]
    rfl
  exact ⟨_, (Shows.single brought).silent_trans (goes_event room handled),
    rests.moved (fun _ _ => rfl) (List.append_nil _).symm issued edited⟩

/-- A peer at rest has sent the request of one task. -/
def waiting (mesh : Mesh ι) (site : ι) (peer : Peer ι) (topic : Str) (issued number : Nat)
    (source : ι) (request : SyncRequest) : Mesh ι :=
  put { mesh with
    calls := mesh.calls ++ [⟨site, issued, source, request⟩]
    requests := mesh.requests ++ [mesh.calls.length] } site
    { atRest peer topic (issued + 1) with
      awaiting := [number], pendingRequests := [(issued, number)] }

omit [Blake3] in
theorem loops_waiting (mesh : Mesh ι) (site : ι) (peer : Peer ι) (topic : Str)
    (issued number : Nat) (source : ι) (request : SyncRequest) :
    (mesh.waiting site peer topic issued number source request).loops site =
      { atRest peer topic (issued + 1) with
        awaiting := [number], pendingRequests := [(issued, number)] } :=
  loops_put ..

variable (ctx) in
/-- A task asks when nothing else is under way. -/
theorem goes_ask_atRest (room : 0 < capacity) {number issued : Nat} {task : Task ι} {source : ι}
    {request : SyncRequest} (here : mesh.loops site = atRest peer topic issued)
    (found : peer.tasks[number]? = some task)
    (asked : task.stage.request = some (source, request)) :
    Goes ctx capacity mesh []
      (mesh.waiting site peer topic issued number source request) := by
  have asks := goes_ask ctx mesh site room
    (clear_atRest peer topic issued) List.not_mem_nil found asked
  rw [← here, put_self, here] at asks
  exact asks

omit [DecidableEq ι] in
theorem published_of_respond {ctx : Ctx ι} {next : Peer ι} {number : Nat}
    {response : Option SyncResponse}
    (ran : peer.step ctx (.respond number response) = some (next, published)) :
    published = none := by
  cases Peer.step_cases ran
  all_goals rfl

/-- A request of a task fails. -/
theorem Rests.failed (room : 0 < capacity) (rests : Rests topic swarm mesh) {next : Peer ι}
    {number : Nat} {task : Task ι} {source : ι} {request : SyncRequest}
    (found : (swarm.peer site).tasks[number]? = some task)
    (asked : task.stage.request = some (source, request)) (edited : ι → RelPath → Bool)
    (ran : (swarm.peer site).step (ctx site) (.respond number none) = some (next, published)) :
    ∃ after, Goes ctx capacity mesh [(site, .respond number none)] after ∧
      Rests topic ⟨Function.update swarm.peer site next, swarm.log ++ published.toList, edited⟩
        after := by
  obtain ⟨issued, here⟩ := rests.loops site
  obtain rfl := published_of_respond ran
  have asks := goes_ask_atRest ctx room here found asked
  let waiting := mesh.waiting site (swarm.peer site) topic issued number source request
  have loops : waiting.loops site = _ := loops_waiting ..
  have idle : (waiting.loops site).network = none := by rw [loops]; rfl
  have failed : waiting.step ctx capacity (.failure site issued) =
      some (waiting.put site (atRest next topic (issued + 1))) := by
    rw [step, beats_swarmEvent idle, loops, Loops.handleSwarmEvent, replied_atRest ran]
  have seen : Goes ctx capacity waiting _ _ := .single failed
  rw [shown, loops, Loops.shown, List.lookup_cons_self] at seen
  refine ⟨_, asks.silent_trans seen, rests.moved (fun other apart => ?_) ?_ _ edited⟩
  · exact loops_put_of_ne _ apart _
  · exact (List.append_nil _).symm

/-- A request of a task is answered. -/
theorem Rests.served (room : 0 < capacity) (rests : Rests topic swarm mesh) {next : Peer ι}
    {number : Nat} {task : Task ι} {source : ι} {request : SyncRequest} {failure : Option String}
    (found : (swarm.peer site).tasks[number]? = some task)
    (asked : task.stage.request = some (source, request)) (edited : ι → RelPath → Bool)
    (ran : (swarm.peer site).step (ctx site)
      (.respond number (some (swarm.answerOf ctx source failure request))) =
        some (next, published)) :
    ∃ after, Goes ctx capacity mesh [] after ∧
      Rests topic ⟨Function.update swarm.peer site next, swarm.log ++ published.toList, edited⟩
        after := by
  obtain ⟨issued, here⟩ := rests.loops site
  obtain rfl := published_of_respond ran
  have asks := goes_ask_atRest ctx room here found asked
  let waiting := mesh.waiting site (swarm.peer site) topic issued number source request
  have loops : waiting.loops site = _ := loops_waiting ..
  have there : (waiting.loops source).Clear ∧ (waiting.loops source).peer = swarm.peer source := by
    by_cases same : source = site
    · rw [same, loops]
      exact ⟨⟨rfl, rfl, rfl, rfl⟩, rfl⟩
    · obtain ⟨issued', there⟩ := rests.loops source
      have unmoved : waiting.loops source = mesh.loops source := loops_put_of_ne _ same _
      rw [unmoved, there]
      exact ⟨clear_atRest .., rfl⟩
  have arrives : waiting.requests[mesh.requests.length]? = some mesh.calls.length :=
    List.getElem?_concat_length
  have made : waiting.calls[mesh.calls.length]? = some ⟨site, issued, source, request⟩ :=
    List.getElem?_concat_length
  have serves := goes_serve ctx room arrives made there.1 failure
  dsimp only at serves
  rw [there.2] at serves
  let served : Mesh ι := { waiting with
    requests := waiting.requests.eraseIdx mesh.requests.length
    responses := waiting.responses ++
      [(mesh.calls.length, swarm.answerOf ctx source failure request)] }
  have idle : (served.loops site).network = none := by
    change (waiting.loops site).network = none
    rw [loops]
    rfl
  have back : served.responses[mesh.responses.length]? =
      some (mesh.calls.length, swarm.answerOf ctx source failure request) :=
    List.getElem?_concat_length
  have made' : served.calls[mesh.calls.length]? = some ⟨site, issued, source, request⟩ := made
  have received : served.step ctx capacity (.response mesh.responses.length) =
      some (put { served with responses := served.responses.eraseIdx mesh.responses.length } site
        (atRest next topic (issued + 1))) := by
    have idle' : (Mesh.loops { served with
      responses := served.responses.eraseIdx mesh.responses.length } site).network = none := idle
    rw [step, back, Option.bind_some]
    dsimp only
    rw [made', Option.bind_some, beats_swarmEvent idle', Loops.handleSwarmEvent]
    have done : (waiting.loops site).replied (ctx site) issued
        (some (swarm.answerOf ctx source failure request)) = atRest next topic (issued + 1) := by
      rw [loops, replied_atRest ran]
    exact congrArg (fun loops => some (put _ site loops)) done
  refine ⟨_, asks.silent_trans (serves.silent_trans (.single received)),
    rests.moved (fun other apart => ?_) ?_ _ edited⟩
  · exact loops_put_of_ne _ apart _
  · exact (List.append_nil _).symm

end Mesh

namespace Swarm

variable {ι : Type} [DecidableEq ι] [Blake3] {ctx : ι → Ctx ι} {capacity : Nat} {topic : Str}

/-- **A swarm follows a mesh** from rest to rest, turn by turn. -/
theorem simulation (room : 0 < capacity) :
    Simulation (step ctx) shown (Mesh.step ctx capacity) Mesh.shown (fun _ => True)
      (fun (_ : Unit) => Mesh.Rests topic) where
  matched before turn after _ stepped prophecy := by
    refine ⟨prophecy, fun mesh rests => ?_⟩
    obtain ⟨⟨site, act⟩, acted, mapped⟩ := Option.bind_eq_some_iff.mp stepped
    obtain ⟨⟨next, published⟩, ran, rfl⟩ := Option.map_eq_some_iff.mp mapped
    cases turn with
    | own site' act' =>
        obtain ⟨own, same⟩ := Option.ite_none_right_eq_some.mp acted
        cases same
        exact rests.own room own _ ran
    | deliver site' source notification device =>
        obtain ⟨spoken, same⟩ := Option.ite_none_right_eq_some.mp acted
        cases same
        exact rests.delivered room spoken _ ran
    | serve site' number failure =>
        obtain ⟨task, found, mapped⟩ := Option.bind_eq_some_iff.mp acted
        obtain ⟨⟨source, request⟩, asked, same⟩ := Option.map_eq_some_iff.mp mapped
        cases same
        exact rests.served room found asked _ ran
    | fail site' number =>
        cases acted
        obtain ⟨task, found, mapped⟩ := Option.bind_eq_some_iff.mp ran
        obtain ⟨stage, reply, _⟩ := Option.map_eq_some_iff.mp mapped
        obtain ⟨⟨source, request⟩, asked⟩ := Peer.request_of_answer reply
        exact rests.failed room found asked _ ran

/-- **Whatever happens in a swarm can happen in a mesh** whose channels have room for a message:
what the peers do and hear, other than replies, is the same in the same order, and in the end the
peers are the same, what has been published is what the group has been told, and nothing is under
way. -/
theorem refines_mesh (room : 0 < capacity) {peer : ι → Peer ι} {last : Swarm ι}
    {trace : List (Swarm ι × Turn ι)}
    (run : Run (step ctx) ⟨peer, [], fun _ _ => false⟩ trace last) :
    ∃ mesh, Shows (Mesh.step ctx capacity) Mesh.shown (.start peer topic) (visible shown trace)
        mesh ∧
      (∀ site, (mesh.loops site).peer = last.peer site) ∧ mesh.gossip = last.log ∧
        ∀ site, (mesh.loops site).load = 0 := by
  have start : Mesh.Rests topic ⟨peer, [], fun _ _ => false⟩ (.start peer topic) :=
    ⟨fun site => ⟨0, rfl⟩, rfl⟩
  obtain ⟨mesh, shows, rests⟩ :=
    (simulation room).run (fun _ => start) (fun _ => trivial) run ()
  refine ⟨mesh, shows, fun site => ?_, rests.gossip, fun site => ?_⟩
  · obtain ⟨issued, here⟩ := rests.loops site
    rw [here]
    rfl
  · obtain ⟨issued, here⟩ := rests.loops site
    rw [here]
    rfl

end Swarm

/-! ## A concrete swarm -/

namespace Swarm

attribute [local instance] Sample.blake3

/-- A mesh with channels of one place does what a swarm does: the first peer saves a file, and the
second one fetches it. -/
theorem exists_mesh :
    ∃ trace last mesh, Run (step Sample.ctx) (Sample.swarm fun _ => [1]) trace last ∧
      (last.peer .two).disk.read Sample.path = some [2] ∧
        Shows (Mesh.step Sample.ctx 1) Mesh.shown (.start (fun site => Sample.peer site [1]) ['g'])
          (visible shown trace) mesh ∧ (mesh.loops .two).peer = last.peer .two := by
  obtain ⟨trace, last, run, _, read⟩ := exists_run_of_any (by decide +kernel :
    (runActs (step Sample.ctx) (Sample.swarm fun _ => [1]) (Sample.saves .one [2] ++
      .deliver .two .one (Sample.update 1 [2]) {} :: Sample.fetches .two 0)).any (fun last =>
        decide ((last.peer .two).disk.read Sample.path = some [2])) = true)
  obtain ⟨mesh, shows, same, _⟩ := refines_mesh Nat.zero_lt_one run
  exact ⟨trace, last, mesh, run, of_decide_eq_true read, shows, same .two⟩

end Swarm

end P2Sync
