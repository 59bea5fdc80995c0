import P2Sync.Net.Waiting

/-!
# Peers with their loops

A mesh is a group of peers with their loops, and what is on its way between them. A request that
goes out gets a number, which is also the name of the channel on which the asked peer answers it.
Requests and answers travel on their own and may overtake each other or never arrive, and a
pending request may fail at any time, also when it has been answered. A notification that is
handed to the group can reach any peer through any other one, any number of times.

No request is lost and none is answered twice. A request that went out is in one place: on its way,
in line at the asked peer, on its way back with an answer, or back (`Mesh.once_of_run`).
-/

set_option autoImplicit false

namespace P2Sync

/-- A request that has gone out. -/
structure Call (ι : Type) where
  asker : ι
  requestId : Nat
  source : ι
  request : SyncRequest

/-- Peers with their loops, and what is on its way between them. -/
structure Mesh (ι : Type) where
  loops : ι → Loops ι
  /-- All requests that have gone out; the place of a request here is its number. -/
  calls : List (Call ι)
  /-- The numbers of the requests that have not arrived. -/
  requests : List Nat
  /-- The answers on their way back, with the numbers of their requests. -/
  responses : List (Nat × SyncResponse)
  /-- The notifications handed to the group. -/
  gossip : List SyncNotification

/-- What can happen next in a mesh. -/
inductive Move (ι : Type) where
  /-- A peer goes on, or its folder or its clock does. -/
  | beat (site : ι) (beat : Beat ι)
  /-- The swarm of a peer reports news of other peers. -/
  | news (site : ι) (event : SwarmEvent ι)
  /-- A request on its way arrives. -/
  | request (place : Nat)
  /-- An answer on its way back arrives. -/
  | response (place : Nat)
  /-- The swarm of a peer gives up a request. -/
  | failure (site : ι) (requestId : Nat)
  /-- A notification arrives through a peer. -/
  | message (site propagationSource : ι) (notification : SyncNotification)

/-- The request that a command of a peer sends out. -/
def Command.call {ι : Type} (site : ι) (requestId : Nat) : Command ι → Option (Call ι)
  | .sendRequest source request _ => some ⟨site, requestId, source, request⟩
  | _ => none

/-- Whether a step of the loops takes nothing from the swarm. -/
def Beat.isInside {ι : Type} : Beat ι → Bool
  | .swarmEvent _ => false
  | _ => true

/-- Whether the swarm reports what no other peer has sent. -/
def SwarmEvent.isNews {ι : Type} : SwarmEvent ι → Bool
  | .request _ _ _ => false
  | .response _ _ => false
  | .outboundFailure _ => false
  | .message _ notification => notification.isNone
  | _ => true

namespace Mesh

variable {ι : Type}

section Step

variable [DecidableEq ι] [Blake3] (ctx : ι → Ctx ι) (capacity : Nat) (mesh : Mesh ι)

omit [DecidableEq ι] [Blake3] in
/-- The request that goes out in a step of the loops of a peer. -/
def called (site : ι) (beat : Beat ι) : List (Call ι) :=
  ((mesh.loops site).taken beat).toList.filterMap
    (Command.call site (mesh.loops site).nextRequestId)

omit [DecidableEq ι] [Blake3] in
/-- What a step of the loops of a peer sends on its way. -/
def output (site : ι) (beat : Beat ι) : Mesh ι :=
  { mesh with
    calls := mesh.calls ++ mesh.called site beat
    requests := mesh.requests ++ (mesh.called site beat).map fun _ => mesh.calls.length
    responses :=
      mesh.responses ++ ((mesh.loops site).taken beat).toList.filterMap Command.answer?
    gossip :=
      mesh.gossip ++
        if (mesh.loops site).topic.isSome then (mesh.loops site).sentOut beat else [] }

omit [Blake3] in
/-- The loops of a peer after their step, with what they sent on its way. -/
def moved (site : ι) (beat : Beat ι) (next : Loops ι) : Mesh ι :=
  { mesh.output site beat with loops := Function.update mesh.loops site next }

/-- The loops of a peer take a step. -/
def beats (site : ι) (beat : Beat ι) : Option (Mesh ι) :=
  ((mesh.loops site).step (ctx site) capacity beat).map (mesh.moved site beat)

/-- One move. -/
def step (mesh : Mesh ι) : Move ι → Option (Mesh ι)
  | .beat site beat => if beat.isInside then mesh.beats ctx capacity site beat else none
  | .news site event =>
      if event.isNews then mesh.beats ctx capacity site (.swarmEvent event) else none
  | .request place =>
      mesh.requests[place]?.bind fun number => mesh.calls[number]?.bind fun call =>
        { mesh with requests := mesh.requests.eraseIdx place }.beats ctx capacity call.source
          (.swarmEvent (.request call.asker call.request number))
  | .response place =>
      mesh.responses[place]?.bind fun (number, response) => mesh.calls[number]?.bind fun call =>
        { mesh with responses := mesh.responses.eraseIdx place }.beats ctx capacity call.asker
          (.swarmEvent (.response call.requestId response))
  | .failure site requestId =>
      mesh.beats ctx capacity site (.swarmEvent (.outboundFailure requestId))
  | .message site propagationSource notification =>
      if notification ∈ mesh.gossip then
        mesh.beats ctx capacity site (.swarmEvent (.message propagationSource (some notification)))
      else none

omit [DecidableEq ι] [Blake3] in
/-- Peers of one group at their start. -/
def start (peer : ι → Peer ι) (topic : Str) : Mesh ι where
  loops site := .start (peer site) (some topic)
  calls := []
  requests := []
  responses := []
  gossip := []

end Step

/-! ## Cases of a move -/

/-- What a move brings to the loops of a peer, and the mesh without what it takes off its way. -/
inductive Brings (before : Mesh ι) : Move ι → Mesh ι → ι → Beat ι → Prop where
  | beat (site : ι) (beat : Beat ι) (inside : beat.isInside = true) :
      Brings before (.beat site beat) before site beat
  | news (site : ι) (event : SwarmEvent ι) (news : event.isNews = true) :
      Brings before (.news site event) before site (.swarmEvent event)
  | request (place number : Nat) (call : Call ι) (arrives : before.requests[place]? = some number)
      (made : before.calls[number]? = some call) :
      Brings before (.request place)
        { before with requests := before.requests.eraseIdx place } call.source
        (.swarmEvent (.request call.asker call.request number))
  | response (place number : Nat) (response : SyncResponse) (call : Call ι)
      (arrives : before.responses[place]? = some (number, response))
      (made : before.calls[number]? = some call) :
      Brings before (.response place)
        { before with responses := before.responses.eraseIdx place } call.asker
        (.swarmEvent (.response call.requestId response))
  | failure (site : ι) (requestId : Nat) :
      Brings before (.failure site requestId) before site
        (.swarmEvent (.outboundFailure requestId))
  | message (site propagationSource : ι) (notification : SyncNotification)
      (published : notification ∈ before.gossip) :
      Brings before (.message site propagationSource notification) before site
        (.swarmEvent (.message propagationSource (some notification)))

variable [DecidableEq ι] [Blake3] {ctx : ι → Ctx ι} {capacity : Nat} {before after : Mesh ι}

/-- **A move is a step of the loops of one peer.** -/
theorem step_cases {move : Move ι} (stepped : before.step ctx capacity move = some after) :
    ∃ middle site beat next, Brings before move middle site beat ∧
      (middle.loops site).step (ctx site) capacity beat = some next ∧
        after = middle.moved site beat next := by
  have beaten : ∀ {middle : Mesh ι} {site : ι} {beat : Beat ι},
      Brings before move middle site beat → middle.beats ctx capacity site beat = some after →
        ∃ middle site beat next, Brings before move middle site beat ∧
          (middle.loops site).step (ctx site) capacity beat = some next ∧
            after = middle.moved site beat next := by
    intro middle site beat brings ran
    obtain ⟨next, taken, rfl⟩ := Option.map_eq_some_iff.mp ran
    exact ⟨middle, site, beat, next, brings, taken, rfl⟩
  cases move with
  | beat site beat =>
      rw [step, Option.ite_none_right_eq_some] at stepped
      exact beaten (.beat site beat stepped.1) stepped.2
  | news site event =>
      rw [step, Option.ite_none_right_eq_some] at stepped
      exact beaten (.news site event stepped.1) stepped.2
  | request place =>
      obtain ⟨number, arrives, rest⟩ := Option.bind_eq_some_iff.mp stepped
      obtain ⟨call, made, ran⟩ := Option.bind_eq_some_iff.mp rest
      exact beaten (.request place number call arrives made) ran
  | response place =>
      obtain ⟨⟨number, response⟩, arrives, rest⟩ := Option.bind_eq_some_iff.mp stepped
      obtain ⟨call, made, ran⟩ := Option.bind_eq_some_iff.mp rest
      exact beaten (.response place number response call arrives made) ran
  | failure site requestId => exact beaten (.failure site requestId) stepped
  | message site propagationSource notification =>
      rw [step, Option.ite_none_right_eq_some] at stepped
      exact beaten (.message site propagationSource notification stepped.1) stepped.2

/-! ## One place for each request -/

omit [DecidableEq ι] [Blake3] in
/-- The numbers of the requests that are under way, those that other peers hold left out. -/
def way (mesh : Mesh ι) (source : ι) : List Nat :=
  mesh.requests ++ (mesh.loops source).line ++ mesh.responses.map Prod.fst

omit [DecidableEq ι] [Blake3] in
/-- The number of the request whose answer arrives. -/
def arrived (mesh : Mesh ι) : Move ι → List Nat
  | .response place => mesh.responses[place]?.toList.map Prod.fst
  | _ => []

omit [DecidableEq ι] [Blake3] in
/-- A number is that of a request to a peer. -/
def IsFor (mesh : Mesh ι) (site : ι) (number : Nat) : Prop :=
  ∃ call, mesh.calls[number]? = some call ∧ call.source = site

omit [DecidableEq ι] [Blake3] in
/-- Each request is in one place, or back. -/
structure Once (back : List Nat) (mesh : Mesh ι) : Prop where
  single : ∀ (number : Nat) (call : Call ι), mesh.calls[number]? = some call →
    (mesh.way call.source).count number + back.count number = 1
  asked : ∀ site, ∀ number ∈ (mesh.loops site).line, mesh.IsFor site number
  known : ∀ number ∈ mesh.requests ++ mesh.responses.map Prod.fst ++ back,
    number < mesh.calls.length

omit [DecidableEq ι] [Blake3] in
theorem Once.start (peer : ι → Peer ι) (topic : Str) : Once [] (start peer topic) where
  single _ _ made := absurd made (Option.some_ne_none _).symm
  asked _ _ member := absurd member List.not_mem_nil
  known _ member := absurd member List.not_mem_nil

omit [DecidableEq ι] [Blake3] in
theorem Once.line_lt {back : List Nat} (once : Once back before) {site : ι} {number : Nat}
    (member : number ∈ (before.loops site).line) : number < before.calls.length := by
  obtain ⟨call, made, _⟩ := once.asked site number member
  exact (List.getElem?_eq_some_iff.mp made).1

omit [DecidableEq ι] [Blake3] in
/-- At most one request goes out in a step. -/
theorem called_cases (mesh : Mesh ι) (site : ι) (beat : Beat ι) :
    mesh.called site beat = [] ∨ ∃ call, mesh.called site beat = [call] := by
  rw [called]
  rcases (mesh.loops site).taken beat with _ | command
  · exact Or.inl rfl
  · cases command with
    | sendRequest source request reply => exact Or.inr ⟨_, rfl⟩
    | notify | respond => exact Or.inl rfl

omit [Blake3] in
@[simp]
theorem loops_moved_self (site : ι) (beat : Beat ι) (next : Loops ι) :
    (before.moved site beat next).loops site = next :=
  Function.update_self ..

omit [Blake3] in
theorem loops_moved_of_ne {site other : ι} (apart : other ≠ site) (beat : Beat ι)
    (next : Loops ι) : (before.moved site beat next).loops other = before.loops other :=
  Function.update_of_ne apart ..

omit [Blake3] in
theorem calls_moved (site : ι) (beat : Beat ι) (next : Loops ι) :
    (before.moved site beat next).calls = before.calls ++ before.called site beat := rfl

omit [Blake3] in
theorem getElem?_calls_moved {site : ι} {beat : Beat ι} {next : Loops ι} {number : Nat}
    {call : Call ι} (made : before.calls[number]? = some call) :
    (before.moved site beat next).calls[number]? = some call := by
  rw [calls_moved, List.getElem?_append_left (List.getElem?_eq_some_iff.mp made).1, made]

omit [Blake3] in
/-- A call after a step was there before, or it is the one that went out. -/
theorem calls_moved_cases {site : ι} {beat : Beat ι} {next : Loops ι} {number : Nat}
    {call : Call ι} (made : (before.moved site beat next).calls[number]? = some call) :
    before.calls[number]? = some call ∨
      number = before.calls.length ∧ before.called site beat = [call] := by
  rw [calls_moved] at made
  rcases called_cases before site beat with silent | ⟨called, sent⟩
  · rw [silent, List.append_nil] at made
    exact Or.inl made
  · rw [sent] at made
    rcases lt_trichotomy number before.calls.length with old | rfl | beyond
    · rw [List.getElem?_append_left old] at made
      exact Or.inl made
    · rw [List.getElem?_concat_length] at made
      exact Or.inr ⟨rfl, Option.some.inj made ▸ sent⟩
    · have bound := (List.getElem?_eq_some_iff.mp made).1
      rw [List.length_append, List.length_singleton] at bound
      omega

omit [Blake3] in
/-- Answers go out with the numbers of their requests. -/
theorem responses_moved (site : ι) (beat : Beat ι) (next : Loops ι) :
    (before.moved site beat next).responses.map Prod.fst =
      before.responses.map Prod.fst ++ (before.loops site).wentOut beat := by
  have numbers : (((before.loops site).taken beat).toList.filterMap Command.answer?).map Prod.fst =
      (before.loops site).wentOut beat := List.map_filterMap
  rw [← numbers, ← List.map_append]
  rfl

omit [Blake3] in
/-- Where the requests are after a step of a peer. -/
theorem way_moved (site : ι) (beat : Beat ι) (next : Loops ι) (source : ι) :
    (before.moved site beat next).way source =
      (before.requests ++ (before.called site beat).map fun _ => before.calls.length) ++
        (Function.update before.loops site next source).line ++
          (before.responses.map Prod.fst ++ (before.loops site).wentOut beat) := by
  rw [← responses_moved site beat next]
  rfl

section Moves

variable {back : List Nat} {site : ι} {beat : Beat ι} {next : Loops ι}

omit [DecidableEq ι] in
/-- The requests that a peer has in line after a step, or answers in it, are requests to it. -/
theorem isFor_of_step (asked : ∀ number ∈ (before.loops site).line, before.IsFor site number)
    (own : ∀ number ∈ (before.loops site).cameIn beat, before.IsFor site number)
    (stepped : (before.loops site).step (ctx site) capacity beat = some next) {number : Nat}
    (member : number ∈ (before.loops site).wentOut beat ++ next.line) :
    before.IsFor site number := by
  rw [Loops.line_step stepped] at member
  rcases List.mem_append.mp member with old | new
  · exact asked number old
  · exact own number new

/-- A request that leaves the line of its peer is answered, and one that joins it arrives. -/
theorem count_line (asked : ∀ number ∈ (before.loops site).line, before.IsFor site number)
    (own : ∀ number ∈ (before.loops site).cameIn beat, before.IsFor site number)
    (stepped : (before.loops site).step (ctx site) capacity beat = some next) {number : Nat}
    {call : Call ι} (made : (before.moved site beat next).calls[number]? = some call) :
    ((before.loops site).wentOut beat).count number +
        (Function.update before.loops site next call.source).line.count number =
      (before.loops call.source).line.count number +
        ((before.loops site).cameIn beat).count number := by
  by_cases here : call.source = site
  · subst here
    rw [Function.update_self, ← List.count_append, Loops.line_step stepped, List.count_append]
  · have elsewhere : ∀ (numbers : List Nat), (∀ other ∈ numbers, before.IsFor site other) →
        numbers.count number = 0 := by
      refine fun numbers asked => List.count_eq_zero.mpr fun member => here ?_
      obtain ⟨old, made', named⟩ := asked number member
      rw [← named, Option.some.inj (made.symm.trans (getElem?_calls_moved made'))]
    rw [Function.update_of_ne here, elsewhere _ own, elsewhere _ fun other member =>
      isFor_of_step asked own stepped (List.mem_append_left _ member), Nat.zero_add, Nat.add_zero]

/-- A step of the loops of a peer moves requests from place to place, and may add a new one. The
request that the step brings in still counts as on its way. -/
theorem Once.moves
    (once : Once back
      { before with requests := (before.loops site).cameIn beat ++ before.requests })
    (own : ∀ number ∈ (before.loops site).cameIn beat, before.IsFor site number)
    (stepped : (before.loops site).step (ctx site) capacity beat = some next) :
    Once back (before.moved site beat next) := by
  have asked : ∀ number ∈ (before.loops site).line, before.IsFor site number := once.asked site
  refine ⟨fun number call made => ?_, fun other number member => ?_, fun number member => ?_⟩
  · have shift := count_line asked own stepped made
    simp only [way_moved, List.count_append]
    rcases calls_moved_cases made with old | ⟨rfl, sent⟩
    · have single := once.single number call old
      have fresh :
          ((before.called site beat).map fun _ => before.calls.length).count number = 0 := by
        refine List.count_eq_zero.mpr fun member => ?_
        obtain ⟨_, _, rfl⟩ := List.mem_map.mp member
        exact lt_irrefl _ (List.getElem?_eq_some_iff.mp old).1
      simp only [way, List.count_append] at single
      omega
    · have nowhere := List.count_eq_zero.mpr fun member =>
        lt_irrefl _ (once.known before.calls.length member)
      have unasked : (before.loops call.source).line.count before.calls.length = 0 :=
        List.count_eq_zero.mpr fun member => lt_irrefl _ (once.line_lt member)
      simp only [List.count_append] at nowhere
      rw [sent, List.map_singleton, List.count_singleton_self]
      omega
  · have old : before.IsFor other number := by
      by_cases here : other = site
      · subst here
        rw [loops_moved_self] at member
        exact isFor_of_step asked own stepped (List.mem_append_right _ member)
      · rw [loops_moved_of_ne here] at member
        exact once.asked other number member
    obtain ⟨call, made, named⟩ := old
    exact ⟨call, getElem?_calls_moved made, named⟩
  · have grown : before.calls.length ≤ (before.moved site beat next).calls.length := by
      rw [calls_moved, List.length_append]
      exact Nat.le_add_right _ _
    rw [responses_moved] at member
    rcases List.mem_append.mp member with away | gone
    · rcases List.mem_append.mp away with going | coming
      · rcases List.mem_append.mp going with old | new
        · exact (once.known number (by simp [old])).trans_le grown
        · obtain ⟨call, sent, rfl⟩ := List.mem_map.mp new
          rw [calls_moved, List.length_append]
          exact Nat.lt_add_of_pos_right (List.length_pos_of_mem sent)
      · rcases List.mem_append.mp coming with old | answered
        · exact (once.known number (by simp [old])).trans_le grown
        · obtain ⟨call, made, _⟩ :=
            isFor_of_step asked own stepped (List.mem_append_left _ answered)
          exact (List.getElem?_eq_some_iff.mp made).1.trans_le grown
    · exact (once.known number (List.mem_append_right _ gone)).trans_le grown

end Moves

/-! ## Runs -/

omit [DecidableEq ι] [Blake3] in
theorem cameIn_eq_nil {site : ι} {beat : Beat ι}
    (other : ∀ asker request channel, beat ≠ .swarmEvent (.request asker request channel)) :
    (before.loops site).cameIn beat = [] := by
  refine List.eq_nil_iff_forall_not_mem.mpr fun number member => ?_
  obtain ⟨event, reported, channel⟩ := List.mem_filterMap.mp member
  cases event with
  | inboundRequest asker request number' =>
      exact other asker request number' (Loops.reported_cases (Option.mem_toList.mp reported))
  | _ => exact absurd channel (Option.some_ne_none number).symm

omit [DecidableEq ι] [Blake3] in
/-- A request that arrives counts as on its way until the peer has it. -/
theorem Once.request {back : List Nat} (once : Once back before) {place number : Nat}
    (arrives : before.requests[place]? = some number) :
    Once back { before with requests := [number] ++ before.requests.eraseIdx place } := by
  obtain ⟨bound, rfl⟩ := List.getElem?_eq_some_iff.mp arrives
  have same := List.getElem_cons_eraseIdx_perm bound
  refine ⟨fun number call made => ?_, once.asked, fun number member => ?_⟩
  · rw [← once.single number call made]
    simp only [way, List.count_append]
    rw [← List.count_append, List.singleton_append, same.count_eq]
  · refine once.known number ?_
    rw [List.singleton_append] at member
    simpa only [List.mem_append, same.mem_iff] using member

omit [DecidableEq ι] [Blake3] in
/-- An answer that arrives is no longer on its way. -/
theorem Once.response {back : List Nat} (once : Once back before) {place number : Nat}
    {response : SyncResponse} (arrives : before.responses[place]? = some (number, response)) :
    Once (back ++ [number]) { before with responses := before.responses.eraseIdx place } := by
  obtain ⟨bound, here⟩ := List.getElem?_eq_some_iff.mp arrives
  have same := (List.getElem_cons_eraseIdx_perm bound).map Prod.fst
  rw [here, List.map_cons] at same
  refine ⟨fun number call made => ?_, once.asked, fun number member => ?_⟩
  · rw [← once.single number call made]
    simp only [way, List.count_append, ← same.count_eq, List.count_cons, List.count_nil]
    omega
  · refine once.known number ?_
    simp only [List.mem_append, ← same.mem_iff, List.mem_cons] at member ⊢
    tauto

/-- **Each request keeps to one place** in every move, until its answer is back. -/
theorem Once.keeps {back : List Nat} {move : Move ι} (once : Once back before)
    (stepped : before.step ctx capacity move = some after) :
    Once (back ++ before.arrived move) after := by
  obtain ⟨middle, site, beat, next, brings, taken, rfl⟩ := step_cases stepped
  have still : ∀ {back : List Nat}, Once back middle → (middle.loops site).cameIn beat = [] →
      Once back (middle.moved site beat next) := by
    intro back once nobody
    refine Once.moves ?_ ?_ taken
    · rw [nobody]
      exact once
    · rw [nobody]
      exact fun _ member => absurd member List.not_mem_nil
  have once' : Once (back ++ []) before := by rwa [List.append_nil]
  cases brings with
  | beat site beat inside =>
      refine still once' (cameIn_eq_nil fun asker request channel same => ?_)
      rw [same] at inside
      exact Bool.false_ne_true inside
  | news site event news =>
      refine still once' (cameIn_eq_nil fun asker request channel same => ?_)
      rw [Beat.swarmEvent.inj same] at news
      exact Bool.false_ne_true news
  | request place number call arrives made =>
      refine Once.moves (once'.request arrives) (fun other member => ?_) taken
      rw [List.mem_singleton.mp member]
      exact ⟨call, made, rfl⟩
  | response place number response call arrives made =>
      rw [arrived, arrives]
      exact still (once.response arrives) (cameIn_eq_nil nofun)
  | failure site requestId => exact still once' (cameIn_eq_nil nofun)
  | message site propagationSource notification published =>
      exact still once' (cameIn_eq_nil nofun)

/-- Every request stays in one place, or is back, along a run. -/
theorem once_along {peer : ι → Peer ι} {topic : Str} {last : Mesh ι}
    {trace : List (Mesh ι × Move ι)}
    (run : Run (step ctx capacity) (start peer topic) trace last) :
    Once (visible arrived trace) last := by
  induction run with
  | start => exact .start peer topic
  | snoc run stepped ih =>
      rw [visible_append, visible_singleton]
      exact ih.keeps stepped

/-- **No request is lost, and none is answered twice**: in every state that a mesh reaches, a
request that has gone out is on its way, or in line at the peer that it asks, or its answer is on
its way back or back. It is there once, and no other peer has it in line. -/
theorem once_of_run {peer : ι → Peer ι} {topic : Str} {last : Mesh ι}
    {trace : List (Mesh ι × Move ι)}
    (run : Run (step ctx capacity) (start peer topic) trace last) {number : Nat} {call : Call ι}
    (made : last.calls[number]? = some call) :
    (last.requests ++ (last.loops call.source).line ++ last.responses.map Prod.fst).count number +
        (visible arrived trace).count number = 1 ∧
      ∀ other, other ≠ call.source → number ∉ (last.loops other).line := by
  have once := once_along run
  refine ⟨once.single number call made, fun other apart member => apart ?_⟩
  obtain ⟨call', made', rfl⟩ := once.asked other number member
  rw [Option.some.inj (made.symm.trans made')]

end Mesh

/-! ## A concrete mesh -/

namespace Mesh

attribute [local instance] Sample.blake3

/-- The first peer discovers the second one and asks it for its root, and the answer is on its way
back. -/
def asksRoot : List (Move Sample.Site) :=
  [.news .one (.subscribed .two ['g']), .beat .one .eventSent, .beat .one (.networkEvent {} none),
    .beat .one (.requestSent 0), .beat .one .command, .request 0, .beat .two .eventSent,
    .beat .two (.networkEvent {} none), .beat .two .commandSent, .beat .two .command]

theorem exists_once :
    ∃ trace last call, Run (step Sample.ctx 1) (start (fun site => Sample.peer site [1]) ['g'])
      trace last ∧ trace.map Prod.snd = asksRoot ∧ last.calls[0]? = some call ∧
        (last.requests ++ (last.loops call.source).line ++ last.responses.map Prod.fst).count 0 +
          (visible arrived trace).count 0 = 1 := by
  obtain ⟨trace, last, run, acts, asked⟩ := exists_run_of_any (by decide +kernel :
    (runActs (step Sample.ctx 1) (start (fun site => Sample.peer site [1]) ['g'])
      asksRoot).any (fun last => last.calls[0]?.isSome) = true)
  obtain ⟨call, made⟩ := Option.isSome_iff_exists.mp asked
  exact ⟨trace, last, call, run, acts, made, (once_of_run run made).1⟩

end Mesh

end P2Sync
