import P2Sync.Net.Mesh

/-!
# Requests and replies find their way

The network loop knows a pending request by an identifier, and the swarm brings the reply under
it. In every state that a mesh reaches, the identifier belongs to one request that has gone out,
the peer that was asked has that request in line under its number, and the task that waits for the
reply has asked just this (`Mesh.Routed`).
-/

set_option autoImplicit false

namespace P2Sync

/-- The request that comes in, with who asks and the channel for the answer. -/
def Event.question? {ι : Type} : Event ι → Option (ι × SyncRequest × Nat)
  | .inboundRequest asker request channel => some (asker, request, channel)
  | _ => none

namespace Loops

variable {ι : Type} [Blake3] {ctx : Ctx ι} {capacity : Nat} {before after : Loops ι}
  {beat : Beat ι}

/-- Each request that goes out takes the next identifier. -/
theorem nextRequestId_step (stepped : before.step ctx capacity beat = some after) :
    after.nextRequestId =
      before.nextRequestId + ((before.taken beat).toList.filterMap Command.reply?).length := by
  cases beat_cases stepped with
  | replied event requestId response idle reply =>
      rw [replied]
      split <;> rfl
  | requested source request task rest idle queue
  | notified notification rest idle queue
  | responded channel response rest idle queue =>
      rw [taken, queue]
      rfl
  | _ => rfl

/-- **A pending request was pending before, or it has just gone out**; its task has not gone on. -/
theorem pending_step (waits : before.Waits) (stepped : before.step ctx capacity beat = some after)
    {requestId number : Nat} (pending : (requestId, number) ∈ after.pendingRequests) :
    ∃ task, before.peer.tasks[number]? = some task ∧ after.peer.tasks[number]? = some task ∧
      ((requestId, number) ∈ before.pendingRequests ∨
        ∃ source request, before.taken beat = some (.sendRequest source request number) ∧
          requestId = before.nextRequestId ∧ task.stage.request = some (source, request)) := by
  have left : ∀ {next : Peer ι}, (∀ task : Task ι,
      before.peer.tasks[number]? = some task → task.stage.request.isSome = true →
        next.tasks[number]? = some task) → (requestId, number) ∈ before.pendingRequests →
      ∃ task, before.peer.tasks[number]? = some task ∧ next.tasks[number]? = some task ∧
        ((requestId, number) ∈ before.pendingRequests ∨
          ∃ source request, before.taken beat = some (.sendRequest source request number) ∧
            requestId = before.nextRequestId ∧ task.stage.request = some (source, request)) := by
    intro next alone pending
    obtain ⟨task, found, waiting⟩ := waits.pending pending
    exact ⟨task, found, alone task found waiting, Or.inl pending⟩
  cases beat_cases stepped with
  | replied event requestId' response idle reply =>
      rcases replied_cases ctx waits requestId' response with
        ⟨_, nothing⟩ | ⟨number', task', stage, handed, found', answered, done⟩
      · rw [nothing] at pending ⊢
        exact left (fun _ found _ => found) pending
      · rw [done] at pending ⊢
        obtain ⟨kept, other⟩ := List.mem_filter.mp pending
        have apart : number' ≠ number := by
          rintro rfl
          exact of_decide_eq_true other (waits.requestId_inj kept (mem_of_lookup_eq handed))
        exact left (fun task found _ => (List.getElem?_set_ne apart).trans found) kept
  | requested source request number' rest idle queue =>
      rcases List.mem_cons.mp pending with new | pending
      · cases new
        obtain ⟨task, found, asked⟩ := waits.sending source request number
          (queue ▸ List.mem_cons_self)
        refine ⟨task, found, found, Or.inr ⟨source, request, ?_, rfl, asked⟩⟩
        rw [taken, queue]
        rfl
      · exact left (fun _ found _ => found) pending
  | discovered device failure source rest free queue =>
      have ran : before.peer.step ctx (.discovered source) =
          some (before.peer.spawn (.askedRoot source), none) := rfl
      exact left (Peer.waiting_of_step ran (by simp) number) pending
  | delivered device failure source notification rest next free queue ran =>
      exact left (Peer.waiting_of_step ran (by simp) number) pending
  | fsEvent reads next published free ran =>
      exact left (Peer.waiting_of_step ran (by simp) number) pending
  | beside act next aside ran =>
      exact left (Peer.waiting_of_step ran (Peer.isBeside_ne_respond aside) number) pending
  | _ => exact left (fun _ found _ => found) pending

end Loops

namespace Mesh

variable {ι : Type}

/-- What the peers, the swarm and the requests say of each other. -/
structure Routed (mesh : Mesh ι) : Prop where
  waits : ∀ site, (mesh.loops site).Waits
  issued : ∀ call ∈ mesh.calls, call.requestId < (mesh.loops call.asker).nextRequestId
  named : ∀ (first second : Nat) (call call' : Call ι), mesh.calls[first]? = some call →
    mesh.calls[second]? = some call' → call.asker = call'.asker →
      call.requestId = call'.requestId → first = second
  inbound : ∀ site asker request number,
    (asker, request, number) ∈ (mesh.loops site).incoming Event.question? →
      ∃ requestId, mesh.calls[number]? = some ⟨asker, requestId, site, request⟩
  pending : ∀ site requestId number, (requestId, number) ∈ (mesh.loops site).pendingRequests →
    ∃ (place : Nat) (call : Call ι) (task : Task ι), mesh.calls[place]? = some call ∧
      call.asker = site ∧ call.requestId = requestId ∧
        (mesh.loops site).peer.tasks[number]? = some task ∧
          task.stage.request = some (call.source, call.request)

theorem Routed.start (peer : ι → Peer ι) (topic : Str) : (start peer topic).Routed where
  waits site := .start (peer site) (some topic)
  issued _ member := absurd member List.not_mem_nil
  named _ _ _ _ made := absurd made (Option.some_ne_none _).symm
  inbound _ _ _ _ member := absurd member List.not_mem_nil
  pending _ _ _ member := absurd member List.not_mem_nil

/-- A request that goes out names its peer and takes the next identifier. -/
theorem mem_called {mesh : Mesh ι} {site : ι} {beat : Beat ι} {call : Call ι}
    (sent : call ∈ mesh.called site beat) :
    call.asker = site ∧ call.requestId = (mesh.loops site).nextRequestId := by
  obtain ⟨command, _, made⟩ := List.mem_filterMap.mp sent
  cases command with
  | sendRequest source request reply =>
      cases made
      exact ⟨rfl, rfl⟩
  | notify | respond => exact absurd made (Option.some_ne_none call).symm

theorem length_called (mesh : Mesh ι) (site : ι) (beat : Beat ι) :
    (mesh.called site beat).length =
      (((mesh.loops site).taken beat).toList.filterMap Command.reply?).length := by
  rw [called]
  rcases (mesh.loops site).taken beat with _ | command
  · rfl
  · cases command <;> rfl

variable [DecidableEq ι] [Blake3] {ctx : ι → Ctx ι} {capacity : Nat} {before after : Mesh ι}
  {site : ι} {beat : Beat ι} {next : Loops ι}

/-- A step of the loops of a peer keeps the requests and replies on their way. -/
theorem Routed.moves (routed : Routed before)
    (own : ∀ asker request number, (asker, request, number) ∈
      ((before.loops site).reported beat).toList.filterMap Event.question? →
        ∃ requestId, before.calls[number]? = some ⟨asker, requestId, site, request⟩)
    (stepped : (before.loops site).step (ctx site) capacity beat = some next) :
    Routed (before.moved site beat next) := by
  have counted : next.nextRequestId =
      (before.loops site).nextRequestId + (before.called site beat).length := by
    rw [Loops.nextRequestId_step stepped, length_called]
  have grown : ∀ other, (before.loops other).nextRequestId ≤
      ((before.moved site beat next).loops other).nextRequestId := by
    intro other
    by_cases here : other = site
    · subst here
      rw [loops_moved_self, counted]
      exact Nat.le_add_right _ _
    · rw [loops_moved_of_ne here]
  have fresh : ∀ (number : Nat) (call call' : Call ι), before.calls[number]? = some call →
      before.called site beat = [call'] → call.asker = call'.asker →
        call.requestId ≠ call'.requestId := by
    intro number call call' made sent same
    obtain ⟨asker, requestId⟩ := mem_called (sent ▸ List.mem_singleton_self call')
    have older := routed.issued call (List.mem_of_getElem? made)
    rw [same, asker, ← requestId] at older
    exact older.ne
  refine ⟨fun other => ?_, fun call member => ?_, fun first second call call' made made' => ?_,
    fun other asker request number member => ?_, fun other requestId number member => ?_⟩
  · by_cases here : other = site
    · subst here
      rw [loops_moved_self]
      exact (routed.waits other).keeps stepped
    · rw [loops_moved_of_ne here]
      exact routed.waits other
  · rcases List.mem_append.mp member with old | new
    · exact (routed.issued call old).trans_le (grown call.asker)
    · obtain ⟨asker, requestId⟩ := mem_called new
      rw [asker, requestId, loops_moved_self, counted]
      exact Nat.lt_add_of_pos_right (List.length_pos_of_mem new)
  · intro asker requestId
    rcases calls_moved_cases made with old | ⟨rfl, sent⟩ <;>
      rcases calls_moved_cases made' with old' | ⟨rfl, sent'⟩
    · exact routed.named first second call call' old old' asker requestId
    · exact absurd requestId (fresh first call call' old sent' asker)
    · exact absurd requestId.symm (fresh second call' call old' sent asker.symm)
    · rfl
  · have old : ∃ requestId, before.calls[number]? = some ⟨asker, requestId, other, request⟩ := by
      by_cases here : other = site
      · subst here
        rw [loops_moved_self] at member
        have kept := Loops.incoming_step Event.question? stepped
        rcases List.mem_append.mp (kept ▸ List.mem_append_right _ member) with old | new
        · exact routed.inbound other asker request number old
        · exact own asker request number new
      · rw [loops_moved_of_ne here] at member
        exact routed.inbound other asker request number member
    obtain ⟨requestId, made⟩ := old
    exact ⟨requestId, getElem?_calls_moved made⟩
  · by_cases here : other = site
    · subst here
      rw [loops_moved_self] at member ⊢
      obtain ⟨task, found, found', old | ⟨source, request, taken, rfl, asked⟩⟩ :=
        Loops.pending_step (routed.waits other) stepped member
      · obtain ⟨place, call, task', made, asker, rfl, found'', asked⟩ :=
          routed.pending other requestId number old
        obtain rfl := Option.some.inj (found.symm.trans found'')
        exact ⟨place, call, task, getElem?_calls_moved made, asker, rfl, found', asked⟩
      · have sent : before.called other beat =
            [⟨other, (before.loops other).nextRequestId, source, request⟩] := by
          rw [called, taken]
          rfl
        have made : (before.moved other beat next).calls[before.calls.length]? =
            some ⟨other, (before.loops other).nextRequestId, source, request⟩ := by
          rw [calls_moved, sent, List.getElem?_concat_length]
        exact ⟨before.calls.length, _, task, made, rfl, rfl, found', asked⟩
    · rw [loops_moved_of_ne here] at member ⊢
      obtain ⟨place, call, task, made, rest⟩ := routed.pending other requestId number member
      exact ⟨place, call, task, getElem?_calls_moved made, rest⟩

omit [DecidableEq ι] [Blake3] in
/-- A request that a move brings to a peer has gone out to it. -/
theorem Brings.inbound {move : Move ι} {middle : Mesh ι} {asker : ι} {request : SyncRequest}
    {number : Nat} (brings : Brings before move middle site beat)
    (reported : (middle.loops site).reported beat = some (.inboundRequest asker request number)) :
    ∃ requestId, before.calls[number]? = some ⟨asker, requestId, site, request⟩ := by
  have arrives : beat = .swarmEvent (.request asker request number) :=
    Loops.reported_cases reported
  cases brings with
  | beat site beat inside =>
      rw [arrives] at inside
      exact absurd inside Bool.false_ne_true
  | news site event news =>
      rw [Beat.swarmEvent.inj arrives] at news
      exact absurd news Bool.false_ne_true
  | request place number call _ made =>
      cases arrives
      exact ⟨call.requestId, made⟩
  | response | failure | message => cases arrives

/-- **Requests and replies stay on their way** in every move. -/
theorem Routed.keeps {move : Move ι} (routed : Routed before)
    (stepped : before.step ctx capacity move = some after) : Routed after := by
  obtain ⟨middle, site, beat, next, brings, taken, rfl⟩ := step_cases stepped
  have arrives : ∀ asker request number, (asker, request, number) ∈
      ((middle.loops site).reported beat).toList.filterMap Event.question? →
        ∃ requestId, before.calls[number]? = some ⟨asker, requestId, site, request⟩ := by
    intro asker request number member
    obtain ⟨event, reported, asked⟩ := List.mem_filterMap.mp member
    cases event with
    | inboundRequest asker' request' number' =>
        cases asked
        exact brings.inbound (Option.mem_toList.mp reported)
    | _ => exact absurd asked (Option.some_ne_none _).symm
  -- what a move takes off its way are numbers, which nothing here speaks of
  have middle_routed : Routed middle ∧ middle.calls = before.calls := by
    cases brings <;> exact ⟨⟨routed.waits, routed.issued, routed.named, routed.inbound,
      routed.pending⟩, rfl⟩
  rw [← middle_routed.2] at arrives
  exact middle_routed.1.moves arrives taken

/-- Requests and replies are on their way in every state that a mesh reaches. -/
theorem routed_of_run {peer : ι → Peer ι} {topic : Str} {last : Mesh ι}
    {trace : List (Mesh ι × Move ι)}
    (run : Run (step ctx capacity) (start peer topic) trace last) : Routed last :=
  run.invariant Routed (fun _ _ => True) (fun _ _ => trivial) (.start peer topic)
    fun _ _ _ routed _ stepped => routed.keeps stepped

end Mesh

end P2Sync
