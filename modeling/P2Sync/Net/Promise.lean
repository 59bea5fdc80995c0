import P2Sync.Net.Routed

/-!
# Answers that are promised

An answer that a peer has made is on its way to the task that asked, until it arrives or the
request is given up (`Mesh.Answered`, `Mesh.Promised`). Which of the two it will be is not known
yet; `fate` says it for each request. A task is promised at most one answer, and a step of a peer
changes what is promised in two ways only: it makes an answer, or a reply comes in
(`Mesh.promised_moved`).
-/

set_option autoImplicit false

namespace P2Sync

/-- The request that a reply is for. -/
def Beat.replied? {ι : Type} : Beat ι → Option Nat
  | .swarmEvent event => event.reply.map Prod.fst
  | _ => none

/-- The notification that comes in. -/
def Event.notification? {ι : Type} : Event ι → Option SyncNotification
  | .notification _ content => some content
  | _ => none

namespace Loops

variable {ι : Type} [Blake3] {ctx : Ctx ι} {capacity : Nat} {before after : Loops ι}
  {beat : Beat ι}

/-- **A request is pending until its reply comes in.** -/
theorem pending_iff (waits : before.Waits) (stepped : before.step ctx capacity beat = some after)
    {requestId number : Nat} (issued : requestId < before.nextRequestId) :
    (requestId, number) ∈ after.pendingRequests ↔
      (requestId, number) ∈ before.pendingRequests ∧ beat.replied? ≠ some requestId := by
  have other : ∀ {event : SwarmEvent ι} {requestId' : Nat} {response : Option SyncResponse},
      event.reply = some (requestId', response) →
        ((Beat.swarmEvent event).replied? ≠ some requestId ↔ requestId ≠ requestId') := by
    intro event requestId' response reply
    rw [Beat.replied?, reply, Option.map_some, Ne, Option.some.injEq, eq_comm]
  cases beat_cases stepped with
  | forwarded event idle news =>
      rw [Beat.replied?, news]
      exact ⟨fun pending => ⟨pending, nofun⟩, fun both => both.1⟩
  | replied event requestId' response idle reply =>
      rw [other reply]
      rcases replied_cases ctx waits requestId' response with
        ⟨nobody, nothing⟩ | ⟨number', task, stage, handed, found, answered, done⟩
      · rw [nothing]
        refine ⟨fun pending => ⟨pending, fun same => ?_⟩, fun both => both.1⟩
        have apart := List.lookup_eq_none_iff.mp nobody _ pending
        rw [same, bne_self_eq_false] at apart
        exact Bool.false_ne_true apart
      · rw [done, List.mem_filter, decide_eq_true_iff]
  | requested source request task rest idle queue =>
      rw [List.mem_cons]
      refine ⟨fun pending => ⟨pending.resolve_left fun new => ?_, nofun⟩, fun both => Or.inr both.1⟩
      rw [(Prod.mk.inj new).1] at issued
      exact lt_irrefl _ issued
  | _ => exact ⟨fun pending => ⟨pending, nofun⟩, fun both => both.1⟩

end Loops

namespace Mesh

variable {ι : Type}

/-! ## Promises -/

/-- The answer to a request is made, and is on its way. -/
def Answered (mesh : Mesh ι) (place : Nat) (response : SyncResponse) : Prop :=
  (place, response) ∈ mesh.responses ∨
    ∃ site, (place, response) ∈ (mesh.loops site).outgoing Command.answer?

/-- An answer that is on its way to a task and will arrive, if what is said of its request is so. -/
def Promised (fate : Nat → Bool) (mesh : Mesh ι) (site : ι) (number : Nat)
    (response : SyncResponse) : Prop :=
  ∃ place call, mesh.calls[place]? = some call ∧ call.asker = site ∧
    (call.requestId, number) ∈ (mesh.loops site).pendingRequests ∧ fate place = true ∧
      mesh.Answered place response

/-- A notification is on its way. -/
def Spoken (mesh : Mesh ι) (notification : SyncNotification) : Prop :=
  notification ∈ mesh.gossip ∨ ∃ site,
    notification ∈ (mesh.loops site).outgoing Command.notification? ∨
      notification ∈ (mesh.loops site).incoming Event.notification?

variable [DecidableEq ι] [Blake3] {ctx : ι → Ctx ι} {capacity : Nat} {before : Mesh ι}
  {site : ι} {beat : Beat ι} {next : Loops ι}

/-- The answers that are on their way after a step were there before, or the step has made them. -/
theorem answered_moved (stepped : (before.loops site).step (ctx site) capacity beat = some next)
    {place : Nat} {response : SyncResponse} :
    (before.moved site beat next).Answered place response ↔
      before.Answered place response ∨
        (place, response) ∈
          ((before.loops site).made (ctx site) beat).toList.filterMap Command.answer? := by
  have line : ∀ entry, entry ∈ ((before.loops site).taken beat).toList.filterMap Command.answer? ∨
      entry ∈ next.outgoing Command.answer? ↔
        entry ∈ (before.loops site).outgoing Command.answer? ∨
          entry ∈ ((before.loops site).made (ctx site) beat).toList.filterMap Command.answer? := by
    intro entry
    rw [← List.mem_append, ← List.mem_append,
      Loops.outgoing_step Command.answer? (fun _ _ _ => rfl) stepped]
  constructor
  · rintro (back | ⟨other, out⟩)
    · rcases List.mem_append.mp back with old | taken
      · exact Or.inl (Or.inl old)
      · exact ((line _).mp (Or.inl taken)).imp_left fun out => Or.inr ⟨site, out⟩
    · by_cases here : other = site
      · subst here
        rw [loops_moved_self] at out
        exact ((line _).mp (Or.inr out)).imp_left fun out => Or.inr ⟨other, out⟩
      · rw [loops_moved_of_ne here] at out
        exact Or.inl (Or.inr ⟨other, out⟩)
  · have kept : (place, response) ∈ (before.loops site).outgoing Command.answer? ∨
        (place, response) ∈
          ((before.loops site).made (ctx site) beat).toList.filterMap Command.answer? →
            (before.moved site beat next).Answered place response := by
      intro held
      refine ((line _).mpr held).imp (List.mem_append_right _) fun out => ⟨site, ?_⟩
      rwa [loops_moved_self]
    rintro ((old | ⟨other, out⟩) | made)
    · exact Or.inl (List.mem_append_left _ old)
    · by_cases here : other = site
      · subst here
        exact kept (Or.inl out)
      · refine Or.inr ⟨other, ?_⟩
        rwa [loops_moved_of_ne here]
    · exact kept (Or.inr made)

/-- The notifications that are on their way after a step were there before, or the step has
published them, or they come in. -/
theorem spoken_moved (stepped : (before.loops site).step (ctx site) capacity beat = some next)
    {notification : SyncNotification} (spoken : (before.moved site beat next).Spoken notification) :
    before.Spoken notification ∨ notification ∈ (before.loops site).published (ctx site) beat ∨
      notification ∈ ((before.loops site).reported beat).toList.filterMap Event.notification? := by
  have out : ∀ {notification : SyncNotification},
      notification ∈ (before.loops site).sentOut beat ++ next.outgoing Command.notification? →
        before.Spoken notification ∨ notification ∈ (before.loops site).published (ctx site) beat ∨
          notification ∈
            ((before.loops site).reported beat).toList.filterMap Event.notification? := by
    intro notification member
    rw [Loops.sentOut, Loops.outgoing_step Command.notification? (fun _ _ _ => rfl) stepped]
      at member
    exact (List.mem_append.mp member).imp (fun old => Or.inr ⟨site, Or.inl old⟩) Or.inl
  rcases spoken with gone | ⟨other, going | coming⟩
  · rcases List.mem_append.mp gone with old | new
    · exact Or.inl (Or.inl old)
    · split at new
      · exact out (List.mem_append_left _ new)
      · exact absurd new List.not_mem_nil
  · by_cases here : other = site
    · subst here
      rw [loops_moved_self] at going
      exact out (List.mem_append_right _ going)
    · rw [loops_moved_of_ne here] at going
      exact Or.inl (Or.inr ⟨other, Or.inl going⟩)
  · by_cases here : other = site
    · subst here
      rw [loops_moved_self] at coming
      have member := List.mem_append_right
        (((before.loops other).heard beat).toList.filterMap Event.notification?) coming
      rw [Loops.incoming_step Event.notification? stepped] at member
      exact (List.mem_append.mp member).imp (fun old => Or.inr ⟨other, Or.inr old⟩) Or.inr
    · rw [loops_moved_of_ne here] at coming
      exact Or.inl (Or.inr ⟨other, Or.inr coming⟩)

/-! ## What a move does to a promise -/

section Promises

variable {fate : Nat → Bool} {back : List Nat} {middle : Mesh ι} {move : Move ι}

omit [DecidableEq ι] [Blake3] in
theorem Brings.loops (brings : Brings before move middle site beat) :
    middle.loops = before.loops := by
  cases brings <;> rfl

omit [DecidableEq ι] [Blake3] in
theorem Brings.calls (brings : Brings before move middle site beat) :
    middle.calls = before.calls := by
  cases brings <;> rfl

omit [DecidableEq ι] [Blake3] in
/-- Only an answer that arrives is taken off its way. -/
theorem Brings.answered (brings : Brings before move middle site beat) {place : Nat}
    {response : SyncResponse} (answered : middle.Answered place response) :
    before.Answered place response := by
  cases brings with
  | response =>
      exact answered.imp_left List.mem_of_mem_eraseIdx
  | _ => exact answered

omit [DecidableEq ι] [Blake3] in
/-- Only requests that have gone out are answered. -/
theorem Answered.lt (once : Once back before) {place : Nat} {response : SyncResponse}
    (answered : before.Answered place response) : place < before.calls.length := by
  rcases answered with coming | ⟨site, out⟩
  · refine once.known place (List.mem_append_left _ (List.mem_append_right _ ?_))
    exact List.mem_map_of_mem coming
  · have line : place ∈ (before.loops site).outgoing Command.channel? := by
      rw [Loops.outgoing_channel]
      exact List.mem_map_of_mem out
    exact once.line_lt (List.mem_append_left _ line)

omit [DecidableEq ι] in
/-- The answer that a step makes is to a request in line. -/
theorem made_cases {place : Nat} {response : SyncResponse}
    (made : (place, response) ∈
      ((before.loops site).made (ctx site) beat).toList.filterMap Command.answer?) :
    ∃ device failure asker request rest,
      beat = .networkEvent device failure ∧
        (before.loops site).events = .inboundRequest asker request place :: rest ∧
          response = handleInboundRequest (ctx site).storage (before.loops site).peer.index
            (before.loops site).peer.disk failure request := by
  obtain ⟨command, command_made, answer⟩ := List.mem_filterMap.mp made
  rw [Option.mem_toList] at command_made
  cases beat with
  | networkEvent device failure =>
      rw [Loops.made] at command_made
      cases queue : (before.loops site).events with
      | nil =>
          rw [queue] at command_made
          exact absurd command_made (Option.some_ne_none _).symm
      | cons event rest =>
          rw [queue] at command_made
          cases event with
          | inboundRequest asker request channel =>
              cases command_made
              cases answer
              exact ⟨device, failure, asker, request, rest, rfl, rfl, rfl⟩
          | _ => exact absurd command_made (Option.some_ne_none _).symm
  | fsEvent reads =>
      obtain ⟨notification, _, rfl⟩ := Option.map_eq_some_iff.mp command_made
      exact absurd answer (Option.some_ne_none _).symm
  | _ => exact absurd command_made (Option.some_ne_none _).symm

/-- **What is promised after a step**: an answer to a request that was pending before and whose
reply has not come in. -/
theorem promised_moved (routed : Routed before)
    (known : ∀ place response, before.Answered place response → place < before.calls.length)
    (stepped : (before.loops site).step (ctx site) capacity beat = some next) {other : ι}
    {number : Nat} {response : SyncResponse} :
    (before.moved site beat next).Promised fate other number response ↔
      ∃ place call, before.calls[place]? = some call ∧ call.asker = other ∧
        (call.requestId, number) ∈ (before.loops other).pendingRequests ∧
          (other = site → beat.replied? ≠ some call.requestId) ∧ fate place = true ∧
            (before.moved site beat next).Answered place response := by
  have old : ∀ {place : Nat} {response : SyncResponse},
      (before.moved site beat next).Answered place response → place < before.calls.length := by
    intro place response answered
    rcases (answered_moved stepped).mp answered with old | made
    · exact known place response old
    · obtain ⟨_, _, asker, request, rest, _, queue, _⟩ := made_cases made
      obtain ⟨requestId, made⟩ := routed.inbound site asker request place
        (List.mem_append_left _ (List.mem_filterMap.mpr ⟨_, queue ▸ List.mem_cons_self, rfl⟩))
      exact (List.getElem?_eq_some_iff.mp made).1
  have pending : ∀ {place : Nat} {call : Call ι}, before.calls[place]? = some call →
      call.asker = other →
      ((call.requestId, number) ∈ ((before.moved site beat next).loops other).pendingRequests ↔
        (call.requestId, number) ∈ (before.loops other).pendingRequests ∧
          (other = site → beat.replied? ≠ some call.requestId)) := by
    intro place call made asker
    by_cases here : other = site
    · subst here
      have issued := routed.issued call (List.mem_of_getElem? made)
      rw [asker] at issued
      rw [loops_moved_self, Loops.pending_iff (routed.waits other) stepped issued]
      exact and_congr_right fun _ => ⟨fun apart _ => apart, fun apart => apart rfl⟩
    · rw [loops_moved_of_ne here, iff_self_and]
      exact fun _ same => absurd same here
  constructor
  · rintro ⟨place, call, made, asker, waits, coming, answered⟩
    rcases calls_moved_cases made with made | ⟨last, _⟩
    · obtain ⟨waited, unanswered⟩ := (pending made asker).mp waits
      exact ⟨place, call, made, asker, waited, unanswered, coming, answered⟩
    · exact absurd last (old answered).ne
  · rintro ⟨place, call, made, asker, waited, unanswered, coming, answered⟩
    exact ⟨place, call, getElem?_calls_moved made, asker,
      (pending made asker).mpr ⟨waited, unanswered⟩, coming, answered⟩

omit [DecidableEq ι] [Blake3] in
/-- An answer that has been made is in the one place of its request. -/
theorem Answered.mem_way (once : Once back before) {place : Nat} {response : SyncResponse}
    {call : Call ι} (answered : before.Answered place response)
    (made : before.calls[place]? = some call) :
    (place, response) ∈
      (before.loops call.source).outgoing Command.answer? ++ before.responses := by
  rcases answered with coming | ⟨site, out⟩
  · exact List.mem_append_right _ coming
  · have line : place ∈ (before.loops site).outgoing Command.channel? := by
      rw [Loops.outgoing_channel]
      exact List.mem_map_of_mem out
    obtain ⟨call', made', rfl⟩ := once.asked site place (List.mem_append_left _ line)
    rw [Option.some.inj (made.symm.trans made')]
    exact List.mem_append_left _ out

omit [DecidableEq ι] [Blake3] in
/-- The places of a request, those with its answer together. -/
theorem Once.places (once : Once back before) {number : Nat} {call : Call ι}
    (made : before.calls[number]? = some call) :
    before.requests.count number +
      ((before.loops call.source).incoming Event.channel?).count number +
        (((before.loops call.source).outgoing Command.answer? ++
          before.responses).map Prod.fst).count number + back.count number = 1 := by
  have single := once.single number call made
  rw [List.map_append, ← Loops.outgoing_channel, List.count_append]
  simp only [way, Loops.line, List.count_append] at single
  omega

omit [DecidableEq ι] [Blake3] in
/-- A request that is answered is nowhere else. -/
theorem Answered.places (once : Once back before) {number : Nat} {response : SyncResponse}
    (answered : before.Answered number response) :
    ∃ call, before.calls[number]? = some call ∧
      ((before.loops call.source).incoming Event.channel?).count number = 0 ∧
        (((before.loops call.source).outgoing Command.answer? ++
          before.responses).map Prod.fst).count number = 1 ∧ back.count number = 0 := by
  obtain ⟨call, made⟩ : ∃ call, before.calls[number]? = some call :=
    ⟨_, List.getElem?_eq_getElem (answered.lt once)⟩
  have single := once.places made
  have here : 0 < (((before.loops call.source).outgoing Command.answer? ++
      before.responses).map Prod.fst).count number :=
    List.count_pos_iff.mpr (List.mem_map_of_mem (answered.mem_way once made))
  exact ⟨call, made, by omega, by omega, by omega⟩

omit [DecidableEq ι] [Blake3] in
/-- A request has one answer. -/
theorem Answered.unique (once : Once back before) {place : Nat} {first second : SyncResponse}
    (answered : before.Answered place first) (answered' : before.Answered place second) :
    first = second := by
  obtain ⟨call, made, _, single, _⟩ := answered.places once
  exact value_inj single.le (answered.mem_way once made) (answered'.mem_way once made)

omit [DecidableEq ι] [Blake3] in
/-- A request in line has no answer. -/
theorem not_answered_of_incoming (once : Once back before) {number : Nat}
    (inLine : number ∈ (before.loops site).incoming Event.channel?) (response : SyncResponse) :
    ¬ before.Answered number response := by
  intro answered
  obtain ⟨call, made, absent, _⟩ := answered.places once
  obtain ⟨call', made', rfl⟩ := once.asked site number (List.mem_append_right _ inLine)
  obtain rfl := Option.some.inj (made.symm.trans made')
  exact List.count_eq_zero.mp absent inLine

omit [DecidableEq ι] [Blake3] in
/-- A request whose answer is back has no answer on its way. -/
theorem not_answered_of_back (once : Once back before) {number : Nat} (member : number ∈ back)
    (response : SyncResponse) : ¬ before.Answered number response := by
  intro answered
  obtain ⟨_, _, _, _, absent⟩ := answered.places once
  exact List.count_eq_zero.mp absent member

omit [DecidableEq ι] [Blake3] in
/-- A task is promised one answer. -/
theorem Promised.unique (once : Once back before) (routed : Routed before) {number : Nat}
    {first second : SyncResponse} (promised : before.Promised fate site number first)
    (promised' : before.Promised fate site number second) : first = second := by
  obtain ⟨place, call, made, asker, waits, _, answered⟩ := promised
  obtain ⟨place', call', made', asker', waits', _, answered'⟩ := promised'
  have same := routed.named place place' call call' made made' (asker.trans asker'.symm)
    ((routed.waits site).requestId_inj waits waits')
  exact answered.unique once (same ▸ answered')

end Promises

end Mesh

end P2Sync
