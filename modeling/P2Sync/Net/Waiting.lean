import P2Sync.Net.Beats

/-!
# Tasks that wait for a reply

A task that has sent a request waits until the network loop hands it the reply. Meanwhile its
request is in one place: in the channel of commands, or among the pending requests, under an
identifier that no other request has (`Loops.Waits`). This is so in every state that the loops
reach, whatever the swarm reports (`Loops.waits_of_run`). So a reply reaches the task that asked
for it, and reaches it once.
-/

set_option autoImplicit false

namespace P2Sync

/-! ## Tables -/

section Tables

variable {α β : Type*} [DecidableEq α] {entries : List (α × β)} {key : α} {value : β}

theorem mem_of_lookup_eq (found : entries.lookup key = some value) : (key, value) ∈ entries := by
  obtain ⟨early, late, rfl, _⟩ := List.lookup_eq_some_iff.mp found
  exact List.mem_append_right _ List.mem_cons_self

/-- A key that is listed once takes its entry with it. -/
theorem perm_of_lookup (distinct : (entries.map Prod.fst).Nodup)
    (found : entries.lookup key = some value) :
    entries.Perm ((key, value) :: entries.filter fun entry => entry.1 ≠ key) := by
  induction entries with
  | nil => exact absurd found (Option.some_ne_none _).symm
  | cons entry rest ih =>
      obtain ⟨other, stored⟩ := entry
      obtain ⟨absent, distinct⟩ := List.nodup_cons.mp distinct
      rw [List.lookup_cons] at found
      by_cases here : key = other
      · subst here
        rw [beq_self_eq_true] at found
        cases found
        have others : rest.filter (fun entry => entry.1 ≠ key) = rest := by
          refine List.filter_eq_self.mpr fun entry member => decide_eq_true fun same => absent ?_
          exact List.mem_map.mpr ⟨entry, member, same⟩
        rw [List.filter_cons_of_neg (by simp), others]
      · rw [beq_eq_false_iff_ne.mpr here] at found
        rw [List.filter_cons_of_pos (by simpa using Ne.symm here)]
        exact ((ih distinct found).cons _).trans (.swap _ _ _)

/-- A key that is listed once has one value. -/
theorem value_inj {first second : β} (single : (entries.map Prod.fst).count key ≤ 1)
    (member : (key, first) ∈ entries) (member' : (key, second) ∈ entries) : first = second := by
  induction entries with
  | nil => exact absurd member List.not_mem_nil
  | cons entry rest ih =>
      rw [List.map_cons, List.count_cons] at single
      have alone : ∀ {value : β}, entry.1 = key → (key, value) ∉ rest := by
        intro value here listed
        have listed : key ∈ rest.map Prod.fst := List.mem_map_of_mem listed
        have counted := List.count_pos_iff.mpr listed
        rw [here, beq_self_eq_true, if_pos rfl] at single
        omega
      rcases List.mem_cons.mp member with rfl | member <;>
        rcases List.mem_cons.mp member' with same | member'
      · exact (congrArg Prod.snd same).symm
      · exact absurd member' (alone rfl)
      · exact absurd member (alone (congrArg Prod.fst same).symm)
      · exact ih ((Nat.le_add_right _ _).trans single) member member'

end Tables

/-! ## Waiting -/

/-- The task that waits for the reply to a request in the channel. -/
def Command.reply? {ι : Type} : Command ι → Option Nat
  | .sendRequest _ _ reply => some reply
  | _ => none

namespace Peer

variable {ι : Type} [Blake3] {ctx : Ctx ι} {before after : Peer ι} {act : Act ι}
  {published : Option SyncNotification} {number : Nat} {task : Task ι}

/-- A task that waits is left alone until it is answered. -/
theorem Step.waiting (stepped : Step ctx before act after published)
    (found : before.tasks[number]? = some task) (waits : task.stage.request.isSome = true)
    (other : ∀ response, act ≠ .respond number response) :
    after.tasks[number]? = some task := by
  obtain ⟨task', found', turned⟩ := stepped.turned found
  cases turned with
  | left => exact found'
  | answered response => exact absurd rfl (other response)
  | resumed device middle task' ran =>
      have ended : ∀ {stage : Stage ι}, stage.request = none → task.stage = stage → False := by
        intro stage silent same
        rw [same, silent] at waits
        exact Bool.false_ne_true waits
      cases ran with
      | counted files rest idle => exact (ended rfl idle).elim
      | started source path count rest idle => exact (ended rfl idle).elim
      | forgotten tombstone path unlinked => exact (ended rfl unlinked).elim
      | refused fetch chunks answered => exact (ended rfl answered).elim
      | loaded fetch chunks data answered => exact (ended rfl answered).elim
      | failed fetch data disk watch ready => exact (ended rfl ready).elim
      | wrote fetch data disk watch ready => exact (ended rfl ready).elim
      | committed fetch data stored => exact (ended rfl stored).elim
      | compared source hash asked => exact (ended rfl asked).elim
      | walked source tree asked => exact (ended rfl asked).elim

/-- The tasks that wait are left alone by what is no reply. -/
theorem waiting_of_step (stepped : before.step ctx act = some (after, published))
    (other : ∀ number response, act ≠ .respond number response) (number : Nat) (task : Task ι)
    (found : before.tasks[number]? = some task) (waits : task.stage.request.isSome = true) :
    after.tasks[number]? = some task :=
  (step_cases stepped).waiting found waits (other number)

omit [Blake3] in
theorem isBeside_ne_respond (aside : act.isBeside = true) (number : Nat)
    (response : Option SyncResponse) : act ≠ .respond number response := by
  rintro rfl
  exact Bool.false_ne_true aside

omit [Blake3] in
/-- A stage that waits takes any reply. -/
theorem exists_answer {stage : Stage ι} (waits : stage.request.isSome = true)
    (response : Option SyncResponse) :
    ∃ stage', answer stage response = some stage' := by
  cases stage with
  | asked | askedRoot | askedTree =>
      rw [answer.eq_def]
      rcases response with none | response
      · exact ⟨_, rfl⟩
      · cases response <;> exact ⟨_, rfl⟩
  | _ => exact absurd waits Bool.false_ne_true

end Peer

namespace Loops

variable {ι : Type}

/-- The tasks whose requests are in the channel or pending. -/
def asking (loops : Loops ι) : List Nat :=
  loops.commands.filterMap Command.reply? ++ loops.pendingRequests.map Prod.snd

/-- Every task that waits is waited for by one request. -/
structure Waits (loops : Loops ι) : Prop where
  once : loops.asking.Perm loops.awaiting
  distinct : loops.awaiting.Nodup
  issued : ∀ pending ∈ loops.pendingRequests, pending.1 < loops.nextRequestId
  fresh : (loops.pendingRequests.map Prod.fst).Nodup
  engine : ∀ command ∈ loops.engine, command.reply? = none
  waiting : ∀ number ∈ loops.awaiting, ∃ task, loops.peer.tasks[number]? = some task ∧
    task.stage.request.isSome = true
  sending : ∀ source request number, .sendRequest source request number ∈ loops.commands →
    ∃ task, loops.peer.tasks[number]? = some task ∧ task.stage.request = some (source, request)

variable [Blake3] {ctx : Ctx ι} {capacity : Nat} {before after : Loops ι}

omit [Blake3] in
/-- One request is pending for a task. -/
theorem Waits.requestId_inj (waits : before.Waits) {number first second : Nat}
    (pending : (first, number) ∈ before.pendingRequests)
    (pending' : (second, number) ∈ before.pendingRequests) : first = second := by
  have spread : (before.pendingRequests.map Prod.snd).Nodup :=
    (waits.once.nodup_iff.mpr waits.distinct).sublist (List.sublist_append_right _ _)
  exact congrArg Prod.fst (List.inj_on_of_nodup_map spread pending pending' rfl)

omit [Blake3] in
/-- A request is pending for one task. -/
theorem Waits.number_inj (waits : before.Waits) {requestId first second : Nat}
    (pending : (requestId, first) ∈ before.pendingRequests)
    (pending' : (requestId, second) ∈ before.pendingRequests) : first = second :=
  congrArg Prod.snd (List.inj_on_of_nodup_map waits.fresh pending pending' rfl)

omit [Blake3] in
/-- A task that has a request pending waits for its reply. -/
theorem Waits.pending (waits : before.Waits) {requestId number : Nat}
    (pending : (requestId, number) ∈ before.pendingRequests) :
    ∃ task, before.peer.tasks[number]? = some task ∧ task.stage.request.isSome = true :=
  waits.waiting number (waits.once.mem_iff.mp (List.mem_append_right _
    (List.mem_map_of_mem pending)))

variable (ctx) in
/-- A reply is handed to the task that waits for it, or to nobody. -/
theorem replied_cases (waits : before.Waits) (requestId : Nat) (response : Option SyncResponse) :
    (before.pendingRequests.lookup requestId = none ∧
      before.replied ctx requestId response = before) ∨
    ∃ number task stage, before.pendingRequests.lookup requestId = some number ∧
      before.peer.tasks[number]? = some task ∧ Peer.answer task.stage response = some stage ∧
      before.replied ctx requestId response =
        { before with
          peer := { before.peer with
            tasks := before.peer.tasks.set number { task with stage := stage } }
          awaiting := before.awaiting.erase number
          pendingRequests :=
            before.pendingRequests.filter fun pending => pending.1 ≠ requestId } := by
  cases pending : before.pendingRequests.lookup requestId with
  | none =>
      refine Or.inl ⟨rfl, ?_⟩
      rw [replied, pending]
  | some number =>
      have listed : number ∈ before.awaiting := waits.once.mem_iff.mp
        (List.mem_append_right _ (List.mem_map_of_mem (mem_of_lookup_eq pending)))
      obtain ⟨task, found, waiting⟩ := waits.waiting number listed
      obtain ⟨stage, reply⟩ := Peer.exists_answer waiting response
      refine Or.inr ⟨number, task, stage, rfl, found, reply, ?_⟩
      simp only [replied, pending, Peer.step, found, Option.bind_some, reply, Option.map_some,
        Option.getD_some]

omit [Blake3] in
theorem Waits.start (peer : Peer ι) (topic : Option Str) : (start peer topic).Waits where
  once := .nil
  distinct := .nil
  issued _ member := absurd member List.not_mem_nil
  fresh := .nil
  engine _ member := absurd member (Option.not_mem_none _)
  waiting _ member := absurd member List.not_mem_nil
  sending _ _ _ member := absurd member List.not_mem_nil

omit [Blake3] in
/-- Nothing changes for the tasks that wait when their requests stay and they are left alone. -/
theorem Waits.moved (waits : before.Waits) (asking : after.asking = before.asking)
    (awaiting : after.awaiting = before.awaiting)
    (pending : after.pendingRequests = before.pendingRequests)
    (nextId : after.nextRequestId = before.nextRequestId)
    (engine : ∀ command ∈ after.engine, command.reply? = none)
    (sending : ∀ source request number, .sendRequest source request number ∈ after.commands →
      .sendRequest source request number ∈ before.commands)
    (alone : ∀ (number : Nat) (task : Task ι), before.peer.tasks[number]? = some task →
      task.stage.request.isSome = true → after.peer.tasks[number]? = some task) :
    after.Waits where
  once := by
    rw [asking, awaiting]
    exact waits.once
  distinct := awaiting ▸ waits.distinct
  issued := by
    rw [pending, nextId]
    exact waits.issued
  fresh := pending ▸ waits.fresh
  engine := engine
  waiting number member := by
    obtain ⟨task, found, waiting⟩ := waits.waiting number (awaiting ▸ member)
    exact ⟨task, alone number task found waiting, waiting⟩
  sending source request number member := by
    obtain ⟨task, found, asked⟩ := waits.sending source request number (sending _ _ _ member)
    exact ⟨task, alone number task found (by rw [asked]; rfl), asked⟩

omit [Blake3] in
/-- A reply takes the task it is for, with its request, out of those that wait. -/
theorem Waits.answered (waits : before.Waits) {requestId number : Nat} {task : Task ι}
    (pending : before.pendingRequests.lookup requestId = some number) :
    Waits { before with
      peer := { before.peer with tasks := before.peer.tasks.set number task }
      awaiting := before.awaiting.erase number
      pendingRequests :=
        before.pendingRequests.filter fun pending => pending.1 ≠ requestId } := by
  have place := perm_of_lookup waits.fresh pending
  have spread := waits.once.nodup_iff.mpr waits.distinct
  have apart : ∀ other ∈ before.commands.filterMap Command.reply?, other ≠ number := by
    intro other sent same
    refine List.disjoint_of_nodup_append spread sent ?_
    rw [same]
    exact List.mem_map_of_mem (mem_of_lookup_eq pending)
  have left : ∀ other, other ≠ number →
      (before.peer.tasks.set number task)[other]? = before.peer.tasks[other]? := fun other ne =>
    List.getElem?_set_ne ne.symm
  exact
    { once := by
        have whole : (number :: (before.commands.filterMap Command.reply? ++
            (before.pendingRequests.filter fun pending => pending.1 ≠ requestId).map
              Prod.snd)).Perm before.awaiting := by
          refine .trans (.trans List.perm_middle.symm ?_) waits.once
          exact ((place.map Prod.snd).symm).append_left _
        exact (List.cons_perm_iff_perm_erase.mp whole).2
      distinct := waits.distinct.erase number
      issued := fun entry member => waits.issued entry (List.mem_of_mem_filter member)
      fresh := waits.fresh.sublist (List.filter_sublist.map Prod.fst)
      engine := waits.engine
      waiting := fun other member => by
        obtain ⟨ne, member⟩ := waits.distinct.mem_erase_iff.mp member
        obtain ⟨entry, found, waiting⟩ := waits.waiting other member
        exact ⟨entry, (left other ne).trans found, waiting⟩
      sending := fun source request other member => by
        obtain ⟨entry, found, asked⟩ := waits.sending source request other member
        have ne := apart other (List.mem_filterMap.mpr ⟨_, member, rfl⟩)
        exact ⟨entry, (left other ne).trans found, asked⟩ }

omit [Blake3] in
/-- A request that the network loop takes becomes pending, under an identifier of its own. -/
theorem Waits.handedOut (waits : before.Waits) {source : ι} {request : SyncRequest} {number : Nat}
    {rest : List (Command ι)}
    (queue : before.commands = .sendRequest source request number :: rest) :
    Waits { before with
      commands := rest
      pendingRequests := (before.nextRequestId, number) :: before.pendingRequests
      nextRequestId := before.nextRequestId + 1 } where
  once := by
    have once := waits.once
    rw [asking, queue, List.filterMap_cons] at once
    exact List.perm_middle.trans once
  distinct := waits.distinct
  issued entry member := by
    rcases List.mem_cons.mp member with rfl | old
    · exact Nat.lt_succ_self _
    · exact (waits.issued entry old).trans (Nat.lt_succ_self _)
  fresh := by
    refine List.nodup_cons.mpr ⟨fun listed => ?_, waits.fresh⟩
    obtain ⟨entry, member, same⟩ := List.mem_map.mp listed
    exact (waits.issued entry member).ne same
  engine := waits.engine
  waiting := waits.waiting
  sending source' request' number' member :=
    waits.sending source' request' number' (queue ▸ List.mem_cons_of_mem _ member)

omit [Blake3] in
/-- A task that sends its request waits from then on. -/
theorem Waits.asked (waits : before.Waits) {source : ι} {request : SyncRequest} {number : Nat}
    {task : Task ι} (found : before.peer.tasks[number]? = some task)
    (asked : task.stage.request = some (source, request)) (first : number ∉ before.awaiting) :
    Waits { before with
      commands := before.commands ++ [.sendRequest source request number]
      awaiting := number :: before.awaiting } where
  once := by
    refine .trans ?_ (waits.once.cons number)
    rw [asking, List.filterMap_append, List.append_assoc]
    exact List.perm_middle
  distinct := List.nodup_cons.mpr ⟨first, waits.distinct⟩
  issued := waits.issued
  fresh := waits.fresh
  engine := waits.engine
  waiting other member := by
    rcases List.mem_cons.mp member with rfl | old
    · exact ⟨task, found, by rw [asked]; rfl⟩
    · exact waits.waiting other old
  sending source' request' number' member := by
    rcases List.mem_append.mp member with old | new
    · exact waits.sending source' request' number' old
    · cases List.mem_singleton.mp new
      exact ⟨task, found, asked⟩

/-- **The requests of the tasks that wait keep their places**, through every step. -/
theorem Waits.keeps {beat : Beat ι} (waits : before.Waits)
    (stepped : before.step ctx capacity beat = some after) : after.Waits := by
  have same : ∀ source request number,
      Command.sendRequest source request number ∈ before.commands →
        Command.sendRequest source request number ∈ before.commands := fun _ _ _ member => member
  have still : ∀ (number : Nat) (task : Task ι), before.peer.tasks[number]? = some task →
      task.stage.request.isSome = true → before.peer.tasks[number]? = some task :=
    fun _ _ found _ => found
  cases beat_cases stepped with
  | forwarded event idle news => exact waits.moved rfl rfl rfl rfl waits.engine same still
  | replied event requestId response idle reply =>
      rcases replied_cases ctx waits requestId response with
        ⟨_, nothing⟩ | ⟨number, task, stage, pending, found, answered, done⟩
      · rw [nothing]
        exact waits
      · rw [done]
        exact waits.answered pending
  | eventSent event held space => exact waits.moved rfl rfl rfl rfl waits.engine same still
  | requested source request number rest idle queue => exact waits.handedOut queue
  | notified notification rest idle queue =>
      refine waits.moved ?_ rfl rfl rfl waits.engine (fun _ _ _ member => ?_) still
      · simp [asking, queue, Command.reply?, List.filterMap_cons]
      · rw [queue]
        exact List.mem_cons_of_mem _ member
  | responded channel response rest idle queue =>
      refine waits.moved ?_ rfl rfl rfl waits.engine (fun _ _ _ member => ?_) still
      · simp [asking, queue, Command.reply?, List.filterMap_cons]
      · rw [queue]
        exact List.mem_cons_of_mem _ member
  | discovered device failure source rest free queue =>
      have ran : before.peer.step ctx (.discovered source) =
          some (before.peer.spawn (.askedRoot source), none) := rfl
      exact waits.moved rfl rfl rfl rfl waits.engine same (Peer.waiting_of_step ran nofun)
  | ignored device failure event rest free queue status =>
      exact waits.moved rfl rfl rfl rfl waits.engine same still
  | answered device failure asker request channel rest free queue =>
      refine waits.moved rfl rfl rfl rfl (fun command held => ?_) same still
      cases held
      rfl
  | delivered device failure source notification rest next free queue ran =>
      exact waits.moved rfl rfl rfl rfl waits.engine same (Peer.waiting_of_step ran nofun)
  | fsEvent reads next published free ran =>
      refine waits.moved rfl rfl rfl rfl (fun command held => ?_) same
        (Peer.waiting_of_step ran nofun)
      obtain ⟨notification, _, rfl⟩ := Option.mem_map.mp held
      rfl
  | commandSent command held space =>
      have plain := waits.engine command held
      refine waits.moved ?_ rfl rfl rfl nofun (fun source request number member => ?_) still
      · simp [asking, plain]
      · rcases List.mem_append.mp member with old | new
        · exact old
        · rw [← List.mem_singleton.mp new] at plain
          exact absurd plain (Option.some_ne_none number)
  | requestSent number task source request found asked first space =>
      exact waits.asked found asked first
  | beside act next aside ran =>
      exact waits.moved rfl rfl rfl rfl waits.engine same
        (Peer.waiting_of_step ran (Peer.isBeside_ne_respond aside))

/-- **Every task that waits is waited for by one request**, in every state that the loops reach. -/
theorem waits_of_run {peer : Peer ι} {topic : Option Str} {last : Loops ι}
    {trace : List (Loops ι × Beat ι)}
    (run : Run (step ctx capacity) (start peer topic) trace last) : last.Waits :=
  run.invariant Waits (fun _ _ => True) (fun _ _ => trivial) (.start peer topic)
    fun _ _ _ waits _ stepped => waits.keeps stepped

end Loops

/-! ## Concrete loops -/

namespace Loops

attribute [local instance] Sample.blake3

/-- Two peers are discovered, and both are asked for their roots; one request has gone out. -/
def discoversTwo : List (Beat Sample.Site) :=
  [.swarmEvent (.subscribed .two ['g']), .eventSent, .networkEvent {} none, .requestSent 0,
    .command, .swarmEvent (.subscribed .three ['g']), .eventSent, .networkEvent {} none,
    .requestSent 1]

/-- One task waits with its request pending, another one with its request in the channel. -/
theorem exists_waits :
    ∃ trace last, Run (step (Sample.ctx .one) 1)
      (start (Sample.peer .one [1]) (some ['g'])) trace last ∧ trace.map Prod.snd = discoversTwo ∧
        last.awaiting = [1, 0] ∧ last.pendingRequests = [(0, 0)] ∧ last.Waits := by
  obtain ⟨trace, last, run, acts, waiting⟩ := exists_run_of_any (by decide +kernel :
    (runActs (step (Sample.ctx .one) 1) (start (Sample.peer .one [1]) (some ['g']))
      discoversTwo).any (fun last =>
        decide (last.awaiting = [1, 0] ∧ last.pendingRequests = [(0, 0)])) = true)
  have waiting := of_decide_eq_true waiting
  exact ⟨trace, last, run, acts, waiting.1, waiting.2, waits_of_run run⟩

end Loops

end P2Sync
