import P2Sync.Net.Beats
import P2Sync.Support.Spent

/-!
# The loops work off what is under way

When nothing new is let in, the two loops of a peer only carry on with what they have: an event
gets into its channel, the engine takes it, a command gets into its channel, and the network loop
takes it. Each of these steps uses up work (`Loops.work_step`), so they come to an end, and they
end with everything worked off unless the loops wait for each other (`Loops.drains_iff`).
-/

set_option autoImplicit false

namespace P2Sync

/-- Whether a step carries on with a message that is under way. -/
def Beat.carries {ι : Type} : Beat ι → Bool
  | .eventSent => true
  | .command => true
  | .networkEvent _ _ => true
  | .commandSent => true
  | _ => false

namespace Loops

variable {ι : Type}

/-- The steps that are left at most, when nothing new comes in. -/
def work (loops : Loops ι) : Nat :=
  4 * loops.network.toList.length + 3 * loops.events.length + 2 * loops.engine.toList.length +
    loops.commands.length

variable [Blake3] {ctx : Ctx ι} {capacity : Nat} {before after : Loops ι} {beat : Beat ι}

/-- A step that carries on uses up work. -/
theorem work_step (carries : beat.carries = true)
    (stepped : before.step ctx capacity beat = some after) : after.work < before.work := by
  cases beat_cases stepped with
  | forwarded | replied | fsEvent | requestSent | beside => exact absurd carries Bool.false_ne_true
  | eventSent event held space =>
      simp only [work, held, List.length_append, List.length_cons, Option.toList_some,
        Option.toList_none, List.length_nil]
      omega
  | requested source request task rest idle queue
  | notified notification rest idle queue
  | responded channel response rest idle queue => simp [work, queue]
  | discovered device failure source rest free queue
  | delivered device failure source notification rest next free queue
  | ignored device failure event rest free queue => simp [work, queue]
  | answered device failure asker request channel rest free queue =>
      simp only [work, queue, free, List.length_cons, Option.toList_some, Option.toList_none,
        List.length_nil]
      omega
  | commandSent command held space =>
      simp only [work, held, List.length_append, List.length_cons, Option.toList_some,
        Option.toList_none, List.length_nil]
      omega

/-- Every event is handled. -/
theorem exists_handled (ctx : Ctx ι) (loops : Loops ι) (event : Event ι) :
    ∃ after, loops.handleNetworkEvent ctx {} none event = some after := by
  cases event <;> exact ⟨_, rfl⟩

/-- Loops that have something under way can carry on, unless they wait for each other. -/
theorem exists_carries (ctx : Ctx ι) (room : 0 < capacity) (busy : 0 < before.load)
    (clear : ¬ before.Deadlocked capacity) :
    ∃ beat after, beat.carries = true ∧ before.step ctx capacity beat = some after := by
  have heard : ∀ {event : Event ι} {rest : List (Event ι)}, before.engine = none →
      before.events = event :: rest →
        ∃ beat after, beat.carries = true ∧ before.step ctx capacity beat = some after := by
    intro event rest free queue
    obtain ⟨after, handled⟩ :=
      exists_handled ctx { before with events := rest, engine := none } event
    refine ⟨.networkEvent {} none, after, rfl, ?_⟩
    rw [step, free, queue]
    exact handled
  have taken : before.network = none → before.commands ≠ [] →
      ∃ beat after, beat.carries = true ∧ before.step ctx capacity beat = some after := by
    intro idle some
    obtain ⟨command, rest, queue⟩ := List.exists_cons_of_ne_nil some
    refine ⟨.command, { before with commands := rest }.handleCommand command, rfl, ?_⟩
    rw [step, idle, queue]
  have sent : ∀ {event : Event ι}, before.network = some event → before.events.length < capacity →
      ∃ beat after, beat.carries = true ∧ before.step ctx capacity beat = some after := by
    intro event held space
    refine ⟨.eventSent, { before with events := before.events ++ [event], network := none }, rfl,
      ?_⟩
    rw [step, held]
    exact if_pos space
  cases engine : before.engine with
  | some command =>
      by_cases space : before.commands.length < capacity
      · refine ⟨.commandSent,
          { before with commands := before.commands ++ [command], engine := none }, rfl, ?_⟩
        rw [step, engine]
        exact if_pos space
      · cases network : before.network with
        | none =>
            exact taken network fun empty => space (by rwa [empty, List.length_nil])
        | some event =>
            refine sent network (not_le.mp fun full => clear ⟨⟨?_, full⟩, ?_, not_lt.mp space⟩)
            · rw [network]
              rfl
            · rw [engine]
              rfl
  | none =>
      cases queue : before.events with
      | cons event rest => exact heard engine queue
      | nil =>
          cases network : before.network with
          | some event => exact sent network (by rwa [queue, List.length_nil])
          | none =>
              refine taken network fun empty => busy.ne' ?_
              rw [load, empty, queue, network, engine]
              rfl

/-- Steps that carry on keep clear of a deadlock. -/
theorem clear_step (fits : before.Fits capacity) (clear : ¬ before.Deadlocked capacity)
    (carries : beat.carries = true) (stepped : before.step ctx capacity beat = some after) :
    ¬ after.Deadlocked capacity := by
  rw [deadlocked_step_iff fits clear stepped, not_not, LeavesRoom]
  intro letsIn
  cases beat with
  | eventSent | command | networkEvent | commandSent => exact absurd letsIn Bool.false_ne_true
  | _ => exact absurd carries Bool.false_ne_true

/-- **What is under way is worked off unless the loops wait for each other.** From any state that
the loops reach, a run in which nothing new is let in is as short as the work there is, and it can
be carried on until nothing can be done; then nothing is left, exactly when the loops did not wait
for each other at its beginning. -/
theorem drains_iff (room : 0 < capacity) {peer : Peer ι} {topic : Option Str} {middle : Loops ι}
    {early : List (Loops ι × Beat ι)}
    (run : Run (step ctx capacity) (start peer topic) early middle) :
    (∀ {more : List (Loops ι × Beat ι)} {last : Loops ι}, Run (step ctx capacity) middle more last →
      (∀ entry ∈ more, entry.2.carries = true) → more.length + last.work ≤ middle.work ∧
        ((∀ beat, beat.carries = true → last.step ctx capacity beat = none) →
          (last.load = 0 ↔ ¬ middle.Deadlocked capacity))) ∧
      ∃ more last, Run (step ctx capacity) (start peer topic) (early ++ more) last ∧
        (∀ entry ∈ more, entry.2.carries = true) ∧
          ∀ beat, beat.carries = true → last.step ctx capacity beat = none := by
  have fits := fits_of_run run
  have lowers : ∀ (before : Loops ι) beat after, beat.carries = true →
      before.step ctx capacity beat = some after → after.work < before.work :=
    fun _ _ _ => work_step
  refine ⟨fun {more last} later only => ⟨later.length_add_work_le only lowers, fun stuck => ?_⟩,
    exists_spent lowers run⟩
  have fits' : last.Fits capacity :=
    later.invariant (fun loops => loops.Fits capacity) (fun _ _ => True) (fun _ _ => trivial) fits
      fun _ _ _ fits _ stepped => (load_step fits stepped).1
  constructor
  · intro empty deadlocked
    have still : last.Deadlocked capacity :=
      later.invariant (fun loops => loops.Deadlocked capacity) (fun _ _ => True)
        (fun _ _ => trivial) deadlocked fun _ _ _ deadlocked _ => deadlocked_of_step deadlocked
    have full := (deadlocked_iff_load fits').mp still
    omega
  · intro clear
    have still : last.Fits capacity ∧ ¬ last.Deadlocked capacity :=
      later.invariant (fun loops => loops.Fits capacity ∧ ¬ loops.Deadlocked capacity)
        (fun _ beat => beat.carries = true) only ⟨fits, clear⟩
        fun _ _ _ held carries stepped =>
          ⟨(load_step held.1 stepped).1, clear_step held.1 held.2 carries stepped⟩
    by_contra busy
    obtain ⟨beat, after, carries, stepped⟩ :=
      exists_carries ctx room (Nat.pos_of_ne_zero busy) still.2
    rw [stuck beat carries] at stepped
    exact (Option.some_ne_none _).symm stepped

end Loops

/-! ## Concrete loops -/

namespace Loops

attribute [local instance] Sample.blake3

/-- With a request in line, the loops can go on until nothing is left. -/
theorem exists_drained :
    ∃ early middle more last, Run (step (Sample.ctx .one) 1)
      (start (Sample.peer .one [1]) (some ['g'])) early middle ∧
        early.map Prod.snd = asksTwice ∧ middle.load = 1 ∧
          Run (step (Sample.ctx .one) 1) (start (Sample.peer .one [1]) (some ['g']))
            (early ++ more) last ∧
              ∀ beat, beat.carries = true → last.step (Sample.ctx .one) 1 beat = none := by
  obtain ⟨early, middle, run, acts, loaded⟩ := exists_run_of_any (by decide +kernel :
    (runActs (step (Sample.ctx .one) 1) (start (Sample.peer .one [1]) (some ['g']))
      asksTwice).any (fun last => decide (last.load = 1)) = true)
  obtain ⟨more, last, whole, _, ended⟩ := (drains_iff Nat.zero_lt_one run).2
  exact ⟨early, middle, more, last, run, acts, of_decide_eq_true loaded, whole, ended⟩

end Loops

end P2Sync
