import P2Sync.Support.Run

/-!
# What can be seen of a run

Steps of a system show some things, and a run shows them one after another (`visible`). What goes
into a queue comes out of it in the same order, or is still there (`Run.queue`).

One system follows another one when each of its steps is matched by some steps of the other,
possibly none, in which the same things can be seen (`Simulation`). Every run of the first is then
a run of the second as far as can be seen (`Simulation.run`).

How the two states are related may depend on what is still to come. A reply that is on its way
will arrive or be lost, and the other system may have to know which. The relation has a parameter
for it, a prophecy. A step gives a prophecy of its own for every prophecy about what comes after
it, and before a run nothing is known, so that all prophecies are fine.
-/

set_option autoImplicit false

namespace P2Sync

universe u v w

variable {σ : Type u} {α : Type v} {τ : Type w} {β ρ ν : Type*}

section Runs

variable {step : σ → α → Option σ} {start middle last : σ}

/-- One run after another. -/
theorem Run.trans {early late : List (σ × α)} (first : Run step start early middle)
    (second : Run step middle late last) : Run step start (early ++ late) last := by
  induction second with
  | start => rwa [List.append_nil]
  | snoc _ stepped ih =>
      rw [← List.append_assoc]
      exact ih.snoc stepped

/-- A run of one step. -/
theorem Run.single {act : α} (stepped : step start act = some last) :
    Run step start [(start, act)] last :=
  Run.start.snoc stepped

/-- What can be seen of a run. -/
def visible (seen : σ → α → List ν) (trace : List (σ × α)) : List ν :=
  trace.flatMap fun entry => seen entry.1 entry.2

theorem visible_append (seen : σ → α → List ν) (early late : List (σ × α)) :
    visible seen (early ++ late) = visible seen early ++ visible seen late :=
  List.flatMap_append

theorem visible_singleton (seen : σ → α → List ν) (state : σ) (act : α) :
    visible seen [(state, act)] = seen state act :=
  List.flatMap_singleton _ _

/-- **What has come out of a queue, followed by what is in it, is what has gone in**, when this is
so for every step. -/
theorem Run.queue {comesOut goesIn : σ → α → List ν} {queue : σ → List ν}
    {trace : List (σ × α)} (run : Run step start trace last)
    (conserves : ∀ before act after, step before act = some after →
      comesOut before act ++ queue after = queue before ++ goesIn before act) :
    visible comesOut trace ++ queue last = queue start ++ visible goesIn trace := by
  induction run with
  | start => exact (List.append_nil _).symm
  | snoc _ stepped ih =>
      rw [visible_append, visible_append, visible_singleton, visible_singleton, List.append_assoc,
        conserves _ _ _ stepped, ← List.append_assoc, ih, List.append_assoc]

/-- A run between two states, known by what can be seen of it. -/
def Shows (step : σ → α → Option σ) (seen : σ → α → List ν) (start : σ) (sights : List ν)
    (last : σ) : Prop :=
  ∃ trace, Run step start trace last ∧ visible seen trace = sights

namespace Shows

variable {seen : σ → α → List ν}

theorem refl (state : σ) : Shows step seen state [] state :=
  ⟨[], .start, rfl⟩

theorem single {act : α} (stepped : step start act = some last) :
    Shows step seen start (seen start act) last :=
  ⟨_, .single stepped, visible_singleton ..⟩

theorem trans {early late : List ν} (first : Shows step seen start early middle)
    (second : Shows step seen middle late last) : Shows step seen start (early ++ late) last := by
  obtain ⟨trace, run, rfl⟩ := first
  obtain ⟨trace', run', rfl⟩ := second
  exact ⟨trace ++ trace', run.trans run', visible_append ..⟩

/-- Steps in which nothing can be seen change nothing of what is seen. -/
theorem silent_trans {late : List ν} (first : Shows step seen start [] middle)
    (second : Shows step seen middle late last) : Shows step seen start late last :=
  first.trans second

theorem trans_silent {early : List ν} (first : Shows step seen start early middle)
    (second : Shows step seen middle [] last) : Shows step seen start early last := by
  have both := first.trans second
  rwa [List.append_nil] at both

end Shows

end Runs

/-- The first system follows the second one in the states with an invariant. -/
structure Simulation (step : σ → α → Option σ) (seen : σ → α → List ν)
    (step' : τ → β → Option τ) (seen' : τ → β → List ν) (invariant : σ → Prop)
    (related : ρ → σ → τ → Prop) : Prop where
  matched : ∀ before act after, invariant before → step before act = some after →
    ∀ prophecy, ∃ earlier, ∀ before', related earlier before before' →
      ∃ after', Shows step' seen' before' (seen before act) after' ∧
        related prophecy after after'

namespace Simulation

variable {step : σ → α → Option σ} {seen : σ → α → List ν} {step' : τ → β → Option τ}
  {seen' : τ → β → List ν} {invariant : σ → Prop} {related : ρ → σ → τ → Prop}
  {start last : σ} {trace : List (σ × α)}

/-- **A run of the first system is one of the second**, with the same things seen. -/
theorem run (simulation : Simulation step seen step' seen' invariant related) {start' : τ}
    (initial : ∀ prophecy, related prophecy start start')
    (holds : ∀ {earlier middle}, Run step start earlier middle → invariant middle)
    (run : Run step start trace last) (prophecy : ρ) :
    ∃ last', Shows step' seen' start' (visible seen trace) last' ∧ related prophecy last last' := by
  induction run generalizing prophecy with
  | start => exact ⟨start', .refl start', initial prophecy⟩
  | snoc earlier stepped ih =>
      rename_i trace before after act
      obtain ⟨prophecy', next⟩ :=
        simulation.matched before act after (holds earlier) stepped prophecy
      obtain ⟨before', shows, related'⟩ := ih prophecy'
      obtain ⟨after', shows', related''⟩ := next before' related'
      refine ⟨after', ?_, related''⟩
      rw [visible_append, visible_singleton]
      exact shows.trans shows'

end Simulation

end P2Sync
