import Mathlib.Data.List.Basic

/-!
# Runs

A system takes steps under actions; an action that is not possible in a state gives
`none`. A run keeps the list of the states it left, each with the action taken there, so
that a statement about a run can speak of what happened on the way.

An invariant is proved once per step (`Run.invariant`), also one that speaks of the past
(`Run.history`). A list of actions that can be taken one after another is a run
(`exists_run`), which is how a concrete run is computed, with a check of each step when
one is needed (`exists_checked_run`).
-/

set_option autoImplicit false

namespace P2Sync

universe u v

variable {σ : Type u} {α : Type v}

/-- A run from one state to another, with the states it left and the actions it took. -/
inductive Run (step : σ → α → Option σ) (start : σ) : List (σ × α) → σ → Prop where
  | start : Run step start [] start
  | snoc {trace : List (σ × α)} {before after : σ} {act : α} (run : Run step start trace before)
      (stepped : step before act = some after) : Run step start (trace ++ [(before, act)]) after

namespace Run

variable {step : σ → α → Option σ} {start last : σ} {trace : List (σ × α)}

/-- A run up to one of its actions is a run. -/
theorem before {earlier later : List (σ × α)} {entry : σ × α} (run : Run step start trace last)
    (split : trace = earlier ++ entry :: later) : Run step start earlier entry.1 := by
  induction run generalizing later with
  | start => exact absurd split.symm (by simp)
  | snoc run stepped ih =>
      rcases List.eq_nil_or_concat later with rfl | ⟨tail, final, rfl⟩
      · obtain ⟨rfl, same⟩ := List.append_inj' split rfl
        obtain rfl := List.singleton_inj.mp same
        exact run
      · rw [List.concat_eq_append, ← List.cons_append, ← List.append_assoc] at split
        exact ih (List.append_inj' split rfl).1

/-- **The rule of invariants that speak of the past**, as may the condition on steps. -/
theorem history (invariant : List (σ × α) → σ → Prop) (allowed : List (σ × α) → σ → α → Prop)
    (run : Run step start trace last)
    (guarded : ∀ earlier entry later, trace = earlier ++ entry :: later →
      allowed earlier entry.1 entry.2)
    (initial : invariant [] start)
    (keeps : ∀ trace before act after, invariant trace before → allowed trace before act →
      step before act = some after → invariant (trace ++ [(before, act)]) after) :
    invariant trace last := by
  induction run with
  | start => exact initial
  | snoc run stepped ih =>
      rename_i trace before after act
      refine keeps trace before act after (ih fun earlier entry later split => ?_) ?_ stepped
      · exact guarded earlier entry (later ++ [(before, act)]) (by simp [split])
      · exact guarded trace (before, act) [] rfl

/-- **The rule of invariants.** -/
theorem invariant (invariant : σ → Prop) (allowed : σ → α → Prop)
    (run : Run step start trace last) (guarded : ∀ entry ∈ trace, allowed entry.1 entry.2)
    (initial : invariant start)
    (keeps : ∀ before act after, invariant before → allowed before act →
      step before act = some after → invariant after) :
    invariant last :=
  run.history (fun _ state => invariant state) (fun _ => allowed)
    (fun earlier entry later split => guarded entry (by simp [split])) initial
    fun _ before act after => keeps before act after

/-- An invariant holds in every state a run left. -/
theorem invariant_left (invariant : σ → Prop) (allowed : σ → α → Prop)
    (run : Run step start trace last) (guarded : ∀ entry ∈ trace, allowed entry.1 entry.2)
    (initial : invariant start)
    (keeps : ∀ before act after, invariant before → allowed before act →
      step before act = some after → invariant after) :
    ∀ entry ∈ trace, invariant entry.1 := by
  have both : (∀ entry ∈ trace, invariant entry.1) ∧ invariant last := by
    induction run with
    | start => exact ⟨fun _ member => absurd member List.not_mem_nil, initial⟩
    | snoc run stepped ih =>
        obtain ⟨left, held⟩ := ih fun entry member => guarded entry (List.mem_append_left _ member)
        have now := guarded _ (List.mem_append_right _ (List.mem_singleton_self _))
        refine ⟨fun entry member => ?_, keeps _ _ _ held now stepped⟩
        rcases List.mem_append.mp member with earlier | latest
        · exact left entry earlier
        · rw [List.mem_singleton.mp latest]
          exact held
  exact both.1

end Run

/-- Take the actions one after another. -/
def runActs (step : σ → α → Option σ) : σ → List α → Option σ
  | state, [] => some state
  | state, act :: rest => (step state act).bind fun state => runActs step state rest

theorem runActs_append (step : σ → α → Option σ) (state : σ) (early late : List α) :
    runActs step state (early ++ late) =
      (runActs step state early).bind fun middle => runActs step middle late := by
  induction early generalizing state with
  | nil => rfl
  | cons act rest ih =>
      rw [List.cons_append, runActs, runActs, Option.bind_assoc]
      exact Option.bind_congr fun next _ => ih next

theorem exists_run_from {step : σ → α → Option σ} {start middle last : σ} {trace : List (σ × α)}
    {acts : List α} (run : Run step start trace middle)
    (taken : runActs step middle acts = some last) :
    ∃ more, Run step start (trace ++ more) last ∧ more.map Prod.snd = acts := by
  induction acts generalizing middle trace with
  | nil =>
      obtain rfl := Option.some.inj taken
      exact ⟨[], by rwa [List.append_nil], rfl⟩
  | cons act rest ih =>
      obtain ⟨next, stepped, later⟩ := Option.bind_eq_some_iff.mp taken
      obtain ⟨more, whole, acts⟩ := ih (run.snoc stepped) later
      refine ⟨(middle, act) :: more, by simpa using whole, ?_⟩
      rw [List.map_cons, acts]

/-- **Actions that can be taken one after another make a run.** -/
theorem exists_run {step : σ → α → Option σ} {start last : σ} {acts : List α}
    (taken : runActs step start acts = some last) :
    ∃ trace, Run step start trace last ∧ trace.map Prod.snd = acts := by
  obtain ⟨trace, run, same⟩ := exists_run_from .start taken
  exact ⟨trace, run, same⟩

/-- A step that is taken only where a check passes. -/
def checked (step : σ → α → Option σ) (check : σ → α → Bool) (state : σ) (act : α) : Option σ :=
  if check state act then step state act else none

theorem Run.of_checked {step : σ → α → Option σ} {check : σ → α → Bool} {start last : σ}
    {trace : List (σ × α)} (run : Run (checked step check) start trace last) :
    Run step start trace last ∧ ∀ entry ∈ trace, check entry.1 entry.2 = true := by
  induction run with
  | start => exact ⟨.start, fun _ member => absurd member List.not_mem_nil⟩
  | snoc run stepped ih =>
      obtain ⟨earlier, passed⟩ := ih
      rw [checked, Option.ite_none_right_eq_some] at stepped
      refine ⟨earlier.snoc stepped.2, fun entry member => ?_⟩
      rcases List.mem_append.mp member with old | new
      · exact passed entry old
      · rw [List.mem_singleton.mp new]
        exact stepped.1

/-- A concrete run, with a test of the state it ends in. -/
theorem exists_run_of_any {step : σ → α → Option σ} {start : σ} {acts : List α} {test : σ → Bool}
    (passed : (runActs step start acts).any test = true) :
    ∃ trace last, Run step start trace last ∧ trace.map Prod.snd = acts ∧ test last = true := by
  obtain ⟨last, taken, success⟩ := (Option.any_eq_true _ _).mp passed
  obtain ⟨trace, run, same⟩ := exists_run taken
  exact ⟨trace, last, run, same, success⟩

/-- **A concrete run with a check of each step**, and a test of the state it ends in. -/
theorem exists_checked_run {step : σ → α → Option σ} {check : σ → α → Bool} {start : σ}
    {acts : List α} {test : σ → Bool}
    (passed : (runActs (checked step check) start acts).any test = true) :
    ∃ trace last, Run step start trace last ∧ trace.map Prod.snd = acts ∧
      (∀ entry ∈ trace, check entry.1 entry.2 = true) ∧ test last = true := by
  obtain ⟨trace, last, run, same, success⟩ := exists_run_of_any passed
  exact ⟨trace, last, run.of_checked.1, same, run.of_checked.2, success⟩

/-! ## Concrete runs with their history -/

/-- The states left and the state reached by actions taken one after another. -/
def runTrace (step : σ → α → Option σ) : σ → List α → Option (List (σ × α) × σ)
  | state, [] => some ([], state)
  | state, act :: rest =>
      (step state act).bind fun next =>
        (runTrace step next rest).map fun traced => ((state, act) :: traced.1, traced.2)

/-- A check of every step against what was before it. -/
def historyAll (check : List (σ × α) → σ × α → Bool) :
    List (σ × α) → List (σ × α) → Bool
  | _, [] => true
  | earlier, entry :: later =>
      check earlier entry && historyAll check (earlier ++ [entry]) later

theorem historyAll_iff {check : List (σ × α) → σ × α → Bool} {past trace : List (σ × α)} :
    historyAll check past trace = true ↔
      ∀ earlier entry later, trace = earlier ++ entry :: later →
        check (past ++ earlier) entry = true := by
  induction trace generalizing past with
  | nil => simp [historyAll]
  | cons first rest ih =>
      rw [historyAll, Bool.and_eq_true, ih]
      constructor
      · rintro ⟨here, later⟩ earlier entry tail split
        cases earlier with
        | nil =>
            obtain ⟨rfl, rfl⟩ := List.cons.inj split
            rw [List.append_nil]
            exact here
        | cons head earlier =>
            obtain ⟨rfl, inside⟩ := List.cons.inj split
            have passed := later earlier entry tail inside
            rwa [List.append_assoc] at passed
      · intro passed
        refine ⟨by simpa using passed [] first rest rfl, fun earlier entry later split => ?_⟩
        have whole := passed (first :: earlier) entry later (by rw [split]; rfl)
        rwa [List.append_assoc]

theorem run_of_runTrace {step : σ → α → Option σ} {start middle last : σ}
    {past trace : List (σ × α)} {acts : List α} (run : Run step start past middle)
    (traced : runTrace step middle acts = some (trace, last)) :
    Run step start (past ++ trace) last ∧ trace.map Prod.snd = acts := by
  induction acts generalizing middle past trace with
  | nil =>
      cases traced
      exact ⟨by rwa [List.append_nil], rfl⟩
  | cons act rest ih =>
      obtain ⟨next, stepped, mapped⟩ := Option.bind_eq_some_iff.mp traced
      obtain ⟨⟨later, last'⟩, onwards, same⟩ := Option.map_eq_some_iff.mp mapped
      cases same
      obtain ⟨whole, acts⟩ := ih (run.snoc stepped) onwards
      exact ⟨by simpa using whole, by rw [List.map_cons, acts]⟩

/-- **A concrete run with a check of each step against what was before it**, and a test of
the run as a whole. -/
theorem exists_history_run {step : σ → α → Option σ} {start : σ} {acts : List α}
    {check : List (σ × α) → σ × α → Bool} {test : List (σ × α) → σ → Bool}
    (passed : (runTrace step start acts).any (fun traced =>
      historyAll check [] traced.1 && test traced.1 traced.2) = true) :
    ∃ trace last, Run step start trace last ∧ trace.map Prod.snd = acts ∧
      (∀ earlier entry later, trace = earlier ++ entry :: later → check earlier entry = true) ∧
        test trace last = true := by
  obtain ⟨⟨trace, last⟩, traced, success⟩ := (Option.any_eq_true _ _).mp passed
  rw [Bool.and_eq_true] at success
  obtain ⟨run, same⟩ := run_of_runTrace .start traced
  exact ⟨trace, last, run, same, fun earlier entry later split =>
    historyAll_iff.mp success.1 earlier entry later split, success.2⟩

end P2Sync
