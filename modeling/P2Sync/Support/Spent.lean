import P2Sync.Support.Run
import Mathlib.Order.OrderIsoNat

/-!
# Work that runs out

When every step of a kind lowers a measure with values in a well-founded order, such steps cannot
go on forever (`not_forever`), and a run can be carried on until no step of the kind is left
(`exists_spent`). When the measure is a number, it bounds how many steps there are
(`Run.length_add_work_le`).
-/

set_option autoImplicit false

namespace P2Sync

universe u v

variable {σ : Type u} {α : Type v} {step : σ → α → Option σ} {allowed : α → Prop}

theorem Run.length_add_work_le {start last : σ} {trace : List (σ × α)}
    {work : σ → Nat} (run : Run step start trace last) (only : ∀ entry ∈ trace, allowed entry.2)
    (lowers : ∀ before act after, allowed act → step before act = some after →
      work after < work before) : trace.length + work last ≤ work start := by
  induction run with
  | start => exact Nat.le_of_eq (Nat.zero_add _)
  | snoc run stepped ih =>
      rename_i trace before after act
      have early := ih fun entry member => only entry (List.mem_append_left _ member)
      have now := lowers before act after
        (only _ (List.mem_append_right _ (List.mem_singleton_self _))) stepped
      rw [List.length_append, List.length_singleton]
      omega

section WellFounded

variable {β : Type*} [Preorder β] [WellFoundedLT β] {work : σ → β}

/-- Steps that use work up do not go on forever. -/
theorem not_forever (lowers : ∀ before act after, allowed act → step before act = some after →
    work after < work before) (states : ℕ → σ) :
    ¬ ∀ moment, ∃ act, allowed act ∧ step (states moment) act = some (states (moment + 1)) := by
  intro forever
  refine not_strictAnti_of_wellFoundedLT (work ∘ states)
    (strictAnti_nat_of_succ_lt fun moment => ?_)
  obtain ⟨act, fine, stepped⟩ := forever moment
  exact lowers _ act _ fine stepped

/-- **A run of steps that use work up can be carried on to its end.** -/
theorem exists_spent (lowers : ∀ before act after, allowed act → step before act = some after →
    work after < work before) {start middle : σ} {early : List (σ × α)}
    (run : Run step start early middle) :
    ∃ more last, Run step start (early ++ more) last ∧ (∀ entry ∈ more, allowed entry.2) ∧
      ∀ act, allowed act → step last act = none := by
  obtain ⟨left, here⟩ : ∃ left, work middle = left := ⟨_, rfl⟩
  induction left using WellFoundedLT.induction generalizing middle early with
  | ind left ih =>
      by_cases stuck : ∀ act, allowed act → step middle act = none
      · exact ⟨[], middle, by rwa [List.append_nil], nofun, stuck⟩
      · obtain ⟨act, fine, next, stepped⟩ :
            ∃ act, allowed act ∧ ∃ next, step middle act = some next := by
          simpa only [not_forall, ← Option.ne_none_iff_exists', exists_prop] using stuck
        obtain ⟨more, last, whole, only, ended⟩ :=
          ih _ (here ▸ lowers middle act next fine stepped) (run.snoc stepped) rfl
        refine ⟨(middle, act) :: more, last, by simpa using whole, fun entry member => ?_, ended⟩
        rcases List.mem_cons.mp member with rfl | member
        · exact fine
        · exact only entry member

end WellFounded

end P2Sync
