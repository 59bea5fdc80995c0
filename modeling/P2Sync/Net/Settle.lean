import P2Sync.Net.Waiting
import P2Sync.Net.Swarm
import P2Sync.Support.Spent
import Mathlib.Algebra.BigOperators.Group.Finset.Basic
import Mathlib.Data.Prod.Lex

/-!
# The tasks of a swarm come to their end

A peer that compares its index with another one's asks for the root and for the tree, and then
fetches one file after another. How many there are is known only when the tree is there, and it
depends on what both peers have fetched in the meantime. Still, the tasks of a swarm do not keep
each other going: once nothing more is let in, every run of them is finite, and it ends with every
task done (`Swarm.settles`). What a turn lowers is how far the tasks are from the trees they ask
for, and after that what they have left to do (`Swarm.left`).
-/

set_option autoImplicit false

namespace P2Sync

/-! ## What is left -/

/-- The most stretches and replies it takes until an entry of a walk is done. -/
def Walk.work {ι : Type} : Walk ι → Nat
  | .counted _ => 1
  | .fetchFile _ _ _ => 5

/-- How many stretches and replies a stage is from the end of its comparison. -/
def Stage.ahead {ι : Type} : Stage ι → Nat
  | .askedRoot _ => 4
  | .gotRoot _ _ => 3
  | .askedTree _ => 2
  | .gotTree _ _ => 1
  | _ => 0

/-- How many stretches and replies a stage is from the end of its fetch, or of its removal. -/
def Stage.work {ι : Type} : Stage ι → Nat
  | .asked _ => 4
  | .answered _ _ => 3
  | .loaded _ _ => 2
  | .written _ _ => 1
  | .removed _ _ => 1
  | _ => 0

namespace Task

variable {ι : Type} (task : Task ι)

def ahead : Nat := task.stage.ahead

def work : Nat := task.stage.work + (task.todo.map Walk.work).sum

/-- What is left of a task: first its comparison, then what it does. -/
def left : ℕ ×ₗ ℕ := toLex (task.ahead, task.work)

/-- Nothing is left. -/
def AtEnd : Prop := task.stage = .idle ∧ task.todo = []

variable {task} in
theorem left_lt_iff {task' : Task ι} : task'.left < task.left ↔
    task'.ahead < task.ahead ∨ task'.ahead = task.ahead ∧ task'.work < task.work :=
  Prod.Lex.toLex_lt_toLex

end Task

namespace Peer

variable {ι : Type} {ctx : Ctx ι} {task task' : Task ι}

/-- A fetch that starts compares nothing. -/
theorem ahead_startFetch (peer : Peer ι) (source : ι) (raw : Str) (chunkIndices : List Nat)
    (origin : RemoteOrigin) (cause : Cause) :
    (peer.startFetch source raw chunkIndices origin cause).ahead = 0 ∧
      (peer.startFetch source raw chunkIndices origin cause).work ≤ 4 := by
  rw [startFetch]
  split
  · exact ⟨rfl, Nat.zero_le 4⟩
  · split
    · exact ⟨rfl, Nat.zero_le 4⟩
    · exact ⟨rfl, Nat.le_refl 4⟩

/-- A reply brings a stage on. -/
theorem ahead_answer {stage stage' : Stage ι} {response : Option SyncResponse}
    (reply : answer stage response = some stage') :
    stage'.ahead < stage.ahead ∨ stage'.ahead = stage.ahead ∧ stage'.work < stage.work := by
  cases reply_cases reply with
  | chunks | noChunks => exact Or.inr ⟨rfl, by simp [Stage.work]⟩
  | root | noRoot | tree | noTree => exact Or.inl (by simp [Stage.ahead])

/-- A reply brings a task on. -/
theorem left_answer {response : Option SyncResponse} {stage : Stage ι}
    (reply : answer task.stage response = some stage) :
    Task.left { task with stage := stage } < task.left :=
  Task.left_lt_iff.mpr ((ahead_answer reply).imp_right fun ⟨same, less⟩ =>
    ⟨same, Nat.add_lt_add_right less _⟩)

variable [Blake3]

/-- A stretch brings a task on. -/
theorem Ran.left {device : Device} {before after : Peer ι}
    (ran : Ran ctx device before task after task') : task'.left < task.left := by
  rw [Task.left_lt_iff, Task.ahead, Task.ahead, Task.work, Task.work]
  cases ran with
  | counted files rest ended left =>
      refine Or.inr ⟨rfl, ?_⟩
      rw [left, List.map_cons, List.sum_cons, Walk.work]
      dsimp only
      omega
  | started source path count rest ended left =>
      obtain ⟨ahead, work⟩ := before.ahead_startFetch source path (List.range count)
        ⟨.new, before.now, ctx.shortPeerId source⟩ .reconciled
      refine Or.inr ⟨by rw [ended]; exact ahead, ?_⟩
      rw [left, List.map_cons, List.sum_cons, Walk.work]
      dsimp only
      omega
  | forgotten tombstone path stage | refused fetch chunks stage | loaded fetch chunks data stage
  | failed fetch data disk watch stage | wrote fetch data disk watch stage
  | committed fetch data stage =>
      rw [stage]
      exact Or.inr ⟨rfl, Nat.add_lt_add_right (by simp [Stage.work]) _⟩
  | compared source hash stage =>
      rw [stage]
      dsimp only
      split <;> exact Or.inl (by simp [Stage.ahead])
  | walked source tree stage =>
      rw [stage]
      exact Or.inl (by simp [Stage.ahead])

/-- A task with something left goes on when it does not wait. -/
theorem exists_ran (ctx : Ctx ι) (before : Peer ι) (unfinished : ¬ task.AtEnd)
    (free : task.stage.request = none) :
    ∃ after task', before.runTask ctx {} task = some (after, task') := by
  rw [runTask]
  cases stage : task.stage with
  | idle =>
      cases todo : task.todo with
      | nil => exact absurd ⟨stage, todo⟩ unfinished
      | cons entry rest => cases entry <;> exact ⟨_, _, rfl⟩
  | answered fetch chunks => dsimp only; split <;> exact ⟨_, _, rfl⟩
  | asked | askedRoot | askedTree =>
      rw [stage] at free
      exact absurd free (Option.some_ne_none _)
  | _ => exact ⟨_, _, rfl⟩

end Peer

/-! ## Turns -/

/-- Whether a turn brings on a task, and lets nothing in. -/
def Turn.proceeds {ι : Type} : Turn ι → Bool
  | .serve _ _ _ => true
  | .fail _ _ => true
  | .own _ (.resume _ _) => true
  | _ => false

namespace Swarm

variable {ι : Type} {before after : Swarm ι} {site : ι} {number : Nat} {task task' : Task ι}

/-- All tasks are done. -/
def AtRest (swarm : Swarm ι) : Prop :=
  ∀ site, ∀ task ∈ (swarm.peer site).tasks, task.AtEnd

/-- What the tasks of all peers have of something. -/
def total [Fintype ι] (part : Task ι → Nat) (swarm : Swarm ι) : Nat :=
  ∑ site, ((swarm.peer site).tasks.map part).sum

/-- What is left of all tasks. -/
def left [Fintype ι] (swarm : Swarm ι) : ℕ ×ₗ ℕ :=
  toLex (swarm.total Task.ahead, swarm.total Task.work)

/-- One task changes what all tasks have. -/
theorem total_moved [Fintype ι] [DecidableEq ι] (part : Task ι → Nat)
    (moved : Moved before site number task' after)
    (found : (before.peer site).tasks[number]? = some task) :
    after.total part + part task = before.total part + part task' := by
  have others : ∀ other ∈ Finset.univ.erase site, ((after.peer other).tasks.map part).sum =
      ((before.peer other).tasks.map part).sum := fun other apart => by
    rw [moved.others other (Finset.ne_of_mem_erase apart)]
  obtain ⟨inside, here⟩ := List.getElem?_eq_some_iff.mp found
  have changed : ((after.peer site).tasks.map part).sum + part task =
      ((before.peer site).tasks.map part).sum + part task' := by
    have whole := (before.peer site).tasks.take_append_drop number
    rw [List.drop_eq_getElem_cons inside, here] at whole
    rw [moved.tasks, List.set_eq_take_cons_drop _ inside]
    conv_rhs => rw [← whole]
    simp only [List.map_append, List.map_cons, List.sum_append, List.sum_cons]
    omega
  rw [total, total, ← Finset.add_sum_erase _ _ (Finset.mem_univ site),
    ← Finset.add_sum_erase _ _ (Finset.mem_univ site), Finset.sum_congr rfl others]
  omega

/-- What brings on a task brings on all of them. -/
theorem left_moved [Fintype ι] [DecidableEq ι] (moved : Moved before site number task' after)
    (found : (before.peer site).tasks[number]? = some task) (less : task'.left < task.left) :
    after.left < before.left := by
  have ahead := total_moved Task.ahead moved found
  have work := total_moved Task.work moved found
  rw [Task.left_lt_iff] at less
  refine Prod.Lex.toLex_lt_toLex.mpr ?_
  dsimp only
  omega

variable [DecidableEq ι] [Blake3] {ctx : ι → Ctx ι} {turn : Turn ι}

/-- **A turn that proceeds brings on one task.** -/
theorem moved_of_proceeds (proceeds : turn.proceeds = true)
    (stepped : before.step ctx turn = some after) :
    ∃ site number task task', (before.peer site).tasks[number]? = some task ∧
      Moved before site number task' after ∧ task'.left < task.left := by
  obtain ⟨site, act, next, published, does, taken, rfl⟩ := step_cases stepped
  have answered : ∀ {number : Nat} {response : Option SyncResponse},
    act = .respond number response →
      ∃ site' number task task', (before.peer site').tasks[number]? = some task ∧
        Moved before site' number task' ⟨Function.update before.peer site next,
          before.log ++ published.toList, before.stillEdited ctx site act⟩ ∧
            task'.left < task.left := by
    rintro number response rfl
    cases taken with
    | quiet act watch idle => exact absurd idle Bool.false_ne_true
    | answered _ _ task stage found reply =>
        exact ⟨site, number, task, _, found, moved_update rfl, Peer.left_answer reply⟩
  cases does with
  | own _ act own =>
      cases act with
      | resume number device =>
          cases taken with
          | quiet act watch idle => exact absurd idle Bool.false_ne_true
          | resumed _ _ task middle task' found ran =>
              have ran := Peer.run_cases ran
              exact ⟨site, number, task, task', found, moved_update (by rw [ran.tasks]), ran.left⟩
      | _ => exact absurd proceeds Bool.false_ne_true
  | delivered => exact absurd proceeds Bool.false_ne_true
  | served => exact answered rfl
  | failed => exact answered rfl

/-- **A task that is not done can be brought on**, and nothing fails. -/
theorem exists_proceeding (ctx : ι → Ctx ι) (found : (before.peer site).tasks[number]? = some task)
    (unfinished : ¬ task.AtEnd) :
    ∃ turn after, turn.proceeds = true ∧ Exchange turn ∧ before.step ctx turn = some after := by
  cases asked : task.stage.request with
  | none =>
      obtain ⟨next, task', ran⟩ := Peer.exists_ran (ctx site) (before.peer site) unfinished asked
      have taken : (before.peer site).step (ctx site) (.resume number {}) =
          some ({ next with tasks := next.tasks.set number task' }, none) := by
        rw [Peer.step, found, Option.bind_some, ran]
        rfl
      exact ⟨_, _, rfl, .resumed site number, step_of ctx rfl taken⟩
  | some question =>
      obtain ⟨source, request⟩ := question
      have waits : task.stage.request.isSome = true := by rw [asked]; rfl
      obtain ⟨stage, reply⟩ :=
        Peer.exists_answer waits (some (before.answerOf ctx source none request))
      have acted : before.actOf ctx (.serve site number none) =
          some (site, .respond number (some (before.answerOf ctx source none request))) := by
        rw [actOf, found, Option.bind_some, asked]
        rfl
      have taken : (before.peer site).step (ctx site)
          (.respond number (some (before.answerOf ctx source none request))) =
            some ({ before.peer site with
              tasks := (before.peer site).tasks.set number { task with stage := stage } },
              none) := by
        rw [Peer.step, found, Option.bind_some, reply]
        rfl
      exact ⟨_, _, rfl, .served site number, step_of ctx acted taken⟩

/-- Nothing proceeds exactly when all tasks are done. -/
theorem atRest_iff (ctx : ι → Ctx ι) (swarm : Swarm ι) :
    swarm.AtRest ↔ ∀ turn : Turn ι, turn.proceeds = true → swarm.step ctx turn = none := by
  constructor
  · intro rest turn proceeds
    rw [Option.eq_none_iff_forall_ne_some]
    intro after stepped
    obtain ⟨site, number, task, task', found, _, less⟩ := moved_of_proceeds proceeds stepped
    obtain ⟨idle, done⟩ := rest site task (List.mem_of_getElem? found)
    rw [Task.left_lt_iff, Task.ahead, Task.ahead, Task.work, Task.work, idle, done] at less
    simp [Stage.ahead, Stage.work] at less
  · intro stuck site task member
    by_contra unfinished
    obtain ⟨number, found⟩ := List.mem_iff_getElem?.mp member
    obtain ⟨turn, after, proceeds, _, stepped⟩ := exists_proceeding ctx found unfinished
    exact absurd (stepped.symm.trans (stuck turn proceeds)) (Option.some_ne_none after)

/-- **The tasks of a swarm come to their end** when nothing more is let in: they do not keep each
other going, they stop exactly when all are done, and they get there without a failure. -/
theorem settles [Fintype ι] (ctx : ι → Ctx ι) (swarm : Swarm ι) :
    (∀ states : ℕ → Swarm ι, states 0 = swarm → ¬ ∀ moment, ∃ turn : Turn ι,
      turn.proceeds = true ∧ (states moment).step ctx turn = some (states (moment + 1))) ∧
    (swarm.AtRest ↔ ∀ turn : Turn ι, turn.proceeds = true → swarm.step ctx turn = none) ∧
    ∃ trace last, Run (step ctx) swarm trace last ∧
      (∀ entry ∈ trace, entry.2.proceeds = true ∧ Exchange entry.2) ∧ last.AtRest := by
  have lowers : ∀ (before : Swarm ι) turn after, turn.proceeds = true →
      before.step ctx turn = some after → after.left < before.left := by
    intro before turn after proceeds stepped
    obtain ⟨site, number, task, task', found, moved, less⟩ := moved_of_proceeds proceeds stepped
    exact left_moved moved found less
  refine ⟨fun states _ => not_forever lowers states, atRest_iff ctx swarm, ?_⟩
  have smoothly : ∀ (before : Swarm ι) turn after, turn.proceeds = true ∧ Exchange turn →
      before.step ctx turn = some after → after.left < before.left :=
    fun before turn after fine => lowers before turn after fine.1
  have here : Run (step ctx) swarm [] swarm := .start
  obtain ⟨trace, last, run, only, ended⟩ := exists_spent smoothly here
  refine ⟨trace, last, run, only, fun site task member => ?_⟩
  by_contra unfinished
  obtain ⟨number, found⟩ := List.mem_iff_getElem?.mp member
  obtain ⟨turn, after, proceeds, smooth, stepped⟩ := exists_proceeding ctx found unfinished
  exact absurd (stepped.symm.trans (ended turn ⟨proceeds, smooth⟩)) (Option.some_ne_none after)

end Swarm

end P2Sync
