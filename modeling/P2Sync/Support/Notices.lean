import Mathlib.Data.List.Basic
import Mathlib.Logic.Function.Basic

/-!
# A view that follows a store by notices

A store has values at keys, and folders above them. A change of the store leaves notices in a
queue, of the keys it touched and of those it removed. A view is brought up to date by
handling the notices one after another: a touched key gets the value that the store has when
its notice is handled, or stays as it is when there is none, and a removed key loses its
value.

A view follows the store when handling the queue would make it right at every key, if
the store stayed as it is (`Follows`). Each kind of change keeps it so (`Follows.put`,
`Follows.delete`, `Follows.move`), but a value is moved away unnoticed: its old key is
touched and no longer there, so the view must not have it, or must be about to lose it. A
handled notice changes the view at its own key only (`Follows.handled`,
`Follows.dropped`), since no folder above a noticed key ever gives way to a value.
-/

set_option autoImplicit false

namespace P2Sync.Notices

universe u v

variable {K : Type u} {V : Type v}

/-- What a notice says of its key. -/
inductive Notice (K : Type u) where
  | touched (key : K)
  | removed (key : K)

def Notice.key : Notice K → K
  | .touched key => key
  | .removed key => key

/-! ## One key -/

section Settle

variable [DecidableEq K] {content seen : Option V} {key : K} {queue later : List (Notice K)}

/-- What a view that has seen a value at a key ends up with there, when the queue is handled
over a store that keeps its content. -/
def settle (content : Option V) (key : K) : Option V → List (Notice K) → Option V
  | seen, [] => seen
  | seen, .touched other :: rest =>
      settle content key (if other = key then content.or seen else seen) rest
  | seen, .removed other :: rest => settle content key (if other = key then none else seen) rest

theorem settle_append :
    settle content key seen (queue ++ later) =
      settle content key (settle content key seen queue) later := by
  induction queue generalizing seen with
  | nil => rfl
  | cons notice rest ih => cases notice <;> exact ih

theorem settle_of_forall_ne (elsewhere : ∀ notice ∈ queue, notice.key ≠ key) :
    settle content key seen queue = seen := by
  induction queue generalizing seen with
  | nil => rfl
  | cons notice rest ih =>
      rw [List.forall_mem_cons] at elsewhere
      cases notice with
      | touched other =>
          have apart : other ≠ key := elsewhere.1
          rw [settle, if_neg apart, ih elsewhere.2]
      | removed other =>
          have apart : other ≠ key := elsewhere.1
          rw [settle, if_neg apart, ih elsewhere.2]

/-- A value that is touched and not removed is there in the end. -/
theorem settle_some {value : V} (kept : Notice.removed key ∉ queue)
    (there : Notice.touched key ∈ queue ∨ seen = some value) :
    settle (some value) key seen queue = some value := by
  induction queue generalizing seen with
  | nil => exact there.resolve_left List.not_mem_nil
  | cons notice rest ih =>
      rw [List.mem_cons, not_or] at kept
      cases notice with
      | touched other =>
          rw [settle]
          by_cases same : other = key
          · rw [if_pos same]
            exact ih kept.2 (Or.inr rfl)
          · rw [if_neg same]
            refine ih kept.2 (there.imp_left fun member => ?_)
            exact (List.mem_cons.mp member).resolve_left fun first =>
              same (Notice.touched.inj first).symm
      | removed other =>
          have apart : other ≠ key := fun same => kept.1 (congrArg Notice.removed same.symm)
          rw [settle, if_neg apart]
          exact ih kept.2 (there.imp_left fun member => (List.mem_cons.mp member).resolve_left
            fun first => absurd first (by simp))

/-- Where the store has nothing, a value goes when its key is removed. -/
theorem settle_none_iff :
    settle none key seen queue = none ↔ seen = none ∨ Notice.removed key ∈ queue := by
  induction queue generalizing seen with
  | nil => simp [settle]
  | cons notice rest ih =>
      cases notice with
      | touched other =>
          rw [settle, Option.none_or, ite_self, ih]
          simp
      | removed other =>
          rw [settle, ih]
          by_cases same : other = key
          · subst same
            simp
          · simp [same, Ne.symm same]

end Settle

/-! ## All keys -/

/-- A store with its folders, the notices that wait, and the view. -/
structure State (K : Type u) (V : Type v) where
  store : K → Option V
  folder : K → Prop
  queue : List (Notice K)
  view : K → Option V

variable (above : K → K → Prop)

/-- No folder has a value, and all that is above a value is a folder. -/
structure Placed (store : K → Option V) (folder : K → Prop) : Prop where
  apart : ∀ key, folder key → store key = none
  parents : ∀ key value, store key = some value → ∀ parent, above parent key → folder parent

/-- No removal comes after a notice below its key. -/
def InOrder (queue : List (Notice K)) : Prop :=
  queue.Pairwise fun earlier later => ∀ key, later = .removed key → ¬ above key earlier.key

variable [DecidableEq K]

/-- **The view follows the store.** -/
structure Follows (state : State K V) : Prop where
  placed : Placed above state.store state.folder
  settles : ∀ key, settle (state.store key) key (state.view key) state.queue = state.store key
  queued : ∀ notice ∈ state.queue, ∀ parent, above parent notice.key → state.folder parent
  viewed : ∀ key value, state.view key = some value →
    ∀ parent, above parent key → state.folder parent
  inOrder : InOrder above state.queue
  alone : ∀ key, Notice.removed key ∈ state.queue →
    ∀ below value, state.view below = some value → ¬ above key below

namespace Follows

variable {above} {state : State K V} {store : K → Option V} {folder : K → Prop}
  {notices rest : List (Notice K)} {key : K} {value : V}

/-- A view that is the store follows it. -/
theorem start (placed : Placed above store folder) : Follows above ⟨store, folder, [], store⟩ where
  placed := placed
  settles _ := rfl
  queued _ absent := absurd absent List.not_mem_nil
  viewed := placed.parents
  inOrder := List.Pairwise.nil
  alone _ absent := absurd absent List.not_mem_nil

/-- When no notice waits, the view is the store. -/
theorem view_eq (follows : Follows above state) (idle : state.queue = []) :
    state.view = state.store := by
  funext key
  have settled := follows.settles key
  rwa [idle] at settled

/-- A change keeps a view following, when every key comes out right. -/
theorem change (follows : Follows above state) (placed : Placed above store folder)
    (kept : ∀ key, state.folder key → folder key)
    (parents : ∀ notice ∈ notices, ∀ parent, above parent notice.key → folder parent)
    (removes : ∀ key, Notice.removed key ∈ notices → state.store key ≠ none)
    (inOrder : InOrder above notices)
    (settles : ∀ key,
      settle (store key) key (state.view key) (state.queue ++ notices) = store key) :
    Follows above ⟨store, folder, state.queue ++ notices, state.view⟩ := by
  have files : ∀ key, Notice.removed key ∈ notices → ¬ state.folder key :=
    fun key member folded => removes key member (follows.placed.apart key folded)
  refine ⟨placed, settles, ?_, ?_, ?_, ?_⟩
  · intro notice member parent higher
    rcases List.mem_append.mp member with old | new
    · exact kept parent (follows.queued notice old parent higher)
    · exact parents notice new parent higher
  · intro key value seen parent higher
    exact kept parent (follows.viewed key value seen parent higher)
  · refine List.pairwise_append.mpr ⟨follows.inOrder, inOrder, ?_⟩
    rintro earlier old _ new key rfl higher
    exact files key new (follows.queued earlier old key higher)
  · intro key member below value seen higher
    rcases List.mem_append.mp member with old | new
    · exact follows.alone key old below value seen higher
    · exact files key new (follows.viewed below value seen key higher)

/-- **A value is put into the store.** -/
theorem put (follows : Follows above state)
    (placed : Placed above (Function.update state.store key (some value)) folder)
    (kept : ∀ key, state.folder key → folder key) (nonempty : notices ≠ [])
    (touched : ∀ notice ∈ notices, notice = .touched key) :
    Follows above ⟨Function.update state.store key (some value), folder,
      state.queue ++ notices, state.view⟩ := by
  have unremoved : ∀ other, Notice.removed other ∉ notices := fun other member =>
    absurd (touched _ member) (by simp)
  refine follows.change placed kept ?_ (fun other member => absurd member (unremoved other)) ?_ ?_
  · intro notice member parent higher
    rw [touched notice member] at higher
    exact placed.parents key value (Function.update_self ..) parent higher
  · refine List.Pairwise.imp_of_mem ?_ (List.pairwise_of_forall fun _ _ => trivial)
    rintro earlier _ _ member - other rfl
    exact absurd member (unremoved other)
  · intro other
    rw [settle_append]
    by_cases same : other = key
    · subst same
      obtain ⟨notice, member⟩ := List.exists_mem_of_ne_nil notices nonempty
      rw [Function.update_self]
      exact settle_some (unremoved other) (Or.inl (touched notice member ▸ member))
    · rw [Function.update_of_ne same, follows.settles, settle_of_forall_ne]
      intro notice member
      rw [touched notice member]
      exact Ne.symm same

/-- **A value is taken out of the store.** -/
theorem delete (follows : Follows above state) (there : state.store key = some value)
    (placed : Placed above (Function.update state.store key none) folder)
    (kept : ∀ key, state.folder key → folder key) (nonempty : notices ≠ [])
    (removed : ∀ notice ∈ notices, notice = .removed key) :
    Follows above ⟨Function.update state.store key none, folder, state.queue ++ notices,
      state.view⟩ := by
  have parents : ∀ parent, above parent key → state.folder parent :=
    follows.placed.parents key value there
  refine follows.change placed kept ?_ ?_ ?_ ?_
  · intro notice member parent higher
    rw [removed notice member] at higher
    exact kept parent (parents parent higher)
  · intro other member
    cases removed _ member
    rw [there]
    exact Option.some_ne_none value
  · refine List.Pairwise.imp_of_mem ?_ (List.pairwise_of_forall fun _ _ => trivial)
    rintro earlier _ old new - other rfl higher
    cases removed _ new
    rw [removed earlier old] at higher
    have folded := follows.placed.apart key (parents key higher)
    exact absurd (there.symm.trans folded) (Option.some_ne_none value)
  · intro other
    by_cases same : other = key
    · subst same
      obtain ⟨notice, member⟩ := List.exists_mem_of_ne_nil notices nonempty
      rw [Function.update_self, settle_none_iff]
      exact Or.inr (List.mem_append_right _ (removed notice member ▸ member))
    · rw [Function.update_of_ne same, settle_append, follows.settles, settle_of_forall_ne]
      intro notice member
      rw [removed notice member]
      exact Ne.symm same

/-- **A value is moved**, when the view does not have it at its old key or is about to lose
it there. -/
theorem move {source target : K} (follows : Follows above state) (apart : source ≠ target)
    (there : state.store source = some value)
    (placed : Placed above
      (Function.update (Function.update state.store source none) target (some value)) folder)
    (kept : ∀ key, state.folder key → folder key) (arrives : Notice.touched target ∈ notices)
    (touched : ∀ notice ∈ notices, notice = .touched source ∨ notice = .touched target)
    (unseen : state.view source = none ∨ Notice.removed source ∈ state.queue) :
    Follows above
      ⟨Function.update (Function.update state.store source none) target (some value), folder,
        state.queue ++ notices, state.view⟩ := by
  have unremoved : ∀ other, Notice.removed other ∉ notices := by
    intro other member
    rcases touched _ member with same | same <;> exact absurd same (by simp)
  refine follows.change placed kept ?_ (fun other member => absurd member (unremoved other)) ?_ ?_
  · intro notice member parent higher
    rcases touched notice member with same | same
    · rw [same] at higher
      exact kept parent (follows.placed.parents source value there parent higher)
    · rw [same] at higher
      exact placed.parents target value (Function.update_self ..) parent higher
  · refine List.Pairwise.imp_of_mem ?_ (List.pairwise_of_forall fun _ _ => trivial)
    rintro earlier _ _ member - other rfl
    exact absurd member (unremoved other)
  · intro other
    by_cases isTarget : other = target
    · subst isTarget
      rw [Function.update_self, settle_append]
      exact settle_some (unremoved other) (Or.inl arrives)
    · rw [Function.update_of_ne isTarget]
      by_cases isSource : other = source
      · subst isSource
        rw [Function.update_self, settle_none_iff]
        exact unseen.imp_right fun member => List.mem_append_left _ member
      · rw [Function.update_of_ne isSource, settle_append, follows.settles, settle_of_forall_ne]
        intro notice member same
        rcases touched notice member with rfl | rfl
        · exact isSource same.symm
        · exact isTarget same.symm

/-- What is left when the first notice is handled. -/
theorem tail {notice : Notice K} {view : K → Option V} (follows : Follows above state)
    (queue : state.queue = notice :: rest)
    (parents : ∀ key value, view key = some value →
      ∀ parent, above parent key → state.folder parent)
    (settles : ∀ key, settle (state.store key) key (view key) rest = state.store key)
    (alone : ∀ key, Notice.removed key ∈ rest →
      ∀ below value, view below = some value → ¬ above key below) :
    Follows above { state with queue := rest, view := view } := by
  have waiting : ∀ other ∈ rest, other ∈ state.queue := fun other member => by
    rw [queue]
    exact List.mem_cons_of_mem _ member
  refine ⟨follows.placed, settles, ?_, parents, ?_, alone⟩
  · exact fun other member => follows.queued other (waiting other member)
  · have inOrder := follows.inOrder
    rw [queue] at inOrder
    exact (List.pairwise_cons.mp inOrder).2

/-- **A notice of a value is handled.** The view has nothing above or below it. -/
theorem handled (follows : Follows above state) (queue : state.queue = .touched key :: rest)
    (there : state.store key = some value) :
    (∀ other seen, state.view other = some seen → ¬ above other key ∧ ¬ above key other) ∧
      Follows above { state with
        queue := rest, view := Function.update state.view key (some value) } := by
  have inOrder := follows.inOrder
  rw [queue, InOrder, List.pairwise_cons] at inOrder
  have first : Notice.touched key ∈ state.queue := by rw [queue]; exact List.mem_cons_self
  have clear : ∀ other seen, state.view other = some seen →
      ¬ above other key ∧ ¬ above key other := by
    intro other seen found
    constructor
    · -- a folder above has no value, so the view is about to lose what it has there
      intro higher
      have gone := follows.placed.apart other (follows.queued _ first other higher)
      have settled := follows.settles other
      rw [gone, settle_none_iff, found, queue] at settled
      rcases settled with absent | waiting
      · exact absurd absent (Option.some_ne_none seen)
      · rcases List.mem_cons.mp waiting with same | later
        · exact absurd same (by simp)
        · exact inOrder.1 _ later other rfl higher
    · intro under
      have gone := follows.placed.apart key (follows.viewed other seen found key under)
      exact absurd (there.symm.trans gone) (Option.some_ne_none value)
  refine ⟨clear, follows.tail queue ?_ ?_ ?_⟩
  · intro other seen found parent higher
    by_cases same : other = key
    · subst same
      exact follows.queued _ first parent higher
    · rw [Function.update_of_ne same] at found
      exact follows.viewed other seen found parent higher
  · intro other
    have settled := follows.settles other
    rw [queue, settle] at settled
    by_cases same : other = key
    · subst same
      rw [if_pos rfl, there, Option.some_or] at settled
      rwa [Function.update_self, there]
    · rw [if_neg (Ne.symm same)] at settled
      rwa [Function.update_of_ne same]
  · intro other waiting below seen found higher
    by_cases same : below = key
    · subst same
      exact inOrder.1 _ waiting other rfl higher
    · rw [Function.update_of_ne same] at found
      exact follows.alone other (by rw [queue]; exact List.mem_cons_of_mem _ waiting) below seen
        found higher

/-- A notice of a key without a value is handled by doing nothing. -/
theorem skipped (follows : Follows above state) (queue : state.queue = .touched key :: rest)
    (gone : state.store key = none) : Follows above { state with queue := rest } := by
  refine follows.tail queue follows.viewed ?_ fun other waiting =>
    follows.alone other (by rw [queue]; exact List.mem_cons_of_mem _ waiting)
  intro other
  have settled := follows.settles other
  rw [queue, settle] at settled
  by_cases same : other = key
  · subst same
    rwa [if_pos rfl, gone, Option.none_or, ← gone] at settled
  · rwa [if_neg (Ne.symm same)] at settled

/-- **A removal is handled.** The view has nothing below it. -/
theorem dropped (follows : Follows above state) (queue : state.queue = .removed key :: rest) :
    (∀ below seen, state.view below = some seen → ¬ above key below) ∧
      Follows above { state with
        queue := rest, view := Function.update state.view key none } := by
  have first : Notice.removed key ∈ state.queue := by rw [queue]; exact List.mem_cons_self
  refine ⟨follows.alone key first, follows.tail queue ?_ ?_ ?_⟩
  · intro other seen found
    by_cases same : other = key
    · subst same
      rw [Function.update_self] at found
      exact absurd found.symm (Option.some_ne_none seen)
    · rw [Function.update_of_ne same] at found
      exact follows.viewed other seen found
  · intro other
    have settled := follows.settles other
    rw [queue, settle] at settled
    by_cases same : other = key
    · subst same
      rw [if_pos rfl] at settled
      rwa [Function.update_self]
    · rw [if_neg (Ne.symm same)] at settled
      rwa [Function.update_of_ne same]
  · intro other waiting below seen found
    by_cases same : below = key
    · subst same
      rw [Function.update_self] at found
      exact absurd found.symm (Option.some_ne_none seen)
    · rw [Function.update_of_ne same] at found
      exact follows.alone other (by rw [queue]; exact List.mem_cons_of_mem _ waiting) below seen
        found

end Follows

end P2Sync.Notices
