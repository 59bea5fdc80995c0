import P2Sync.Net.Flight
import P2Sync.Net.Swarm
import Mathlib.Data.Fintype.Basic

/-!
# Who counts what

The counter a clock has for a peer says how many of that peer's edits the clock stands
for. Only the peer itself counts, so as long as nothing is deleted nobody should have
heard of an edit that the peer has not counted: the counter for a peer is nowhere above
its own, neither in what the others record nor in what is under way (`Known`), and no
recorded clock goes back (`causally_sound`).

A backup path is left out: what is recorded for it is the clock of the losing version,
under the name of another file.
-/

set_option autoImplicit false

namespace P2Sync

namespace Swarm

variable {ι : Type} (ctx : ι → Ctx ι) (path : RelPath) (swarm : Swarm ι)

/-- The clock a peer records for the path. -/
abbrev clockAt (site : ι) : VectorClock := (swarm.peer site).index.clockOf path

/-- A turn in which the path is not deleted, and a file event is about names a directory
entry can have. -/
def Undeleted : Turn ι → Prop
  | .own site (.fsEvent reads) =>
      (swarm.peer site).watch.fsQueue.head? ≠ some (.removed path) ∧
        ∀ touched, (swarm.peer site).indexed (ctx site) reads = some touched →
          ∀ name ∈ touched, name.IsName
  | .deliver _ _ (.fileDeleted tombstone) _ =>
      ∀ deleted, SafePath.of? tombstone.path = some deleted → deleted.rel ≠ path
  | _ => True

/-- A turn that counts an edit of the path finds room for it in the counter. -/
def HasRoom : Turn ι → Prop
  | .own site (.fsEvent reads) =>
      (swarm.peer site).indexed (ctx site) reads = some path →
        ((clockAt path swarm site).counter (ctx site).localId).toNat + 1 < 2 ^ 64
  | _ => True

/-! ## Clocks of the path -/

variable [Blake3]

/-- The clocks of the path that are recorded, fetched under or published. -/
inductive Known : VectorClock → Prop where
  | recorded (site : ι) : Known (clockAt path swarm site)
  | fetched (site : ι) (fetch : Fetch ι) (working : (swarm.peer site).InFlight fetch)
      (here : fetch.path.rel = path) : Known fetch.origin.clock
  | published (named : SafePath) (hash : Hash) (chunks : List ChunkMeta) (clock : VectorClock)
      (timestamp : Nat) (writer : PeerId)
      (member : .fileChanged named.raw hash chunks clock timestamp writer ∈ swarm.log)
      (here : named.rel = path) : Known clock

/-- What holds all along a run: no deletion of the path is under way, and no clock counts
more edits of a peer than the peer itself. -/
structure Bounded : Prop where
  localPeer : ∀ site, (swarm.peer site).index.localPeer = (ctx site).localId
  undeleted : ∀ site, ∀ task ∈ (swarm.peer site).tasks, ∀ tombstone deleted,
    task.stage = .removed tombstone deleted → deleted.rel ≠ path
  bounded : ¬ conflictMark <:+: path.toStringLossy → ∀ site clock, Known path swarm clock →
    clock.counter (ctx site).localId ≤ (clockAt path swarm site).counter (ctx site).localId

variable {ctx path swarm}

section Turn

variable {before : Swarm ι} {turn : Turn ι} {site : ι} {act : Act ι} {next : Peer ι}
  {published : Option SyncNotification}

/-- How the clock of the path changes in a turn that does not delete it. -/
theorem clock_cases (bounds : Bounded ctx path before) (undeleted : Undeleted ctx path before turn)
    (does : Does ctx before turn site act)
    (happened : Peer.Step (ctx site) (before.peer site) act next published) :
    next.index.clockOf path = clockAt path before site ∨
      (∃ reads, turn = .own site (.fsEvent reads) ∧
        (before.peer site).indexed (ctx site) reads = some path ∧
          next.index.clockOf path = (clockAt path before site).tick (ctx site).localId) ∨
      ∃ number device task fetch data, turn = .own site (.resume number device) ∧
        (before.peer site).tasks[number]? = some task ∧ task.stage = .written fetch data ∧
          fetch.path.rel = path ∧
            next.index.clockOf path = (clockAt path before site).merge fetch.origin.clock := by
  rcases happened.clockOf with same | reclocks
  · exact Or.inl same
  · right
    generalize next.index.clockOf path = clock at reclocks ⊢
    cases reclocks with
    | ticked reads picked =>
        cases does
        rw [bounds.localPeer]
        exact Or.inl ⟨reads, rfl, picked, rfl⟩
    | merged number device task fetch data found stored here =>
        cases does
        exact Or.inr ⟨number, device, task, fetch, data, rfl, found, stored, here, rfl⟩
    | erased reads rest queue =>
        cases does
        rw [Undeleted, queue] at undeleted
        exact absurd rfl undeleted.1
    | forgotten number device task tombstone deleted found unlinked here =>
        exact absurd here
          (bounds.undeleted site task (List.mem_of_getElem? found) tombstone deleted unlinked)

/-- **A recorded clock does not go back.** -/
theorem clock_grows (bounds : Bounded ctx path before) (undeleted : Undeleted ctx path before turn)
    (room : HasRoom ctx path before turn) (does : Does ctx before turn site act)
    (happened : Peer.Step (ctx site) (before.peer site) act next published) :
    (clockAt path before site).counter ≤ (next.index.clockOf path).counter := by
  rcases clock_cases bounds undeleted does happened with
    same | ⟨reads, rfl, picked, ticked⟩ | ⟨_, _, _, _, _, _, _, _, _, merged⟩
  · rw [same]
  · rw [ticked]
    exact (VectorClock.le_tick (room picked)).le
  · rw [merged, VectorClock.counter_merge]
    exact le_sup_left

/-- The clock a turn publishes for the path is the one it records. -/
theorem published_clock (bounds : Bounded ctx path before)
    (undeleted : Undeleted ctx path before turn) (does : Does ctx before turn site act)
    (happened : Peer.Step (ctx site) (before.peer site) act next published) {named : SafePath}
    {hash : Hash} {chunks : List ChunkMeta} {clock : VectorClock} {timestamp : Nat}
    {writer : PeerId}
    (announced : published = some (.fileChanged named.raw hash chunks clock timestamp writer))
    (here : named.rel = path) : next.index.clockOf path = clock := by
  cases happened with
  | edited reads touched data watch published picked unmarked included first content =>
      obtain ⟨raw, bytes, wire, _, same⟩ := content _ announced
      cases does
      have accepted := safeRel_toWire (undeleted.2 touched picked) wire
      cases same
      obtain rfl : touched = path := by
        rw [named.accepted] at accepted
        exact (Option.some.inj accepted).symm.trans here
      rw [SyncIndex.clockOf_ticked, if_pos rfl]
  | erased => cases announced
  | _ => cases announced

variable [DecidableEq ι] {edited : ι → RelPath → Bool}

omit [Blake3] in
theorem clockAt_update (path : RelPath) (other : ι) :
    clockAt path ⟨Function.update before.peer site next, before.log ++ published.toList, edited⟩
      other = if other = site then next.index.clockOf path else clockAt path before other := by
  dsimp only [clockAt]
  split
  · rename_i here
    rw [here, Function.update_self]
  · rename_i elsewhere
    rw [Function.update_of_ne elsewhere]

/-- **Where the known clocks come from**: the only new one is the one just recorded. -/
theorem known_cases (unmarked : ¬ conflictMark <:+: path.toStringLossy)
    (bounds : Bounded ctx path before) (undeleted : Undeleted ctx path before turn)
    (does : Does ctx before turn site act)
    (happened : Peer.Step (ctx site) (before.peer site) act next published) {clock : VectorClock}
    (known : Known path
      ⟨Function.update before.peer site next, before.log ++ published.toList, edited⟩ clock) :
    Known path before clock ∨ clock = .new ∨ clock = next.index.clockOf path := by
  cases known with
  | recorded other =>
      rw [clockAt_update]
      split
      · exact Or.inr (Or.inr rfl)
      · exact Or.inl (.recorded other)
  | fetched other fetch working here =>
      dsimp only at working
      by_cases atSite : other = site
      · subst atSite
        rw [Function.update_self] at working
        rcases happened.working working with old | started
        · exact Or.inl (.fetched other fetch old here)
        · cases started with
          | accepted source named hash chunks clock timestamp writer
          | lost source named hash chunks clock timestamp writer =>
              cases does with
              | own _ _ own => exact absurd own Bool.false_ne_true
              | delivered _ _ _ _ listed =>
                  exact Or.inl (.published named hash chunks clock timestamp writer listed here)
          | kept source named hash chunks clock timestamp writer =>
              exact absurd (here ▸ (named.backup_rel writer).2) unmarked
          | reconciled => exact Or.inr (Or.inl rfl)
      · rw [Function.update_of_ne atSite] at working
        exact Or.inl (.fetched other fetch working here)
  | published named hash chunks clock timestamp writer member here =>
      rcases List.mem_append.mp member with old | new
      · exact Or.inl (.published named hash chunks clock timestamp writer old here)
      · have announced := Option.mem_toList.mp new
        exact Or.inr (Or.inr (published_clock bounds undeleted does happened announced here).symm)

/-- **Nobody is credited with an edit that it has not counted**, through every turn. -/
theorem Bounded.keeps (distinct : Function.Injective fun site => (ctx site).localId)
    (bounds : Bounded ctx path before) (undeleted : Undeleted ctx path before turn)
    (room : HasRoom ctx path before turn) (does : Does ctx before turn site act)
    (happened : Peer.Step (ctx site) (before.peer site) act next published) :
    Bounded ctx path
      ⟨Function.update before.peer site next, before.log ++ published.toList, edited⟩ where
  localPeer other := by
    dsimp only
    by_cases atSite : other = site
    · rw [atSite, Function.update_self, happened.fixed.localPeer, bounds.localPeer]
    · rw [Function.update_of_ne atSite, bounds.localPeer]
  undeleted other task member tombstone deleted removed := by
    dsimp only at member
    by_cases atSite : other = site
    · subst atSite
      rw [Function.update_self] at member
      rcases happened.task member with old | made
      · exact bounds.undeleted other task old tombstone deleted removed
      · obtain ⟨source, device, rfl, named⟩ := made.removed removed
        cases does with
        | own _ _ own => exact absurd own Bool.false_ne_true
        | delivered => exact undeleted deleted (named ▸ SafePath.of?_raw deleted)
    · rw [Function.update_of_ne atSite] at member
      exact bounds.undeleted other task member tombstone deleted removed
  bounded unmarked other clock known := by
    have grown := clock_grows bounds undeleted room does happened
    have bounded := bounds.bounded unmarked
    have after : (clockAt path before other).counter (ctx other).localId ≤
        (clockAt path ⟨Function.update before.peer site next, before.log ++ published.toList,
          edited⟩ other).counter (ctx other).localId := by
      rw [clockAt_update]
      split
      · rename_i here
        rw [here]
        exact grown _
      · exact le_rfl
    rcases known_cases unmarked bounds undeleted does happened known with old | rfl | rfl
    · exact (bounded other clock old).trans after
    · exact bot_le
    · by_cases atSite : other = site
      · rw [clockAt_update, if_pos atSite]
      · refine le_trans ?_ after
        rcases clock_cases bounds undeleted does happened with
          same | ⟨_, _, _, ticked⟩ | ⟨_, _, _, fetch, _, _, found, stored, here, merged⟩
        · rw [same]
          exact bounded other _ (.recorded site)
        · rw [ticked, VectorClock.counter_tick_of_ne _ fun same => atSite (distinct same)]
          exact bounded other _ (.recorded site)
        · rw [merged, VectorClock.counter_merge]
          refine sup_le (bounded other _ (.recorded site))
            (bounded other _ (.fetched site fetch ?_ here))
          refine Peer.inFlight_of_mem (List.mem_of_getElem? found) ?_
          rw [stored]
          rfl

end Turn

/-! ## Runs -/

section Runs

variable {first : Swarm ι}

/-- A peer that has just started has counted nothing. -/
theorem Bounded.start
    (started : ∀ site, ∃ disk excludePatterns now,
      Peer.start (ctx site) disk excludePatterns now = some (first.peer site))
    (unpublished : first.log = []) : Bounded ctx path first := by
  have fresh : ∀ site, (first.peer site).index.localPeer = (ctx site).localId ∧
      (first.peer site).tasks = [] ∧ clockAt path first site = .new := by
    intro site
    obtain ⟨disk, excludePatterns, now, begun⟩ := started site
    obtain ⟨localPeer, tasks, _, clocks⟩ := Peer.start_index begun
    exact ⟨localPeer, tasks, clocks path⟩
  refine ⟨fun site => (fresh site).1, fun site task member => ?_, fun _ site clock known => ?_⟩
  · exact absurd ((fresh site).2.1 ▸ member) List.not_mem_nil
  · cases known with
    | recorded other =>
        rw [(fresh other).2.2]
        exact bot_le
    | fetched other fetch working =>
        obtain ⟨task, member, _⟩ := working
        exact absurd ((fresh other).2.1 ▸ member) List.not_mem_nil
    | published named hash chunks clock timestamp writer member =>
        exact absurd (unpublished ▸ member) List.not_mem_nil

variable [DecidableEq ι]

/-- **Clocks are causally sound.** Along a run that does not delete the path, nobody is
credited with an edit that it has not counted, and no recorded clock goes back. -/
theorem causally_sound {trace : List (Swarm ι × Turn ι)} {last : Swarm ι}
    (distinct : Function.Injective fun site => (ctx site).localId)
    (started : ∀ site, ∃ disk excludePatterns now,
      Peer.start (ctx site) disk excludePatterns now = some (first.peer site))
    (unpublished : first.log = []) (run : Run (step ctx) first trace last)
    (undeleted : ∀ entry ∈ trace, Undeleted ctx path entry.1 entry.2)
    (room : ∀ entry ∈ trace, HasRoom ctx path entry.1 entry.2)
    (unmarked : ¬ conflictMark <:+: path.toStringLossy) :
    (∀ site clock, Known path last clock →
        clock.counter (ctx site).localId ≤ (clockAt path last site).counter (ctx site).localId) ∧
      ∀ entry ∈ trace, ∀ site,
        (clockAt path entry.1 site).counter ≤ (clockAt path last site).counter := by
  have sound := run.history
    (fun trace swarm => Bounded ctx path swarm ∧ ∀ entry ∈ trace, ∀ site,
      (clockAt path entry.1 site).counter ≤ (clockAt path swarm site).counter)
    (fun _ before turn => Undeleted ctx path before turn ∧ HasRoom ctx path before turn)
    (fun earlier entry later split => by
      have member : entry ∈ trace := by simp [split]
      exact ⟨undeleted entry member, room entry member⟩)
    ⟨.start started unpublished, fun entry member => absurd member List.not_mem_nil⟩
    fun trace before turn after held guarded stepped => ?_
  · exact ⟨sound.1.bounded unmarked, sound.2⟩
  · obtain ⟨bounds, grown⟩ := held
    obtain ⟨acting, act, next, published, does, happened, rfl⟩ := step_cases stepped
    refine ⟨bounds.keeps distinct guarded.1 guarded.2 does happened, fun entry member site => ?_⟩
    have now : (clockAt path before site).counter ≤ (clockAt path
        ⟨Function.update before.peer acting next, before.log ++ published.toList,
          before.stillEdited ctx acting act⟩ site).counter := by
      rw [clockAt_update]
      split
      · rename_i here
        rw [here]
        exact clock_grows bounds guarded.1 guarded.2 does happened
      · exact le_rfl
    rcases List.mem_append.mp member with earlier | latest
    · exact (grown entry earlier site).trans now
    · rw [List.mem_singleton.mp latest]
      exact now

end Runs

/-! ## Deciding turns -/

section Decide

variable [Fintype ι] [DecidableEq ι]

instance decidableUndeleted : (turn : Turn ι) → Decidable (Undeleted ctx path swarm turn)
  | .own site (.fsEvent reads) =>
      inferInstanceAs (Decidable ((swarm.peer site).watch.fsQueue.head? ≠ some (.removed path) ∧
        ∀ touched ∈ (swarm.peer site).indexed (ctx site) reads, ∀ name ∈ touched, name.IsName))
  | .deliver _ _ (.fileDeleted tombstone) _ =>
      inferInstanceAs (Decidable (∀ deleted ∈ SafePath.of? tombstone.path, deleted.rel ≠ path))
  | .deliver _ _ (.fileChanged _ _ _ _ _ _) _ | .deliver _ _ (.peerJoined _) _
  | .own _ (.elapse _) | .own _ (.setTime _) | .own _ (.user _) | .own _ (.watched _)
  | .own _ (.notified _ _ _) | .own _ (.discovered _) | .own _ (.respond _ _) | .own _ (.resume _ _)
  | .serve _ _ _ | .fail _ _ => isTrue trivial

instance decidableHasRoom : (turn : Turn ι) → Decidable (HasRoom ctx path swarm turn)
  | .own _ (.fsEvent _) => inferInstanceAs (Decidable (_ → _))
  | .own _ (.elapse _) | .own _ (.setTime _) | .own _ (.user _) | .own _ (.watched _)
  | .own _ (.notified _ _ _) | .own _ (.discovered _) | .own _ (.respond _ _) | .own _ (.resume _ _)
  | .deliver _ _ _ _ | .serve _ _ _ | .fail _ _ => isTrue trivial

end Decide

end Swarm

/-! ## A concrete run -/

namespace Swarm

attribute [local instance] Sample.blake3

theorem injective_localId : Function.Injective fun site => (Sample.ctx site).localId := by
  intro first second same
  cases first <;> cases second <;> first | rfl | exact absurd same (by decide)

/-- Two peers edit `f` without having heard of each other. The first one finds the conflict,
fetches the winning version and merges its clock. -/
def clashes : List (Turn Sample.Site) :=
  Sample.saves .one [2] ++ Sample.saves .two [3] ++
    .deliver .one .two (Sample.update 2 [3]) {} :: Sample.fetches .one 0

theorem causally_sound_sample :
    ∃ trace last, Run (step Sample.ctx) (Sample.swarm fun _ => [1]) trace last ∧
      trace.map Prod.snd = clashes ∧
        (∀ site clock, Known Sample.path last clock →
          clock.counter (Sample.ctx site).localId ≤
            (clockAt Sample.path last site).counter (Sample.ctx site).localId) ∧
          ∀ entry ∈ trace, ∀ site, (clockAt Sample.path entry.1 site).counter ≤
            (clockAt Sample.path last site).counter := by
  obtain ⟨trace, last, run, turns, guarded, _⟩ := exists_checked_run (by decide +kernel :
    (runActs (checked (step Sample.ctx) fun swarm turn =>
        decide (Undeleted Sample.ctx Sample.path swarm turn) &&
          decide (HasRoom Sample.ctx Sample.path swarm turn))
        (Sample.swarm fun _ => [1]) clashes).any (fun _ => true) = true)
  simp only [Bool.and_eq_true, decide_eq_true_eq] at guarded
  exact ⟨trace, last, run, turns, causally_sound injective_localId
    (fun site => ⟨_, _, _, Sample.start_peer site [1]⟩) rfl run
    (fun entry member => (guarded entry member).1) (fun entry member => (guarded entry member).2)
    (by decide)⟩

end Swarm

end P2Sync
