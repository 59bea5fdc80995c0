import P2Sync.Net.Flight

/-!
# Freshness at the write

An update is accepted because its clock is after the recorded one, and its file is
written some steps later. Nothing is checked again in between, so an edit indexed in the
meantime, or another fetch committed in the meantime, is overwritten by the older update.
The write is fresh in every run in which this does not happen: as long as an accepted
fetch has its write ahead of it, no clock is recorded for the path that is not still
before the clock of that fetch (`overwrites_fresh`).
-/

set_option autoImplicit false

namespace P2Sync

/-- The fetch brings a version of the path that was accepted. -/
def Fetch.Accepts {ι : Type} (fetch : Fetch ι) (path : RelPath) : Prop :=
  fetch.path.rel = path ∧ ∃ hash, fetch.cause = .accepted hash

namespace Peer

variable {ι : Type} [Blake3] (ctx : Ctx ι) (path : RelPath) (before : Peer ι)

omit [Blake3] in
/-- The step writes the file of an accepted fetch. -/
def Overwrites (act : Act ι) (fetch : Fetch ι) : Prop :=
  ∃ number device task data, act = .resume number device ∧ before.tasks[number]? = some task ∧
    task.stage = .loaded fetch data ∧ fetch.Accepts path

/-- A clock recorded by the step is still before the clock of every accepted fetch that has
its write ahead of it. -/
structure KeepsFresh (act : Act ι) : Prop where
  ticked : ∀ reads fetch, act = .fsEvent reads → before.indexed ctx reads = some path →
    before.Unwritten fetch → fetch.Accepts path →
      ((before.index.clockOf path).tick before.index.localPeer).compare fetch.origin.clock = .before
  merged : ∀ number device task committed data fetch, act = .resume number device →
    before.tasks[number]? = some task → task.stage = .written committed data →
      committed.path.rel = path → before.Unwritten fetch → fetch.Accepts path →
        ((before.index.clockOf path).merge committed.origin.clock).compare fetch.origin.clock =
          .before

/-- The recorded clock is before the clock of every accepted fetch that has its write ahead
of it. -/
def Fresh (path : RelPath) (peer : Peer ι) : Prop :=
  ∀ fetch, peer.Unwritten fetch → fetch.Accepts path →
    (peer.index.clockOf path).compare fetch.origin.clock = .before

variable {ctx path before}

theorem Fresh.step {act : Act ι} {after : Peer ι} (fresh : Fresh path before)
    (keeps : KeepsFresh ctx path before act) (stepped : before.next ctx act = some after) :
    Fresh path after := by
  obtain ⟨published, cases⟩ := next_cases stepped
  intro fetch unwritten accepts
  rcases cases.working unwritten with earlier | started
  · have held := fresh fetch earlier accepts
    rcases cases.clockOf with same | changed
    · rw [same]
      exact held
    · generalize after.index.clockOf path = clock at changed
      cases changed with
      | ticked reads picked => exact keeps.ticked reads fetch rfl picked earlier accepts
      | merged number device task committed data found stored here =>
          exact keeps.merged number device task committed data fetch rfl found stored here earlier
            accepts
      | erased => exact VectorClock.new_before held
      | forgotten => exact VectorClock.new_before held
  · obtain ⟨here, hash', cause⟩ := accepts
    cases started with
    | accepted source safe hash chunks clock timestamp writer device foreign newer =>
        subst here
        rcases cases.clockOf with same | changed
        · rw [same]
          exact VectorClock.compare_before_iff.mpr newer
        · generalize after.index.clockOf safe.rel = recorded at changed
          cases changed
    | lost => cases cause
    | kept => cases cause
    | reconciled => cases cause

/-- **An accepted version is written only over an older one**, in a run that records no
clock past it. -/
theorem overwrites_fresh {disk : Disk} {excludePatterns : List Str} {now : Nat}
    {first last : Peer ι} {trace : List (Peer ι × Act ι)}
    (started : start ctx disk excludePatterns now = some first)
    (run : Run (next ctx) first trace last)
    (keeps : ∀ entry ∈ trace, KeepsFresh ctx path entry.1 entry.2) :
    ∀ entry ∈ trace, ∀ fetch, Overwrites path entry.1 entry.2 fetch →
      (entry.1.index.clockOf path).compare fetch.origin.clock = .before := by
  have initial : Fresh path first := by
    rintro fetch ⟨task, member, _⟩
    rw [(start_index started).2.1] at member
    exact absurd member List.not_mem_nil
  have fresh := run.invariant_left (Fresh path) (KeepsFresh ctx path) keeps initial
    fun before act after held allowed stepped => held.step allowed stepped
  rintro entry member fetch ⟨number, device, task, data, _, found, ready, accepts⟩
  refine fresh entry member fetch ⟨task, List.mem_of_getElem? found, ?_⟩ accepts
  rw [ready]
  exact ⟨rfl, Nat.le_refl _⟩

end Peer

/-! ## An edit between the decision and the write -/

namespace Peer

attribute [local instance] Sample.blake3

/-- A peer accepts the version `2 ↦ 1` of `f` and asks for it; its user edits `f`, the edit
is indexed, and then the answer arrives and is loaded. -/
def editedMeanwhile : List (Act Sample.Site) :=
  [.notified .two (.fileChanged ['f'] (Blake3.hash []) (Chunk.metadata [7] 2)
      (VectorClock.new.tick (Sample.peerId 2)) 5 (Sample.peerId 2)) {},
    .user (Sample.folder [3]),
    .watched (.modified Sample.path),
    .elapse 1,
    .fsEvent ⟨true, some [3], some [3]⟩,
    .respond 0 (some (.chunks ['f'] [(0, [7])])),
    .resume 0 {}]

/-- Task 0 is about to write an accepted version of `f` that is not after the recorded one. -/
def writesStale (peer : Peer Sample.Site) : Bool :=
  peer.tasks[0]?.any fun task =>
    match task.stage with
    | .loaded ⟨_, path, _, origin, .accepted _⟩ _ =>
        decide (path.rel = Sample.path) &&
          decide ((peer.index.clockOf Sample.path).compare origin.clock ≠ .before)
    | _ => false

/-- An indexed edit is overwritten by a version accepted before it. -/
theorem exists_stale_overwrite :
    ∃ trace peer fetch, Run (next (Sample.ctx .one)) (Sample.peer .one [1]) trace peer ∧
      Overwrites Sample.path peer (.resume 0 {}) fetch ∧
        (peer.next (Sample.ctx .one) (.resume 0 {})).isSome ∧
          (peer.index.clockOf Sample.path).compare fetch.origin.clock ≠ .before := by
  obtain ⟨trace, peer, run, _, passed⟩ := exists_run_of_any (by decide +kernel :
    (runActs (next (Sample.ctx .one)) (Sample.peer .one [1]) editedMeanwhile).any
      (fun peer => writesStale peer && (peer.next (Sample.ctx .one) (.resume 0 {})).isSome) = true)
  rw [Bool.and_eq_true, writesStale, Option.any_eq_true] at passed
  obtain ⟨⟨task, found, stale⟩, enabled⟩ := passed
  split at stale
  · rename_i source safe indices origin hash data stage
    simp only [Bool.and_eq_true, decide_eq_true_eq] at stale
    exact ⟨trace, peer, ⟨source, safe, indices, origin, .accepted hash⟩, run,
      ⟨0, {}, task, data, rfl, found, stage, stale.1, hash, rfl⟩, enabled, stale.2⟩
  · exact absurd stale Bool.false_ne_true

/-- The step neither looks at a file event nor commits a fetch. -/
def recordsNothing (peer : Peer Sample.Site) : Act Sample.Site → Bool
  | .fsEvent _ => false
  | .resume number _ => peer.tasks[number]?.all fun task =>
      match task.stage with
      | .written _ _ => false
      | _ => true
  | _ => true

theorem keepsFresh_of_recordsNothing {peer : Peer Sample.Site} {act : Act Sample.Site}
    (quiet : recordsNothing peer act = true) :
    KeepsFresh (Sample.ctx .one) Sample.path peer act where
  ticked reads fetch event := by
    subst event
    exact absurd quiet Bool.false_ne_true
  merged number device task committed data fetch event found stored := by
    subst event
    rw [recordsNothing, found, Option.all_some, stored] at quiet
    exact absurd quiet Bool.false_ne_true

/-- With no edit in between, an accepted version of `f` is written over an older one. -/
theorem overwrites_fresh_sample :
    ∃ trace last, Run (next (Sample.ctx .one)) (Sample.peer .one [1]) trace last ∧
      last.disk.read Sample.path = some [7] ∧
        ∀ entry ∈ trace, ∀ fetch, Overwrites Sample.path entry.1 entry.2 fetch →
          (entry.1.index.clockOf Sample.path).compare fetch.origin.clock = .before := by
  obtain ⟨trace, last, run, _, quiet, passed⟩ := exists_checked_run (by decide +kernel :
    (runActs (checked (next (Sample.ctx .one)) recordsNothing) (Sample.peer .one [1])
      [.notified .two (.fileChanged ['f'] (Blake3.hash []) (Chunk.metadata [7] 2)
          (VectorClock.new.tick (Sample.peerId 2)) 5 (Sample.peerId 2)) {},
        .respond 0 (some (.chunks ['f'] [(0, [7])])), .resume 0 {}, .resume 0 {}]).any
          (fun peer => decide (peer.disk.read Sample.path = some [7])) = true)
  exact ⟨trace, last, run, of_decide_eq_true passed,
    overwrites_fresh (Sample.start_peer .one [1]) run
      fun entry member => keepsFresh_of_recordsNothing (quiet entry member)⟩

end Peer

end P2Sync
