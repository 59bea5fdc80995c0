import P2Sync.Net.Flight

/-!
# Deleted files that come back

A tombstone outlives the clock of its file, but nothing reads it: an update is compared
with the recorded clock only, and after a deletion that clock is empty. So an update the
deletion has seen brings the file back, unless no such update is let through
(`no_resurrection`): none is delivered while its tombstone lives, except one that the
recorded clock rejects, no tombstone is recorded over a fetch it covers, and the wall
clock does not go back.
-/

set_option autoImplicit false

namespace P2Sync

/-- The tombstone is about the path. -/
def Tombstone.Names (tombstone : Tombstone) (path : RelPath) : Prop :=
  safeRel tombstone.path = some path ∨ tombstone.path = path.toStringLossy

/-- The fetch brings an announced version of the path itself, not of its backup. -/
def Fetch.Updates {ι : Type} (fetch : Fetch ι) (path : RelPath) : Prop :=
  fetch.path.rel = path ∧ ∃ hash, fetch.cause = .accepted hash ∨ fetch.cause = .lost hash

namespace Peer

variable {ι : Type} [Blake3] (ctx : Ctx ι) (path : RelPath) (before : Peer ι)

omit [Blake3] in
/-- A recorded tombstone of the path, not expired, whose clock covers the given one. -/
def Buries (clock : VectorClock) (tombstone : Tombstone) : Prop :=
  tombstone ∈ before.index.tombstones ∧ tombstone.Names path ∧
    tombstone.isExpired before.now before.index.tombstoneTtlSecs = false ∧
      (clock.compare tombstone.clock = .before ∨ clock.compare tombstone.clock = .equal)

/-- The step works on an update that a tombstone covers, and makes its path exist. -/
def Resurrects (act : Act ι) : Prop :=
  ∃ number device task fetch after tombstone,
    act = .resume number device ∧ before.tasks[number]? = some task ∧
      task.stage.fetch? = some fetch ∧ fetch.Updates path ∧
        Buries path before fetch.origin.clock tombstone ∧ before.next ctx act = some after ∧
          ((before.disk.pathExists path = false ∧ after.disk.pathExists path = true) ∨
            (Merkle.findNode path before.index.tree = none ∧
              (Merkle.findNode path after.index.tree).isSome))

/-- The ways a tombstone is recorded. -/
inductive Records : Act ι → Tombstone → Prop where
  | erased (reads : FsReads) (deleted : RelPath) (rest : List FsEvent)
      (queue : before.watch.fsQueue = .removed deleted :: rest) :
      Records (.fsEvent reads) ⟨deleted.toStringLossy, before.index.localPeer,
        before.index.clockOf deleted, before.now⟩
  | forgotten (number : Nat) (device : Device) (task : Task ι) (tombstone : Tombstone)
      (deleted : SafePath) (found : before.tasks[number]? = some task)
      (stage : task.stage = .removed tombstone deleted) : Records (.resume number device) tombstone

/-- The steps that keep deleted files deleted. -/
structure KeepsBuried (act : Act ι) : Prop where
  /-- The wall clock is not set back. -/
  forward : ∀ now, act = .setTime now → before.now ≤ now
  /-- An update that a tombstone covers is delivered only if the recorded clock rejects it. -/
  rejected : ∀ source (safe : SafePath) hash chunks clock timestamp writer device tombstone,
    act = .notified source (.fileChanged safe.raw hash chunks clock timestamp writer) device →
      writer ≠ ctx.localId → safe.rel = path → Buries path before clock tombstone →
        clock.counter ≤ (before.index.clockOf path).counter
  /-- No tombstone is recorded over a fetch it covers. -/
  unburied : ∀ tombstone fetch, Records before act tombstone → tombstone.Names path →
    tombstone.isExpired before.now before.index.tombstoneTtlSecs = false →
      before.InFlight fetch → fetch.Updates path →
        ¬ (fetch.origin.clock.compare tombstone.clock = .before ∨
          fetch.origin.clock.compare tombstone.clock = .equal)

variable {ctx path before}

theorem Step.tombstones {act : Act ι} {after : Peer ι} {published : Option SyncNotification}
    {tombstone : Tombstone} (stepped : Step ctx before act after published)
    (recorded : tombstone ∈ after.index.tombstones) :
    tombstone ∈ before.index.tombstones ∨ Records before act tombstone := by
  cases stepped with
  | erased reads deleted rest watch queue =>
      rcases List.mem_append.mp recorded with old | new
      · exact Or.inl old
      · rw [List.mem_singleton.mp new]
        exact Or.inr (.erased reads deleted rest queue)
  | lost =>
      rw [spawn, backUp_index] at recorded
      exact Or.inl recorded
  | resumed number device task after task' found ran =>
      cases run_cases ran with
      | forgotten tombstone' deleted stage =>
          rcases List.mem_append.mp recorded with old | new
          · exact Or.inl old
          · rw [List.mem_singleton.mp new]
            exact Or.inr (.forgotten number device task tombstone' deleted found stage)
      | _ => exact Or.inl recorded
  | _ => exact Or.inl recorded

/-- The wall clock changes only when it is set. -/
theorem Step.now {act : Act ι} {after : Peer ι} {published : Option SyncNotification}
    (stepped : Step ctx before act after published)
    (forward : ∀ now, act = .setTime now → before.now ≤ now) : before.now ≤ after.now := by
  cases stepped with
  | timeSet now => exact forward now rfl
  | lost =>
      rw [spawn, backUp_now]
  | resumed number device task after task' found ran =>
      cases run_cases ran <;> exact Nat.le_refl _
  | _ => exact Nat.le_refl _

omit [Blake3] in
theorem isExpired_mono {tombstone : Tombstone} {early late ttlSecs : Nat} (later : early ≤ late)
    (alive : tombstone.isExpired late ttlSecs = false) :
    tombstone.isExpired early ttlSecs = false := by
  simp only [Tombstone.isExpired, gt_iff_lt, decide_eq_false_iff_not, not_lt] at alive ⊢
  omega

/-- No tombstone covers an update in flight. -/
def Unburied (path : RelPath) (peer : Peer ι) : Prop :=
  ∀ fetch tombstone, peer.InFlight fetch → fetch.Updates path →
    ¬ Buries path peer fetch.origin.clock tombstone

omit [Blake3] in
/-- A started update is newer than the recorded clock, or concurrent with it. -/
theorem Starts.not_le {act : Act ι} {fetch : Fetch ι} (started : Starts ctx before act fetch)
    (updates : fetch.Updates path) :
    ∃ source, ∃ safe : SafePath, ∃ hash chunks clock timestamp writer device,
      act = .notified source (.fileChanged safe.raw hash chunks clock timestamp writer) device ∧
        writer ≠ ctx.localId ∧ safe.rel = path ∧ fetch.origin.clock = clock ∧
          ¬ clock.counter ≤ (before.index.clockOf path).counter := by
  obtain ⟨here, hash', cause⟩ := updates
  cases started with
  | accepted source safe hash chunks clock timestamp writer device foreign newer =>
      subst here
      exact ⟨source, safe, hash, chunks, clock, timestamp, writer, device, rfl, foreign, rfl, rfl,
        not_le_of_gt newer⟩
  | lost source safe hash chunks clock timestamp writer device foreign concurrent =>
      subst here
      exact ⟨source, safe, hash, chunks, clock, timestamp, writer, device, rfl, foreign, rfl, rfl,
        (VectorClock.compare_concurrent_iff.mp concurrent).2⟩
  | kept => simp at cause
  | reconciled => simp at cause

theorem Unburied.step {act : Act ι} {after : Peer ι} (unburied : Unburied path before)
    (keeps : KeepsBuried ctx path before act) (stepped : before.next ctx act = some after) :
    Unburied path after := by
  obtain ⟨published, cases⟩ := next_cases stepped
  rintro fetch tombstone flying updates ⟨recorded, names, alive, covered⟩
  rw [cases.fixed.tombstoneTtlSecs] at alive
  have alive := isExpired_mono (cases.now keeps.forward) alive
  rcases cases.tombstones recorded with old | new
  · rcases cases.working flying with earlier | started
    · exact unburied fetch tombstone earlier updates ⟨old, names, alive, covered⟩
    · obtain ⟨source, safe, hash, chunks, clock, timestamp, writer, device, delivered, foreign,
        here, same, ahead⟩ := started.not_le updates
      exact ahead (keeps.rejected source safe hash chunks clock timestamp writer device tombstone
        delivered foreign here ⟨old, names, alive, same ▸ covered⟩)
  · rcases cases.working flying with earlier | started
    · exact keeps.unburied tombstone fetch new names alive earlier updates covered
    · obtain ⟨source, safe, hash, chunks, clock, timestamp, writer, device, delivered, _⟩ :=
        started.not_le updates
      subst delivered
      cases new

/-- **No deleted file comes back** in a run whose steps keep deleted files deleted. -/
theorem no_resurrection {disk : Disk} {excludePatterns : List Str} {now : Nat}
    {first last : Peer ι} {trace : List (Peer ι × Act ι)}
    (started : start ctx disk excludePatterns now = some first)
    (run : Run (next ctx) first trace last)
    (keeps : ∀ entry ∈ trace, KeepsBuried ctx path entry.1 entry.2) :
    ∀ entry ∈ trace, ¬ Resurrects ctx path entry.1 entry.2 := by
  have initial : Unburied path first := by
    rintro fetch tombstone ⟨task, member, _⟩
    rw [(start_index started).2.1] at member
    exact absurd member List.not_mem_nil
  have unburied := run.invariant_left (Unburied path) (KeepsBuried ctx path) keeps initial
    fun before act after held allowed stepped => held.step allowed stepped
  rintro entry member ⟨number, device, task, fetch, after, tombstone, _, found, working, updates,
    buries, _⟩
  exact unburied entry member fetch tombstone
    (inFlight_of_mem (List.mem_of_getElem? found) working) updates buries

end Peer

/-! ## An update that arrives after its deletion -/

namespace Peer

attribute [local instance] Sample.blake3

/-- A peer deletes `f` for a tombstone with clock `2 ↦ 2`, then hears of the version `2 ↦ 1`
and fetches it, up to the write. -/
def lateUpdate : List (Act Sample.Site) :=
  [.notified .two (.fileDeleted ⟨['f'], Sample.peerId 2,
      (VectorClock.new.tick (Sample.peerId 2)).tick (Sample.peerId 2), 20⟩) {},
    .resume 0 {},
    .notified .two (.fileChanged ['f'] (Blake3.hash []) (Chunk.metadata [7] 2)
      (VectorClock.new.tick (Sample.peerId 2)) 5 (Sample.peerId 2)) {},
    .respond 1 (some (.chunks ['f'] [(0, [7])])),
    .resume 1 {}]

/-- The next step of task 1 brings `f` back for the version `2 ↦ 1`, under a live
tombstone. -/
def bringsBack (peer : Peer Sample.Site) : Bool :=
  (peer.index.tombstones.any fun tombstone =>
    decide (tombstone.path = ['f']) &&
      (!tombstone.isExpired peer.now peer.index.tombstoneTtlSecs) &&
        decide ((VectorClock.new.tick (Sample.peerId 2)).compare tombstone.clock = .before)) &&
  !peer.disk.pathExists Sample.path &&
  (peer.tasks[1]?.any fun task =>
    match task.stage with
    | .loaded ⟨_, path, _, origin, .accepted _⟩ _ =>
        decide (path.rel = Sample.path) &&
          decide (origin.clock = VectorClock.new.tick (Sample.peerId 2))
    | _ => false) &&
  (peer.next (Sample.ctx .one) (.resume 1 {})).any fun after => after.disk.pathExists Sample.path

theorem resurrects_of_bringsBack {peer : Peer Sample.Site} (passed : bringsBack peer = true) :
    ∃ after, peer.next (Sample.ctx .one) (.resume 1 {}) = some after ∧
      Resurrects (Sample.ctx .one) Sample.path peer (.resume 1 {}) := by
  simp only [bringsBack, Bool.and_eq_true, Bool.not_eq_true', Option.any_eq_true,
    List.any_eq_true, decide_eq_true_eq] at passed
  obtain ⟨⟨⟨⟨tombstone, recorded, ⟨named, alive⟩, covered⟩, absent⟩, task, found, working⟩, after,
    stepped, present⟩ := passed
  split at working
  · rename_i source path indices origin hash data stage
    simp only [Bool.and_eq_true, decide_eq_true_eq] at working
    have buries : Buries Sample.path peer origin.clock tombstone :=
      ⟨recorded, Or.inr named, alive, Or.inl (working.2 ▸ covered)⟩
    refine ⟨after, stepped, 1, {}, task, ⟨source, path, indices, origin, .accepted hash⟩, after,
      tombstone, rfl, found, ?_, ⟨working.1, hash, Or.inl rfl⟩, buries, stepped,
      Or.inl ⟨absent, present⟩⟩
    rw [stage]
    rfl
  · exact absurd working Bool.false_ne_true

/-- A deleted file comes back, within the lifetime of its tombstone. -/
theorem exists_resurrection :
    ∃ trace last, Run (next (Sample.ctx .one)) (Sample.peer .one [1]) trace last ∧
      ∃ entry ∈ trace, Resurrects (Sample.ctx .one) Sample.path entry.1 entry.2 := by
  obtain ⟨trace, peer, run, _, passed⟩ := exists_run_of_any (by decide +kernel :
    (runActs (next (Sample.ctx .one)) (Sample.peer .one [1]) lateUpdate).any bringsBack = true)
  obtain ⟨after, stepped, resurrects⟩ := resurrects_of_bringsBack passed
  exact ⟨_, after, run.snoc stepped, (peer, .resume 1 {}),
    List.mem_append_right _ (List.mem_singleton_self _), resurrects⟩

/-- Nothing is fetched, no time is set, and what is delivered is a deletion or an update with the
empty clock, which no recorded clock is below. -/
def undisturbed (peer : Peer Sample.Site) (act : Act Sample.Site) : Bool :=
  (peer.tasks.all fun task => task.stage.fetch?.isNone) &&
    match act with
    | .setTime _ => false
    | .notified _ (.fileChanged _ _ _ clock _ _) _ => decide (clock = .new)
    | _ => true

theorem keepsBuried_of_undisturbed {peer : Peer Sample.Site} {act : Act Sample.Site}
    (calm : undisturbed peer act = true) :
    KeepsBuried (Sample.ctx .one) Sample.path peer act := by
  rw [undisturbed.eq_def, Bool.and_eq_true] at calm
  obtain ⟨idle, passed⟩ := calm
  constructor
  case forward =>
    rintro now rfl
    exact absurd passed Bool.false_ne_true
  case rejected =>
    rintro source safe hash chunks clock timestamp writer device tombstone rfl _ _ _
    obtain rfl : clock = .new := of_decide_eq_true passed
    exact fun peer => Nat.zero_le _
  case unburied =>
    rintro tombstone fetch _ _ _ ⟨task, member, working⟩
    have none := List.all_eq_true.mp idle task member
    rw [working.1] at none
    exact absurd none Bool.false_ne_true

/-- The step delivers an update of `f` that a live tombstone covers. -/
def DeliversCovered (peer : Peer Sample.Site) (act : Act Sample.Site) : Prop :=
  ∃ source hash chunks clock timestamp writer device tombstone,
    act = .notified source (.fileChanged ['f'] hash chunks clock timestamp writer) device ∧
      writer ≠ Sample.peerId 1 ∧ Buries Sample.path peer clock tombstone

/-- The same, as a test. -/
def deliversCovered (peer : Peer Sample.Site) : Act Sample.Site → Bool
  | .notified _ (.fileChanged raw _ _ clock _ writer) _ =>
      decide (raw = ['f'] ∧ writer ≠ Sample.peerId 1) &&
        peer.index.tombstones.any fun tombstone =>
          decide (tombstone.path = ['f'] ∧ clock.compare tombstone.clock = .before) &&
            !tombstone.isExpired peer.now peer.index.tombstoneTtlSecs
  | _ => false

theorem delivers_of_deliversCovered {peer : Peer Sample.Site} {act : Act Sample.Site}
    (passed : deliversCovered peer act = true) : DeliversCovered peer act := by
  cases act with
  | notified source notification device =>
      cases notification with
      | fileChanged raw hash chunks clock timestamp writer =>
          simp only [deliversCovered, Bool.and_eq_true, decide_eq_true_eq, List.any_eq_true,
            Bool.not_eq_true'] at passed
          obtain ⟨⟨rfl, foreign⟩, tombstone, recorded, ⟨named, covered⟩, alive⟩ := passed
          exact ⟨source, hash, chunks, clock, timestamp, writer, device, tombstone, rfl, foreign,
            recorded, Or.inr named, alive, Or.inl covered⟩
      | _ => exact absurd passed Bool.false_ne_true
  | _ => exact absurd passed Bool.false_ne_true

/-- A peer deletes `f` for a tombstone, and then hears of a stale version of it from two peers. -/
def staleUpdates : List (Act Sample.Site) :=
  let stale : SyncNotification :=
    .fileChanged ['f'] (Blake3.hash []) (Chunk.metadata [7] 2) .new 5 (Sample.peerId 2)
  [.notified .two (.fileDeleted ⟨['f'], Sample.peerId 2,
      (VectorClock.new.tick (Sample.peerId 2)).tick (Sample.peerId 2), 20⟩) {},
    .resume 0 {}, .notified .two stale {}, .watched (.removed Sample.path),
    .notified .three stale {}]

/-- A covered update came, and `f` is gone in the end, on the disk and in the tree. -/
def staysGone (trace : List (Peer Sample.Site × Act Sample.Site)) (last : Peer Sample.Site) :
    Bool :=
  trace.any (fun entry => deliversCovered entry.1 entry.2) &&
    (!last.disk.pathExists Sample.path && (Merkle.findNode Sample.path last.index.tree).isNone)

/-- A peer that deletes `f` for another one keeps it deleted, though covered updates come. -/
theorem no_resurrection_sample :
    ∃ trace last, Run (next (Sample.ctx .one)) (Sample.peer .one [1]) trace last ∧
      (∃ entry ∈ trace, DeliversCovered entry.1 entry.2) ∧
        (∀ entry ∈ trace, ¬ Resurrects (Sample.ctx .one) Sample.path entry.1 entry.2) ∧
          last.disk.pathExists Sample.path = false ∧
            Merkle.findNode Sample.path last.index.tree = none := by
  obtain ⟨trace, last, run, _, calm, passed⟩ := exists_history_run (by decide +kernel :
    (runTrace (next (Sample.ctx .one)) (Sample.peer .one [1]) staleUpdates).any (fun traced =>
      historyAll (fun _ entry => undisturbed entry.1 entry.2) [] traced.1 &&
        staysGone traced.1 traced.2) = true)
  simp only [staysGone, Bool.and_eq_true, List.any_eq_true, Bool.not_eq_true',
    Option.isNone_iff_eq_none] at passed
  obtain ⟨⟨entry, member, covered⟩, absent, missing⟩ := passed
  refine ⟨trace, last, run, ⟨entry, member, delivers_of_deliversCovered covered⟩, ?_, absent,
    missing⟩
  refine no_resurrection (Sample.start_peer .one [1]) run fun entry member => ?_
  obtain ⟨earlier, later, split⟩ := List.append_of_mem member
  exact keepsBuried_of_undisturbed (calm earlier entry later split)

end Peer

end P2Sync
