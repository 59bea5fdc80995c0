import P2Sync.Sync.Forward
import P2Sync.Sync.Grounds
import P2Sync.Sync.Causal

/-!
# A peer that only receives

With `no_push` a peer drops the events for its folder. So it counts no edit, and nobody else counts
one for it: wherever in its group a clock is recorded, asked under, published or buried, the clock
has no count for that peer, and no change and no removal is published in its name
(`Swarm.uncounted_of_run`).

Requests it answers as any other peer does, so a reconciliation still takes from it what it has.
-/

set_option autoImplicit false

namespace P2Sync

/-- Who a notification names as the writer of a change or of a removal. -/
def SyncNotification.writer? : SyncNotification → Option PeerId
  | .fileChanged _ _ _ _ _ writer => some writer
  | .fileDeleted tombstone => some tombstone.deletedBy
  | .peerJoined _ => none

/-! ## One step -/

namespace Peer

variable {ι : Type}

/-- The clocks that a peer has: those it records, fetches under and buries. -/
inductive Has (peer : Peer ι) : VectorClock → Prop where
  | recorded (path : RelPath) : Has peer (peer.index.clockOf path)
  | fetched (fetch : Fetch ι) (working : peer.InFlight fetch) : Has peer fetch.origin.clock
  | buried (tombstone : Tombstone) (member : tombstone ∈ peer.index.tombstones) :
      Has peer tombstone.clock
  | unlinked (task : Task ι) (member : task ∈ peer.tasks) (tombstone : Tombstone)
      (path : SafePath) (removed : task.stage = .removed tombstone path) :
      Has peer tombstone.clock

variable [Blake3] {ctx : Ctx ι} {before after : Peer ι} {act : Act ι}
  {published : Option SyncNotification}

/-- What the tombstones of a peer are made of. -/
theorem Step.mem_tombstones (stepped : Step ctx before act after published) {tombstone : Tombstone}
    (member : tombstone ∈ after.index.tombstones) :
    tombstone ∈ before.index.tombstones ∨
      (∃ path, tombstone.clock = before.index.clockOf path) ∨
        ∃ task ∈ before.tasks, ∃ path, task.stage = .removed tombstone path := by
  cases stepped with
  | erased reads path =>
      rcases List.mem_append.mp member with old | new
      · exact Or.inl old
      · rw [List.mem_singleton.mp new]
        exact Or.inr (Or.inl ⟨path, rfl⟩)
  | lost source path =>
      change tombstone ∈ (before.backUp _ path ctx.localId).index.tombstones at member
      rw [backUp_index] at member
      exact Or.inl member
  | resumed number device entry middle entry' found ran =>
      cases run_cases ran with
      | forgotten buried path unlinked =>
          rcases List.mem_append.mp member with old | new
          · exact Or.inl old
          · rw [List.mem_singleton.mp new]
            exact Or.inr (Or.inr ⟨entry, List.mem_of_getElem? found, path, unlinked⟩)
      | _ => exact Or.inl member
  | _ => exact Or.inl member

/-- How a clock that a peer has after a step comes about. -/
inductive Comes (ctx : Ctx ι) (before : Peer ι) (act : Act ι) : VectorClock → Prop where
  | had (clock : VectorClock) (had : before.Has clock) : Comes ctx before act clock
  | new : Comes ctx before act .new
  | ticked (path : RelPath) (pushing : ctx.noPush = false) :
      Comes ctx before act ((before.index.clockOf path).tick before.index.localPeer)
  | merged (left right : VectorClock) (one : before.Has left) (other : before.Has right) :
      Comes ctx before act (left.merge right)
  | heard (source : ι) (notification : SyncNotification) (device : Device) (clock : VectorClock)
      (happened : act = .notified source notification device)
      (about : notification.clock? = some clock) : Comes ctx before act clock

theorem Step.has (stepped : Step ctx before act after published) {clock : VectorClock}
    (has : after.Has clock) : Comes ctx before act clock := by
  cases has with
  | recorded path =>
      rcases stepped.clockOf with same | reclocks
      · rw [same]
        exact .had _ (.recorded path)
      · generalize after.index.clockOf path = clock at reclocks ⊢
        cases reclocks with
        | ticked reads picked => exact .ticked path (indexed_eq_some_iff.mp picked).2.1
        | merged number device task fetch data found stored here =>
            refine .merged _ _ (.recorded path) (.fetched fetch ?_)
            exact inFlight_of_mem (List.mem_of_getElem? found) (by rw [stored]; rfl)
        | erased => exact .new
        | forgotten => exact .new
  | fetched fetch working =>
      rcases stepped.working working with old | started
      · exact .had _ (.fetched fetch old)
      · cases started with
        | accepted | lost | kept => exact .heard _ _ _ _ rfl rfl
        | reconciled => exact .new
  | buried tombstone member =>
      rcases stepped.mem_tombstones member with old | ⟨path, same⟩ | ⟨task, there, path, removed⟩
      · exact .had _ (.buried tombstone old)
      · rw [same]
        exact .had _ (.recorded path)
      · exact .had _ (.unlinked task there tombstone path removed)
  | unlinked task member tombstone path removed =>
      rcases stepped.task member with old | made
      · exact .had _ (.unlinked task old tombstone path removed)
      · obtain ⟨source, device, happened, _⟩ := made.removed removed
        exact .heard source _ device _ happened rfl

/-- What a step publishes is about a clock that comes about in the same way. -/
theorem comes_of_published {notification : SyncNotification}
    (stepped : before.step ctx act = some (after, some notification)) {clock : VectorClock}
    (about : notification.clock? = some clock) : Comes ctx before act clock := by
  have pushing : ctx.noPush = false := by
    obtain ⟨_, _, _, pushing, _⟩ := published_cases stepped
    exact pushing
  generalize said : some notification = published at stepped
  cases step_cases stepped with
  | edited reads path data watch published picked unmarked included first announced =>
      obtain ⟨_, _, _, _, rfl⟩ := announced notification said.symm
      cases about
      exact .ticked path pushing
  | erased reads path rest watch queue =>
      cases said
      cases about
      exact .had _ (.recorded path)
  | _ => cases said

/-- It is in the name of the peer, which pushes. -/
theorem writer_of_published {notification : SyncNotification}
    (stepped : before.step ctx act = some (after, some notification)) {writer : PeerId}
    (named : notification.writer? = some writer)
    (own : before.index.localPeer = ctx.localId) :
    writer = ctx.localId ∧ ctx.noPush = false := by
  obtain ⟨_, _, _, pushing, ⟨_, _, _, _, _, _, _, rfl⟩ | ⟨_, _, _, _, rfl⟩⟩ :=
    published_cases stepped
  · cases named
    exact ⟨rfl, pushing⟩
  · cases named
    exact ⟨own, pushing⟩

end Peer

/-! ## Groups -/

namespace Swarm

variable {ι : Type}

/-- The clocks in a group: those the peers have, and those that were published. -/
inductive Held (swarm : Swarm ι) : VectorClock → Prop where
  | has (site : ι) (clock : VectorClock) (has : (swarm.peer site).Has clock) : Held swarm clock
  | published (notification : SyncNotification) (member : notification ∈ swarm.log)
      (clock : VectorClock) (about : notification.clock? = some clock) : Held swarm clock

/-- No clock counts an edit of a peer, and nothing is published in its name. -/
structure Uncounted (ctx : ι → Ctx ι) (peer : PeerId) (swarm : Swarm ι) : Prop where
  named : ∀ site, (swarm.peer site).index.localPeer = (ctx site).localId
  clocks : ∀ clock, Held swarm clock → clock.counter peer = 0
  writers : ∀ notification ∈ swarm.log, notification.writer? ≠ some peer

variable [DecidableEq ι] [Blake3] {ctx : ι → Ctx ι} {receiver : ι} {before after : Swarm ι}
  {turn : Turn ι}

omit [DecidableEq ι] in
/-- What comes about at a peer is not counted either. -/
theorem Uncounted.of_comes (distinct : Function.Injective fun site => (ctx site).localId)
    (receives : (ctx receiver).noPush = true)
    (uncounted : before.Uncounted ctx (ctx receiver).localId) {site : ι} {act : Act ι}
    (does : Does ctx before turn site act) {clock : VectorClock}
    (comes : Peer.Comes (ctx site) (before.peer site) act clock) :
    clock.counter (ctx receiver).localId = 0 := by
  cases comes with
  | had clock had => exact uncounted.clocks clock (.has site clock had)
  | new => rfl
  | ticked path pushing =>
      have apart : (ctx receiver).localId ≠ (before.peer site).index.localPeer := by
        rw [uncounted.named]
        intro same
        rw [← distinct same, receives] at pushing
        exact absurd pushing.symm Bool.false_ne_true
      rw [VectorClock.counter_tick_of_ne _ apart]
      exact uncounted.clocks _ (.has site _ (.recorded path))
  | merged left right one other =>
      rw [VectorClock.counter_merge, Pi.sup_apply, uncounted.clocks left (.has site left one),
        uncounted.clocks right (.has site right other), sup_idem]
  | heard source notification device clock happened about =>
      subst happened
      cases does with
      | own _ _ own => exact absurd own Bool.false_ne_true
      | delivered _ _ _ _ listed => exact uncounted.clocks clock (.published _ listed clock about)

/-- **No turn counts an edit of a peer that only receives.** -/
theorem Uncounted.step (distinct : Function.Injective fun site => (ctx site).localId)
    (receives : (ctx receiver).noPush = true)
    (uncounted : before.Uncounted ctx (ctx receiver).localId)
    (stepped : before.step ctx turn = some after) :
    after.Uncounted ctx (ctx receiver).localId := by
  obtain ⟨site, act, next, published, does, taken, rfl⟩ := exists_does stepped
  have cases := Peer.step_cases taken
  refine ⟨fun other => ?_, fun clock held => ?_, fun notification member named => ?_⟩
  · dsimp only
    by_cases here : other = site
    · rw [here, Function.update_self, cases.fixed.localPeer, uncounted.named]
    · rw [Function.update_of_ne here, uncounted.named]
  · cases held with
    | has other clock has =>
        dsimp only at has
        by_cases here : other = site
        · rw [here, Function.update_self] at has
          exact uncounted.of_comes distinct receives does (cases.has has)
        · rw [Function.update_of_ne here] at has
          exact uncounted.clocks clock (.has other clock has)
    | published notification member clock about =>
        rcases List.mem_append.mp member with old | new
        · exact uncounted.clocks clock (.published notification old clock about)
        · rw [Option.mem_toList.mp new] at taken
          exact uncounted.of_comes distinct receives does (Peer.comes_of_published taken about)
  · rcases List.mem_append.mp member with old | new
    · exact uncounted.writers notification old named
    · rw [Option.mem_toList.mp new] at taken
      obtain ⟨same, pushing⟩ := Peer.writer_of_published taken named (uncounted.named site)
      rw [← distinct same, receives] at pushing
      exact absurd pushing.symm Bool.false_ne_true

omit [DecidableEq ι] in
/-- A group that starts has counted nothing. -/
theorem uncounted_start {first : Swarm ι} (peer : PeerId)
    (started : ∀ site, ∃ disk excludePatterns now,
      Peer.start (ctx site) disk excludePatterns now = some (first.peer site))
    (unpublished : first.log = []) : first.Uncounted ctx peer := by
  refine ⟨fun site => ?_, fun clock held => ?_, fun notification member => ?_⟩
  · obtain ⟨disk, excludePatterns, now, begun⟩ := started site
    exact (Peer.start_index begun).1
  · cases held with
    | has site clock has =>
        obtain ⟨disk, excludePatterns, now, begun⟩ := started site
        obtain ⟨-, tasks, -, clocks⟩ := Peer.start_index begun
        cases has with
        | recorded path => rw [clocks path]; rfl
        | fetched fetch working =>
            obtain ⟨task, member, -⟩ := working
            exact absurd (tasks ▸ member) List.not_mem_nil
        | buried tombstone member =>
            obtain ⟨index, built, same⟩ := Option.map_eq_some_iff.mp begun
            obtain ⟨tree, -, rfl⟩ := Option.map_eq_some_iff.mp built
            rw [← same] at member
            exact absurd member List.not_mem_nil
        | unlinked task member => exact absurd (tasks ▸ member) List.not_mem_nil
    | published notification member => exact absurd (unpublished ▸ member) List.not_mem_nil
  · exact absurd (unpublished ▸ member) List.not_mem_nil

/-- **Nobody counts an edit of a peer that only receives**: in every state of every run of a group,
no clock that is recorded, fetched under, buried or published has a count for it, and nothing was
published in its name. -/
theorem uncounted_of_run {first last : Swarm ι} {trace : List (Swarm ι × Turn ι)}
    (distinct : Function.Injective fun site => (ctx site).localId)
    (started : ∀ site, ∃ disk excludePatterns now,
      Peer.start (ctx site) disk excludePatterns now = some (first.peer site))
    (unpublished : first.log = []) (run : Run (step ctx) first trace last)
    (receives : (ctx receiver).noPush = true) :
    (∀ clock, Held last clock → clock.counter (ctx receiver).localId = 0) ∧
      ∀ notification ∈ last.log, notification.writer? ≠ some (ctx receiver).localId := by
  have uncounted := run.invariant (fun swarm => swarm.Uncounted ctx (ctx receiver).localId)
    (fun _ _ => True) (fun _ _ => trivial) (uncounted_start _ started unpublished)
    fun _ _ _ held _ stepped => held.step distinct receives stepped
  exact ⟨uncounted.clocks, uncounted.writers⟩

end Swarm

/-! ## A concrete run -/

namespace Swarm

attribute [local instance] Sample.blake3

/-- The first peer only receives. -/
def receiving (site : Sample.Site) : Ctx Sample.Site :=
  { Sample.ctx site with noPush := site = .one }

/-- The first peer saves `f`, of which nothing is published, and the second one takes it in a
reconciliation. -/
def takes : List (Turn Sample.Site) :=
  Sample.saves .one [5] ++
    [.own .two (.discovered .one), .serve .two 0 none, .own .two (.resume 0 {}),
      .serve .two 0 none, .own .two (.resume 0 {}), .own .two (.resume 0 {})] ++
    Sample.fetches .two 0

theorem distinct_receiving : Function.Injective fun site => (receiving site).localId := by
  intro first second same
  cases first <;> cases second <;> first | rfl | exact absurd same (by decide)

theorem start_receiving (site : Sample.Site) (data : Bytes) :
    Peer.start (receiving site) (Sample.folder data) [] 10 = some (Sample.peer site data) := rfl

/-- The change is taken over, but nobody counts it and nothing is published. -/
theorem exists_uncounted :
    ∃ trace last, Run (step receiving) (Sample.swarm fun site => if site = .one then [1] else [2])
        trace last ∧ trace.map Prod.snd = takes ∧
      (last.peer .two).disk.read Sample.path = some [5] ∧
        (∀ clock, Held last clock → clock.counter (receiving .one).localId = 0) ∧
          ∀ notification ∈ last.log, notification.writer? ≠ some (receiving .one).localId := by
  obtain ⟨trace, last, run, turns, taken⟩ := exists_run_of_any (by decide +kernel :
    (runActs (step receiving) (Sample.swarm fun site => if site = .one then [1] else [2])
      takes).any (fun last => decide ((last.peer .two).disk.read Sample.path = some [5])) = true)
  exact ⟨trace, last, run, turns, of_decide_eq_true taken, uncounted_of_run distinct_receiving
    (fun site => ⟨_, _, _, start_receiving site _⟩) rfl run rfl⟩

end Swarm

end P2Sync
