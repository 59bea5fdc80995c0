import P2Sync.Net.Flight

/-!
# The clocks a peer publishes for a path

An indexed edit ticks the clock recorded for its path and publishes it. A deletion
publishes the recorded clock as it is, and drops it. So the clock of a deletion is that of
the version before, unless the recorded clock was raised since, and what is published
after a deletion starts again from nothing.

How the recorded clock stands to what was published is followed along a run (`Standing`).
As long as nothing is published where it may be behind, each published clock is strictly
after all earlier ones (`published_forward`).
-/

set_option autoImplicit false

namespace P2Sync

/-- The clock a notification carries. -/
def SyncNotification.clock? : SyncNotification → Option VectorClock
  | .fileChanged _ _ _ clock _ _ => some clock
  | .fileDeleted tombstone => some tombstone.clock
  | .peerJoined _ => none

/-- How the clock recorded for a path stands to the clocks published for it: nothing was
published, it includes them, it is above them, or a deletion has dropped it. -/
inductive Standing where
  | silent
  | level
  | raised
  | dropped
deriving DecidableEq

namespace Peer

variable {ι : Type} [Blake3] (ctx : Ctx ι) (path : RelPath)

/-- The clock a step publishes for a path. -/
def publishedFor (before : Peer ι) (act : Act ι) : Option VectorClock :=
  (before.step ctx act).bind fun stepped =>
    if before.watch.fsQueue.head?.map FsEvent.path = some path then
      stepped.2.bind SyncNotification.clock?
    else none

/-- What a step does to the standing of a path. -/
def standingAfter (standing : Standing) (before : Peer ι) (act : Act ι) : Standing :=
  match before.next ctx act with
  | none => standing
  | some after =>
      let change := (before.index.clockOf path).compare (after.index.clockOf path)
      let speaks := (publishedFor ctx path before act).isSome
      if change = .after then if standing = .silent ∧ speaks = false then .silent else .dropped
      else if standing = .dropped then .dropped
      else if speaks then .level
      else if change = .before ∧ standing = .level then .raised
      else standing

/-- The standing of a path at the end of a run. -/
def standing (trace : List (Peer ι × Act ι)) : Standing :=
  trace.foldl (fun standing entry => standingAfter ctx path standing entry.1 entry.2) .silent

/-- The clocks published for a path in a run. -/
def published (trace : List (Peer ι × Act ι)) : List VectorClock :=
  trace.filterMap fun entry => publishedFor ctx path entry.1 entry.2

/-- A step publishes nothing for a path where the recorded clock may be behind: no edit after
a deletion has dropped it, and no deletion unless it was raised since the last publication.
No counter overflows. -/
structure KeepsForward (earlier : List (Peer ι × Act ι)) (before : Peer ι) (act : Act ι) :
    Prop where
  changed : ∀ reads, act = .fsEvent reads → before.indexed ctx reads = some path →
    standing ctx path earlier ≠ .dropped
  deleted : ∀ reads rest, act = .fsEvent reads → ctx.noPush = false →
    before.watch.fsQueue = .removed path :: rest →
      standing ctx path earlier = .silent ∨ standing ctx path earlier = .raised
  room : ∀ reads, act = .fsEvent reads → before.indexed ctx reads = some path →
    ((before.index.clockOf path).counter before.index.localPeer).toNat + 1 < 2 ^ 64

variable {ctx path} {before after : Peer ι} {act : Act ι}

/-- What a step publishes for a path: the clock an edit ticks, or the one a deletion drops. -/
theorem publishedFor_cases {clock : VectorClock}
    (speaks : publishedFor ctx path before act = some clock)
    (stepped : before.next ctx act = some after) :
    (∃ reads, act = .fsEvent reads ∧ before.indexed ctx reads = some path ∧
        clock = (before.index.clockOf path).tick before.index.localPeer ∧
          after.index.clockOf path = clock) ∨
      ∃ reads rest, act = .fsEvent reads ∧ ctx.noPush = false ∧
        before.watch.fsQueue = .removed path :: rest ∧ clock = before.index.clockOf path ∧
          after.index.clockOf path = .new := by
  obtain ⟨⟨after', published⟩, taken, said⟩ := Option.bind_eq_some_iff.mp speaks
  obtain rfl : after' = after := by
    rw [next, taken] at stepped
    exact Option.some.inj stepped
  rw [Option.ite_none_right_eq_some] at said
  obtain ⟨here, carried⟩ := said
  cases step_cases taken with
  | edited reads path' data watch published picked unmarked included first announced =>
      obtain ⟨notification, rfl, held⟩ := Option.bind_eq_some_iff.mp carried
      obtain ⟨raw, content, wire, second, rfl⟩ := announced notification rfl
      obtain rfl : path' = path := by
        obtain ⟨⟨rest, created | modified⟩, _⟩ := indexed_eq_some_iff.mp picked
        · rw [created] at here
          exact Option.some.inj here
        · rw [modified] at here
          exact Option.some.inj here
      obtain rfl := Option.some.inj held
      refine Or.inl ⟨reads, rfl, picked, rfl, ?_⟩
      rw [SyncIndex.clockOf_ticked, if_pos rfl]
  | erased reads path' rest watch queue =>
      rw [queue] at here
      obtain rfl : path' = path := Option.some.inj here
      obtain rfl := Option.some.inj carried
      refine Or.inr ⟨reads, rest, rfl, ?_, queue, rfl, ?_⟩
      · by_contra readOnly
        rw [Peer.step, queue] at taken
        simp [readOnly] at taken
      · rw [SyncIndex.clockOf_localFileDeleted, if_pos rfl]
  | _ => exact absurd carried (Option.some_ne_none _).symm

/-- A step that publishes nothing for a path does not lower its clock, or forgets it. -/
theorem clock_of_silent
    (room : ∀ reads, act = .fsEvent reads → before.indexed ctx reads = some path →
      ((before.index.clockOf path).counter before.index.localPeer).toNat + 1 < 2 ^ 64)
    (stepped : before.next ctx act = some after) :
    (before.index.clockOf path).counter ≤ (after.index.clockOf path).counter ∨
      after.index.clockOf path = .new := by
  obtain ⟨_, cases⟩ := next_cases stepped
  rcases @Step.clockOf _ _ ctx before path _ _ _ cases with same | reclocks
  · exact Or.inl (le_of_eq (by rw [same]))
  · generalize after.index.clockOf path = clock at reclocks
    cases reclocks with
    | ticked reads picked => exact Or.inl (VectorClock.le_tick (room reads rfl picked)).le
    | merged =>
        rw [VectorClock.counter_merge]
        exact Or.inl le_sup_left
    | erased | forgotten => exact Or.inr rfl

/-- A step after which the recorded clock is not before the old one has not lowered it. -/
theorem clock_le (room : ∀ reads, act = .fsEvent reads → before.indexed ctx reads = some path →
      ((before.index.clockOf path).counter before.index.localPeer).toNat + 1 < 2 ^ 64)
    (stepped : before.next ctx act = some after)
    (kept : (before.index.clockOf path).compare (after.index.clockOf path) ≠ .after) :
    (before.index.clockOf path).counter ≤ (after.index.clockOf path).counter := by
  rcases clock_of_silent room stepped with grown | forgotten
  · exact grown
  · rw [Ne, VectorClock.compare_after_iff, forgotten, VectorClock.counter_new,
      bot_lt_iff_ne_bot, not_not] at kept
    rw [kept]
    exact bot_le

end Peer

/-! ## Publications go forward -/

/-- What a standing says about the clocks published so far. -/
def Standing.Holds (recorded : VectorClock) (clocks : List VectorClock) : Standing → Prop
  | .silent => clocks = []
  | .level => ∀ clock ∈ clocks, clock.counter ≤ recorded.counter
  | .raised => ∀ clock ∈ clocks, clock.counter < recorded.counter
  | .dropped => True

theorem Standing.Holds.le {recorded : VectorClock} {clocks : List VectorClock}
    {standing : Standing} (holds : standing.Holds recorded clocks) (kept : standing ≠ .dropped) :
    ∀ clock ∈ clocks, clock.counter ≤ recorded.counter := by
  cases standing with
  | silent =>
      obtain rfl : clocks = [] := holds
      exact fun clock member => absurd member List.not_mem_nil
  | level => exact holds
  | raised => exact fun clock member => (holds clock member).le
  | dropped => exact absurd rfl kept

namespace Peer

variable {ι : Type} [Blake3] {ctx : Ctx ι} {path : RelPath} {first last : Peer ι}
  {trace : List (Peer ι × Act ι)}

theorem standing_snoc (entry : Peer ι × Act ι) :
    standing ctx path (trace ++ [entry]) =
      standingAfter ctx path (standing ctx path trace) entry.1 entry.2 := by
  rw [standing, List.foldl_append]
  rfl

theorem published_snoc (entry : Peer ι × Act ι) :
    published ctx path (trace ++ [entry]) =
      published ctx path trace ++ (publishedFor ctx path entry.1 entry.2).toList := by
  rw [published, List.filterMap_append]
  cases speaks : publishedFor ctx path entry.1 entry.2 with
  | none => simp [published, speaks]
  | some clock => simp [published, speaks]

/-- The clocks published so far go forward, and the standing of the path is as it says. -/
structure Forward (ctx : Ctx ι) (path : RelPath) (trace : List (Peer ι × Act ι)) (peer : Peer ι) :
    Prop where
  holds : (standing ctx path trace).Holds (peer.index.clockOf path) (published ctx path trace)
  ordered : (published ctx path trace).Pairwise fun earlier later =>
    later.compare earlier = .after

/-- A step that publishes nothing for the path. -/
theorem Forward.quiet {before after : Peer ι} {act : Act ι}
    (forward : Forward ctx path trace before) (keeps : KeepsForward ctx path trace before act)
    (stepped : before.next ctx act = some after)
    (silence : publishedFor ctx path before act = none) :
    Forward ctx path (trace ++ [(before, act)]) after := by
  obtain ⟨holds, ordered⟩ := forward
  refine ⟨?_, ?_⟩
  · rw [standing_snoc, published_snoc, standingAfter, stepped, silence, Option.toList_none,
      List.append_nil]
    simp only [Option.isSome_none, Bool.false_eq_true, if_false, and_true]
    split_ifs with lowered unheard gone raised
    · exact (by rwa [unheard] at holds : Standing.silent.Holds _ _)
    · trivial
    · trivial
    · exact fun clock member => (holds.le gone clock member).trans_lt
        (VectorClock.compare_before_iff.mp raised.1)
    · have grown := clock_le keeps.room stepped lowered
      generalize standing ctx path trace = standing at holds
      cases standing with
      | silent => exact holds
      | level => exact fun clock member => (holds clock member).trans grown
      | raised => exact fun clock member => (holds clock member).trans_le grown
      | dropped => trivial
  · rwa [published_snoc, silence, Option.toList_none, List.append_nil]

/-- A step that publishes a clock for the path. -/
theorem Forward.speaks {before after : Peer ι} {act : Act ι} {clock : VectorClock}
    (forward : Forward ctx path trace before) (keeps : KeepsForward ctx path trace before act)
    (stepped : before.next ctx act = some after)
    (spoken : publishedFor ctx path before act = some clock) :
    Forward ctx path (trace ++ [(before, act)]) after := by
  obtain ⟨holds, ordered⟩ := forward
  -- the new clock is above the old ones, and still recorded unless the clock was lowered
  obtain ⟨above, level⟩ : (∀ old ∈ published ctx path trace, old.counter < clock.counter) ∧
      ((before.index.clockOf path).compare (after.index.clockOf path) ≠ .after →
        clock.counter ≤ (after.index.clockOf path).counter) := by
    rcases publishedFor_cases spoken stepped with
      ⟨reads, rfl, picked, ticked, recorded⟩ | ⟨reads, rest, rfl, pushing, queue, recorded, gone⟩
    · refine ⟨fun old member => ?_, fun _ => le_of_eq (by rw [recorded])⟩
      rw [ticked]
      exact (holds.le (keeps.changed reads rfl picked) old member).trans_lt
        (VectorClock.le_tick (keeps.room reads rfl picked))
    · refine ⟨?_, fun kept => ?_⟩
      · rw [recorded]
        rcases keeps.deleted reads rest rfl pushing queue with silent | raised
        · rw [silent] at holds
          intro old member
          rw [(holds : published ctx path trace = [])] at member
          exact absurd member List.not_mem_nil
        · rw [raised] at holds
          exact holds
      · rw [recorded]
        exact clock_le keeps.room stepped kept
  refine ⟨?_, ?_⟩
  · rw [standing_snoc, published_snoc, standingAfter, stepped, spoken, Option.toList_some]
    simp only [Option.isSome_some, Bool.true_eq_false, and_false, if_false, if_true]
    split_ifs with lowered gone
    · trivial
    · trivial
    · intro old member
      rcases List.mem_append.mp member with earlier | now
      · exact (above old earlier).le.trans (level lowered)
      · rw [List.mem_singleton.mp now]
        exact level lowered
  · rw [published_snoc, spoken, Option.toList_some, List.pairwise_append]
    refine ⟨ordered, List.pairwise_singleton _ _, fun old earlier new now => ?_⟩
    rw [List.mem_singleton.mp now]
    exact VectorClock.compare_after_iff.mpr (above old earlier)

/-- **Published clocks go forward** in a run that publishes nothing for the path where its
recorded clock may be behind. -/
theorem published_forward (run : Run (next ctx) first trace last)
    (keeps : ∀ earlier entry later, trace = earlier ++ entry :: later →
      KeepsForward ctx path earlier entry.1 entry.2) :
    (published ctx path trace).Pairwise fun earlier later => later.compare earlier = .after := by
  have forward := run.history (Forward ctx path) (KeepsForward ctx path) keeps
    ⟨rfl, List.Pairwise.nil⟩ fun trace before act after held allowed stepped => ?_
  · exact forward.ordered
  · cases spoken : publishedFor ctx path before act with
    | none => exact held.quiet allowed stepped spoken
    | some clock => exact held.speaks allowed stepped spoken

end Peer

/-! ## Concrete runs -/

namespace Peer

attribute [local instance] Sample.blake3

/-- The user changes `f`, deletes it and creates it again, and each is published. -/
def recreates : List (Act Sample.Site) :=
  [.user (Sample.folder [2]), .watched (.modified Sample.path), .fsEvent ⟨true, some [2], some [2]⟩,
    .user (.dir []), .watched (.removed Sample.path), .fsEvent ⟨false, none, none⟩,
    .user (Sample.folder [3]), .watched (.created Sample.path),
    .fsEvent ⟨true, some [3], some [3]⟩]

/-- The deletion and the new file carry the clock of the version before. -/
theorem exists_not_forward :
    ∃ trace last, Run (next (Sample.ctx .one)) (Sample.peer .one [1]) trace last ∧
      trace.map Prod.snd = recreates ∧
        published (Sample.ctx .one) Sample.path trace =
          List.replicate 3 (VectorClock.new.tick (Sample.peerId 1)) ∧
        ¬ (published (Sample.ctx .one) Sample.path trace).Pairwise fun earlier later =>
          later.compare earlier = .after := by
  obtain ⟨trace, last, run, acts, _, passed⟩ := @exists_history_run _ _ (next (Sample.ctx .one))
    (Sample.peer .one [1]) recreates (fun _ _ => true)
    (fun trace _ => decide (published (Sample.ctx .one) Sample.path trace =
      List.replicate 3 (VectorClock.new.tick (Sample.peerId 1)))) (by decide +kernel)
  have same := of_decide_eq_true passed
  refine ⟨trace, last, run, acts, same, ?_⟩
  rw [same]
  decide +kernel

/-- A test for `KeepsForward`. -/
def keepsForward (earlier : List (Peer Sample.Site × Act Sample.Site))
    (entry : Peer Sample.Site × Act Sample.Site) : Bool :=
  match entry.2 with
  | .fsEvent reads =>
      (decide (entry.1.indexed (Sample.ctx .one) reads ≠ some Sample.path) ||
        decide (standing (Sample.ctx .one) Sample.path earlier ≠ .dropped) &&
          decide (((entry.1.index.clockOf Sample.path).counter entry.1.index.localPeer).toNat + 1 <
            2 ^ 64)) &&
        (decide (entry.1.watch.fsQueue.head? ≠ some (.removed Sample.path)) ||
          decide (standing (Sample.ctx .one) Sample.path earlier ∈ [.silent, .raised]))
  | _ => true

theorem keepsForward_of_test {earlier : List (Peer Sample.Site × Act Sample.Site)}
    {entry : Peer Sample.Site × Act Sample.Site} (passed : keepsForward earlier entry = true) :
    KeepsForward (Sample.ctx .one) Sample.path earlier entry.1 entry.2 := by
  obtain ⟨peer, act⟩ := entry
  dsimp only
  refine ⟨fun reads event picked => ?_, fun reads rest event _ queue => ?_,
    fun reads event picked => ?_⟩
  all_goals
    subst event
    simp only [keepsForward, Bool.and_eq_true, Bool.or_eq_true, decide_eq_true_eq] at passed
  · exact (passed.1.resolve_left (not_not.mpr picked)).1
  · simpa using passed.2.resolve_left (not_not.mpr (by rw [queue]; rfl))
  · exact (passed.1.resolve_left (not_not.mpr picked)).2

/-- A version of the second peer lies between the edit of `f` and its deletion. -/
def deletesMerged : List (Act Sample.Site) :=
  [.user (Sample.folder [2]), .watched (.modified Sample.path), .fsEvent ⟨true, some [2], some [2]⟩,
    .notified .two (.fileChanged ['f'] (Blake3.hash []) (Chunk.metadata [7] 2)
      ((VectorClock.new.tick (Sample.peerId 1)).tick (Sample.peerId 2)) 5 (Sample.peerId 2)) {},
    .respond 0 (some (.chunks ['f'] [(0, [7])])), .resume 0 {}, .resume 0 {}, .resume 0 {},
    .user (.dir []), .watched (.removed Sample.path), .fsEvent ⟨false, none, none⟩]

theorem published_forward_sample :
    ∃ trace last, Run (next (Sample.ctx .one)) (Sample.peer .one [1]) trace last ∧
      (published (Sample.ctx .one) Sample.path trace).length = 2 ∧
        (published (Sample.ctx .one) Sample.path trace).Pairwise fun earlier later =>
          later.compare earlier = .after := by
  obtain ⟨trace, last, run, _, kept, passed⟩ := @exists_history_run _ _ (next (Sample.ctx .one))
    (Sample.peer .one [1]) deletesMerged keepsForward
    (fun trace _ => decide ((published (Sample.ctx .one) Sample.path trace).length = 2))
    (by decide +kernel)
  exact ⟨trace, last, run, of_decide_eq_true passed, published_forward run
    fun earlier entry later split => keepsForward_of_test (kept earlier entry later split)⟩

end Peer

end P2Sync
