import P2Sync.Net.Held
import P2Sync.Sync.Causal

/-!
# Equal clocks and equal contents

Two peers that record equal clocks for a path should hold the same bytes there. A peer
answers a request with whatever its file holds when the request comes, the receiver puts
the answer over its old file, and the clock it was promised is merged in a step of its
own; so a clock can end up over the wrong bytes at each of the three.

`Careful` says of a turn that this does not happen: the source has the version that was
announced, or nobody has its clock yet; the answer covers the old file; and when the clock
is merged the file still holds what the fetch wrote and the recorded clock has not moved on,
or the merged clock is new to everybody. Along a run of such turns equal clocks mean equal
bytes (`agreement_of_careful`). The proof follows the versions that peers hold and fetches
bring: a careful turn makes none but old ones and one whose clock nobody has.
-/

set_option autoImplicit false

namespace P2Sync

namespace Swarm

variable {ι : Type} (ctx : ι → Ctx ι) (path : RelPath) (swarm : Swarm ι)

/-- What a peer's folder holds at the path. -/
abbrev contentAt (site : ι) : Option Bytes := (swarm.peer site).disk.read path

/-- Neither an edit nor a fetch of the path is under way at a peer. -/
structure Settled (site : ι) : Prop where
  indexed : swarm.edited site path = false
  fetched : ∀ fetch, (swarm.peer site).InFlight fetch → fetch.path.rel ≠ path

/-- Peers with equal clocks that count an edit of the path hold the same bytes. -/
def Agreement : Prop :=
  ∀ first second, Settled path swarm first → Settled path swarm second →
    (clockAt path swarm first).compare .new ≠ .equal →
      (clockAt path swarm first).compare (clockAt path swarm second) = .equal →
        contentAt path swarm first = contentAt path swarm second

/-- The peers have just started, with short identifiers of their own and one chunk size. -/
structure Started [Blake3] : Prop where
  apart : Function.Injective fun site => (ctx site).localId
  chunked : ∃ size, 0 < size ∧ ∀ site, (ctx site).storage.chunkSize = size
  started : ∀ site, ∃ disk excludePatterns now,
    Peer.start (ctx site) disk excludePatterns now = some (swarm.peer site)
  published : swarm.log = []

/-! ## Careful turns -/

/-- A peer has the version of the path that a clock stands for. -/
structure HasVersion (site : ι) (clock : VectorClock) : Prop where
  recorded : (clockAt path swarm site).compare clock = .equal
  indexed : swarm.edited site path = false
  committed : (swarm.peer site).Committed path

/-- A fetch asks for every chunk the source has of the path. -/
def AsksForAll (site : ι) (fetch : Fetch ι) : Prop :=
  ∀ data, contentAt path swarm fetch.source = some data → data.length < 2 ^ 64 ∧
    ∀ index < data.length, index * (ctx fetch.source).storage.chunkSize < data.length →
      index ∈ fetch.chunkIndices ∧ index < (ctx fetch.source).storage.maxChunkIndex ∧
        index < (ctx site).storage.maxChunkIndex

/-- No fetch of the path brings a version under the clock. -/
def Unbrought (clock : VectorClock) : Prop :=
  ∀ site, ∀ task ∈ (swarm.peer site).tasks, ∀ fetch data,
    task.stage.content? (ctx site).storage = some (fetch, data) → fetch.path.rel = path →
      fetch.origin.clock.compare clock ≠ .equal

/-- The answer to a request stands for the clock of its fetch. -/
def CarefulAnswer (site : ι) : Stage ι → Prop
  | .asked fetch =>
      fetch.path.rel = path →
        fetch.origin.clock.compare .new = .equal ∨
          (HasVersion path swarm fetch.source fetch.origin.clock ∧
            AsksForAll ctx path swarm site fetch) ∨
          ((∀ other, (clockAt path swarm other).compare fetch.origin.clock ≠ .equal) ∧
            Unbrought ctx path swarm fetch.origin.clock)
  | _ => True

/-- A stretch of a fetch puts the version of its clock into the file, the whole of it and
nothing else. -/
def CarefulStretch (site : ι) (number : Nat) (device : Device) : Stage ι → Prop
  | .answered fetch chunks =>
      fetch.path.rel = path → ∀ position < ((swarm.peer site).oldData device path).length,
        (Overlay.cover position (keptPieces (ctx site).storage chunks)).isSome = true
  | .loaded fetch _ => fetch.path.rel = path → ∀ kept, device.writes ≠ .interrupted kept
  | .written fetch data =>
      fetch.path.rel = path →
        swarm.edited site path = true ∨
          (∃ other ∈ (swarm.peer site).tasks.eraseIdx number, other.hasWritten path = true) ∨
          ((clockAt path swarm site).compare fetch.origin.clock ∈ [.before, .equal] ∧
            contentAt path swarm site = some data) ∨
          ((∀ other, other ≠ site → (clockAt path swarm other).compare
              ((clockAt path swarm site).merge fetch.origin.clock) ≠ .equal) ∧
            Unbrought ctx path swarm ((clockAt path swarm site).merge fetch.origin.clock))
  | _ => True

/-- A losing file is not put aside over a version of the path. -/
def CarefulCopy (site : ι) : SyncNotification → Prop
  | .fileChanged raw _ _ clock timestamp writer =>
      ∀ losing, SafePath.of? raw = some losing → (losing.backup (ctx site).localId).rel = path →
        resolve (clockAt losing.rel swarm site) clock
          ((swarm.peer site).index.lastModifiedOf losing.rel) timestamp writer
          (ctx site).localId = .conflict (ctx site).localId →
            (clockAt path swarm site).compare .new = .equal
  | _ => True

/-- A turn that leaves every clock over the bytes it stands for. -/
def Careful : Turn ι → Prop
  | .own site (.fsEvent reads) =>
      (swarm.peer site).indexed (ctx site) reads = some path →
        ((clockAt path swarm site).counter (ctx site).localId).toNat + 1 < 2 ^ 64
  | .own site (.resume number device) =>
      ∀ task, (swarm.peer site).tasks[number]? = some task →
        CarefulStretch ctx path swarm site number device task.stage
  | .deliver site _ notification _ => CarefulCopy ctx path swarm site notification
  | .serve site number none =>
      ∀ task, (swarm.peer site).tasks[number]? = some task →
        CarefulAnswer ctx path swarm site task.stage
  | _ => True

variable [Blake3] {ctx path swarm}

omit [Blake3] in
theorem Careful.room {turn : Turn ι} (careful : Careful ctx path swarm turn) :
    HasRoom ctx path swarm turn := by
  cases turn with
  | own site act =>
      cases act with
      | fsEvent reads => exact careful
      | _ => trivial
  | _ => trivial

/-! ## Versions of the path -/

section Versions

variable (ctx path swarm)

/-- The versions of the path that peers hold and fetches bring. -/
inductive Carries : VectorClock → Option Bytes → Prop where
  | held (site : ι) (indexed : swarm.edited site path = false)
      (committed : (swarm.peer site).Committed path) :
      Carries (clockAt path swarm site) (contentAt path swarm site)
  | brought (site : ι) (task : Task ι) (fetch : Fetch ι) (data : Bytes)
      (member : task ∈ (swarm.peer site).tasks)
      (content : task.stage.content? (ctx site).storage = some (fetch, data))
      (here : fetch.path.rel = path) : Carries fetch.origin.clock (some data)

/-- A clock that counts an edit stands for one content. -/
def Agree : Prop :=
  ∀ first second content content', Carries ctx path swarm first content →
    Carries ctx path swarm second content' → first.counter = second.counter →
      first.counter ≠ ⊥ → content = content'

/-- The ways a turn makes a version: an edit is indexed, a fetch merges its clock, an answer
comes in. -/
inductive Mints (site : ι) : Act ι → VectorClock → Option Bytes → Prop where
  | ticked (reads : FsReads) :
      Mints site (.fsEvent reads) ((clockAt path swarm site).tick (ctx site).localId)
        (contentAt path swarm site)
  | merged (number : Nat) (device : Device) (task : Task ι) (fetch : Fetch ι) (data : Bytes)
      (found : (swarm.peer site).tasks[number]? = some task)
      (stored : task.stage = .written fetch data) :
      Mints site (.resume number device) ((clockAt path swarm site).merge fetch.origin.clock)
        (contentAt path swarm site)
  | answered (number : Nat) (raw : Str) (chunks : List (Nat × Bytes)) (task : Task ι)
      (fetch : Fetch ι) (found : (swarm.peer site).tasks[number]? = some task)
      (asked : task.stage = .asked fetch) :
      Mints site (.respond number (some (.chunks raw chunks))) fetch.origin.clock
        (some (Overlay.spliceAll 0 [] (keptPieces (ctx site).storage chunks)))

variable {ctx path swarm}

omit [Blake3] in
/-- The clock of a version is known. -/
theorem Carries.known {clock : VectorClock} {content : Option Bytes}
    (carried : Carries ctx path swarm clock content) : Known path swarm clock := by
  cases carried with
  | held site => exact .recorded site
  | brought site task fetch data member content here =>
      exact .fetched site fetch (Peer.inFlight_of_mem member (Stage.fetch?_of_content content)) here

omit [Blake3] in
/-- A turn makes one version at most. -/
theorem Mints.unique {site : ι} {act : Act ι} {first second : VectorClock}
    {content content' : Option Bytes} (minted : Mints ctx path swarm site act first content)
    (minted' : Mints ctx path swarm site act second content') : content = content' := by
  cases minted with
  | ticked => cases minted'; rfl
  | merged => cases minted'; rfl
  | answered => cases minted'; rfl

variable [DecidableEq ι] {before : Swarm ι} {turn : Turn ι} {site : ι} {act : Act ι} {next : Peer ι}
  {published : Option SyncNotification}

omit [Blake3] in
/-- A path stays to be indexed until its event is. -/
theorem edited_of_stillEdited {other : ι}
    (unindexed : ∀ reads, act = .fsEvent reads → other = site →
      (before.peer site).indexed (ctx site) reads ≠ some path)
    (indexed : before.stillEdited ctx site act other path = false) :
    before.edited other path = false := by
  cases act with
  | user disk => exact (Bool.or_eq_false_iff.mp indexed).1
  | fsEvent reads =>
      rw [stillEdited, Bool.and_eq_false_iff] at indexed
      rcases indexed with before | taken
      · exact before
      · simp only [Bool.not_eq_false', Bool.and_eq_true, decide_eq_true_eq] at taken
        exact absurd taken.2 (unindexed reads rfl taken.1)
  | _ => exact indexed

omit [DecidableEq ι] [Blake3] in
/-- An unused clock is under no version. -/
theorem not_carried {clock other : VectorClock} {content : Option Bytes}
    (recorded : ∀ holder, (before.peer holder).Committed path →
      (clockAt path before holder).compare clock ≠ .equal)
    (unbrought : Unbrought ctx path before clock)
    (carried : Carries ctx path before other content) :
    other.counter ≠ clock.counter := by
  intro same
  cases carried with
  | held holder indexed committed =>
      exact recorded holder committed (VectorClock.compare_equal_iff.mpr same)
  | brought holder task fetch data member content here =>
      exact unbrought holder task member fetch data content here
        (VectorClock.compare_equal_iff.mpr same)

/-- What the peer whose turn it is holds afterwards. -/
theorem held_cases (bounds : Bounded ctx path before) (undeleted : Undeleted ctx path before turn)
    (careful : Careful ctx path before turn) (does : Does ctx before turn site act)
    (happened : Peer.Step (ctx site) (before.peer site) act next published)
    (indexed : before.stillEdited ctx site act site path = false)
    (committed : next.Committed path) :
    (∃ clock, clock.counter = (next.index.clockOf path).counter ∧
      Carries ctx path before clock (next.disk.read path)) ∨
    (next.index.clockOf path).counter = ⊥ ∨
    (Mints ctx path before site act (next.index.clockOf path) (next.disk.read path) ∧
      ∀ other content, Carries ctx path before other content →
        other.counter ≠ (next.index.clockOf path).counter) := by
  have holding := happened.holding committed
  generalize next.index.clockOf path = clock, next.disk.read path = content at holding ⊢
  cases holding with
  | same act committed unindexed =>
      refine Or.inl ⟨_, rfl, .held site (edited_of_stillEdited ?_ indexed) committed⟩
      exact fun reads same _ => unindexed reads same
  | user disk committed =>
      have untouched : before.edited site path = false ∧
          disk.read path = contentAt path before site := by
        rw [stillEdited, Bool.or_eq_false_iff] at indexed
        refine ⟨indexed.1, ?_⟩
        simpa using indexed.2
      rw [untouched.2]
      exact Or.inl ⟨_, rfl, .held site untouched.1 committed⟩
  | ticked reads committed picked =>
      cases does
      have below := bounds.bounded (Peer.unmarked_of_indexed picked) site
      rw [bounds.localPeer]
      refine Or.inr (Or.inr ⟨.ticked reads, fun other content carried same => ?_⟩)
      have counted := below other carried.known
      rw [same, VectorClock.counter_tick_self] at counted
      exact absurd counted (not_le.mpr (u64_lt_succ (careful picked)))
  | merged number device task fetch data found stored here alone =>
      cases does
      have stretch := careful task found
      rw [stored] at stretch
      rcases stretch here with edited | ⟨other, member, written⟩ |
        ⟨newer, (unchanged : (before.peer site).disk.read path = some data)⟩ |
        ⟨unrecorded, unbrought⟩
      · exact absurd (indexed.symm.trans edited) Bool.false_ne_true
      · exact absurd ((alone other member).symm.trans written) Bool.false_ne_true
      · refine Or.inl ⟨fetch.origin.clock, ?_, ?_⟩
        · rw [VectorClock.counter_merge, sup_eq_right.mpr (VectorClock.le_of_compare newer)]
        · rw [unchanged]
          refine .brought site task fetch data (List.mem_of_getElem? found) ?_ here
          rw [stored]
          rfl
      · refine Or.inr (Or.inr ⟨.merged number device task fetch data found stored, ?_⟩)
        refine fun other content => not_carried (fun holder settled => ?_) unbrought
        refine unrecorded holder fun atSite => ?_
        subst atSite
        have written := settled task (List.mem_of_getElem? found)
        rw [Task.hasWritten, stored, decide_eq_false_iff_not] at written
        exact written here
  | copied source losing hash chunks clock timestamp writer device content foreign concurrent wins
      here =>
      cases does with
      | own _ _ own => exact absurd own Bool.false_ne_true
      | delivered =>
          have copy := careful losing (SafePath.of?_raw losing) here
            (resolve_conflict_iff.mpr ⟨concurrent, (if_pos wins).symm⟩)
          exact Or.inr (Or.inl (VectorClock.compare_equal_iff.mp copy))
  | removed source tombstone deleted device named here =>
      cases does with
      | own _ _ own => exact absurd own Bool.false_ne_true
      | delivered => exact absurd here (undeleted deleted (named ▸ SafePath.of?_raw deleted))
  | interrupted number device task fetch data kept content found ready here broken =>
      cases does
      have stretch := careful task found
      rw [ready] at stretch
      exact absurd broken (stretch here kept)
  | erased reads rest queue =>
      cases does
      rw [Undeleted, queue] at undeleted
      exact absurd rfl undeleted.1
  | forgotten number device task tombstone deleted found unlinked here =>
      exact absurd here
        (bounds.undeleted site task (List.mem_of_getElem? found) tombstone deleted unlinked)

omit [DecidableEq ι] in
/-- What the fetches of the peer whose turn it is bring afterwards. -/
theorem brought_cases (chunked : ∃ size, 0 < size ∧ ∀ site, (ctx site).storage.chunkSize = size)
    (careful : Careful ctx path before turn) (does : Does ctx before turn site act)
    (happened : Peer.Step (ctx site) (before.peer site) act next published) {task : Task ι}
    {fetch : Fetch ι} {data : Bytes} (member : task ∈ next.tasks)
    (content : task.stage.content? (ctx site).storage = some (fetch, data))
    (here : fetch.path.rel = path) :
    (∃ clock, clock.counter = fetch.origin.clock.counter ∧
      Carries ctx path before clock (some data)) ∨
    fetch.origin.clock.counter = ⊥ ∨
    (Mints ctx path before site act fetch.origin.clock (some data) ∧
      ∀ other content, Carries ctx path before other content →
        other.counter ≠ fetch.origin.clock.counter) := by
  rcases happened.content member content with ⟨task', member', content'⟩ | brings
  · exact Or.inl ⟨_, rfl, .brought site task' fetch data member' content' here⟩
  · cases brings with
    | answered number raw chunks task' _ found asked =>
        obtain ⟨failure, entry, source, request, rfl, found', sent, reply⟩ := does.answered
        cases found.symm.trans found'
        rw [asked] at sent
        cases sent
        obtain ⟨rfl, served, read, rfl⟩ := handleInboundRequest_chunks reply.symm
        rw [here] at read
        have answer := careful task' found
        rw [asked] at answer
        rcases answer here with empty | ⟨version, whole⟩ | ⟨unrecorded, unbrought⟩
        · exact Or.inr (Or.inl (VectorClock.compare_equal_iff.mp empty))
        · refine Or.inl ⟨_, VectorClock.compare_equal_iff.mp version.recorded, ?_⟩
          obtain ⟨size, positive, uniform⟩ := chunked
          obtain ⟨small, complete⟩ := whole served read
          have positive' : 0 < (ctx fetch.source).storage.chunkSize := by rwa [uniform]
          rw [spliceAll_serveChunks positive' (by rw [uniform, uniform]) small fun index inside =>
            complete index (lt_of_le_of_lt (Nat.le_mul_of_pos_right index positive') inside) inside,
            List.drop_nil, List.append_nil, ← read]
          exact .held fetch.source version.indexed version.committed
        · refine Or.inr (Or.inr ⟨.answered number raw _ task' fetch found asked, ?_⟩)
          exact fun other content => not_carried (fun holder _ => unrecorded holder) unbrought
    | loaded number device task' _ chunks _ found answered applied =>
        cases does
        have stretch := careful task' found
        rw [answered] at stretch
        have covered := stretch here
        rw [here] at applied
        obtain rfl := (applyChunks_eq_some_iff.mp applied).2
        rw [Overlay.spliceAll_of_covered covered]
        refine Or.inl ⟨_, rfl, .brought site task' fetch _ (List.mem_of_getElem? found) ?_ here⟩
        rw [answered]
        rfl

/-- **A careful turn makes no version but one whose clock nobody has**; every other version
was there before. -/
theorem carries_cases (chunked : ∃ size, 0 < size ∧ ∀ site, (ctx site).storage.chunkSize = size)
    (bounds : Bounded ctx path before) (undeleted : Undeleted ctx path before turn)
    (careful : Careful ctx path before turn) (does : Does ctx before turn site act)
    (happened : Peer.Step (ctx site) (before.peer site) act next published) {clock : VectorClock}
    {content : Option Bytes}
    (carried : Carries ctx path ⟨Function.update before.peer site next,
      before.log ++ published.toList, before.stillEdited ctx site act⟩ clock content) :
    (∃ clock', clock'.counter = clock.counter ∧ Carries ctx path before clock' content) ∨
    clock.counter = ⊥ ∨
    (Mints ctx path before site act clock content ∧
      ∀ other content', Carries ctx path before other content' →
        other.counter ≠ clock.counter) := by
  cases carried with
  | held holder indexed committed =>
      dsimp only [clockAt, contentAt] at indexed committed ⊢
      by_cases atSite : holder = site
      · subst atSite
        rw [Function.update_self] at committed ⊢
        exact held_cases bounds undeleted careful does happened indexed committed
      · rw [Function.update_of_ne atSite] at committed ⊢
        refine Or.inl ⟨_, rfl, .held holder (edited_of_stillEdited ?_ indexed) committed⟩
        exact fun _ _ same => absurd same atSite
  | brought holder task fetch data member content here =>
      dsimp only at member
      by_cases atSite : holder = site
      · subst atSite
        rw [Function.update_self] at member
        exact brought_cases chunked careful does happened member content here
      · rw [Function.update_of_ne atSite] at member
        exact Or.inl ⟨_, rfl, .brought holder task fetch data member content here⟩

/-- A careful turn keeps one content to a clock. -/
theorem Agree.keeps (chunked : ∃ size, 0 < size ∧ ∀ site, (ctx site).storage.chunkSize = size)
    (agree : Agree ctx path before) (bounds : Bounded ctx path before)
    (undeleted : Undeleted ctx path before turn) (careful : Careful ctx path before turn)
    (does : Does ctx before turn site act)
    (happened : Peer.Step (ctx site) (before.peer site) act next published) :
    Agree ctx path ⟨Function.update before.peer site next, before.log ++ published.toList,
      before.stillEdited ctx site act⟩ := by
  intro first second content content' carried carried' same counts
  rcases carries_cases chunked bounds undeleted careful does happened carried with
    ⟨old, equal, earlier⟩ | empty | ⟨minted, fresh⟩
  · rcases carries_cases chunked bounds undeleted careful does happened carried' with
      ⟨old', equal', earlier'⟩ | empty' | ⟨_, fresh'⟩
    · exact agree old old' content content' earlier earlier'
        (equal.trans (same.trans equal'.symm)) (equal ▸ counts)
    · exact absurd (same.trans empty') counts
    · exact absurd (equal.trans same) (fresh' old content earlier)
  · exact absurd empty counts
  · rcases carries_cases chunked bounds undeleted careful does happened carried' with
      ⟨old', equal', earlier'⟩ | empty' | ⟨minted', _⟩
    · exact absurd (equal'.trans same.symm) (fresh old' content' earlier')
    · exact absurd (same.trans empty') counts
    · exact minted.unique minted'

end Versions

/-! ## Runs -/

section Runs

omit [Blake3] in
/-- A settled peer holds its version. -/
theorem Settled.held {site : ι} (settled : Settled path swarm site) :
    Carries ctx path swarm (clockAt path swarm site) (contentAt path swarm site) := by
  refine .held site settled.indexed fun task member => ?_
  rw [Bool.eq_false_iff]
  intro written
  obtain ⟨fetch, data, stored, here⟩ := Peer.hasWritten_iff.mp written
  exact settled.fetched fetch (Peer.inFlight_of_mem member (by rw [stored]; rfl)) here

theorem Started.bounded_and_agree (started : Started ctx swarm) :
    Bounded ctx path swarm ∧ Agree ctx path swarm := by
  refine ⟨.start started.started started.published,
    fun first second content content' carried _ _ counts => ?_⟩
  have fresh : ∀ site, (swarm.peer site).tasks = [] ∧ clockAt path swarm site = .new := by
    intro site
    obtain ⟨disk, excludePatterns, now, begun⟩ := started.started site
    obtain ⟨_, tasks, _, clocks⟩ := Peer.start_index begun
    exact ⟨tasks, clocks path⟩
  cases carried with
  | held site =>
      rw [(fresh site).2] at counts
      exact absurd rfl counts
  | brought site task fetch data member =>
      exact absurd ((fresh site).1 ▸ member) List.not_mem_nil

variable [DecidableEq ι]

/-- **Agreement of clocks and contents.** Along a run of careful turns that does not delete
the path, peers that have nothing under way for it and record equal clocks hold the same
bytes. -/
theorem agreement_of_careful {trace : List (Swarm ι × Turn ι)} {last : Swarm ι}
    (started : Started ctx swarm) (run : Run (step ctx) swarm trace last)
    (undeleted : ∀ entry ∈ trace, Undeleted ctx path entry.1 entry.2)
    (careful : ∀ entry ∈ trace, Careful ctx path entry.1 entry.2) : Agreement path last := by
  have start : Bounded ctx path swarm ∧ Agree ctx path swarm := started.bounded_and_agree
  obtain ⟨_, agree⟩ := run.invariant
    (fun swarm => Bounded ctx path swarm ∧ Agree ctx path swarm)
    (fun swarm turn => Undeleted ctx path swarm turn ∧ Careful ctx path swarm turn)
    (fun entry member => ⟨undeleted entry member, careful entry member⟩) start
    fun before turn after held guarded stepped => by
      obtain ⟨site, act, next, published, does, happened, rfl⟩ := step_cases stepped
      exact ⟨held.1.keeps started.apart guarded.1 guarded.2.room does happened,
        held.2.keeps started.chunked held.1 guarded.1 guarded.2 does happened⟩
  intro first second settled settled' counts equal
  refine agree _ _ _ _ settled.held settled'.held (VectorClock.compare_equal_iff.mp equal) ?_
  exact fun empty => counts (VectorClock.compare_equal_iff.mpr empty)

end Runs

/-! ## Deciding careful turns -/

section Decide

variable [Fintype ι] [DecidableEq ι] {site : ι}

instance decidableCommitted (peer : Peer ι) : Decidable (peer.Committed path) :=
  inferInstanceAs (Decidable (∀ task ∈ peer.tasks, task.hasWritten path = false))

instance decidableHasVersion (clock : VectorClock) : Decidable (HasVersion path swarm site clock) :=
  decidable_of_iff ((clockAt path swarm site).compare clock = .equal ∧
    swarm.edited site path = false ∧ (swarm.peer site).Committed path)
    ⟨fun all => ⟨all.1, all.2.1, all.2.2⟩, fun has => ⟨has.recorded, has.indexed, has.committed⟩⟩

instance decidableAsksForAll (fetch : Fetch ι) : Decidable (AsksForAll ctx path swarm site fetch) :=
  inferInstanceAs (Decidable (∀ data ∈ contentAt path swarm fetch.source, data.length < 2 ^ 64 ∧
    ∀ index < data.length, index * (ctx fetch.source).storage.chunkSize < data.length →
      index ∈ fetch.chunkIndices ∧ index < (ctx fetch.source).storage.maxChunkIndex ∧
        index < (ctx site).storage.maxChunkIndex))

instance decidableUnbrought (clock : VectorClock) : Decidable (Unbrought ctx path swarm clock) :=
  decidable_of_iff (∀ site, ∀ task ∈ (swarm.peer site).tasks,
    ∀ version ∈ task.stage.content? (ctx site).storage, version.1.path.rel = path →
      version.1.origin.clock.compare clock ≠ .equal)
    ⟨fun all site task member fetch data content => all site task member (fetch, data) content,
      fun all site task member version content => all site task member version.1 version.2 content⟩

instance decidableCarefulAnswer :
    (stage : Stage ι) → Decidable (CarefulAnswer ctx path swarm site stage)
  | .asked _ => inferInstanceAs (Decidable (_ → _ ∨ _ ∨ _))
  | .idle | .removed _ _ | .answered _ _ | .loaded _ _ | .written _ _ | .askedRoot _
  | .gotRoot _ _ | .askedTree _ | .gotTree _ _ => isTrue trivial

instance decidableCarefulStretch (number : Nat) (device : Device) :
    (stage : Stage ι) → Decidable (CarefulStretch ctx path swarm site number device stage)
  | .answered _ _ => inferInstanceAs (Decidable (_ → ∀ position < _, _))
  | .loaded fetch _ => decidable_of_iff
      (fetch.path.rel = path →
        (match device.writes with | .interrupted _ => false | _ => true) = true)
      (by
        refine imp_congr_right fun _ => ?_
        cases device.writes <;> simp)
  | .written _ _ => inferInstanceAs (Decidable (_ → _ ∨ _ ∨ _ ∨ _))
  | .idle | .removed _ _ | .asked _ | .askedRoot _ | .gotRoot _ _ | .askedTree _
  | .gotTree _ _ => isTrue trivial

instance decidableCarefulCopy : (notification : SyncNotification) →
    Decidable (CarefulCopy ctx path swarm site notification)
  | .fileChanged raw _ _ _ _ _ =>
      inferInstanceAs (Decidable (∀ losing ∈ SafePath.of? raw, _ → _ → _))
  | .fileDeleted _ | .peerJoined _ => isTrue trivial

instance decidableCareful : (turn : Turn ι) → Decidable (Careful ctx path swarm turn)
  | .own _ (.fsEvent _) => inferInstanceAs (Decidable (_ → _))
  | .own site (.resume number device) =>
      inferInstanceAs (Decidable (∀ task ∈ (swarm.peer site).tasks[number]?,
        CarefulStretch ctx path swarm site number device task.stage))
  | .deliver site _ notification _ =>
      inferInstanceAs (Decidable (CarefulCopy ctx path swarm site notification))
  | .serve site number none =>
      inferInstanceAs (Decidable (∀ task ∈ (swarm.peer site).tasks[number]?,
        CarefulAnswer ctx path swarm site task.stage))
  | .own _ (.elapse _) | .own _ (.setTime _) | .own _ (.user _) | .own _ (.watched _)
  | .own _ (.notified _ _ _) | .own _ (.discovered _) | .own _ (.respond _ _)
  | .serve _ _ (some _) | .fail _ _ => isTrue trivial

end Decide

end Swarm

/-! ## Two concrete runs -/

namespace Swarm

attribute [local instance] Sample.blake3

theorem started_sample (data : Sample.Site → Bytes) :
    Started Sample.ctx (Sample.swarm data) where
  apart := injective_localId
  chunked := ⟨2, Nat.zero_lt_two, fun _ => rfl⟩
  started site := ⟨_, _, _, Sample.start_peer site (data site)⟩
  published := rfl

/-- The first peer saves `f`, and the second one fetches it. -/
def sharing : List (Turn Sample.Site) :=
  Sample.saves .one [2] ++ .deliver .two .one (Sample.update 1 [2]) {} :: Sample.fetches .two 0

theorem settled_sample {swarm : Swarm Sample.Site} {site : Sample.Site}
    (indexed : swarm.edited site Sample.path = false)
    (ended : Sample.atEnd (swarm.peer site) = true) : Settled Sample.path swarm site where
  indexed := indexed
  fetched fetch working := by
    obtain ⟨task, member, working, _⟩ := working
    rw [(Sample.of_atEnd ended member).1] at working
    exact absurd working (Option.some_ne_none fetch).symm

/-- The second peer's old `f` is longer than the new one. It ends with the first peer's
clock over the new bytes followed by the rest of its old ones. -/
theorem exists_disagreement :
    ∃ swarm trace last, Started Sample.ctx swarm ∧ Run (step Sample.ctx) swarm trace last ∧
      (∀ entry ∈ trace, Undeleted Sample.ctx Sample.path entry.1 entry.2) ∧
        ¬ Agreement Sample.path last := by
  obtain ⟨trace, last, run, _, undeleted, checked⟩ := exists_checked_run (by decide +kernel :
    (runActs (checked (step Sample.ctx)
        fun swarm turn => decide (Undeleted Sample.ctx Sample.path swarm turn))
        (Sample.swarm fun | .two => [1, 1, 1] | _ => [1]) sharing).any (fun last =>
      (!last.edited .one Sample.path && !last.edited .two Sample.path) &&
      (Sample.atEnd (last.peer .one) && Sample.atEnd (last.peer .two)) &&
      decide ((clockAt Sample.path last .one).compare .new ≠ .equal) &&
      decide ((clockAt Sample.path last .one).compare (clockAt Sample.path last .two) = .equal) &&
      decide (contentAt Sample.path last .one ≠ contentAt Sample.path last .two)) = true)
  simp only [Bool.and_eq_true, Bool.not_eq_true', decide_eq_true_eq] at checked undeleted
  obtain ⟨⟨⟨⟨⟨one, two⟩, endOne, endTwo⟩, counts⟩, equal⟩, different⟩ := checked
  exact ⟨_, trace, last, started_sample _, run, undeleted, fun agreement =>
    different (agreement .one .two (settled_sample one endOne) (settled_sample two endTwo) counts
      equal)⟩

/-- The same run where the old `f` is no longer than the new one: every turn is careful. -/
theorem agreement_of_careful_sample :
    ∃ swarm trace last, Started Sample.ctx swarm ∧ Run (step Sample.ctx) swarm trace last ∧
      trace.map Prod.snd = sharing ∧ (clockAt Sample.path last .one).compare .new ≠ .equal ∧
        (clockAt Sample.path last .one).compare (clockAt Sample.path last .two) = .equal ∧
          Agreement Sample.path last := by
  obtain ⟨trace, last, run, turns, guarded, checked⟩ := exists_checked_run (by decide +kernel :
    (runActs (checked (step Sample.ctx) fun swarm turn =>
        decide (Undeleted Sample.ctx Sample.path swarm turn) &&
          decide (Careful Sample.ctx Sample.path swarm turn))
        (Sample.swarm fun _ => [1]) sharing).any (fun last =>
      decide ((clockAt Sample.path last .one).compare .new ≠ .equal) &&
      decide ((clockAt Sample.path last .one).compare (clockAt Sample.path last .two) = .equal)) =
        true)
  simp only [Bool.and_eq_true, decide_eq_true_eq] at checked guarded
  exact ⟨_, trace, last, started_sample _, run, turns, checked.1, checked.2,
    agreement_of_careful (started_sample _) run (fun entry member => (guarded entry member).1)
      fun entry member => (guarded entry member).2⟩

end Swarm

end P2Sync
