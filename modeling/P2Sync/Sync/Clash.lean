import P2Sync.Net.Swarm

/-!
# Two peers with concurrent versions

Two peers hold concurrent versions of a path and have told each other. The loser copies
its file aside and fetches the winner's version, whose clock it merges. The winner fetches
the loser's version to the backup path and records that clock there: its clock of the path
itself never changes. So whatever the order of the requests and writes, the clocks of the
two peers never compare equal (`never_converges`), and when the winner's request comes
before the loser's copy there is nothing at the backup path to fetch.
-/

set_option autoImplicit false

namespace P2Sync

namespace Swarm

variable {ι : Type} [DecidableEq ι] [Blake3] {ctx : ι → Ctx ι} {swarm : Swarm ι}

/-- The notification a peer publishes for the content it has indexed at a path. -/
def broadcast (ctx : ι → Ctx ι) (swarm : Swarm ι) (site : ι) (path : SafePath) (content : Bytes) :
    SyncNotification :=
  .fileChanged path.raw
    (Chunk.fileHash (Chunk.metadata content (ctx site).storage.chunkSize))
    (Chunk.metadata content (ctx site).storage.chunkSize)
    ((swarm.peer site).index.clockOf path.rel)
    ((swarm.peer site).index.lastModifiedOf path.rel) (ctx site).localId

/-- Two peers hold concurrent versions of a path, and each has broadcast its own. -/
structure Clash (ctx : ι → Ctx ι) (swarm : Swarm ι) (path : SafePath) (first second : ι)
    (content : ι → Bytes) : Prop where
  apart : (ctx first).localId ≠ (ctx second).localId
  pulling : ∀ site, (ctx site).noPull = false
  held : ∀ site, site = first ∨ site = second →
    (swarm.peer site).disk.read path.rel = some (content site)
  concurrent : ((swarm.peer first).index.clockOf path.rel).compare
    ((swarm.peer second).index.clockOf path.rel) = .concurrent
  published : swarm.log = [swarm.broadcast ctx first path (content first),
    swarm.broadcast ctx second path (content second)]
  atRest : ∀ site, (swarm.peer site).tasks = []

/-- A run of the exchange that follows a clash, until nothing is in flight. -/
structure Conversation (ctx : ι → Ctx ι) (swarm : Swarm ι) (path : SafePath) (first second : ι)
    (content : ι → Bytes) (trace : List (Swarm ι × Turn ι)) (last : Swarm ι) : Prop where
  run : Run (step ctx) swarm trace last
  exchange : ∀ entry ∈ trace, Exchange entry.2
  firstHears : .deliver first second (swarm.broadcast ctx second path (content second)) {} ∈
    trace.map Prod.snd
  secondHears : .deliver second first (swarm.broadcast ctx first path (content first)) {} ∈
    trace.map Prod.snd
  ended : ∀ site, ∀ task ∈ (last.peer site).tasks, task.stage = .idle ∧ task.todo = []

/-- Both peers hold the winner's content, and the loser's at the backup path, under equal
clocks. -/
structure Converged (swarm : Swarm ι) (path : SafePath) (first second : ι) (loser : PeerId)
    (winning losing : Bytes) : Prop where
  content : ∀ site, site = first ∨ site = second →
    (swarm.peer site).disk.read path.rel = some winning ∧
      (swarm.peer site).disk.read (path.backup loser).rel = some losing
  clocks : ((swarm.peer first).index.clockOf path.rel).compare
    ((swarm.peer second).index.clockOf path.rel) = .equal

/-- The peer at a site loses the path to the one at another site. -/
def loses (ctx : ι → Ctx ι) (swarm : Swarm ι) (path : SafePath) (site other : ι) : Bool :=
  remoteWins ((swarm.peer site).index.lastModifiedOf path.rel)
    ((swarm.peer other).index.lastModifiedOf path.rel) (ctx other).localId (ctx site).localId

/-! ## The roles -/

/-- Which peer wins, seen from both ends. -/
structure Roles (ctx : ι → Ctx ι) (swarm : Swarm ι) (path : SafePath) (winner loser : ι)
    (content : ι → Bytes) : Prop where
  apart : (ctx winner).localId ≠ (ctx loser).localId
  concurrent : ((swarm.peer winner).index.clockOf path.rel).compare
    ((swarm.peer loser).index.clockOf path.rel) = .concurrent
  published : ∀ notification ∈ swarm.log,
    notification = swarm.broadcast ctx winner path (content winner) ∨
      notification = swarm.broadcast ctx loser path (content loser)
  loses : swarm.loses ctx path winner loser = false
  atRest : ∀ site, (swarm.peer site).tasks = []

omit [DecidableEq ι] in
/-- One of the two peers wins, whichever way the tie is broken. -/
theorem Clash.roles {path : SafePath} {first second : ι} {content : ι → Bytes}
    (clash : Clash ctx swarm path first second content) :
    Roles ctx swarm path first second content ∨ Roles ctx swarm path second first content := by
  have listed : ∀ notification ∈ swarm.log,
      notification = swarm.broadcast ctx first path (content first) ∨
        notification = swarm.broadcast ctx second path (content second) := by
    intro notification member
    rw [clash.published] at member
    exact (List.mem_cons.mp member).imp_right List.mem_singleton.mp
  cases loses : swarm.loses ctx path first second with
  | false =>
      exact Or.inl ⟨clash.apart, clash.concurrent, listed, loses, clash.atRest⟩
  | true =>
      refine Or.inr ⟨clash.apart.symm, VectorClock.concurrent_symm clash.concurrent,
        fun notification member => (listed notification member).symm, ?_, clash.atRest⟩
      rw [Swarm.loses, remoteWins_comm clash.apart] at loses
      rw [Swarm.loses]
      simpa using loses

/-- What holds all through the exchange: the winner's entry stays as it was, because no
fetch of the path itself is ever started there, and the loser's clock only grows. -/
structure Unmerged (start : Swarm ι) (path : SafePath) (winner loser : ι) (state : Swarm ι) :
    Prop where
  log : state.log = start.log
  entry : (state.peer winner).index.fileMeta.lookup path.rel =
    (start.peer winner).index.fileMeta.lookup path.rel
  grown : ((start.peer loser).index.clockOf path.rel).counter ≤
    ((state.peer loser).index.clockOf path.rel).counter
  tasks : ∀ site, ∀ task ∈ (state.peer site).tasks,
    Peer.Lone (fun fetch => site = winner → fetch.path.rel ≠ path.rel) task

section Exchange

variable {path : SafePath} {winner loser : ι} {content : ι → Bytes} {before : Swarm ι}

omit [DecidableEq ι] in
theorem Roles.start (roles : Roles ctx swarm path winner loser content) :
    Unmerged swarm path winner loser swarm where
  log := rfl
  entry := rfl
  grown := le_rfl
  tasks site _ member := absurd (roles.atRest site ▸ member) List.not_mem_nil

omit [DecidableEq ι] in
/-- The tasks of an exchange: none of them fetches the path itself at the winner. -/
theorem Unmerged.makes {turn : Turn ι} {site : ι} {act : Act ι} {task : Task ι}
    (roles : Roles ctx swarm path winner loser content)
    (held : Unmerged swarm path winner loser before) (exchange : Exchange turn)
    (does : Does ctx before turn site act)
    (made : Peer.Makes (ctx site) (before.peer site) act task) :
    Peer.Lone (fun fetch => site = winner → fetch.path.rel ≠ path.rel) task := by
  -- At the winner a foreign notification of the log is the loser's broadcast, and it loses.
  have listed : ∀ {source : ι} {notification : SyncNotification} {device : Device},
      act = .notified source notification device →
        notification = swarm.broadcast ctx winner path (content winner) ∨
          notification = swarm.broadcast ctx loser path (content loser) := by
    rintro source notification device rfl
    cases does with
    | own _ _ own => exact absurd own Bool.false_ne_true
    | delivered _ _ _ _ published => exact roles.published _ (held.log ▸ published)
  have clock : (before.peer winner).index.clockOf path.rel =
      (swarm.peer winner).index.clockOf path.rel := by
    rw [SyncIndex.clockOf, SyncIndex.clockOf, held.entry]
  have modified : (before.peer winner).index.lastModifiedOf path.rel =
      (swarm.peer winner).index.lastModifiedOf path.rel := by
    rw [SyncIndex.lastModifiedOf, SyncIndex.lastModifiedOf, held.entry]
  cases made with
  | accepted source here hash chunks clock' timestamp writer device foreign newer =>
      refine Peer.lone_startFetch fun safe named atWinner => ?_
      subst atWinner
      rcases listed rfl with same | same <;>
        simp only [broadcast, SyncNotification.fileChanged.injEq] at same <;>
        obtain ⟨raw, -, -, rfl, rfl, rfl⟩ := same
      · exact absurd rfl foreign
      · rw [SafePath.eq_of_raw raw, clock] at newer
        exact absurd newer.le (VectorClock.compare_concurrent_iff.mp roles.concurrent).1
  | lost source here hash chunks clock' timestamp writer device foreign concurrent wins =>
      refine Peer.lone_startFetch fun safe named atWinner => ?_
      subst atWinner
      rcases listed rfl with same | same <;>
        simp only [broadcast, SyncNotification.fileChanged.injEq] at same <;>
        obtain ⟨raw, -, -, rfl, rfl, rfl⟩ := same
      · exact absurd rfl foreign
      · rw [SafePath.eq_of_raw raw, modified] at wins
        exact absurd (roles.loses.symm.trans wins) Bool.false_ne_true
  | kept source here hash chunks clock' timestamp writer device foreign =>
      refine Peer.lone_startFetch fun safe named _ => ?_
      rw [SafePath.eq_of_raw named]
      rcases listed rfl with same | same <;>
        simp only [broadcast, SyncNotification.fileChanged.injEq] at same <;>
        rw [SafePath.eq_of_raw same.1]
      · exact (path.backup_rel _).1
      · exact (path.backup_rel _).1
  | unlinked source tombstone here device named =>
      rcases listed rfl with same | same <;> cases same
  | discovered source => cases does with
    | own _ _ own => cases exchange
  | answered number response task stage found reply =>
      exact (held.tasks site task (List.mem_of_getElem? found)).answered reply
  | resumed number device task task' after found ran =>
      exact (held.tasks site task (List.mem_of_getElem? found)).ran ran

/-- A turn of the exchange keeps the winner's entry. -/
theorem Unmerged.keeps {turn : Turn ι} {after : Swarm ι}
    (roles : Roles ctx swarm path winner loser content)
    (held : Unmerged swarm path winner loser before) (exchange : Exchange turn)
    (stepped : before.step ctx turn = some after) :
    Unmerged swarm path winner loser after := by
  obtain ⟨site, act, next, published, does, happened, rfl⟩ := step_cases stepped
  have quiet : ∀ reads, act ≠ .fsEvent reads := by
    rintro reads rfl
    cases does
    cases exchange
  have silent : published = none := by
    cases happened with
    | edited reads => exact absurd rfl (quiet reads)
    | erased reads => exact absurd rfl (quiet reads)
    | _ => rfl
  have merged : ∀ {clock : VectorClock},
      Peer.Reclocks (ctx site) (before.peer site) path.rel act clock →
        site ≠ winner ∧ ((before.peer site).index.clockOf path.rel).counter ≤ clock.counter := by
    intro clock reclocks
    cases reclocks with
    | ticked reads => exact absurd rfl (quiet reads)
    | erased reads => exact absurd rfl (quiet reads)
    | merged number device task fetch data found stored here =>
        rw [VectorClock.counter_merge]
        refine ⟨fun atWinner => ?_, le_sup_left⟩
        have working : task.stage.fetch? = some fetch := by
          rw [stored]
          rfl
        exact (held.tasks site task (List.mem_of_getElem? found)).fits working atWinner here
    | forgotten number device task tombstone deleted found unlinked =>
        rcases (held.tasks site task (List.mem_of_getElem? found)).stage with
          idle | ⟨fetch, working, _⟩
        · rw [unlinked] at idle
          cases idle
        · rw [unlinked] at working
          cases working
  subst silent
  refine ⟨(List.append_nil _).trans held.log, ?_, ?_, fun other task member => ?_⟩
  · dsimp only
    by_cases here : winner = site
    · subst here
      rw [Function.update_self]
      rcases happened.lookup with same | reclocks
      · exact same.trans held.entry
      · exact absurd rfl (merged reclocks).1
    · rw [Function.update_of_ne here]
      exact held.entry
  · dsimp only
    by_cases here : loser = site
    · subst here
      rw [Function.update_self]
      rcases happened.clockOf with same | reclocks
      · rw [same]
        exact held.grown
      · exact held.grown.trans (merged reclocks).2
    · rw [Function.update_of_ne here]
      exact held.grown
  · dsimp only at member
    by_cases here : other = site
    · subst here
      rw [Function.update_self] at member
      rcases happened.task member with old | made
      · exact held.tasks other task old
      · exact held.makes roles exchange does made
    · rw [Function.update_of_ne here] at member
      exact held.tasks other task member

/-- **The clocks of the two peers stay apart** all through the exchange. -/
theorem Roles.clocks_apart {trace : List (Swarm ι × Turn ι)} {last : Swarm ι}
    (roles : Roles ctx swarm path winner loser content) (run : Run (step ctx) swarm trace last)
    (exchange : ∀ entry ∈ trace, Exchange entry.2) :
    ((last.peer winner).index.clockOf path.rel).counter ≠
      ((last.peer loser).index.clockOf path.rel).counter := by
  have held : Unmerged swarm path winner loser last :=
    run.invariant (Unmerged swarm path winner loser) (fun _ turn => Exchange turn) exchange
      roles.start fun _ _ _ held exchange stepped => held.keeps roles exchange stepped
  have clock : (last.peer winner).index.clockOf path.rel =
      (swarm.peer winner).index.clockOf path.rel := by
    rw [SyncIndex.clockOf, SyncIndex.clockOf, held.entry]
  intro same
  rw [clock] at same
  exact (VectorClock.compare_concurrent_iff.mp roles.concurrent).2 (same ▸ held.grown)

/-- A peer hears of a concurrent version and sees its fetch through. -/
theorem exists_heard {start current : Swarm ι} {trace : List (Swarm ι × Turn ι)} {site source : ι}
    {hash : Hash} {metas : List ChunkMeta} {clock : VectorClock} {timestamp : Nat}
    {writer : PeerId} (run : Run (step ctx) start trace current)
    (published : .fileChanged path.raw hash metas clock timestamp writer ∈ current.log)
    (pulling : (ctx site).noPull = false) (atRest : (current.peer site).tasks = [])
    (foreign : writer ≠ (ctx site).localId)
    (concurrent : ((current.peer site).index.clockOf path.rel).compare clock = .concurrent) :
    ∃ more after, Run (step ctx) start (trace ++ more) after ∧
      (∀ entry ∈ more, Exchange entry.2) ∧
        .deliver site source (.fileChanged path.raw hash metas clock timestamp writer) {} ∈
          more.map Prod.snd ∧
        after.log = current.log ∧ (∀ other, other ≠ site → after.peer other = current.peer other) ∧
          ∀ task ∈ (after.peer site).tasks, task.stage = .idle ∧ task.todo = [] := by
  have acted : current.actOf ctx (.deliver site source
      (.fileChanged path.raw hash metas clock timestamp writer) {}) =
        some (site, .notified source
          (.fileChanged path.raw hash metas clock timestamp writer) {}) :=
    if_pos published
  obtain ⟨next, taken, stage, spawned, lone⟩ : ∃ next, (current.peer site).step (ctx site)
      (.notified source (.fileChanged path.raw hash metas clock timestamp writer) {}) =
        some (next, none) ∧ ∃ stage, next.tasks = [{ stage := stage }] ∧
          Peer.Lone (fun _ => True) ({ stage := stage } : Task ι) := by
    have alone : ∀ {middle : Peer ι} {stage : Stage ι}, middle.tasks = [] →
        Peer.Lone (fun _ => True) ({ stage := stage } : Task ι) →
          ∃ stage', (middle.spawn stage).tasks = [{ stage := stage' }] ∧
            Peer.Lone (fun _ => True) ({ stage := stage' } : Task ι) :=
      fun {_ stage} none lone => ⟨stage, by rw [Peer.spawn, none, List.nil_append], lone⟩
    refine ⟨_, by rw [Peer.step, pulling, if_neg Bool.false_ne_true], ?_⟩
    rw [Peer.handleNotification_conflict foreign concurrent]
    split
    · exact alone ((Peer.backUp_tasks _ _ _ _).trans atRest)
        (Peer.lone_startFetch fun _ _ => trivial)
    · exact alone atRest (Peer.lone_startFetch fun _ _ => trivial)
  have run' := run.snoc (step_of ctx acted taken)
  rcases lone.stage with idle | ⟨fetch, working, _⟩
  · refine ⟨_, _, run', fun entry member => ?_, List.mem_singleton_self _, List.append_nil _,
      fun other apart => Function.update_of_ne apart _ _, fun task member => ?_⟩
    · rw [List.mem_singleton.mp member]
      exact .delivered site source _
    · dsimp only at member
      rw [Function.update_self, spawned] at member
      rw [List.mem_singleton.mp member]
      exact ⟨idle, rfl⟩
  · have found : (Function.update current.peer site next site).tasks[0]? =
        some { stage := stage } := by
      rw [Function.update_self, spawned]
      rfl
    obtain ⟨more, after, whole, exchanges, moved⟩ :=
      exists_end run' found (Option.isSome_iff_exists.mpr ⟨fetch, working⟩)
    refine ⟨_ :: more, after, by simpa using whole, fun entry member => ?_, List.mem_cons_self,
      moved.log.trans (List.append_nil _), fun other apart => ?_, fun task member => ?_⟩
    · rcases List.mem_cons.mp member with rfl | later
      · exact .delivered site source _
      · exact exchanges entry later
    · rw [moved.others other apart]
      exact Function.update_of_ne apart _ _
    · rw [moved.tasks] at member
      dsimp only at member
      rw [Function.update_self, spawned] at member
      rw [List.mem_singleton.mp member]
      exact ⟨rfl, rfl⟩

/-- The exchange can take place. -/
theorem Clash.exists_conversation {first second : ι}
    (clash : Clash ctx swarm path first second content) :
    ∃ trace last, Conversation ctx swarm path first second content trace last := by
  have different : second ≠ first := fun same => clash.apart (same ▸ rfl)
  obtain ⟨early, middle, run, exchange, firstHears, log, others, ended⟩ :=
    @exists_heard _ _ _ _ path swarm swarm [] first second _ _ _ _ _ .start
      (by rw [clash.published]; exact List.mem_cons_of_mem _ (List.mem_singleton_self _))
      (clash.pulling first) (clash.atRest first) clash.apart.symm clash.concurrent
  have untouched := others second different
  obtain ⟨late, last, run', exchange', secondHears, _, others', ended'⟩ :=
    @exists_heard _ _ _ _ path swarm middle _ second first _ _ _ _ _ run
      (by rw [log, clash.published]; exact List.mem_cons_self)
      (clash.pulling second) (untouched ▸ clash.atRest second) clash.apart
      (untouched ▸ VectorClock.concurrent_symm clash.concurrent)
  refine ⟨_, last, run', fun entry member => ?_, ?_, ?_, fun site task member => ?_⟩
  · rcases List.mem_append.mp member with earlier | later
    · exact exchange entry earlier
    · exact exchange' entry later
  · rw [List.map_append]
    exact List.mem_append_left _ firstHears
  · rw [List.map_append]
    exact List.mem_append_right _ secondHears
  · by_cases atSecond : site = second
    · exact ended' task (atSecond ▸ member)
    · rw [others' site atSecond] at member
      by_cases atFirst : site = first
      · exact ended task (atFirst ▸ member)
      · rw [others site atFirst, clash.atRest] at member
        exact absurd member List.not_mem_nil

/-- **The two peers never converge**: no exchange ends with equal clocks, and there is one
that comes to its end. -/
theorem never_converges {first second : ι} (clash : Clash ctx swarm path first second content) :
    (∃ trace last, Conversation ctx swarm path first second content trace last) ∧
      ∀ trace last, Conversation ctx swarm path first second content trace last →
        ∀ loser winning losing, ¬ Converged last path first second loser winning losing := by
  refine ⟨clash.exists_conversation, fun trace last conversation loser winning losing same => ?_⟩
  have equal := VectorClock.compare_equal_iff.mp same.clocks
  rcases clash.roles with roles | roles
  · exact roles.clocks_apart conversation.run conversation.exchange equal
  · exact roles.clocks_apart conversation.run conversation.exchange equal.symm

end Exchange

end Swarm

/-! ## An exchange that leaves the clocks concurrent -/

namespace Swarm

attribute [local instance] Sample.blake3

/-- What the first two peers save in `f`. -/
def saved : Sample.Site → Bytes
  | .one => [2]
  | _ => [3]

/-- The first two peers save `f` in the same second. -/
theorem exists_clash :
    ∃ swarm, runActs (step Sample.ctx) (Sample.swarm fun _ => [1])
        (Sample.saves .one [2] ++ Sample.saves .two [3]) = some swarm ∧
      Clash Sample.ctx swarm Sample.safe .one .two saved ∧
        swarm.log = [Sample.update 1 [2], Sample.update 2 [3]] := by
  obtain ⟨swarm, taken, checked⟩ := (Option.any_eq_true _ _).mp (by decide +kernel :
    (runActs (step Sample.ctx) (Sample.swarm fun _ => [1])
        (Sample.saves .one [2] ++ Sample.saves .two [3])).any (fun swarm =>
      decide ((swarm.peer .one).disk.read Sample.safe.rel = some [2]) &&
      decide ((swarm.peer .two).disk.read Sample.safe.rel = some [3]) &&
      decide (((swarm.peer .one).index.clockOf Sample.safe.rel).compare
        ((swarm.peer .two).index.clockOf Sample.safe.rel) = .concurrent) &&
      decide (swarm.log = [swarm.broadcast Sample.ctx .one Sample.safe [2],
        swarm.broadcast Sample.ctx .two Sample.safe [3]]) &&
      decide (swarm.log = [Sample.update 1 [2], Sample.update 2 [3]]) &&
      ((swarm.peer .one).tasks.isEmpty && (swarm.peer .two).tasks.isEmpty &&
        (swarm.peer .three).tasks.isEmpty)) = true)
  simp only [Bool.and_eq_true, decide_eq_true_eq, List.isEmpty_iff] at checked
  obtain ⟨⟨⟨⟨⟨one, two⟩, concurrent⟩, published⟩, log⟩, ⟨restOne, restTwo⟩, restThree⟩ := checked
  refine ⟨swarm, taken, ⟨by decide, fun _ => rfl, ?_, concurrent, published, ?_⟩, log⟩
  · rintro site (rfl | rfl)
    · exact one
    · exact two
  · rintro (_ | _ | _)
    · exact restOne
    · exact restTwo
    · exact restThree

/-- The winner asks for the loser's content before the loser has put it aside. When
everything has come to its end, the loser's clock counts both edits and the winner's only
its own, and the winner has no backup. -/
theorem exists_divergence :
    ∃ swarm trace last, Clash Sample.ctx swarm Sample.safe .one .two saved ∧
      Conversation Sample.ctx swarm Sample.safe .one .two saved trace last ∧
        ((last.peer .one).index.clockOf Sample.safe.rel).compare
          ((last.peer .two).index.clockOf Sample.safe.rel) ≠ .equal ∧
            (last.peer .two).disk.read (Sample.safe.backup (Sample.shortId .one)).rel = none := by
  obtain ⟨swarm, taken, clash, log⟩ := exists_clash
  let turns : List (Turn Sample.Site) :=
    .deliver .two .one (Sample.update 1 [2]) {} :: .serve .two 0 none ::
      .deliver .one .two (Sample.update 2 [3]) {} :: Sample.fetches .one 0
  have passed : (runActs (step Sample.ctx) (Sample.swarm fun _ => [1])
      (Sample.saves .one [2] ++ Sample.saves .two [3] ++ turns)).any (fun last =>
      decide (((last.peer .one).index.clockOf Sample.safe.rel).compare
        ((last.peer .two).index.clockOf Sample.safe.rel) ≠ .equal) &&
      decide ((last.peer .two).disk.read (Sample.safe.backup (Sample.shortId .one)).rel = none) &&
      (Sample.atEnd (last.peer .one) && Sample.atEnd (last.peer .two) &&
        Sample.atEnd (last.peer .three))) = true := by decide +kernel
  rw [runActs_append, taken, Option.bind_some] at passed
  obtain ⟨trace, last, run, acts, checked⟩ := exists_run_of_any passed
  simp only [Bool.and_eq_true, decide_eq_true_eq] at checked
  obtain ⟨⟨clocks, missing⟩, ⟨endOne, endTwo⟩, endThree⟩ := checked
  have published : [swarm.broadcast Sample.ctx .one Sample.safe [2],
      swarm.broadcast Sample.ctx .two Sample.safe [3]] =
      [Sample.update 1 [2], Sample.update 2 [3]] :=
    clash.published.symm.trans log
  rw [List.cons.injEq, List.cons.injEq] at published
  have byOne : swarm.broadcast Sample.ctx .one Sample.safe (saved .one) = Sample.update 1 [2] :=
    published.1
  have byTwo : swarm.broadcast Sample.ctx .two Sample.safe (saved .two) = Sample.update 2 [3] :=
    published.2.1
  refine ⟨swarm, trace, last, clash, ⟨run, fun entry member => ?_, ?_, ?_, ?_⟩, clocks, missing⟩
  · have taken : entry.2 ∈ turns := acts ▸ List.mem_map.mpr ⟨entry, member, rfl⟩
    simp only [turns, Sample.fetches, List.mem_cons, List.not_mem_nil, or_false] at taken
    rcases taken with turn | turn | turn | turn | turn | turn | turn <;> rw [turn] <;> constructor
  · rw [acts, byTwo]
    exact List.mem_cons_of_mem _ (List.mem_cons_of_mem _ List.mem_cons_self)
  · rw [acts, byOne]
    exact List.mem_cons_self
  · rintro (_ | _ | _) task member
    · exact Sample.of_atEnd endOne member
    · exact Sample.of_atEnd endTwo member
    · exact Sample.of_atEnd endThree member

/-- The divergence, for these two peers. -/
theorem never_converges_sample :
    ∃ swarm, Clash Sample.ctx swarm Sample.safe .one .two saved ∧
      (∃ trace last, Conversation Sample.ctx swarm Sample.safe .one .two saved trace last) ∧
        ∀ trace last, Conversation Sample.ctx swarm Sample.safe .one .two saved trace last →
          ∀ loser winning losing,
            ¬ Converged last Sample.safe .one .two loser winning losing := by
  obtain ⟨swarm, _, clash, _⟩ := exists_clash
  exact ⟨swarm, clash, never_converges clash⟩

end Swarm

end P2Sync
