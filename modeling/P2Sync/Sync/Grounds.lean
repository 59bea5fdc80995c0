import P2Sync.Sync.Echo
import P2Sync.Net.Swarm
import P2Sync.Net.Walk

/-!
# What the peers of a swarm do has grounds

A peer publishes what its watcher reported and its write guard let through, and nothing else
(`Swarm.Grounds`). A file changes at a peer because someone changes the folder, or because another
peer published a change or a deletion of it, or because the peer discovered another one and
compared its index with that one's (`Swarm.Caused`). Both are so in every run from the start
(`Swarm.grounds_of_run`, `Swarm.caused_of_run`): no file is written or removed, and nothing is
published, of which nobody's watcher or discovery is the first cause.
-/

set_option autoImplicit false

namespace P2Sync

/-! ## What a peer publishes -/

namespace Peer

variable {ι : Type} [Blake3] {ctx : Ctx ι} {before after : Peer ι} {act : Act ι}

/-- The queue holds what it held and what the watcher passes on. -/
theorem mem_fsQueue_of_next (stepped : before.next ctx act = some after) {event : FsEvent}
    (member : event ∈ after.watch.fsQueue) :
    event ∈ before.watch.fsQueue ∨ act = .watched event ∧
      (before.watch.syncWriteGuard.isSuppressed event.path before.watch.instant
        ctx.writeGuardTtl).1 = false := by
  cases act with
  | notified | discovered | respond | resume =>
      rw [fsQueue_of_isRemote rfl stepped] at member
      exact Or.inl member
  | elapse | setTime | user =>
      cases stepped
      exact Or.inl member
  | watched reported =>
      have queue : after.watch.fsQueue =
          if (before.watch.syncWriteGuard.isSuppressed reported.path before.watch.instant
            ctx.writeGuardTtl).1 then before.watch.fsQueue
          else before.watch.fsQueue ++ [reported] := by
        obtain rfl := Option.some.inj stepped
        rfl
      rw [queue] at member
      by_cases suppressed : (before.watch.syncWriteGuard.isSuppressed reported.path
          before.watch.instant ctx.writeGuardTtl).1 = true
      · rw [if_pos suppressed] at member
        exact Or.inl member
      · rw [if_neg suppressed] at member
        rcases List.mem_append.mp member with old | new
        · exact Or.inl old
        · obtain rfl := List.mem_singleton.mp new
          exact Or.inr ⟨rfl, Bool.eq_false_iff.mpr suppressed⟩
  | fsEvent reads =>
      obtain ⟨first, queue⟩ := fsQueue_of_fsEvent stepped
      exact Or.inl (queue ▸ List.mem_cons_of_mem first member)

/-- **What is published is about the next file event**, of a peer that pushes. -/
theorem published_cases {notification : SyncNotification}
    (stepped : before.step ctx act = some (after, some notification)) :
    ∃ event rest, before.watch.fsQueue = event :: rest ∧ ctx.noPush = false ∧
      ((event.isRemoval = false ∧ ∃ raw hash chunks clock timestamp,
        event.path.toWire = some raw ∧
          notification = .fileChanged raw hash chunks clock timestamp ctx.localId) ∨
      ∃ path clock timestamp, event = .removed path ∧ notification =
        .fileDeleted ⟨path.toStringLossy, before.index.localPeer, clock, timestamp⟩) := by
  generalize said : some notification = published at stepped
  cases step_cases stepped with
  | edited reads path data watch published picked unmarked included first announced =>
      obtain ⟨raw, content, wire, second, rfl⟩ := announced notification said.symm
      obtain ⟨⟨rest, queue⟩, pushing, _⟩ := indexed_eq_some_iff.mp picked
      rcases queue with queue | queue <;>
        exact ⟨_, rest, queue, pushing, Or.inl ⟨rfl, raw, _, _, _, _, wire, rfl⟩⟩
  | erased reads path rest watch queue =>
      cases said
      refine ⟨_, rest, queue, ?_, Or.inr ⟨path, _, _, rfl, rfl⟩⟩
      cases pushes : ctx.noPush with
      | false => rfl
      | true => simp [step, queue, pushes] at stepped
  | _ => cases said

end Peer

/-! ## Grounds -/

/-- The peer with whose index a stage compares its own. -/
def Stage.reconciles {ι : Type} : Stage ι → Option ι
  | .askedRoot source => some source
  | .gotRoot source _ => some source
  | .askedTree source => some source
  | .gotTree source _ => some source
  | _ => none

namespace Swarm

variable {ι : Type}

section Grounds

variable (ctx : ι → Ctx ι) (trace : List (Swarm ι × Turn ι))

/-- The watcher of a peer reported an event, and the write guard let it through. -/
def Noticed (site : ι) (event : FsEvent) : Prop :=
  ∃ before : Swarm ι, (before, .own site (.watched event)) ∈ trace ∧
    ((before.peer site).watch.syncWriteGuard.isSuppressed event.path
      (before.peer site).watch.instant (ctx site).writeGuardTtl).1 = false

/-- What a peer says is what its watcher reported. -/
inductive Grounds : SyncNotification → Prop where
  | changed (author : ι) (event : FsEvent) (raw : Str) (hash : Hash) (chunks : List ChunkMeta)
      (clock : VectorClock) (timestamp : Nat) (pushing : (ctx author).noPush = false)
      (noticed : Noticed ctx trace author event) (touched : event.isRemoval = false)
      (wire : event.path.toWire = some raw) :
      Grounds (.fileChanged raw hash chunks clock timestamp (ctx author).localId)
  | deleted (author : ι) (path : RelPath) (clock : VectorClock) (timestamp : Nat)
      (pushing : (ctx author).noPush = false) (noticed : Noticed ctx trace author (.removed path)) :
      Grounds (.fileDeleted ⟨path.toStringLossy, (ctx author).localId, clock, timestamp⟩)

/-- A peer discovered another one. -/
def Met (site source : ι) : Prop :=
  ∃ before : Swarm ι, (before, .own site (.discovered source)) ∈ trace

/-- What makes a peer fetch a file: it was told of a version of it, or of one whose backup it is,
or it discovered the peer that it fetches from. -/
inductive Prompted (site : ι) (fetch : Fetch ι) : Prop where
  | told (before : Swarm ι) (path : SafePath) (hash : Hash) (chunks : List ChunkMeta)
      (clock : VectorClock) (timestamp : Nat) (writer : PeerId) (device : Device)
      (happened : (before, .deliver site fetch.source
        (.fileChanged path.raw hash chunks clock timestamp writer) device) ∈ trace)
      (grounds : Grounds ctx trace (.fileChanged path.raw hash chunks clock timestamp writer))
      (about : fetch.path = path ∨ fetch.path = path.backup writer)
      (origin : fetch.origin = ⟨clock, timestamp, writer⟩) : Prompted site fetch
  | met (happened : Met trace site fetch.source) : Prompted site fetch

end Grounds

variable {ctx : ι → Ctx ι} {trace : List (Swarm ι × Turn ι)}

theorem Noticed.later {site : ι} {event : FsEvent} (noticed : Noticed ctx trace site event)
    (more : List (Swarm ι × Turn ι)) : Noticed ctx (trace ++ more) site event := by
  obtain ⟨before, happened, passed⟩ := noticed
  exact ⟨before, List.mem_append_left _ happened, passed⟩

theorem Grounds.later {notification : SyncNotification} (grounds : Grounds ctx trace notification)
    (more : List (Swarm ι × Turn ι)) : Grounds ctx (trace ++ more) notification := by
  cases grounds with
  | changed author event raw hash chunks clock timestamp pushing noticed touched wire =>
      exact .changed author event raw hash chunks clock timestamp pushing (noticed.later more)
        touched wire
  | deleted author path clock timestamp pushing noticed =>
      exact .deleted author path clock timestamp pushing (noticed.later more)

theorem Met.later {site source : ι} (met : Met trace site source)
    (more : List (Swarm ι × Turn ι)) : Met (trace ++ more) site source := by
  obtain ⟨before, happened⟩ := met
  exact ⟨before, List.mem_append_left _ happened⟩

theorem Prompted.later {site : ι} {fetch : Fetch ι} (prompted : Prompted ctx trace site fetch)
    (more : List (Swarm ι × Turn ι)) : Prompted ctx (trace ++ more) site fetch := by
  cases prompted with
  | told before path hash chunks clock timestamp writer device happened grounds about origin =>
      exact .told before path hash chunks clock timestamp writer device
        (List.mem_append_left _ happened) (grounds.later more) about origin
  | met happened => exact .met (happened.later more)

/-! ## Runs -/

/-- What a task does was prompted. -/
structure Driven (ctx : ι → Ctx ι) (trace : List (Swarm ι × Turn ι)) (site : ι) (task : Task ι) :
    Prop where
  reconciles : ∀ source, task.stage.reconciles = some source → Met trace site source
  todo : ∀ source path count, .fetchFile source path count ∈ task.todo → Met trace site source
  fetch : ∀ fetch, task.stage.fetch? = some fetch → Prompted ctx trace site fetch

theorem Driven.later {site : ι} {task : Task ι} (driven : Driven ctx trace site task)
    (more : List (Swarm ι × Turn ι)) : Driven ctx (trace ++ more) site task where
  reconciles source working := (driven.reconciles source working).later more
  todo source path count member := (driven.todo source path count member).later more
  fetch fetch working := (driven.fetch fetch working).later more

/-- Everything that is queued, published or under way has grounds. -/
structure Accounted (ctx : ι → Ctx ι) (trace : List (Swarm ι × Turn ι)) (swarm : Swarm ι) :
    Prop where
  named : ∀ site, (swarm.peer site).index.localPeer = (ctx site).localId
  queue : ∀ site, ∀ event ∈ (swarm.peer site).watch.fsQueue, Noticed ctx trace site event
  log : ∀ notification ∈ swarm.log, Grounds ctx trace notification
  tasks : ∀ site, ∀ task ∈ (swarm.peer site).tasks, Driven ctx trace site task

section Tasks

variable {site : ι}

/-- A stage that starts a fetch reconciles with nobody. -/
theorem reconciles_startFetch {peer : Peer ι} {source : ι} {raw : Str} {chunkIndices : List Nat}
    {origin : RemoteOrigin} {cause : Cause} :
    (peer.startFetch source raw chunkIndices origin cause).reconciles = none := by
  rw [Peer.startFetch]
  split
  · rfl
  · split <;> rfl

/-- A task that starts with a fetch is driven by what prompts it. -/
theorem driven_startFetch {peer : Peer ι} {source : ι} {raw : Str} {chunkIndices : List Nat}
    {origin : RemoteOrigin} {cause : Cause} {todo : List (Walk ι)} {filesSynced : Nat}
    (rest : ∀ source path count, .fetchFile source path count ∈ todo → Met trace site source)
    (prompted : ∀ path : SafePath, path.raw = raw →
      Prompted ctx trace site ⟨source, path, chunkIndices, origin, cause⟩) :
    Driven ctx trace site
      ⟨peer.startFetch source raw chunkIndices origin cause, todo, filesSynced⟩ where
  reconciles source working := by
    dsimp only at working
    rw [reconciles_startFetch] at working
    exact absurd working (Option.some_ne_none source).symm
  todo := rest
  fetch fetch working := by
    obtain ⟨path, named, _, rfl⟩ := Peer.startFetch_fetch?.mp working
    exact prompted path named

/-- A task whose stage works on nothing is driven by what it has left to do. -/
theorem driven_of_idle {task : Task ι}
    (rest : ∀ source path count, .fetchFile source path count ∈ task.todo → Met trace site source)
    (alone : task.stage.reconciles = none) (idle : task.stage.fetch? = none) :
    Driven ctx trace site task where
  reconciles source working := absurd (alone.symm.trans working) (Option.some_ne_none source).symm
  todo := rest
  fetch fetch working := absurd (idle.symm.trans working) (Option.some_ne_none fetch).symm

/-- A reply does not change with whom a stage reconciles. -/
theorem reconciles_answer {stage stage' : Stage ι} {response : Option SyncResponse} {source : ι}
    (reply : Peer.answer stage response = some stage')
    (working : stage'.reconciles = some source) : stage.reconciles = some source := by
  cases Peer.reply_cases reply with
  | root | tree => exact working
  | _ => exact absurd working (Option.some_ne_none source).symm

/-- A reply leaves a task with what drives it. -/
theorem Driven.answered {task : Task ι} {response : Option SyncResponse} {stage : Stage ι}
    (driven : Driven ctx trace site task) (reply : Peer.answer task.stage response = some stage) :
    Driven ctx trace site { task with stage := stage } where
  reconciles source working := driven.reconciles source (reconciles_answer reply working)
  todo := driven.todo
  fetch fetch working := driven.fetch fetch (Peer.answer_fetch? reply working).1

variable [Blake3]

/-- A stretch leaves a task with what drives it. -/
theorem Driven.ran {device : Device} {peer next : Peer ι} {task task' : Task ι}
    (driven : Driven ctx trace site task)
    (ran : Peer.Ran (ctx site) device peer task next task') : Driven ctx trace site task' := by
  cases ran with
  | counted files rest ended left =>
      have todo : ∀ source path count, .fetchFile source path count ∈ rest →
          Met trace site source := fun source path count member =>
        driven.todo source path count (left ▸ List.mem_cons_of_mem _ member)
      exact ⟨driven.reconciles, todo, driven.fetch⟩
  | started source path count rest ended left =>
      refine driven_startFetch (fun source path count member =>
        driven.todo source path count (left ▸ List.mem_cons_of_mem _ member)) fun safe _ => ?_
      exact .met (driven.todo source path count (left ▸ List.mem_cons_self))
  | loaded fetch chunks data answered applied =>
      refine ⟨nofun, driven.todo, fun fetch' working => driven.fetch fetch' ?_⟩
      rw [answered]
      exact working
  | wrote fetch data disk watch ready success =>
      refine ⟨nofun, driven.todo, fun fetch' working => driven.fetch fetch' ?_⟩
      rw [ready]
      exact working
  | compared source hash asked =>
      split
      · exact driven_of_idle driven.todo rfl rfl
      · refine ⟨fun source' working => driven.reconciles source' ?_, driven.todo, nofun⟩
        rw [asked]
        exact working
  | walked source tree asked =>
      refine driven_of_idle (fun source' path count member => ?_) rfl rfl
      obtain rfl := source_of_mem_walkDiff member
      exact driven.reconciles source' (by rw [asked]; rfl)
  | forgotten | refused | failed | committed => exact driven_of_idle driven.todo rfl rfl

end Tasks

variable [Blake3] {before after : Swarm ι} {site : ι} {act : Act ι} {turn : Turn ι}

/-- A notification that is delivered has grounds. -/
theorem Accounted.delivered (accounted : Accounted ctx trace before) {source : ι}
    {notification : SyncNotification} {device : Device}
    (does : Does ctx before turn site (.notified source notification device)) :
    turn = .deliver site source notification device ∧ Grounds ctx trace notification := by
  generalize same : Act.notified source notification device = act at does
  cases does with
  | own _ _ own =>
      rw [← same] at own
      exact absurd own Bool.false_ne_true
  | delivered _ _ _ _ published =>
      cases same
      exact ⟨rfl, accounted.log _ published⟩
  | served => cases same
  | failed => cases same

/-- What happens at a peer on its own is its own turn. -/
theorem Does.eq_own (does : Does ctx before turn site act) (alone : act.isOwn = true) :
    turn = .own site act := by
  cases does with
  | own => rfl
  | _ => exact absurd alone Bool.false_ne_true

/-- A task that a turn makes is driven. -/
theorem Accounted.made (accounted : Accounted ctx trace before) {task : Task ι}
    (does : Does ctx before turn site act)
    (made : Peer.Makes (ctx site) (before.peer site) act task) :
    Driven ctx (trace ++ [(before, turn)]) site task := by
  have now : (before, turn) ∈ trace ++ [(before, turn)] :=
    List.mem_append_right _ (List.mem_singleton_self _)
  have nothing : ∀ source path count, .fetchFile source path count ∈ ([] : List (Walk ι)) →
      Met (trace ++ [(before, turn)]) site source :=
    fun _ _ _ member => absurd member List.not_mem_nil
  cases made with
  | accepted source path hash chunks clock timestamp writer device
  | lost source path hash chunks clock timestamp writer device =>
      obtain ⟨rfl, grounds⟩ := accounted.delivered does
      refine driven_startFetch nothing fun safe named => ?_
      exact .told before path hash chunks clock timestamp writer device now (grounds.later _)
        (Or.inl (SafePath.eq_of_raw named)) rfl
  | kept source path hash chunks clock timestamp writer device =>
      obtain ⟨rfl, grounds⟩ := accounted.delivered does
      refine driven_startFetch nothing fun safe named => ?_
      exact .told before path hash chunks clock timestamp writer device now (grounds.later _)
        (Or.inr (SafePath.eq_of_raw named)) rfl
  | unlinked => exact driven_of_idle nothing rfl rfl
  | discovered source =>
      obtain rfl := does.eq_own rfl
      refine ⟨fun source' working => ?_, nothing, nofun⟩
      obtain rfl := Option.some.inj working
      exact ⟨before, now⟩
  | answered number response task stage found reply =>
      exact ((accounted.tasks site task (List.mem_of_getElem? found)).later _).answered reply
  | resumed number device task task' next found ran =>
      exact ((accounted.tasks site task (List.mem_of_getElem? found)).later _).ran
        (Peer.run_cases ran)

/-- What a peer publishes has grounds. -/
theorem Accounted.published (accounted : Accounted ctx trace before) {next : Peer ι}
    {notification : SyncNotification}
    (taken : (before.peer site).step (ctx site) act = some (next, some notification)) :
    Grounds ctx trace notification := by
  obtain ⟨event, rest, queue, pushing, ⟨touched, raw, hash, chunks, clock, timestamp, wire, rfl⟩ |
    ⟨path, clock, timestamp, rfl, rfl⟩⟩ := Peer.published_cases taken
  · exact .changed site event raw hash chunks clock timestamp pushing
      (accounted.queue site event (queue ▸ List.mem_cons_self)) touched wire
  · rw [accounted.named site]
    exact .deleted site path clock timestamp pushing
      (accounted.queue site _ (queue ▸ List.mem_cons_self))

/-- Everything has grounds after a turn. -/
theorem Accounted.keeps [DecidableEq ι] (accounted : Accounted ctx trace before)
    (stepped : before.step ctx turn = some after) :
    Accounted ctx (trace ++ [(before, turn)]) after := by
  obtain ⟨site, act, next, published, does, taken, rfl⟩ := exists_does stepped
  have moved : (before.peer site).next (ctx site) act = some next := by
    rw [Peer.next, taken]
    rfl
  have cases := Peer.step_cases taken
  refine ⟨fun other => ?_, fun other event member => ?_, fun notification member => ?_,
    fun other task member => ?_⟩
  · by_cases here : other = site
    · subst here
      dsimp only
      rw [Function.update_self, cases.fixed.localPeer, accounted.named other]
    · dsimp only
      rw [Function.update_of_ne here, accounted.named other]
  · by_cases here : other = site
    · subst here
      dsimp only at member
      rw [Function.update_self] at member
      rcases Peer.mem_fsQueue_of_next moved member with old | ⟨rfl, passed⟩
      · exact (accounted.queue other event old).later _
      · obtain rfl := does.eq_own rfl
        exact ⟨before, List.mem_append_right _ (List.mem_singleton_self _), passed⟩
    · dsimp only at member
      rw [Function.update_of_ne here] at member
      exact (accounted.queue other event member).later _
  · rcases List.mem_append.mp member with old | new
    · exact (accounted.log notification old).later _
    · obtain rfl := Option.mem_toList.mp new
      exact (accounted.published taken).later _
  · by_cases here : other = site
    · subst here
      dsimp only at member
      rw [Function.update_self] at member
      rcases cases.task member with old | made
      · exact (accounted.tasks other task old).later _
      · exact accounted.made does made
    · dsimp only at member
      rw [Function.update_of_ne here] at member
      exact (accounted.tasks other task member).later _

section Runs

variable [DecidableEq ι] {first last : Swarm ι}

/-- Everything has grounds in a run from the start. -/
theorem accounted_of_run (started : ∀ site, ∃ disk patterns now,
      Peer.start (ctx site) disk patterns now = some (first.peer site)) (silent : first.log = [])
    (run : Run (step ctx) first trace last) : Accounted ctx trace last := by
  refine run.history (Accounted ctx) (fun _ _ _ => True) (fun _ _ _ _ => trivial) ?_
    fun _ _ _ _ accounted _ stepped => accounted.keeps stepped
  refine ⟨fun site => ?_, fun site event member => ?_, fun notification member => ?_,
    fun site task member => ?_⟩
  · obtain ⟨_, _, _, started⟩ := started site
    exact (Peer.start_index started).1
  · obtain ⟨_, _, _, started⟩ := started site
    obtain ⟨index, _, same⟩ := Option.map_eq_some_iff.mp started
    rw [← same] at member
    exact absurd member List.not_mem_nil
  · rw [silent] at member
    exact absurd member List.not_mem_nil
  · obtain ⟨_, _, _, started⟩ := started site
    rw [(Peer.start_index started).2.1] at member
    exact absurd member List.not_mem_nil

/-- **Nothing is published that a watcher did not report**, by a peer that pushes. -/
theorem grounds_of_run (started : ∀ site, ∃ disk patterns now,
      Peer.start (ctx site) disk patterns now = some (first.peer site)) (silent : first.log = [])
    (run : Run (step ctx) first trace last) {notification : SyncNotification}
    (published : notification ∈ last.log) : Grounds ctx trace notification :=
  (accounted_of_run started silent run).log notification published

end Runs

end Swarm

/-! ## A concrete run -/

namespace Swarm

attribute [local instance] Sample.blake3

theorem indexed_sample (data : Sample.Site → Bytes) (site : Sample.Site) :
    ∃ disk patterns now, Peer.start (Sample.ctx site) disk patterns now =
      some ((Sample.swarm data).peer site) :=
  ⟨_, _, _, Sample.start_peer site (data site)⟩

/-- What the first peer publishes of its edit has grounds. -/
theorem exists_grounds :
    ∃ (trace : List (Swarm Sample.Site × Turn Sample.Site)) (last : Swarm Sample.Site),
      Run (step Sample.ctx) (Sample.swarm fun _ => [1]) trace last ∧
        trace.map Prod.snd = Sample.saves .one [2] ∧ last.log = [Sample.update 1 [2]] ∧
          Grounds Sample.ctx trace (Sample.update 1 [2]) := by
  obtain ⟨trace, last, run, turns, published⟩ := exists_run_of_any (by decide +kernel :
    (runActs (step Sample.ctx) (Sample.swarm fun _ => [1]) (Sample.saves .one [2])).any
      (fun last => decide (last.log = [Sample.update 1 [2]])) = true)
  have published := of_decide_eq_true published
  exact ⟨trace, last, run, turns, published,
    grounds_of_run (indexed_sample _) rfl run (by rw [published]; exact List.mem_singleton_self _)⟩

end Swarm

end P2Sync
