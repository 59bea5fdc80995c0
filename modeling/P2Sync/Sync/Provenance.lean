import P2Sync.Net.Atomic
import Mathlib.Logic.Relation

/-!
# Where the bytes of a file come from

A peer writes files that other peers send, that it puts together over an old file, and that it
copies beside a losing one. No byte comes out of nothing: in every state that a swarm reaches, a
byte of a file fills a gap, or somebody put it there, into the same file or into one that this one
is a backup of (`Swarm.put_of_run`). It stays at its offset as long as the peers cut files into
slices of one size (`eq_of_slides`); else it stays in its slice.
-/

set_option autoImplicit false

namespace P2Sync

open Relation

/-- The byte at an offset of a file. -/
def Disk.byteAt (disk : Disk) (path : RelPath) (offset : Nat) : Option UInt8 :=
  (disk.read path).bind fun data => data[offset]?

/-- The bytes that a stage yields for its file, with the offsets where they go. -/
inductive Stage.Yields {ι : Type} (chunkSize : Nat) : Stage ι → RelPath → Nat → UInt8 → Prop where
  | answered (fetch : Fetch ι) (chunks : List (Nat × Bytes)) (index : Nat) (data : Bytes)
      (inside : Nat) (byte : UInt8) (member : (index, data) ∈ chunks)
      (found : data[inside]? = some byte) :
      Yields chunkSize (.answered fetch chunks) fetch.path.rel (index * chunkSize + inside) byte
  | loaded (fetch : Fetch ι) (data : Bytes) (offset : Nat) (byte : UInt8)
      (found : data[offset]? = some byte) :
      Yields chunkSize (.loaded fetch data) fetch.path.rel offset byte

namespace Swarm

variable {ι : Type}

section Origins

variable (ctx : ι → Ctx ι) (first : Swarm ι) (trace : List (Swarm ι × Turn ι))

/-- Somebody put a byte there: it was there at the start, or someone changed the folder so that
it is. -/
inductive Put (path : RelPath) (offset : Nat) (byte : UInt8) : Prop where
  | initial (site : ι) (read : (first.peer site).disk.byteAt path offset = some byte) :
      Put path offset byte
  | saved (before : Swarm ι) (site : ι) (disk : Disk)
      (happened : (before, .own site (.user disk)) ∈ trace)
      (read : disk.byteAt path offset = some byte)
      (new : (before.peer site).disk.byteAt path offset ≠ some byte) :
      Put path offset byte

/-- A path is that of the backup of a file at a peer. -/
def IsBackup (origin path : RelPath) : Prop :=
  ∃ (safe : SafePath) (site : ι), safe.rel = origin ∧ (safe.backup (ctx site).localId).rel = path

/-- A slice of one peer is one of another, and an offset in it stays where it is in the slice. -/
def Slides (start offset : Nat) : Prop :=
  ∃ (source site : ι) (index inside : Nat), inside < (ctx source).storage.chunkSize ∧
    start = index * (ctx source).storage.chunkSize + inside ∧
      offset = index * (ctx site).storage.chunkSize + inside

/-- A byte fills a gap, or it goes back to where somebody put it. -/
def Sourced (path : RelPath) (offset : Nat) (byte : UInt8) : Prop :=
  byte = 0 ∨ ∃ origin start, ReflTransGen (IsBackup ctx) origin path ∧
    ReflTransGen (Slides ctx) start offset ∧ Put first trace origin start byte

variable {ctx first trace}

/-- Peers with slices of one size leave a byte at its offset. -/
theorem eq_of_slides (same : ∀ site other : ι,
    (ctx site).storage.chunkSize = (ctx other).storage.chunkSize) {start offset : Nat}
    (slides : ReflTransGen (Slides ctx) start offset) : start = offset := by
  induction slides with
  | refl => rfl
  | tail _ slide ih =>
      obtain ⟨source, site, index, inside, _, rfl, rfl⟩ := slide
      rw [ih, same source site]

theorem sourced_put {path : RelPath} {offset : Nat} {byte : UInt8}
    (put : Put first trace path offset byte) : Sourced ctx first trace path offset byte :=
  Or.inr ⟨path, offset, .refl, .refl, put⟩

theorem Sourced.copied {origin path : RelPath} {offset : Nat} {byte : UInt8}
    (sourced : Sourced ctx first trace origin offset byte) (copies : IsBackup ctx origin path) :
    Sourced ctx first trace path offset byte :=
  sourced.imp_right fun ⟨source, start, backups, slides, put⟩ =>
    ⟨source, start, backups.tail copies, slides, put⟩

theorem Sourced.slid {path : RelPath} {start offset : Nat} {byte : UInt8}
    (sourced : Sourced ctx first trace path start byte) (slide : Slides ctx start offset) :
    Sourced ctx first trace path offset byte :=
  sourced.imp_right fun ⟨source, start, backups, slides, put⟩ =>
    ⟨source, start, backups, slides.tail slide, put⟩

/-- What was put stays put. -/
theorem Sourced.later {path : RelPath} {offset : Nat} {byte : UInt8}
    (sourced : Sourced ctx first trace path offset byte) (more : List (Swarm ι × Turn ι)) :
    Sourced ctx first (trace ++ more) path offset byte :=
  sourced.imp_right fun ⟨source, start, backups, slides, put⟩ => by
    refine ⟨source, start, backups, slides, ?_⟩
    cases put with
    | initial site read => exact .initial site read
    | saved before site disk happened read new =>
        exact .saved before site disk (List.mem_append_left _ happened) read new

variable (ctx first trace) in
/-- Everything the peers hold has a source. -/
structure Genuine (swarm : Swarm ι) : Prop where
  files : ∀ site path offset byte, (swarm.peer site).disk.byteAt path offset = some byte →
    Sourced ctx first trace path offset byte
  tasks : ∀ site, ∀ task ∈ (swarm.peer site).tasks, ∀ path offset byte,
    task.stage.Yields (ctx site).storage.chunkSize path offset byte →
      Sourced ctx first trace path offset byte

end Origins

variable [Blake3]

/-- A slice that is served has the bytes of the file. -/
theorem byteAt_of_served {storage : StorageConfig} {data piece : Bytes} {chunkIndices : List Nat}
    {index inside : Nat} {byte : UInt8}
    (served : (index, piece) ∈ serveChunks storage data chunkIndices)
    (found : piece[inside]? = some byte) :
    inside < storage.chunkSize ∧ data[index * storage.chunkSize + inside]? = some byte := by
  obtain ⟨_, _, mapped⟩ := List.mem_filterMap.mp served
  obtain ⟨chunk, sliced, same⟩ := Option.map_eq_some_iff.mp mapped
  cases same
  rw [Chunk.split, List.getElem?_map] at sliced
  obtain ⟨slice, cut, rfl⟩ := Option.map_eq_some_iff.mp sliced
  rw [Chunk.slices_getElem?, Option.ite_none_right_eq_some] at cut
  obtain rfl := Option.some.inj cut.2
  rw [List.getElem?_take, Option.ite_none_right_eq_some, List.getElem?_drop] at found
  exact found

omit [Blake3] in
/-- A byte of what a fetch puts together fills a gap, or it is of the old file or of a chunk. -/
theorem byte_of_applied {storage : StorageConfig} {chunks : List (Nat × Bytes)} {old data : Bytes}
    {offset : Nat} {byte : UInt8} (applied : applyChunks storage chunks old = some data)
    (found : data[offset]? = some byte) :
    byte = 0 ∨ old[offset]? = some byte ∨ ∃ index piece inside, (index, piece) ∈ chunks ∧
      offset = index * storage.chunkSize + inside ∧ piece[inside]? = some byte := by
  obtain ⟨_, rfl⟩ := applyChunks_eq_some_iff.mp applied
  refine (Overlay.value_cases found).imp_right (Or.imp_right ?_)
  rintro ⟨_, kept, late, here⟩
  obtain ⟨⟨index, piece⟩, member, rfl⟩ := List.mem_map.mp kept
  exact ⟨index, piece, offset - index * storage.chunkSize, (List.mem_filter.mp member).1,
    (Nat.add_sub_cancel' late).symm, here⟩

omit [Blake3] in
/-- What a device stores of a content are bytes of it. -/
theorem byte_of_stored {outcome : Outcome} {data content : Bytes} {offset : Nat} {byte : UInt8}
    (stored : outcome.stored data = some content) (found : content[offset]? = some byte) :
    data[offset]? = some byte := by
  cases outcome with
  | succeeds =>
      cases stored
      exact found
  | refused => cases stored
  | interrupted kept =>
      cases stored
      rw [List.getElem?_take, Option.ite_none_right_eq_some] at found
      exact found.2

omit [Blake3] in
/-- A fetch that starts yields nothing. -/
theorem not_yields_startFetch {peer : Peer ι} {source : ι} {raw : Str} {chunkIndices : List Nat}
    {origin : RemoteOrigin} {cause : Cause} {chunkSize : Nat} {path : RelPath} {offset : Nat}
    {byte : UInt8} :
    ¬ (peer.startFetch source raw chunkIndices origin cause).Yields chunkSize path offset byte := by
  intro yields
  rw [Peer.startFetch] at yields
  split at yields
  · cases yields
  · split at yields <;> cases yields

omit [Blake3] in
/-- What an answer yields are the chunks that a fetch asked for. -/
theorem asked_of_yields {stage stage' : Stage ι} {response : Option SyncResponse} {chunkSize : Nat}
    {path : RelPath} {offset : Nat} {byte : UInt8}
    (reply : Peer.answer stage response = some stage')
    (yields : stage'.Yields chunkSize path offset byte) :
    ∃ fetch echoed chunks, stage = .asked fetch ∧ response = some (.chunks echoed chunks) ∧
      stage' = .answered fetch chunks := by
  cases Peer.reply_cases reply with
  | chunks fetch echoed chunks => exact ⟨fetch, echoed, chunks, rfl, rfl, rfl⟩
  | _ => cases yields

variable {ctx : ι → Ctx ι} {first before after : Swarm ι} {trace : List (Swarm ι × Turn ι)}

/-- An answer yields bytes of a file of the peer that was asked. -/
theorem Genuine.answered (genuine : Genuine ctx first trace before) {turn : Turn ι} {site : ι}
    {number : Nat} {response : Option SyncResponse} {task : Task ι} {stage : Stage ι}
    {path : RelPath} {offset : Nat} {byte : UInt8}
    (does : Does ctx before turn site (.respond number response))
    (found : (before.peer site).tasks[number]? = some task)
    (reply : Peer.answer task.stage response = some stage)
    (yields : stage.Yields (ctx site).storage.chunkSize path offset byte) :
    Sourced ctx first trace path offset byte := by
  obtain ⟨fetch, echoed, chunks, waits, rfl, rfl⟩ := asked_of_yields reply yields
  obtain ⟨failure, _, source, request, _, found', asked, answers⟩ := does.answered
  obtain rfl := Option.some.inj (found.symm.trans found')
  rw [waits] at asked
  obtain ⟨rfl, rfl⟩ := Prod.mk.inj (Option.some.inj asked)
  obtain ⟨_, file, read, rfl⟩ := handleInboundRequest_chunks answers.symm
  cases yields with
  | answered _ _ index data inside byte member here =>
      obtain ⟨within, there⟩ := byteAt_of_served member here
      refine (genuine.files fetch.source fetch.path.rel _ byte ?_).slid
        ⟨fetch.source, site, index, inside, within, rfl, rfl⟩
      rw [Disk.byteAt, read]
      exact there

/-- A stretch of a task makes what it yields of what the task and the peer held. -/
theorem Genuine.ran (genuine : Genuine ctx first trace before) {site : ι} {device : Device}
    {next : Peer ι} {task task' : Task ι} (member : task ∈ (before.peer site).tasks)
    (ran : Peer.Ran (ctx site) device (before.peer site) task next task') {path : RelPath}
    {offset : Nat} {byte : UInt8}
    (yields : task'.stage.Yields (ctx site).storage.chunkSize path offset byte) :
    Sourced ctx first trace path offset byte := by
  have idle : ¬ (Stage.idle : Stage ι).Yields (ctx site).storage.chunkSize path offset byte := nofun
  cases ran with
  | counted files rest ended =>
      rw [ended] at yields
      exact absurd yields idle
  | started => exact absurd yields not_yields_startFetch
  | loaded fetch chunks data answered applied =>
      cases yields with
      | loaded _ _ _ _ here =>
          rcases byte_of_applied applied here with
            rfl | old | ⟨index, piece, inside, sent, rfl, there⟩
          · exact Or.inl rfl
          · refine genuine.files site fetch.path.rel offset byte ?_
            rw [Disk.byteAt]
            rw [Peer.oldData] at old
            split at old
            · cases read : (before.peer site).disk.read fetch.path.rel with
              | none => simp [read] at old
              | some content => simpa [read] using old
            · simp at old
          · refine genuine.tasks site task member fetch.path.rel _ byte ?_
            rw [answered]
            exact .answered fetch chunks index piece inside byte sent there
  | compared =>
      dsimp only at yields
      split at yields <;> cases yields
  | _ => cases yields

/-- A changed file yields what has a source, or what someone has just put there. -/
theorem Genuine.rewritten (genuine : Genuine ctx first trace before) {turn : Turn ι} {site : ι}
    {act : Act ι} {path : RelPath} {content : Option Bytes} {offset : Nat} {byte : UInt8}
    (does : Does ctx before turn site act)
    (changed : Peer.Rewrites (ctx site) (before.peer site) path act content)
    (read : (content.bind fun data => data[offset]?) = some byte) :
    Sourced ctx first (trace ++ [(before, turn)]) path offset byte := by
  cases changed with
  | user disk =>
      by_cases old : (before.peer site).disk.byteAt path offset = some byte
      · exact (genuine.files site path offset byte old).later _
      · cases does with
        | own =>
            exact sourced_put (.saved before site disk
              (List.mem_append_right _ (List.mem_singleton_self _)) read old)
  | copied source safe hash chunks clock timestamp writer device data content foreign concurrent
      wins here there stored =>
      subst here
      refine Sourced.later ?_ _
      refine Sourced.copied (genuine.files site safe.rel offset byte ?_) ⟨safe, site, rfl, rfl⟩
      rw [Disk.byteAt, there]
      exact byte_of_stored stored read
  | removed => cases read
  | written number device task fetch data content found ready here stored =>
      subst here
      refine (genuine.tasks site task (List.mem_of_getElem? found) fetch.path.rel offset byte
        ?_).later _
      rw [ready]
      exact .loaded fetch data offset byte (byte_of_stored stored read)

/-- A new task yields what has a source. -/
theorem Genuine.made (genuine : Genuine ctx first trace before) {turn : Turn ι} {site : ι}
    {act : Act ι} {task : Task ι} {path : RelPath} {offset : Nat} {byte : UInt8}
    (does : Does ctx before turn site act)
    (made : Peer.Makes (ctx site) (before.peer site) act task)
    (yields : task.stage.Yields (ctx site).storage.chunkSize path offset byte) :
    Sourced ctx first trace path offset byte := by
  cases made with
  | accepted | lost | kept => exact absurd yields not_yields_startFetch
  | unlinked => cases yields
  | discovered => cases yields
  | answered number response task stage found reply =>
      exact genuine.answered does found reply yields
  | resumed number device task task' next found ran =>
      exact genuine.ran (List.mem_of_getElem? found) (Peer.run_cases ran) yields

/-- Everything the peers hold after a turn has a source. -/
theorem Genuine.keeps [DecidableEq ι] (genuine : Genuine ctx first trace before) {turn : Turn ι}
    (stepped : before.step ctx turn = some after) :
    Genuine ctx first (trace ++ [(before, turn)]) after := by
  obtain ⟨site, act, next, published, does, taken, rfl⟩ := step_cases stepped
  refine ⟨fun other path offset byte read => ?_,
    fun other task member path offset byte yields => ?_⟩
  · by_cases here : other = site
    · subst here
      dsimp only at read
      rw [Function.update_self] at read
      rcases taken.read path with same | changed
      · rw [Disk.byteAt, same] at read
        exact (genuine.files other path offset byte read).later _
      · exact genuine.rewritten does changed read
    · dsimp only at read
      rw [Function.update_of_ne here] at read
      exact (genuine.files other path offset byte read).later _
  · by_cases here : other = site
    · subst here
      dsimp only at member
      rw [Function.update_self] at member
      rcases taken.task member with old | made
      · exact (genuine.tasks other task old path offset byte yields).later _
      · exact (genuine.made does made yields).later _
    · dsimp only at member
      rw [Function.update_of_ne here] at member
      exact (genuine.tasks other task member path offset byte yields).later _

/-- Everything the peers hold has a source in a run from peers without tasks. -/
theorem genuine_of_run [DecidableEq ι] {last : Swarm ι}
    (started : ∀ site, (first.peer site).tasks = []) (run : Run (step ctx) first trace last) :
    Genuine ctx first trace last := by
  refine run.history (Genuine ctx first) (fun _ _ _ => True) (fun _ _ _ _ => trivial)
    ⟨fun site path offset byte read => sourced_put (.initial site read), fun site task member => ?_⟩
    fun _ _ _ _ genuine _ stepped => genuine.keeps stepped
  rw [started site] at member
  exact absurd member List.not_mem_nil

/-- **No byte comes out of nothing**: a byte of a file that is not zero was put by someone into
this file, or into one that this one is a backup of, at its offset if all peers cut files into
slices of one size, and else in its slice. -/
theorem put_of_run [DecidableEq ι] {last : Swarm ι} (started : ∀ site, (first.peer site).tasks = [])
    (run : Run (step ctx) first trace last) {site : ι} {path : RelPath} {offset : Nat}
    {byte : UInt8} (read : (last.peer site).disk.byteAt path offset = some byte)
    (nonzero : byte ≠ 0) :
    ∃ origin start, ReflTransGen (IsBackup ctx) origin path ∧
      ReflTransGen (Slides ctx) start offset ∧ Put first trace origin start byte ∧
        ((∀ site other, (ctx site).storage.chunkSize = (ctx other).storage.chunkSize) →
          start = offset) := by
  obtain ⟨origin, start, backups, slides, put⟩ :=
    ((genuine_of_run started run).files site path offset byte read).resolve_left nonzero
  exact ⟨origin, start, backups, slides, put, fun same => eq_of_slides same slides⟩

omit [Blake3] in
/-- Whoever put a byte there can be seen. -/
theorem Put.shown {path : RelPath} {offset : Nat} {byte : UInt8}
    (put : Put first trace path offset byte) :
    (∃ site, (first.peer site).disk.byteAt path offset = some byte) ∨
      ∃ site disk, (site, .user disk) ∈ visible Swarm.shown trace ∧
        disk.byteAt path offset = some byte := by
  cases put with
  | initial site read => exact Or.inl ⟨site, read⟩
  | saved before site disk happened read new =>
      exact Or.inr ⟨site, disk, List.mem_flatMap.mpr ⟨_, happened, List.mem_singleton_self _⟩, read⟩

end Swarm

/-- **Nor does it with the loops between the peers**: what a user put there can be seen in the run
of the mesh. -/
theorem Mesh.saved_of_run {ι : Type} [DecidableEq ι] [Blake3] {ctx : ι → Ctx ι} {capacity : Nat}
    {peer : ι → Peer ι} {topic : Str} {last : Mesh ι} {trace : List (Mesh ι × Move ι)}
    (started : ∀ site, (peer site).tasks = [])
    (run : Run (Mesh.step ctx capacity) (.start peer topic) trace last) {site : ι} {path : RelPath}
    {offset : Nat} {byte : UInt8}
    (read : (last.loops site).peer.disk.byteAt path offset = some byte) (nonzero : byte ≠ 0) :
    ∃ origin start, ReflTransGen (Swarm.IsBackup ctx) origin path ∧
      ReflTransGen (Swarm.Slides ctx) start offset ∧
        ((∃ other, (peer other).disk.byteAt origin start = some byte) ∨
          ∃ other disk, (other, .user disk) ∈ visible Mesh.shown trace ∧
            disk.byteAt origin start = some byte) ∧
          ((∀ site other, (ctx site).storage.chunkSize = (ctx other).storage.chunkSize) →
            start = offset) := by
  obtain ⟨swarm, ⟨turns, whole, same⟩, peers, _⟩ := Mesh.ahead_of_run run
  rw [← peers site] at read
  have genuine : Swarm.Genuine ctx ⟨peer, [], fun _ _ => false⟩ turns swarm :=
    Swarm.genuine_of_run started whole
  obtain ⟨origin, start, backups, slides, put⟩ :=
    (genuine.files site path offset byte read).resolve_left nonzero
  have seen := put.shown
  rw [same] at seen
  exact ⟨origin, start, backups, slides, seen, fun same => Swarm.eq_of_slides same slides⟩

/-! ## Concrete runs -/

namespace Swarm

attribute [local instance] Sample.blake3

/-- A byte that the first peer saves goes to the second one, and there it comes from a put. -/
theorem exists_put :
    ∃ (trace : List (Swarm Sample.Site × Turn Sample.Site)) (last : Swarm Sample.Site),
      Run (step Sample.ctx) (Sample.swarm fun _ => [1]) trace last ∧
        (last.peer .two).disk.byteAt Sample.path 1 = some 9 ∧
          ∃ origin, ReflTransGen (IsBackup Sample.ctx) origin Sample.path ∧
            Put (Sample.swarm fun _ => [1]) trace origin 1 9 := by
  obtain ⟨trace, last, run, _, read⟩ := exists_run_of_any (by decide +kernel :
    (runActs (step Sample.ctx) (Sample.swarm fun _ => [1]) (Sample.saves .one [1, 9] ++
      .deliver .two .one (Sample.update 1 [1, 9]) {} :: Sample.fetches .two 0)).any (fun last =>
        decide ((last.peer .two).disk.byteAt Sample.path 1 = some 9)) = true)
  have read := of_decide_eq_true read
  obtain ⟨origin, start, backups, _, put, same⟩ :=
    put_of_run (fun _ => rfl) run read (by decide)
  rw [same fun _ _ => rfl] at put
  exact ⟨trace, last, run, read, origin, backups, put⟩

end Swarm

namespace Mesh

attribute [local instance] Sample.blake3

/-- The first peer saves a file, and the second one hears of it and fetches it. -/
def fetchesSaved (data : Bytes) : List (Move Sample.Site) :=
  [.beat .one (.beside (.user (Sample.folder data))),
    .beat .one (.beside (.watched (.modified Sample.path))),
    .beat .one (.fsEvent ⟨true, some data, some data⟩), .beat .one .commandSent,
    .beat .one .command, .message .two .one (Sample.update 1 data), .beat .two .eventSent,
    .beat .two (.networkEvent {} none), .beat .two (.requestSent 0), .beat .two .command,
    .request 0, .beat .one .eventSent, .beat .one (.networkEvent {} none), .beat .one .commandSent,
    .beat .one .command, .response 0, .beat .two (.beside (.resume 0 {})),
    .beat .two (.beside (.resume 0 {})), .beat .two (.beside (.resume 0 {}))]

/-- A byte that the second peer has fetched was saved in the run. -/
theorem exists_saved :
    ∃ trace last, Run (step Sample.ctx 1) (.start (fun site => Sample.peer site [1]) ['g'])
      trace last ∧ trace.map Prod.snd = fetchesSaved [1, 9] ∧
        (last.loops .two).peer.disk.byteAt Sample.path 1 = some 9 ∧
          ∃ origin, ReflTransGen (Swarm.IsBackup Sample.ctx) origin Sample.path ∧
            ((∃ other, (Sample.peer other [1]).disk.byteAt origin 1 = some 9) ∨
              ∃ other disk, (other, .user disk) ∈ visible shown trace ∧
                disk.byteAt origin 1 = some 9) := by
  obtain ⟨trace, last, run, acts, read⟩ := exists_run_of_any (by decide +kernel :
    (runActs (step Sample.ctx 1) (.start (fun site => Sample.peer site [1]) ['g'])
      (fetchesSaved [1, 9])).any (fun last =>
        decide ((last.loops .two).peer.disk.byteAt Sample.path 1 = some 9)) = true)
  have read := of_decide_eq_true read
  obtain ⟨origin, start, backups, _, seen, same⟩ :=
    saved_of_run (fun _ => rfl) run read (by decide)
  rw [same fun _ _ => rfl] at seen
  exact ⟨trace, last, run, acts, read, origin, backups, seen⟩

end Mesh

end P2Sync
