import P2Sync.Net.Swarm
import P2Sync.Support.Simulation
import Mathlib.Data.List.Perm.Basic

/-!
# What becomes of tombstones

A peer records a tombstone when it handles the removal of a file, and when it has carried out a
removal of another peer. It publishes the former and never forgets any of them. So the tombstones
it has signed are those it has published, in the same order, and each time one of another peer is
delivered it is recorded once, if it is not still about to be (`Swarm.graves_of_run`).
-/

set_option autoImplicit false

namespace P2Sync

/-- The tombstone that a stage is about to record. -/
def Stage.graves {ι : Type} : Stage ι → List Tombstone
  | .removed tombstone _ => [tombstone]
  | _ => []

namespace Tombstone

/-- The tombstones that a peer has signed. -/
def signedBy (peer : PeerId) (tombstones : List Tombstone) : List Tombstone :=
  tombstones.filter fun tombstone => tombstone.deletedBy = peer

/-- The tombstones that others have signed. -/
def foreignTo (peer : PeerId) (tombstones : List Tombstone) : List Tombstone :=
  tombstones.filter fun tombstone => tombstone.deletedBy ≠ peer

variable {peer : PeerId}

theorem signedBy_append (early late : List Tombstone) :
    signedBy peer (early ++ late) = signedBy peer early ++ signedBy peer late :=
  List.filter_append ..

theorem foreignTo_append (early late : List Tombstone) :
    foreignTo peer (early ++ late) = foreignTo peer early ++ foreignTo peer late :=
  List.filter_append ..

theorem of_signed {tombstone : Tombstone} (own : tombstone.deletedBy = peer) :
    signedBy peer [tombstone] = [tombstone] ∧ foreignTo peer [tombstone] = [] :=
  ⟨by simp [signedBy, own], by simp [foreignTo, own]⟩

theorem of_foreign {tombstone : Tombstone} (other : tombstone.deletedBy ≠ peer) :
    signedBy peer [tombstone] = [] ∧ foreignTo peer [tombstone] = [tombstone] :=
  ⟨by simp [signedBy, other], by simp [foreignTo, other]⟩

end Tombstone

/-- The tombstone of a notification. -/
def SyncNotification.grave? : SyncNotification → Option Tombstone
  | .fileDeleted tombstone => some tombstone
  | _ => none

theorem SyncNotification.bind_grave? {published : Option SyncNotification}
    (other : ∀ tombstone, published ≠ some (.fileDeleted tombstone)) :
    published.bind grave? = none := by
  cases published with
  | none => rfl
  | some notification =>
      cases notification with
      | fileDeleted tombstone => exact absurd rfl (other tombstone)
      | _ => rfl

namespace Peer

variable {ι : Type}

/-- The tombstones that tasks are about to record. -/
def graves (tasks : List (Task ι)) : List Tombstone := tasks.flatMap fun task => task.stage.graves

/-- The tombstone of another peer that is delivered, when it is going to be recorded. -/
def told (ctx : Ctx ι) : Act ι → List Tombstone
  | .notified _ (.fileDeleted tombstone) _ =>
      if ctx.noPull = false ∧ tombstone.deletedBy ≠ ctx.localId ∧
          (SafePath.of? tombstone.path).isSome then [tombstone] else []
  | _ => []

theorem graves_append_singleton (tasks : List (Task ι)) (task : Task ι) :
    graves (tasks ++ [task]) = graves tasks ++ task.stage.graves := by
  rw [graves, List.flatMap_append, List.flatMap_singleton]
  rfl

/-- A task in the place of another one. -/
theorem graves_set {tasks : List (Task ι)} {number : Nat} {task : Task ι}
    (found : tasks[number]? = some task) (task' : Task ι) :
    (graves (tasks.set number task') ++ task.stage.graves).Perm
      (graves tasks ++ task'.stage.graves) := by
  obtain ⟨inside, rfl⟩ := List.getElem?_eq_some_iff.mp found
  have rest := fun task => (List.set_perm_cons_eraseIdx inside task).flatMap_right
    fun task : Task ι => task.stage.graves
  have new := rest task'
  have old := rest tasks[number]
  rw [List.set_getElem_self] at old
  rw [List.flatMap_cons] at new old
  calc (graves (tasks.set number task') ++ tasks[number].stage.graves).Perm
        ((task'.stage.graves ++ graves (tasks.eraseIdx number)) ++ tasks[number].stage.graves) :=
          new.append_right _
    List.Perm _ (task'.stage.graves ++ (tasks[number].stage.graves ++
        graves (tasks.eraseIdx number))) := by
          rw [List.append_assoc]
          exact List.perm_append_comm.append_left _
    List.Perm _ (task'.stage.graves ++ graves tasks) := (old.append_left _).symm
    List.Perm _ (graves tasks ++ task'.stage.graves) := List.perm_append_comm

theorem graves_startFetch (peer : Peer ι) (source : ι) (raw : Str) (chunkIndices : List Nat)
    (origin : RemoteOrigin) (cause : Cause) :
    (peer.startFetch source raw chunkIndices origin cause).graves = [] := by
  rw [startFetch]
  repeat' split
  all_goals rfl

/-- What a step does to tombstones. -/
inductive Files (ctx : Ctx ι) (act : Act ι) (before after : Peer ι) :
    Option SyncNotification → Prop where
  /-- A tombstone of its own is recorded and published. -/
  | own (tombstone : Tombstone) (signed : tombstone.deletedBy = before.index.localPeer)
      (recorded : after.index.tombstones = before.index.tombstones ++ [tombstone])
      (waiting : graves after.tasks = graves before.tasks) (untold : told ctx act = []) :
      Files ctx act before after (some (.fileDeleted tombstone))
  /-- A tombstone that is delivered waits to be recorded. -/
  | told (published : Option SyncNotification)
      (other : ∀ tombstone, published ≠ some (.fileDeleted tombstone))
      (recorded : after.index.tombstones = before.index.tombstones)
      (waiting : (graves after.tasks).Perm (graves before.tasks ++ told ctx act)) :
      Files ctx act before after published
  /-- A tombstone that was delivered is recorded. -/
  | filed (tombstone : Tombstone)
      (recorded : after.index.tombstones = before.index.tombstones ++ [tombstone])
      (waiting : (graves after.tasks ++ [tombstone]).Perm (graves before.tasks))
      (untold : told ctx act = []) : Files ctx act before after none

section Steps

variable [Blake3] {ctx : Ctx ι} {before after : Peer ι} {act : Act ι}
  {published : Option SyncNotification}

/-- A stretch of a task that holds no tombstone leaves the tombstones alone; one that does records
it. -/
theorem Ran.graves {device : Device} {task task' : Task ι}
    (ran : Ran ctx device before task after task') :
    task'.stage.graves = [] ∧
      after.index.tombstones = before.index.tombstones ++ task.stage.graves := by
  cases ran with
  | started source path chunkCount rest ended =>
      rw [ended]
      exact ⟨graves_startFetch .., (List.append_nil _).symm⟩
  | compared source hash stage =>
      rw [stage]
      refine ⟨?_, (List.append_nil _).symm⟩
      dsimp only
      split <;> rfl
  | counted files rest stage | forgotten tombstone path stage | refused fetch chunks stage
  | loaded fetch chunks data stage | failed fetch data disk watch stage
  | wrote fetch data disk watch stage | committed fetch data stage | walked source tree stage =>
      rw [stage]
      first
        | exact ⟨rfl, (List.append_nil _).symm⟩
        | exact ⟨rfl, rfl⟩

omit [Blake3] in
/-- An answer is for a stage that holds no tombstone, and so is what it makes of the stage. -/
theorem Replied.graves {stage stage' : Stage ι} {response : Option SyncResponse}
    (replied : Replied stage response stage') : stage.graves = [] ∧ stage'.graves = [] := by
  cases replied <;> exact ⟨rfl, rfl⟩

/-- A delivered removal. -/
theorem files_of_fileDeleted {source : ι} {tombstone : Tombstone} {device : Device}
    (stepped : before.step ctx (.notified source (.fileDeleted tombstone) device) =
      some (after, published)) :
    Files ctx (.notified source (.fileDeleted tombstone) device) before after published := by
  rw [step] at stepped
  cases stepped
  by_cases silent : ctx.noPull = true
  · rw [if_pos silent]
    refine .told none (by simp) rfl ?_
    rw [told, if_neg fun hears => Bool.false_ne_true (hears.1.symm.trans silent), List.append_nil]
  · rw [if_neg silent, handleNotification]
    have pulling : ctx.noPull = false := Bool.eq_false_iff.mpr silent
    split
    · rename_i own
      refine .told none (by simp) rfl ?_
      rw [told, if_neg fun hears => hears.2.1 own, List.append_nil]
    · rename_i foreign
      split
      · rename_i refused
        refine .told none (by simp) rfl ?_
        rw [told, if_neg fun hears => ?_, List.append_nil]
        rw [refused] at hears
        exact Bool.false_ne_true hears.2.2
      · rename_i path accepted
        refine .told none (by simp) rfl ?_
        have hears : told ctx (.notified source (.fileDeleted tombstone) device) = [tombstone] :=
          if_pos ⟨pulling, foreign, by rw [accepted]; rfl⟩
        rw [hears, spawn, graves_append_singleton]
        exact List.Perm.refl _

/-- **What a step does to tombstones**, in general. -/
theorem files_of_step (stepped : before.step ctx act = some (after, published)) :
    Files ctx act before after published := by
  by_cases deletes : ∃ source tombstone device,
      act = .notified source (.fileDeleted tombstone) device
  · obtain ⟨source, tombstone, device, rfl⟩ := deletes
    exact files_of_fileDeleted stepped
  have untold : told ctx act = [] := by
    rw [told.eq_def]
    split
    · exact absurd ⟨_, _, _, rfl⟩ deletes
    · rfl
  have quiet : ∀ {after : Peer ι} {published : Option SyncNotification},
      (∀ tombstone, published ≠ some (.fileDeleted tombstone)) →
        after.index.tombstones = before.index.tombstones →
          graves after.tasks = graves before.tasks →
            Files ctx act before after published := fun other recorded waiting =>
    .told _ other recorded (by rw [untold, List.append_nil, waiting])
  cases step_cases stepped with
  | quiet | timeSet | user => exact quiet nofun rfl rfl
  | edited reads path data watch published picked unmarked included first announced =>
      refine quiet (fun tombstone said => ?_) rfl rfl
      obtain ⟨_, _, _, _, same⟩ := announced _ said
      cases same
  | erased reads path rest watch queue => exact .own _ rfl rfl rfl untold
  | unlinked source tombstone path device => exact absurd ⟨_, _, _, rfl⟩ deletes
  | discovered source =>
      refine quiet nofun rfl ?_
      rw [spawn, graves_append_singleton]
      exact List.append_nil _
  | accepted | kept =>
      refine quiet nofun rfl ?_
      rw [spawn, graves_append_singleton, graves_startFetch]
      exact List.append_nil _
  | lost =>
      refine quiet nofun ?_ ?_
      · rw [spawn, backUp_index]
      · rw [spawn, graves_append_singleton, graves_startFetch, backUp_tasks]
        exact List.append_nil _
  | answered number response entry stage found reply =>
      obtain ⟨old, new⟩ := (reply_cases reply).graves
      have waiting := graves_set found { entry with stage := stage }
      rw [old, new, List.append_nil, List.append_nil] at waiting
      exact .told none nofun rfl (by rw [untold, List.append_nil]; exact waiting)
  | resumed number device entry middle entry' found ran =>
      have cases := run_cases ran
      obtain ⟨ended, recorded⟩ := cases.graves
      have waiting := graves_set found entry'
      rw [ended, List.append_nil] at waiting
      have tasks : middle.tasks = before.tasks := cases.tasks
      cases holds : entry.stage with
      | removed tombstone path =>
          rw [holds] at recorded waiting
          exact .filed tombstone recorded (by rw [tasks]; exact waiting) untold
      | _ =>
          rw [holds] at recorded waiting
          refine .told none nofun (recorded.trans (List.append_nil _)) ?_
          rw [untold, List.append_nil, tasks]
          simpa only [Stage.graves, List.append_nil] using waiting

/-- A new index has no tombstones. -/
theorem tombstones_start {disk : Disk} {patterns : List Str} {now : Nat} {peer : Peer ι}
    (started : start ctx disk patterns now = some peer) : peer.index.tombstones = [] := by
  obtain ⟨index, built, rfl⟩ := Option.map_eq_some_iff.mp started
  obtain ⟨tree, -, rfl⟩ := Option.map_eq_some_iff.mp built
  rfl

end Steps

end Peer

namespace Swarm

variable {ι : Type} [DecidableEq ι] [Blake3] {ctx : ι → Ctx ι} {first last : Swarm ι}
  {trace : List (Swarm ι × Turn ι)}

/-- The removals that are published. -/
def deletions (swarm : Swarm ι) : List Tombstone := swarm.log.filterMap SyncNotification.grave?

/-- The tombstones of others that a turn delivers to a peer. -/
def told (ctx : ι → Ctx ι) (site : ι) (_ : Swarm ι) : Turn ι → List Tombstone
  | .deliver other source notification device =>
      if other = site then Peer.told (ctx site) (.notified source notification device) else []
  | _ => []

omit [Blake3] in
/-- What is delivered is signed by others. -/
theorem foreign_of_mem_told {site : ι} {tombstone : Tombstone}
    (delivered : tombstone ∈ visible (told ctx site) trace) :
    tombstone.deletedBy ≠ (ctx site).localId := by
  obtain ⟨⟨before, turn⟩, -, heard⟩ := List.mem_flatMap.mp delivered
  dsimp only at heard
  rw [told.eq_def] at heard
  split at heard
  · split at heard
    · rw [Peer.told.eq_def] at heard
      split at heard
      · split at heard
        · rename_i hears
          rw [List.mem_singleton.mp heard]
          exact hears.2.1
        · exact absurd heard List.not_mem_nil
      · exact absurd heard List.not_mem_nil
    · exact absurd heard List.not_mem_nil
  · exact absurd heard List.not_mem_nil

/-- What a turn tells a peer is what is told in what happens there. -/
theorem told_of_does {before : Swarm ι} {turn : Turn ι} {site : ι} {act : Act ι}
    (does : Does ctx before turn site act) (other : ι) :
    told ctx other before turn = if site = other then Peer.told (ctx other) act else [] := by
  cases does with
  | own _ _ own =>
      have untold : Peer.told (ctx other) act = [] := by
        cases act with
        | notified => exact absurd own Bool.false_ne_true
        | _ => rfl
      rw [untold, ite_self]
      rfl
  | delivered => rfl
  | served | failed => exact (ite_self _).symm

/-- The account of the tombstones of a peer. -/
structure Buried (ctx : ι → Ctx ι) (told : List Tombstone) (swarm : Swarm ι) (site : ι) :
    Prop where
  named : (swarm.peer site).index.localPeer = (ctx site).localId
  own : Tombstone.signedBy (ctx site).localId (swarm.peer site).index.tombstones =
    Tombstone.signedBy (ctx site).localId swarm.deletions
  others : (Tombstone.foreignTo (ctx site).localId (swarm.peer site).index.tombstones ++
    Peer.graves (swarm.peer site).tasks).Perm told

omit [DecidableEq ι] [Blake3] in
/-- The removal that a step publishes. -/
theorem deletions_append (swarm : Swarm ι) (published : Option SyncNotification)
    (peer : ι → Peer ι) (edited : ι → RelPath → Bool) :
    deletions ⟨peer, swarm.log ++ published.toList, edited⟩ =
      swarm.deletions ++ (published.bind SyncNotification.grave?).toList := by
  rw [deletions, deletions, List.filterMap_append]
  cases published with
  | none => rfl
  | some notification => cases notification <;> rfl

omit [DecidableEq ι] [Blake3] in
/-- The account of the peer whose turn it is. -/
theorem Buried.here {before : Swarm ι} {site : ι} {act : Act ι} {next : Peer ι}
    {published : Option SyncNotification} {heard : List Tombstone}
    (buried : Buried ctx heard before site)
    (strangers : ∀ tombstone ∈ heard, tombstone.deletedBy ≠ (ctx site).localId)
    (files : Peer.Files (ctx site) act (before.peer site) next published) :
    Tombstone.signedBy (ctx site).localId next.index.tombstones =
        Tombstone.signedBy (ctx site).localId
          (before.deletions ++ (published.bind SyncNotification.grave?).toList) ∧
      (Tombstone.foreignTo (ctx site).localId next.index.tombstones ++
        Peer.graves next.tasks).Perm (heard ++ Peer.told (ctx site) act) := by
  cases files with
  | own tombstone signs recorded waiting untold =>
      obtain ⟨mine, notForeign⟩ := Tombstone.of_signed (signs.trans buried.named)
      rw [recorded, waiting, untold, Tombstone.foreignTo_append, notForeign, List.append_nil,
        List.append_nil, Tombstone.signedBy_append, buried.own, Tombstone.signedBy_append]
      exact ⟨rfl, buried.others⟩
  | told published other recorded waiting =>
      rw [SyncNotification.bind_grave? other, Option.toList_none, List.append_nil, recorded]
      refine ⟨buried.own, (waiting.append_left _).trans ?_⟩
      rw [← List.append_assoc]
      exact buried.others.append_right _
  | filed tombstone recorded waiting untold =>
      have known : tombstone ∈ heard := buried.others.subset (List.mem_append_right _
        (waiting.subset (List.mem_append_right _ (List.mem_singleton_self _))))
      obtain ⟨notSigned, apart⟩ := Tombstone.of_foreign (strangers tombstone known)
      rw [recorded, untold, List.append_nil, Tombstone.signedBy_append, notSigned, List.append_nil,
        Tombstone.foreignTo_append, apart, List.append_assoc]
      exact ⟨by rw [buried.own, Option.bind_none, Option.toList_none, List.append_nil],
        ((List.perm_append_comm.trans waiting).append_left _).trans buried.others⟩

/-- The accounts of all peers after a turn. -/
theorem buried_step {before after : Swarm ι} {turn : Turn ι}
    (distinct : Function.Injective fun site => (ctx site).localId)
    (buried : ∀ site, Buried ctx (visible (told ctx site) trace) before site)
    (stepped : before.step ctx turn = some after) (site : ι) :
    Buried ctx (visible (told ctx site) (trace ++ [(before, turn)])) after site := by
  obtain ⟨other, act, next, published, does, taken, rfl⟩ := exists_does stepped
  have files := Peer.files_of_step taken
  have fixed := (Peer.step_cases taken).fixed
  rw [visible_append, visible_singleton, told_of_does does]
  by_cases here : other = site
  · subst here
    obtain ⟨own, others⟩ := (buried other).here (fun _ => foreign_of_mem_told) files
    refine ⟨?_, ?_, ?_⟩ <;> dsimp only <;> rw [Function.update_self]
    · rw [fixed.localPeer, (buried other).named]
    · rw [own, deletions_append]
    · rw [if_pos rfl]
      exact others
  · have apart : ¬ site = other := Ne.symm here
    refine ⟨?_, ?_, ?_⟩ <;> dsimp only <;> rw [Function.update_of_ne apart]
    · exact (buried site).named
    · rw [(buried site).own, deletions_append, Tombstone.signedBy_append]
      refine (List.append_right_eq_self.mpr ?_).symm
      cases files with
      | own tombstone signs =>
          exact (Tombstone.of_foreign fun same => here
            (distinct ((buried other).named.symm.trans (signs.symm.trans same)))).1
      | told published quiet =>
          rw [SyncNotification.bind_grave? quiet]
          rfl
      | filed => rfl
    · rw [if_neg here, List.append_nil]
      exact (buried site).others

/-- No tombstone is forgotten in a turn. -/
theorem tombstones_prefix {before after : Swarm ι} {turn : Turn ι}
    (stepped : before.step ctx turn = some after) (site : ι) :
    (before.peer site).index.tombstones <+: (after.peer site).index.tombstones := by
  obtain ⟨other, act, next, published, -, taken, rfl⟩ := exists_does stepped
  by_cases here : site = other
  · subst here
    dsimp only
    rw [Function.update_self]
    cases Peer.files_of_step taken with
    | own tombstone signs recorded => exact ⟨_, recorded.symm⟩
    | told published quiet recorded => rw [recorded]
    | filed tombstone recorded => exact ⟨_, recorded.symm⟩
  · dsimp only
    rw [Function.update_of_ne here]

/-- **No removal is lost, invented or counted twice.** In a run of peers with names of their own,
the tombstones that a peer has signed are the removals it has published, in the same order; of the
tombstones of others it has recorded each one as often as it was delivered, except for those that
are still about to be recorded; and none is ever forgotten. -/
theorem graves_of_run (distinct : Function.Injective fun site => (ctx site).localId)
    (started : ∀ site, ∃ disk patterns now,
      Peer.start (ctx site) disk patterns now = some (first.peer site)) (silent : first.log = [])
    (run : Run (step ctx) first trace last) (site : ι) :
    Tombstone.signedBy (ctx site).localId (last.peer site).index.tombstones =
        Tombstone.signedBy (ctx site).localId last.deletions ∧
      (Tombstone.foreignTo (ctx site).localId (last.peer site).index.tombstones ++
        Peer.graves (last.peer site).tasks).Perm (visible (told ctx site) trace) ∧
      ∀ entry ∈ trace,
        (entry.1.peer site).index.tombstones <+: (last.peer site).index.tombstones := by
  have buried : (∀ site, Buried ctx (visible (told ctx site) trace) last site) ∧ ∀ entry ∈ trace,
      (entry.1.peer site).index.tombstones <+: (last.peer site).index.tombstones := by
    induction run with
    | start =>
        refine ⟨fun site => ?_, fun _ absent => absurd absent List.not_mem_nil⟩
        obtain ⟨disk, patterns, now, start⟩ := started site
        obtain ⟨named, tasks, -, -⟩ := Peer.start_index start
        refine ⟨named, ?_, ?_⟩
        · rw [Peer.tombstones_start start, deletions, silent]
          rfl
        · rw [Peer.tombstones_start start, tasks]
          exact List.Perm.refl _
    | snoc _ stepped ih =>
        have longer := tombstones_prefix stepped site
        refine ⟨buried_step distinct ih.1 stepped, fun entry member => ?_⟩
        rcases List.mem_append.mp member with old | new
        · exact (ih.2 entry old).trans longer
        · rw [List.mem_singleton.mp new]
          exact longer
  exact ⟨(buried.1 site).own, (buried.1 site).others, buried.2⟩

end Swarm

/-! ## A concrete run -/

namespace Swarm

attribute [local instance] Sample.blake3

/-- The tombstone of the first peer for `f`. -/
def tombstone : Tombstone := ⟨['f'], Sample.peerId 1, .new, 10⟩

/-- The first peer removes `f`; the second one is told so twice, and carries one of the removals
out. -/
def removes : List (Turn Sample.Site) :=
  [.own .one (.user (.dir [])), .own .one (.watched (.removed Sample.path)),
    .own .one (.fsEvent ⟨false, none, none⟩),
    .deliver .two .one (.fileDeleted tombstone) {},
    .deliver .two .one (.fileDeleted tombstone) {},
    .own .two (.resume 0 {})]

/-- Of two deliveries one is recorded, and the other one is about to be. -/
theorem exists_graves :
    ∃ (trace : List (Swarm Sample.Site × Turn Sample.Site)) (last : Swarm Sample.Site),
      Run (step Sample.ctx) (Sample.swarm fun _ => [1]) trace last ∧
        trace.map Prod.snd = removes ∧
          Tombstone.foreignTo (Sample.peerId 2) (last.peer .two).index.tombstones = [tombstone] ∧
            Peer.graves (last.peer .two).tasks = [tombstone] ∧
              ([tombstone] ++ [tombstone]).Perm (visible (told Sample.ctx .two) trace) := by
  obtain ⟨trace, last, run, turns, found⟩ := exists_run_of_any (by decide +kernel :
    (runActs (step Sample.ctx) (Sample.swarm fun _ => [1]) removes).any (fun last =>
      decide (Tombstone.foreignTo (Sample.peerId 2) (last.peer .two).index.tombstones =
          [tombstone] ∧ Peer.graves (last.peer .two).tasks = [tombstone])) = true)
  obtain ⟨recorded, waiting⟩ := of_decide_eq_true found
  have distinct : Function.Injective fun site => (Sample.ctx site).localId := by
    intro left right same
    cases left <;> cases right <;> first | rfl | exact absurd same (by decide)
  have started : ∀ site, ∃ disk patterns now, Peer.start (Sample.ctx site) disk patterns now =
      some ((Sample.swarm fun _ => [1]).peer site) :=
    fun site => ⟨_, _, _, Sample.start_peer site [1]⟩
  have account := (graves_of_run distinct started rfl run .two).2.1
  change (Tombstone.foreignTo (Sample.peerId 2) _ ++ _).Perm _ at account
  rw [recorded, waiting] at account
  exact ⟨trace, last, run, turns, recorded, waiting, account⟩

end Swarm

end P2Sync
