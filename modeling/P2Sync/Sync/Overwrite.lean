import P2Sync.Net.Reconcile

/-!
# Newer work under a reconciliation

A reconciliation compares trees of hashes, and fetches whatever differs under an empty
clock. Nothing on that way looks at a recorded clock or puts a file aside, as the handler
of notifications does, so a file that its owner has edited since is overwritten by the
older one of the peer.

Whether the local bytes are still there afterwards is decided by the trees and the files
before it (`keepsNewer_iff`): they are when no pieces of the remote file arrive at the
path, or the pieces hold nothing but what is there. Concurrent bytes are also kept when a
backup path of the file comes to hold them.
-/

set_option autoImplicit false

namespace P2Sync

namespace Swarm

variable {ι : Type} [DecidableEq ι] [Blake3] {ctx : ι → Ctx ι} {first last : Swarm ι}
  {site source : ι} {number : Nat} {trace : List (Swarm ι × Turn ι)} {path : SafePath}
  {mine : Bytes}

/-- How the clock a peer records for a path compares with another peer's. -/
def clockOrder (swarm : Swarm ι) (site source : ι) (path : RelPath) : Ordering :=
  ((swarm.peer site).index.clockOf path).compare ((swarm.peer source).index.clockOf path)

/-- A peer keeps what it has of a path: newer bytes stay where they are, concurrent ones
stay there or at a backup of the path. -/
structure KeepsNewer (first last : Swarm ι) (site source : ι) (path : SafePath) (mine : Bytes) :
    Prop where
  newer : clockOrder first site source path.rel = .after →
    (last.peer site).disk.read path.rel = some mine
  concurrent : clockOrder first site source path.rel = .concurrent →
    (last.peer site).disk.read path.rel = some mine ∨
      ∃ loser, (last.peer site).disk.read (path.backup loser).rel = some mine

/-- The pieces of the remote file that arrive at a path hold only what is there. -/
def Undisturbed (setting : Setting) (peer : Peer ι) (path : RelPath) (mine : Bytes) : Prop :=
  ∀ pieces, setting.Arrives peer.index.tree peer.disk path pieces →
    Overlay.Assembles 0 mine pieces mine

/-- The trees and files of two peers leave newer bytes alone, and leave concurrent ones alone
or at a backup of the path. -/
structure Spares (ctx : ι → Ctx ι) (swarm : Swarm ι) (site source : ι) (path : SafePath)
    (mine : Bytes) : Prop where
  newer : clockOrder swarm site source path.rel = .after →
    Undisturbed (settingOf ctx swarm site source) (swarm.peer site) path.rel mine
  concurrent : clockOrder swarm site source path.rel = .concurrent →
    Undisturbed (settingOf ctx swarm site source) (swarm.peer site) path.rel mine ∨
      ∃ loser, (settingOf ctx swarm site source).EndsAs (swarm.peer site).index.tree
        (swarm.peer site).disk (path.backup loser).rel mine

/-- **When a reconciliation keeps newer work**: exactly when the trees and files before it
spare it, whatever the clocks say. -/
theorem keepsNewer_iff (reconciles : Reconciles ctx first site source number trace last)
    (proper : (first.peer source).index.tree.Proper)
    (here : (first.peer site).disk.read path.rel = some mine) :
    KeepsNewer first last site source path mine ↔ Spares ctx first site source path mine := by
  have ends : ∀ query content, (last.peer site).disk.read query = some content ↔
      (settingOf ctx first site source).EndsAs (first.peer site).index.tree
        (first.peer site).disk query content := by
    intro query content
    rw [reconciles.disk]
    exact Setting.read_walk_iff proper _ query content
  have stays : (last.peer site).disk.read path.rel = some mine ↔
      Undisturbed (settingOf ctx first site source) (first.peer site) path.rel mine := by
    rw [ends]
    exact Setting.endsAs_iff_of_read here
  constructor
  · intro keeps
    refine ⟨fun after => stays.mp (keeps.newer after), fun concurrent => ?_⟩
    refine (keeps.concurrent concurrent).imp stays.mp ?_
    rintro ⟨loser, stored⟩
    exact ⟨loser, (ends _ _).mp stored⟩
  · intro spares
    refine ⟨fun after => stays.mpr (spares.newer after), fun concurrent => ?_⟩
    refine (spares.concurrent concurrent).imp stays.mpr ?_
    rintro ⟨loser, stored⟩
    exact ⟨loser, (ends _ _).mpr stored⟩

end Swarm

/-! ## A concrete reconciliation -/

namespace Sample

attribute [local instance] blake3

/-- The first peer has indexed an edit of `f` that the others have not heard of, and has just
discovered the second one. -/
def edited (mine theirs : Bytes) : Swarm Site where
  peer
    | .one => { peer .one mine with
        index := (index .one [1]).ticked path mine 10
        tasks := [{ stage := .askedRoot .two }] }
    | site => peer site theirs
  log := [update 1 mine]
  edited _ _ := false

theorem proper_index (site : Site) (data : Bytes) : (index site data).tree.Proper := by
  refine .directory _ _ (List.pairwise_singleton _ _) ?_ ?_
  · intro child member
    rw [List.mem_singleton.mp member]
    exact (by decide : (OsStr.utf8 ['f']).IsName)
  · intro child member
    rw [List.mem_singleton.mp member]
    exact .file _ _ _

end Sample

namespace Swarm

attribute [local instance] Sample.blake3

/-- The first peer has edited `f` to `[2]`; the second one still has `[3]`, which the first
peer has seen. After the reconciliation the edit is gone. -/
theorem exists_newer_lost :
    ∃ first trace last, Reconciles Sample.ctx first .one .two 0 trace last ∧
      (first.peer .two).index.tree.Proper ∧ (first.peer .one).disk.read Sample.safe.rel = some [2] ∧
        (first.peer .two).disk.read Sample.safe.rel = some [3] ∧
          clockOrder first .one .two Sample.safe.rel = .after ∧
            ¬ KeepsNewer first last .one .two Sample.safe [2] := by
  obtain ⟨trace, last, run, turns, checked⟩ := exists_run_of_any (by decide +kernel :
    (runActs (step Sample.ctx) (Sample.edited [2] [3]) (Sample.reconciles .one 0)).any (fun last =>
      decide ((last.peer .one).tasks.length = 1) && Sample.atEnd (last.peer .one) &&
        decide ((last.peer .one).disk.read Sample.safe.rel = some [3])) = true)
  simp only [Bool.and_eq_true, decide_eq_true_eq] at checked
  obtain ⟨⟨one, ended⟩, lost⟩ := checked
  have after : clockOrder (Sample.edited [2] [3]) .one .two Sample.safe.rel = .after := by
    decide +kernel
  refine ⟨_, trace, last, reconciles_of_turns rfl run
    (turns ▸ Sample.turnOf_reconciles .one 0) one ended, Sample.proper_index .two [3], rfl,
    rfl, after, fun keeps => ?_⟩
  have kept := keeps.newer after
  rw [lost] at kept
  exact absurd kept (by decide)

/-- The same reconciliation where the edit only added to what the second peer has: its pieces
arrive and hold nothing else. -/
theorem keepsNewer_iff_sample :
    ∃ first trace last, Reconciles Sample.ctx first .one .two 0 trace last ∧
      clockOrder first .one .two Sample.safe.rel = .after ∧
        KeepsNewer first last .one .two Sample.safe [3, 2] ∧
          Spares Sample.ctx first .one .two Sample.safe [3, 2] := by
  obtain ⟨trace, last, run, turns, checked⟩ := exists_run_of_any (by decide +kernel :
    (runActs (step Sample.ctx) (Sample.edited [3, 2] [3]) (Sample.reconciles .one 0)).any
      (fun last =>
        decide ((last.peer .one).tasks.length = 1) && Sample.atEnd (last.peer .one) &&
        decide ((last.peer .one).disk.read Sample.safe.rel = some [3, 2])) = true)
  simp only [Bool.and_eq_true, decide_eq_true_eq] at checked
  obtain ⟨⟨one, ended⟩, kept⟩ := checked
  have after : clockOrder (Sample.edited [3, 2] [3]) .one .two Sample.safe.rel = .after := by
    decide +kernel
  have reconciles := reconciles_of_turns rfl run
    (turns ▸ Sample.turnOf_reconciles .one 0) one ended
  have keeps : KeepsNewer (Sample.edited [3, 2] [3]) last .one .two Sample.safe [3, 2] :=
    ⟨fun _ => kept, fun concurrent => absurd (after.symm.trans concurrent) (by decide)⟩
  exact ⟨_, trace, last, reconciles, after, keeps,
    (keepsNewer_iff reconciles (Sample.proper_index .two [3]) rfl).mp keeps⟩

end Swarm

end P2Sync
