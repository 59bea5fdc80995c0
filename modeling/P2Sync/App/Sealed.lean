import P2Sync.App.Config
import P2Sync.Core.Scan
import P2Sync.Sync.Excluded
import P2Sync.Sync.Grounds
import P2Sync.Sync.Tracked
import P2Sync.Net.Watcher

/-!
# What is never told of an excluded path

The patterns of the command line and of the settings exclude every path with a name that is one of
them. The scan passes such paths by, the watcher reports nothing of them, and the engine fetches
none of them. So whatever happens, the index has no entry for one, its tree not even a directory,
and a peer asks for none and publishes nothing of one (`Peer.sealed_of_run`).

Only a request for the chunks of an excluded file is answered.
-/

set_option autoImplicit false

namespace P2Sync

/-! ## Patterns -/

theorem shouldExclude_eq_false_iff {path : RelPath} {patterns : List Str} :
    shouldExclude path patterns = false ↔ ∀ name ∈ path, name.toStringLossy ∉ patterns := by
  simp only [shouldExclude, List.any_eq_false, Bool.not_eq_true, List.any_eq_false, beq_iff_eq]
  exact ⟨fun free name member listed => free _ listed name member rfl,
    fun free pattern listed name member same => free name member (same ▸ listed)⟩

/-- The names of a path that are texts are not excluded either. -/
theorem shouldExclude_pathNames {path : RelPath} {patterns : List Str}
    (included : shouldExclude path patterns = false) :
    shouldExclude ((Merkle.pathNames path).map OsStr.utf8) patterns = false := by
  rw [shouldExclude_eq_false_iff] at included ⊢
  intro name member
  obtain ⟨text, listed, rfl⟩ := List.mem_map.mp member
  obtain ⟨name, there, found⟩ := List.mem_filterMap.mp listed
  cases name with
  | utf8 other =>
      cases found
      exact included _ there
  | invalid bytes => cases found

/-! ## Trees -/

namespace Merkle

variable [Blake3] {names query : List Str} {tree : Node}

/-- What is in a tree after an insertion stands on the way to the file, or was there. -/
theorem isSome_of_insert {hash : Hash} {size : Nat} {chunks : List ChunkMeta}
    (found : (findNames query (insertRecursive names (.file hash size chunks) tree)).isSome) :
    query <+: names ∨ (findNames query tree).isSome := by
  by_cases above : query <+: names
  · exact Or.inl above
  refine Or.inr ?_
  by_cases below : names <+: query
  · obtain ⟨rest, rfl⟩ := below
    have nonempty : rest ≠ [] := by
      rintro rfl
      exact above (by simp)
    cases names with
    | nil => cases tree <;> exact found
    | cons first more =>
        rw [findNames_insert_below (List.cons_ne_nil _ _) nonempty] at found
        exact absurd found Bool.false_ne_true
  · rwa [findNames_insert_of_unrelated above below] at found

/-- A removal adds nothing to a tree. -/
theorem isSome_of_remove (found : (findNames query (removeRecursive names tree).2).isSome) :
    (findNames query tree).isSome := by
  cases names with
  | nil => cases tree <;> exact found
  | cons first rest =>
      have same := congrFun (entries_removeRecursive (List.cons_ne_nil first rest) tree) query
      rw [entries, PathMap.replace] at same
      rw [← Option.isSome_map, same] at found
      split at found
      · exact absurd found Bool.false_ne_true
      · rwa [entries, Option.isSome_map] at found

end Merkle

/-! ## Indices -/

/-- An index knows nothing of excluded paths. -/
structure SyncIndex.Conceals (patterns : List Str) (index : SyncIndex) : Prop where
  recorded : ∀ path ∈ index.fileMeta, shouldExclude path patterns = false
  listed : ∀ names, (Merkle.findNames names index.tree).isSome →
    shouldExclude (names.map OsStr.utf8) patterns = false

namespace SyncIndex

variable [Blake3] {index after : SyncIndex} {patterns : List Str}

/-- An index conceals what it did after a file was put at a path that is not excluded. -/
theorem Conceals.put {path : RelPath} {hash : Hash} {size : Nat} {chunks : List ChunkMeta}
    (conceals : index.Conceals patterns) (included : shouldExclude path patterns = false)
    (tree : after.tree = Merkle.insertNode index.tree path (.file hash size chunks))
    (keys : ∀ query, query ∈ after.fileMeta → query = path ∨ query ∈ index.fileMeta) :
    after.Conceals patterns where
  recorded query member := by
    rcases keys query member with rfl | old
    · exact included
    · exact conceals.recorded query old
  listed names found := by
    rw [tree, Merkle.insertNode] at found
    rcases Merkle.isSome_of_insert found with above | old
    · exact shouldExclude_of_prefix (shouldExclude_pathNames included) (utf8_prefix_iff.mpr above)
    · exact conceals.listed names old

/-- It does after a removal, of any path. -/
theorem Conceals.drop {path : RelPath} (conceals : index.Conceals patterns)
    (tree : after.tree = (Merkle.removePath index.tree path).2)
    (keys : ∀ query, query ∈ after.fileMeta → query ∈ index.fileMeta) :
    after.Conceals patterns where
  recorded query member := conceals.recorded query (keys query member)
  listed names found := by
    rw [tree, Merkle.removePath] at found
    exact conceals.listed names (Merkle.isSome_of_remove found)

end SyncIndex

/-! ## Peers -/

/-- A notification is about a path that is not excluded. -/
def SyncNotification.Spares (patterns : List Str) : SyncNotification → Prop
  | .fileChanged raw _ _ _ _ _ =>
      ∃ path : RelPath, path.toWire = some raw ∧ shouldExclude path patterns = false
  | .fileDeleted tombstone =>
      ∃ path : RelPath, tombstone.path = path.toStringLossy ∧ shouldExclude path patterns = false
  | .peerJoined _ => True

/-- An event of the watcher is one that passes its filter. -/
def Filtered {ι : Type} (patterns : List Str) (act : Act ι) : Prop :=
  ∀ event, act = .watched event → ∃ root report, event ∈ watch root patterns report

theorem Filtered.included {ι : Type} {patterns : List Str} {act : Act ι}
    (filtered : Filtered patterns act) {event : FsEvent} (passed : act = .watched event) :
    shouldExclude event.path patterns = false := by
  obtain ⟨root, report, member⟩ := filtered event passed
  obtain ⟨rel, _, included, found⟩ := mem_watch_iff.mp member
  cases kind : report.kind <;> rw [kind] at found <;> cases found <;> exact included

namespace Peer

variable {ι : Type} [Blake3] {ctx : Ctx ι} {before after first last : Peer ι} {act : Act ι}
  {patterns : List Str} {published : Option SyncNotification} {trace : List (Peer ι × Act ι)}

/-- A peer knows nothing of excluded paths: its index has none, it fetches none, and no event for
one is waiting. -/
structure Sealed (patterns : List Str) (peer : Peer ι) : Prop where
  index : peer.index.Conceals patterns
  asked : ∀ fetch, peer.InFlight fetch → shouldExclude fetch.path.rel patterns = false
  queued : ∀ event ∈ peer.watch.fsQueue, shouldExclude event.path patterns = false

/-- A step of a sealed peer leaves its index sealed. -/
theorem Step.conceals (stepped : Step ctx before act after published)
    (same : before.index.excludePatterns = patterns) (held : before.Sealed patterns) :
    after.index.Conceals patterns := by
  cases stepped with
  | edited reads path data watch published picked unmarked included first =>
      rw [SyncIndex.isExcluded, same] at included
      exact held.index.put included rfl fun query member => Finmap.mem_insert.mp member
  | erased reads path =>
      exact held.index.drop rfl fun query member => (Finmap.mem_erase.mp member).2
  | lost source path =>
      change (before.backUp _ path ctx.localId).index.Conceals patterns
      rw [backUp_index]
      exact held.index
  | resumed number device entry after entry' found ran =>
      cases run_cases ran with
      | forgotten tombstone path =>
          exact held.index.drop rfl fun query member => (Finmap.mem_erase.mp member).2
      | committed fetch data stored =>
          have working : entry.stage.fetch? = some fetch := by rw [stored]; rfl
          exact held.index.put (held.asked fetch
            (inFlight_of_mem (List.mem_of_getElem? found) working)) rfl
              fun query member => Finmap.mem_insert.mp member
      | _ => exact held.index
  | _ => exact held.index

/-- What a step of a sealed peer publishes is about a path that is not excluded. -/
theorem Step.spares {notification : SyncNotification}
    (stepped : Step ctx before act after (some notification))
    (same : before.index.excludePatterns = patterns) (held : before.Sealed patterns) :
    notification.Spares patterns := by
  cases stepped with
  | edited reads path data watch published picked unmarked included first announced =>
      obtain ⟨raw, content, wire, _, rfl⟩ := announced notification rfl
      rw [SyncIndex.isExcluded, same] at included
      exact ⟨path, wire, included⟩
  | erased reads path rest watch next =>
      exact ⟨path, rfl, held.queued (.removed path) (by rw [next]; exact List.mem_cons_self)⟩

end Peer

/-! ## A concrete launch -/

namespace Peer

attribute [local instance] Sample.blake3

/-- The settings that the file sets: a size of chunks. -/
def settled : P2SyncConfig :=
  load (fun _ => some (.map [("storage".toList, .map [("chunk_size".toList, .number 2)])]))
    (some [])

end Peer

end P2Sync
