import P2Sync.Net.Files

/-!
# Paths stay below the root

The engine spells the path of a file by joining a string to the path of the root. The
strings come from notifications, from tombstones, and from the names in a remote tree,
which are joined one after another. Each passes the guard first, except the name of a
backup, which is made from a string that has passed it.

All of them are the components of the root followed by names (`confined`), and they are
the only paths at which a step changes a file or an answer depends on one.
-/

set_option autoImplicit false

namespace P2Sync

/-- A path spelt out is the root followed by the names of a path below it. -/
def Spells (root path : Str) (rel : RelPath) : Prop :=
  ∃ texts : List Str, rel = texts.map OsStr.utf8 ∧
    components path = components root ++ texts.map Component.normal

theorem spells_pathJoin (root : Str) {raw : Str} {rel : RelPath}
    (accepted : safeRel raw = some rel) :
    Spells root (pathJoin root raw) rel := by
  obtain ⟨texts, names, normal⟩ := components_of_safeRel accepted
  exact ⟨texts, names, by rw [components_pathJoin accepted, normal]⟩

/-- The name of a backup is not checked, and spells a path below the root all the same. -/
theorem spells_conflictFilename (root : Str) (path : SafePath) (loser : PeerId) :
    Spells root (pathJoin root (conflictFilename path.raw loser)) (path.backup loser).rel := by
  rw [← path.backup_raw loser]
  exact spells_pathJoin root (path.backup loser).accepted

/-- The path of the file that a request is answered from. -/
def servedPaths (root : Str) : SyncRequest → List Str
  | .getChunks path _ => if (safeRel path).isSome then [pathJoin root path] else []
  | _ => []

/-- Whatever is served is below the root. -/
theorem exists_spells_of_served {root path : Str} {request : SyncRequest}
    (member : path ∈ servedPaths root request) : ∃ rel, Spells root path rel := by
  cases request with
  | getChunks raw chunkIndices =>
      rw [servedPaths] at member
      split at member
      · rename_i accepted
        obtain ⟨rel, accepted⟩ := Option.isSome_iff_exists.mp accepted
        rw [List.mem_singleton.mp member]
        exact ⟨rel, spells_pathJoin root accepted⟩
      · exact absurd member List.not_mem_nil
  | _ => exact absurd member List.not_mem_nil

/-- An answer depends on the folder only at the path that is served. -/
theorem handleInboundRequest_congr [Blake3] {root : Str} {storage : StorageConfig}
    {index : SyncIndex} {disk disk' : Disk} {failure : Option String} {request : SyncRequest}
    (same : ∀ path ∈ servedPaths root request, ∀ query, Spells root path query →
      disk.read query = disk'.read query) :
    handleInboundRequest storage index disk failure request =
      handleInboundRequest storage index disk' failure request := by
  cases request with
  | getChunks raw chunkIndices =>
      rw [handleInboundRequest, handleInboundRequest]
      cases guarded : SafePath.of? raw with
      | none => rfl
      | some path =>
          obtain rfl := SafePath.of?_eq_some_iff.mp guarded
          have served : pathJoin root path.raw ∈
              servedPaths root (.getChunks path.raw chunkIndices) := by
            rw [servedPaths, path.accepted]
            exact List.mem_singleton_self _
          dsimp only
          rw [readAccepted, readAccepted,
            same _ served path.rel (spells_pathJoin root path.accepted)]
  | _ => rfl

namespace Peer

variable {ι : Type} [Blake3] (root : Str) (ctx : Ctx ι) (before : Peer ι)

omit [Blake3] in
/-- The paths of the files that a step writes, copies to or removes, as the engine spells
them. -/
def writtenPaths : Act ι → List Str
  | .notified _ (.fileChanged path _ _ clock timestamp writer) _ =>
      if ctx.noPull || decide (writer = ctx.localId) then []
      else match safeRel path with
      | none => []
      | some rel =>
          match resolve (before.index.clockOf rel) clock (before.index.lastModifiedOf rel)
              timestamp writer ctx.localId with
          | .conflict loser =>
              if loser = ctx.localId then [pathJoin root (conflictFilename path loser)] else []
          | _ => []
  | .notified _ (.fileDeleted tombstone) _ =>
      if ctx.noPull || decide (tombstone.deletedBy = ctx.localId) then []
      else if (safeRel tombstone.path).isSome then [pathJoin root tombstone.path]
      else []
  | .resume number _ =>
      match before.tasks[number]? with
      | some { stage := .loaded fetch _, .. } => [pathJoin root fetch.path.raw]
      | _ => []
  | _ => []

variable {root ctx before} {act : Act ι} {path : Str}

omit [Blake3] in
/-- Whatever is written, copied to or removed is below the root. -/
theorem exists_spells_of_mem (member : path ∈ before.writtenPaths root ctx act) :
    ∃ rel, Spells root path rel := by
  cases act with
  | notified source notification device =>
      cases notification with
      | fileChanged raw hash chunks clock timestamp writer =>
          rw [writtenPaths] at member
          split at member
          · exact absurd member List.not_mem_nil
          · split at member
            · exact absurd member List.not_mem_nil
            · rename_i rel accepted
              split at member
              · split at member
                · rw [List.mem_singleton.mp member]
                  exact ⟨_, spells_conflictFilename root ⟨raw, rel, accepted⟩ _⟩
                · exact absurd member List.not_mem_nil
              · exact absurd member List.not_mem_nil
      | fileDeleted tombstone =>
          rw [writtenPaths] at member
          split at member
          · exact absurd member List.not_mem_nil
          · split at member
            · rename_i accepted
              obtain ⟨rel, accepted⟩ := Option.isSome_iff_exists.mp accepted
              rw [List.mem_singleton.mp member]
              exact ⟨rel, spells_pathJoin root accepted⟩
            · exact absurd member List.not_mem_nil
      | peerJoined peer => exact absurd member List.not_mem_nil
  | resume number device =>
      rw [writtenPaths] at member
      split at member
      · rename_i fetch _ _ _ _
        rw [List.mem_singleton.mp member]
        exact ⟨_, spells_pathJoin root fetch.path.accepted⟩
      · exact absurd member List.not_mem_nil
  | _ => exact absurd member List.not_mem_nil

/-- A step of the engine changes a file only at a path it spells. -/
theorem exists_writtenPath {after : Peer ι} {query : RelPath} (root : Str)
    (stepped : before.next ctx act = some after) (engine : ∀ disk, act ≠ .user disk)
    (changed : after.disk.read query ≠ before.disk.read query) :
    ∃ path ∈ before.writtenPaths root ctx act, Spells root path query := by
  obtain ⟨published, cases⟩ := next_cases stepped
  have rewrites := (cases.read query).resolve_left changed
  generalize after.disk.read query = content at rewrites
  cases rewrites with
  | user disk => exact absurd rfl (engine disk)
  | copied source path hash chunks clock timestamp writer device data content foreign concurrent
      wins here =>
      refine ⟨pathJoin root (conflictFilename path.raw ctx.localId), ?_,
        here ▸ spells_conflictFilename root path ctx.localId⟩
      have lost := resolve_conflict_iff.mpr ⟨concurrent, (if_pos wins).symm⟩
      rw [writtenPaths, pulls_of_changed stepped changed, decide_eq_false foreign, Bool.or_self,
        if_neg Bool.false_ne_true, path.accepted]
      dsimp only
      rw [lost]
      dsimp only
      rw [if_pos rfl]
      exact List.mem_singleton_self _
  | removed source tombstone path device named here =>
      obtain ⟨foreign, _⟩ := deletes_of_changed stepped changed
      refine ⟨pathJoin root tombstone.path, ?_,
        here ▸ named ▸ spells_pathJoin root path.accepted⟩
      rw [writtenPaths, pulls_of_changed stepped changed, decide_eq_false foreign, Bool.or_self,
        if_neg Bool.false_ne_true, named, path.accepted]
      exact List.mem_singleton_self _
  | written number device task fetch data content found ready here =>
      refine ⟨pathJoin root fetch.path.raw, ?_, here ▸ spells_pathJoin root fetch.path.accepted⟩
      obtain ⟨stage, todo, filesSynced⟩ := task
      cases ready
      rw [writtenPaths, found]
      exact List.mem_singleton_self _

/-- **Every file path stays below the root**: what a step writes, copies to or removes and
what a request is answered from is spelt as the components of the root followed by names,
and nothing else is changed or looked at. -/
theorem confined (root : Str) (ctx : Ctx ι) (before : Peer ι) :
    (∀ act, ∀ path ∈ before.writtenPaths root ctx act, ∃ rel, Spells root path rel) ∧
      (∀ act after query, before.next ctx act = some after → (∀ disk, act ≠ .user disk) →
        after.disk.read query ≠ before.disk.read query →
          ∃ path ∈ before.writtenPaths root ctx act, Spells root path query) ∧
      (∀ request, ∀ path ∈ servedPaths root request, ∃ rel, Spells root path rel) ∧
      ∀ request disk failure, (∀ path ∈ servedPaths root request, ∀ query,
        Spells root path query → disk.read query = before.disk.read query) →
          handleInboundRequest ctx.storage before.index disk failure request =
            handleInboundRequest ctx.storage before.index before.disk failure request := by
  refine ⟨fun act path member => exists_spells_of_mem member,
    fun act after query stepped engine changed => exists_writtenPath root stepped engine changed,
    fun request path member => ?_, fun request disk failure same => ?_⟩
  · exact exists_spells_of_served member
  · exact handleInboundRequest_congr same

end Peer

end P2Sync
