import P2Sync.Core.Refine
import P2Sync.Core.Index

/-!
# What an index update leaves alone

An update follows the names of a path that are UTF-8 and skips the others, so what it changes is
at the path of these names. A path with a name that is not UTF-8 can so stand for a directory on
the way to it, or for any path that has the other names.

`update_frame_iff` says when an update leaves a node alone: the names that are left lead away from
it, or there are none, or the update finds below the node what it would put there or a file that
is in its way.
-/

set_option autoImplicit false

namespace P2Sync

namespace Merkle

/-- Neither list of names starts with the other. -/
def Unrelated (names query : List Str) : Prop := ¬ query <+: names ∧ ¬ names <+: query

variable [Blake3]

/-- The directories on the way have the hashes of their children. -/
def HashedAlong (names : List Str) (node : Node) : Prop :=
  ∀ above below hash children, names = above ++ below → below ≠ [] →
    findNames above node = some (.directory hash children) → hash = dirHash children

theorem hashedAlong_nil (node : Node) : HashedAlong [] node := by
  intro above below hash children split proper
  exact absurd (List.append_eq_nil_iff.mp split.symm).2 proper

theorem hashedAlong_cons_directory {first : Str} {rest : List Str} {hash : Hash}
    {children : List (Str × Node)} :
    HashedAlong (first :: rest) (.directory hash children) ↔
      hash = dirHash children ∧
        ∀ child, SortedMap.lookup first children = some child → HashedAlong rest child := by
  constructor
  · intro hashed
    refine ⟨hashed [] _ hash children rfl (List.cons_ne_nil _ _) rfl, ?_⟩
    intro child found above below hash' children' split proper reached
    refine hashed (first :: above) below hash' children' (split ▸ rfl) proper ?_
    rw [findNames_cons_directory, found]
    exact reached
  · rintro ⟨here, later⟩ above below hash' children' split proper reached
    cases above with
    | nil =>
        cases reached
        exact here
    | cons head above =>
        obtain ⟨rfl, splitRest⟩ := List.cons.inj split
        rw [findNames_cons_directory] at reached
        obtain ⟨child, found, reached⟩ := Option.bind_eq_some_iff.mp reached
        exact later child found above below hash' children' splitRest proper reached

/-! ## Updates that change nothing -/

theorem dirNode_insert_eq_iff {first : Str} {child : Node} {hash : Hash}
    {children : List (Str × Node)} (sorted : SortedMap.Sorted children) :
    dirNode (SortedMap.insert first child children) = .directory hash children ↔
      hash = dirHash children ∧ SortedMap.lookup first children = some child := by
  constructor
  · intro same
    obtain ⟨hashed, kept⟩ := Node.directory.inj same
    rw [kept] at hashed
    have inserted := SortedMap.lookup_insert first first child children
    rw [kept, if_pos rfl] at inserted
    exact ⟨hashed.symm, inserted⟩
  · rintro ⟨rfl, found⟩
    rw [dirNode, sorted.insert_of_lookup found]

/-- **When an insertion changes nothing**: a file is in its way, or the node is there already, and
the hashes on the way are right. -/
theorem insertRecursive_eq_self_iff {names : List Str} (nonempty : names ≠ []) {node newNode : Node}
    (ordered : node.Ordered) :
    insertRecursive names newNode node = node ↔
      HashedAlong names node ∧ (Blocked names node ∨ findNames names node = some newNode) := by
  induction names generalizing node with
  | nil => exact absurd rfl nonempty
  | cons first rest ih =>
      cases ordered with
      | file hash size chunks =>
          refine iff_of_true (insertRecursive_of_file _ _ _ _ _) ⟨?_, Or.inl .of_file⟩
          intro above below hash' children split proper reached
          cases above with
          | nil => cases reached
          | cons _ _ => cases reached
      | directory hash children sorted ordered =>
          rw [hashedAlong_cons_directory, findNames_cons_directory, blocked_cons_directory_iff]
          cases rest with
          | nil =>
              rw [insertRecursive, dirNode_insert_eq_iff sorted]
              cases SortedMap.lookup first children <;> simp [hashedAlong_nil, not_blocked_nil]
          | cons second later =>
              rw [insertRecursive_cons_cons, dirNode_insert_eq_iff sorted]
              cases found : SortedMap.lookup first children with
              | none => simp
              | some child =>
                  have below := @ih (List.cons_ne_nil _ _) child
                    (ordered _ (SortedMap.mem_of_lookup found))
                  rw [Option.getD_some, Option.some.injEq, @eq_comm _ child, below]
                  simp [and_assoc]

/-- **When a removal changes nothing**: there is nothing at its names. -/
theorem removeRecursive_eq_self_iff {names : List Str} (nonempty : names ≠ []) {node : Node}
    (ordered : node.Ordered) :
    (removeRecursive names node).2 = node ↔ findNames names node = none := by
  constructor
  · intro same
    have after := congrFun (entries_removeRecursive nonempty node) names
    rw [same, PathMap.replace, if_pos (List.prefix_refl names)] at after
    exact entries_eq_none_iff.mp after
  · intro nothing
    refine removeRecursive_of_false ordered ?_
    rw [removeRecursive_fst nonempty, nothing]
    rfl

/-! ## Updates seen from a node -/

/-- An update of names below a node updates the node. -/
theorem findNames_insert_append {above rest : List Str} (nonempty : rest ≠ []) {tree node : Node}
    (found : findNames above tree = some node) (newNode : Node) :
    findNames above (insertRecursive (above ++ rest) newNode tree) =
      some (insertRecursive rest newNode node) := by
  induction above generalizing tree with
  | nil =>
      cases found
      rfl
  | cons first above ih =>
      cases tree with
      | file => cases found
      | directory hash children =>
          rw [findNames_cons_directory] at found
          obtain ⟨child, there, found⟩ := Option.bind_eq_some_iff.mp found
          obtain ⟨second, later, more⟩ : ∃ second later, above ++ rest = second :: later :=
            List.exists_cons_of_ne_nil (by simp [nonempty])
          rw [List.cons_append, more, insertRecursive_cons_cons, findNames_dirNode_insert,
            if_pos rfl, there, Option.getD_some, ← more, ih found]

theorem findNames_remove_append {above rest : List Str} (nonempty : rest ≠ []) {tree node : Node}
    (found : findNames above tree = some node) :
    findNames above (removeRecursive (above ++ rest) tree).2 =
      some (removeRecursive rest node).2 := by
  induction above generalizing tree with
  | nil =>
      cases found
      rfl
  | cons first above ih =>
      cases tree with
      | file => cases found
      | directory hash children =>
          rw [findNames_cons_directory] at found
          obtain ⟨child, there, found⟩ := Option.bind_eq_some_iff.mp found
          obtain ⟨hash', children', after, lookups⟩ :=
            exists_removeRecursive_cons first (above ++ rest) hash children
          have more : above ++ rest ≠ [] := by simp [nonempty]
          rw [List.cons_append, after, findNames_cons_directory, lookups, if_pos rfl, if_neg more,
            there, Option.map_some, Option.bind_some, ih found]

/-- **A removal leaves every unrelated path as it was.** -/
theorem findNames_remove_of_unrelated {names query : List Str} (unrelated : Unrelated names query)
    (tree : Node) : findNames query (removeRecursive names tree).2 = findNames query tree := by
  obtain ⟨notAbove, notBelow⟩ := unrelated
  induction names generalizing query tree with
  | nil => exact absurd List.nil_prefix notBelow
  | cons first rest ih =>
      cases query with
      | nil => exact absurd List.nil_prefix notAbove
      | cons query more =>
          cases tree with
          | file hash size chunks => rw [removeRecursive_file]
          | directory hash children =>
              obtain ⟨hash', children', after, lookups⟩ :=
                exists_removeRecursive_cons first rest hash children
              rw [after, findNames_cons_directory, findNames_cons_directory, lookups]
              by_cases same : query = first
              · subst same
                rw [List.cons_prefix_cons] at notAbove notBelow
                have below : ¬ rest <+: more := fun reaches => notBelow ⟨rfl, reaches⟩
                have inner : rest ≠ [] := fun empty => below (empty ▸ List.nil_prefix)
                rw [if_pos rfl, if_neg inner]
                cases SortedMap.lookup query children with
                | none => rfl
                | some child => exact ih child (fun reaches => notAbove ⟨rfl, reaches⟩) below
              · rw [if_neg same]

omit [Blake3] in
/-- No file stands on the way to a node. -/
theorem not_blocked_of_findNames {names more : List Str} {tree node : Node}
    (found : findNames (names ++ more) tree = some node) : ¬ Blocked names tree := by
  rintro ⟨above, below, hash, size, chunks, rfl, proper, standing⟩
  rw [List.append_assoc, findNames_append, standing, Option.bind_some] at found
  cases below with
  | nil => exact proper rfl
  | cons first rest => exact absurd found (Option.some_ne_none node).symm

/-! ## When a node is left alone -/

/-- An update that follows some names leaves the node at a path alone: there are no names, or they
lead elsewhere, or they lead on from the path to where there is nothing to do. -/
def Spares (nothingToDo : List Str → Prop) (names query : List Str) : Prop :=
  names = [] ∨ Unrelated names query ∨ ∃ rest, names = query ++ rest ∧ nothingToDo rest

/-- An insertion has nothing to do below a node: a file is in the way or the node is there. -/
def InsertSpares (names query : List Str) (newNode node : Node) : Prop :=
  Spares (fun rest => HashedAlong rest node ∧
    (Blocked rest node ∨ findNames rest node = some newNode)) names query

/-- A removal has nothing to do below a node: there is nothing to remove. -/
def RemoveSpares (names query : List Str) (node : Node) : Prop :=
  Spares (fun rest => findNames rest node = none) names query

section Spares

variable {names query rest : List Str} {tree node newNode : Node}

section

variable {nothingToDo : List Str → Prop}

omit [Blake3]

theorem spares_append_iff (nonempty : query ++ rest ≠ []) :
    Spares nothingToDo (query ++ rest) query ↔ nothingToDo rest := by
  constructor
  · rintro (empty | ⟨apart, _⟩ | ⟨rest', same, spared⟩)
    · exact absurd empty nonempty
    · exact absurd (List.prefix_append query rest) apart
    · exact List.append_cancel_left same ▸ spared
  · exact fun spared => Or.inr (Or.inr ⟨rest, rfl, spared⟩)

theorem spares_iff_of_not_above (nonempty : names ≠ []) (above : ¬ query <+: names) :
    Spares nothingToDo names query ↔ ¬ names <+: query := by
  constructor
  · rintro (empty | ⟨_, apart⟩ | ⟨rest, same, _⟩)
    · exact absurd empty nonempty
    · exact apart
    · exact absurd ⟨rest, same.symm⟩ above
  · exact fun apart => Or.inr (Or.inl ⟨above, apart⟩)

end

theorem insertRecursive_nil (newNode tree : Node) : insertRecursive [] newNode tree = tree := by
  cases tree <;> rfl

theorem removeRecursive_nil (tree : Node) : (removeRecursive [] tree).2 = tree := by
  cases tree <;> rfl

/-- **When an insertion leaves the node at a path alone.** -/
theorem findNames_insert_iff (ordered : tree.Ordered) (found : findNames query tree = some node)
    (file : newNode.isFile = true) :
    findNames query (insertRecursive names newNode tree) = some node ↔
      InsertSpares names query newNode node := by
  rw [InsertSpares]
  by_cases none : names = []
  · subst none
    rw [insertRecursive_nil]
    exact iff_of_true found (Or.inl rfl)
  by_cases above : query <+: names
  · obtain ⟨rest, rfl⟩ := above
    rw [spares_append_iff none]
    by_cases here : rest = []
    · subst here
      rw [List.append_nil] at none ⊢
      rw [findNames_insert_self none
        (not_blocked_of_findNames ((List.append_nil query).symm ▸ found)), findNames_nil]
      simp [hashedAlong_nil, not_blocked_nil, eq_comm]
    · rw [findNames_insert_append here found, Option.some.injEq]
      exact insertRecursive_eq_self_iff here (ordered_of_findNames ordered found)
  · rw [spares_iff_of_not_above none above]
    constructor
    · rintro kept ⟨more, rfl⟩
      -- The new file takes the place of a node above, and there is nothing below a file.
      rw [findNames_append, findNames_insert_self none (not_blocked_of_findNames found),
        Option.bind_some] at kept
      obtain ⟨hash, size, chunks, rfl⟩ := Node.isFile_iff.mp file
      cases more with
      | nil => exact above (by simp)
      | cons first rest => exact absurd kept (Option.some_ne_none node).symm
    · intro apart
      rw [findNames_insert_of_unrelated above apart, found]

/-- **When a removal leaves the node at a path alone.** -/
theorem findNames_remove_iff (ordered : tree.Ordered) (found : findNames query tree = some node) :
    findNames query (removeRecursive names tree).2 = some node ↔
      RemoveSpares names query node := by
  rw [RemoveSpares]
  by_cases none : names = []
  · subst none
    rw [removeRecursive_nil]
    exact iff_of_true found (Or.inl rfl)
  have gone : ∀ more, findNames (names ++ more) (removeRecursive names tree).2 = Option.none := by
    intro more
    rw [← entries_eq_none_iff, entries_removeRecursive none, PathMap.replace_append]
  by_cases above : query <+: names
  · obtain ⟨rest, rfl⟩ := above
    rw [spares_append_iff none]
    by_cases here : rest = []
    · subst here
      have away := gone []
      rw [List.append_nil, List.append_nil] at away
      rw [List.append_nil, away, findNames_nil]
      simp
    · rw [findNames_remove_append here found, Option.some.injEq]
      exact removeRecursive_eq_self_iff here (ordered_of_findNames ordered found)
  · rw [spares_iff_of_not_above none above]
    constructor
    · rintro kept ⟨more, rfl⟩
      exact absurd (kept.symm.trans (gone more)) (Option.some_ne_none node)
    · intro apart
      rw [findNames_remove_of_unrelated ⟨above, apart⟩, found]

end Spares

end Merkle

/-! ## Updates of the index -/

open Merkle

namespace SyncIndex

variable [Blake3] {index : SyncIndex} {query : RelPath} {node : Node}

omit [Blake3] in
/-- A path that leads to a node is text. -/
theorem exists_names_of_findNode {tree : Node} (tracked : findNode query tree = some node) :
    ∃ names : List Str, query = names.map OsStr.utf8 := by
  by_contra notText
  rw [findNode_of_not_text (not_exists.mp notText)] at tracked
  exact absurd tracked (Option.some_ne_none node).symm

theorem localFileChanged_frame_iff (ordered : index.tree.Ordered)
    (tracked : findNode query index.tree = some node) (path : RelPath) (data : Option Bytes)
    (now : Nat) :
    (∀ after, index.localFileChanged path data now = some after →
        findNode query after.tree = findNode query index.tree) ↔
      ∀ bytes, data = some bytes → InsertSpares (pathNames path) (pathNames query)
        (fileNodeWithChunkSize bytes index.chunkSize) node := by
  obtain ⟨names, rfl⟩ := exists_names_of_findNode tracked
  rw [tracked, pathNames_map_utf8]
  rw [findNode_map_utf8] at tracked
  cases data with
  | none => exact iff_of_true (fun _ unread => by cases unread) fun _ unread => by cases unread
  | some bytes =>
      have inserted := @findNames_insert_iff _ (pathNames path) _ _ _ _ ordered tracked
        (rfl : (fileNodeWithChunkSize bytes index.chunkSize).isFile = true)
      constructor
      · intro kept bytes' read
        obtain rfl := Option.some.inj read
        have same := kept _ rfl
        rw [findNode_map_utf8] at same
        exact inserted.mp same
      · intro spares after changed
        obtain rfl := Option.some.inj changed
        rw [findNode_map_utf8]
        exact inserted.mpr (spares bytes rfl)

theorem localFileDeleted_frame_iff (ordered : index.tree.Ordered)
    (tracked : findNode query index.tree = some node) (path : RelPath) (now : Nat) :
    findNode query (index.localFileDeleted path now).tree = findNode query index.tree ↔
      RemoveSpares (pathNames path) (pathNames query) node := by
  obtain ⟨names, rfl⟩ := exists_names_of_findNode tracked
  rw [tracked, pathNames_map_utf8, findNode_map_utf8]
  rw [findNode_map_utf8] at tracked
  exact findNames_remove_iff ordered tracked

/-- **An update at a path that is text leaves every unrelated path alone.** -/
theorem text_update_frame (ordered : index.tree.Ordered)
    (tracked : findNode query index.tree = some node) {names : List Str}
    (notAbove : ¬ query <+: names.map OsStr.utf8) (notBelow : ¬ names.map OsStr.utf8 <+: query)
    (data : Option Bytes) (now : Nat) :
    (∀ after, index.localFileChanged (names.map OsStr.utf8) data now = some after →
        findNode query after.tree = findNode query index.tree) ∧
      findNode query (index.localFileDeleted (names.map OsStr.utf8) now).tree =
        findNode query index.tree := by
  have unrelated : Unrelated (pathNames (names.map OsStr.utf8)) (pathNames query) := by
    obtain ⟨texts, rfl⟩ := exists_names_of_findNode tracked
    rw [pathNames_map_utf8, pathNames_map_utf8]
    exact ⟨mt utf8_prefix_iff.mpr notAbove, mt utf8_prefix_iff.mpr notBelow⟩
  exact ⟨(localFileChanged_frame_iff ordered tracked _ data now).mpr fun _ _ =>
      Or.inr (Or.inl unrelated),
    (localFileDeleted_frame_iff ordered tracked _ now).mpr (Or.inr (Or.inl unrelated))⟩

/-- **When an update of the index leaves the node at a path alone**: the names that the update
follows lead elsewhere, or they find below the node that there is nothing to do. -/
theorem update_frame_iff (ordered : index.tree.Ordered)
    (tracked : findNode query index.tree = some node) (path : RelPath) (data : Option Bytes)
    (now : Nat) :
    ((∀ after, index.localFileChanged path data now = some after →
        findNode query after.tree = findNode query index.tree) ↔
      ∀ bytes, data = some bytes → InsertSpares (pathNames path) (pathNames query)
        (fileNodeWithChunkSize bytes index.chunkSize) node) ∧
    (findNode query (index.localFileDeleted path now).tree = findNode query index.tree ↔
      RemoveSpares (pathNames path) (pathNames query) node) :=
  ⟨localFileChanged_frame_iff ordered tracked path data now,
    localFileDeleted_frame_iff ordered tracked path now⟩

end SyncIndex

/-! ## A name that is skipped -/

attribute [local instance] keepsLength

/-- The index of a folder with a file `b` in a directory `a`. -/
def SyncIndex.ofNested : SyncIndex where
  tree := nestedTree
  fileMeta := ∅
  tombstones := []
  localPeer := ⟨List.replicate 8 1, rfl⟩
  excludePatterns := []
  chunkSize := 2
  tombstoneTtlSecs := 0

namespace SyncIndex

/-- A change or a deletion of `a/c` leaves `a/b` alone, the deletion of `a` takes it away. -/
theorem update_frame_iff_sample :
    (∀ after, ofNested.localFileChanged [.utf8 ['a'], .utf8 ['c']] (some [5]) 0 = some after →
      findNode [.utf8 ['a'], .utf8 ['b']] after.tree =
        findNode [.utf8 ['a'], .utf8 ['b']] ofNested.tree) ∧
      findNode [.utf8 ['a'], .utf8 ['b']]
        (ofNested.localFileDeleted [.utf8 ['a'], .utf8 ['c']] 0).tree =
          findNode [.utf8 ['a'], .utf8 ['b']] ofNested.tree ∧
      findNode [.utf8 ['a'], .utf8 ['b']] (ofNested.localFileDeleted [.utf8 ['a']] 0).tree ≠
        findNode [.utf8 ['a'], .utf8 ['b']] ofNested.tree := by
  have ordered := ordered_fromPathConfigured scan_nested
  have beside : Unrelated (pathNames [.utf8 ['a'], .utf8 ['c']])
      (pathNames [.utf8 ['a'], .utf8 ['b']]) := by
    constructor <;> decide
  refine ⟨(update_frame_iff ordered rfl [.utf8 ['a'], .utf8 ['c']] (some [5]) 0).1.mpr
      fun _ _ => Or.inr (Or.inl beside),
    (update_frame_iff ordered rfl [.utf8 ['a'], .utf8 ['c']] none 0).2.mpr
      (Or.inr (Or.inl beside)), fun same => ?_⟩
  rcases (update_frame_iff ordered rfl [.utf8 ['a']] none 0).2.mp same with
    root | ⟨_, notBelow⟩ | ⟨rest, below, _⟩
  · exact absurd root (by decide)
  · exact absurd notBelow (by decide)
  · exact absurd (List.cons.inj below).2 (List.cons_ne_nil _ _).symm

/-- The deletion of a file in `a` whose name is not UTF-8 takes `a` away, and a change of this file
puts a file in its place. The path of the file is unrelated to `a/b`, which is gone. -/
theorem skipped_name_erases :
    ¬ ([.utf8 ['a'], .invalid [0xff]] : RelPath) <+: [.utf8 ['a'], .utf8 ['b']] ∧
      ¬ ([.utf8 ['a'], .utf8 ['b']] : RelPath) <+: [.utf8 ['a'], .invalid [0xff]] ∧
      (findNode [.utf8 ['a'], .utf8 ['b']] ofNested.tree).isSome = true ∧
      (findNode [.utf8 ['a'], .utf8 ['b']]
        (ofNested.localFileDeleted [.utf8 ['a'], .invalid [0xff]] 0).tree).isSome = false ∧
      ((ofNested.localFileChanged [.utf8 ['a'], .invalid [0xff]] (some []) 0).bind
        fun after => findNode [.utf8 ['a'], .utf8 ['b']] after.tree).isSome = false := by
  decide +kernel

end SyncIndex

end P2Sync
