import P2Sync.Core.Sound

/-!
# The tree refines a path map

In a tree whose every directory hash is that of its children (`Node.Consistent`) the
entries say everything: two such trees with the same entries are equal
(`eq_of_entries_eq`). Insertions and removals keep the hashes consistent, and what they do
to the nodes at each path is read off the entries (`refines_pathMap`).
-/

set_option autoImplicit false

namespace P2Sync

section Trees

variable [Blake3]

/-- A tree whose every directory hash is that of its children. -/
inductive Node.Consistent : Node → Prop where
  | file (hash : Hash) (size : Nat) (chunks : List ChunkMeta) : Consistent (.file hash size chunks)
  | directory (hash : Hash) (children : List (Str × Node)) (hashed : hash = Merkle.dirHash children)
      (consistent : ∀ child ∈ children, Consistent child.2) : Consistent (.directory hash children)

namespace Merkle

theorem consistent_dirNode {children : List (Str × Node)}
    (consistent : ∀ child ∈ children, child.2.Consistent) : (dirNode children).Consistent :=
  .directory _ _ rfl consistent

theorem consistent_dirNode_insert {name : Str} {child : Node} {children : List (Str × Node)}
    (consistent : ∀ child ∈ children, child.2.Consistent) (childConsistent : child.Consistent) :
    (dirNode (SortedMap.insert name child children)).Consistent := by
  refine consistent_dirNode fun entry member => ?_
  rcases SortedMap.mem_insert member with rfl | old
  · exact childConsistent
  · exact consistent entry old

theorem consistent_getD {first : Str} {children : List (Str × Node)}
    (consistent : ∀ child ∈ children, child.2.Consistent) :
    ((SortedMap.lookup first children).getD (dirNode [])).Consistent := by
  cases found : SortedMap.lookup first children with
  | none => exact consistent_dirNode fun _ absent => absurd absent List.not_mem_nil
  | some child => exact consistent _ (SortedMap.mem_of_lookup found)

/-- **An insertion keeps the hashes consistent.** -/
theorem consistent_insertRecursive {names : List Str} {newNode tree : Node}
    (newConsistent : newNode.Consistent) (consistent : tree.Consistent) :
    (insertRecursive names newNode tree).Consistent := by
  induction names generalizing tree with
  | nil => cases tree <;> exact consistent
  | cons first rest ih =>
      cases consistent with
      | file hash size chunks =>
          rw [insertRecursive_of_file]
          exact .file hash size chunks
      | directory hash children hashed consistent =>
          cases rest with
          | nil => exact consistent_dirNode_insert consistent newConsistent
          | cons second later =>
              rw [insertRecursive_cons_cons]
              exact consistent_dirNode_insert consistent (ih (consistent_getD consistent))

/-- **A removal that finds nothing changes nothing.** -/
theorem removeRecursive_of_false {names : List Str} {tree : Node} (ordered : tree.Ordered)
    (nothing : (removeRecursive names tree).1 = false) : (removeRecursive names tree).2 = tree := by
  induction names generalizing tree with
  | nil => cases tree <;> rfl
  | cons first rest ih =>
      cases ordered with
      | file hash size chunks => cases rest <;> rfl
      | directory hash children sorted ordered =>
          cases rest with
          | nil =>
              rw [removeRecursive] at nothing ⊢
              split
              · rename_i there
                rw [if_pos there] at nothing
                exact absurd nothing Bool.true_eq_false.mp
              · rfl
          | cons second later =>
              cases found : SortedMap.lookup first children with
              | none => simp only [removeRecursive, found]
              | some child =>
                  simp only [removeRecursive, found] at nothing ⊢
                  rw [ih (ordered _ (SortedMap.mem_of_lookup found)) nothing, nothing,
                    sorted.insert_of_lookup found]
                  rfl

/-- **A removal keeps the hashes consistent.** -/
theorem consistent_removeRecursive {names : List Str} {tree : Node} (ordered : tree.Ordered)
    (consistent : tree.Consistent) : (removeRecursive names tree).2.Consistent := by
  cases removed : (removeRecursive names tree).1 with
  | false => rwa [removeRecursive_of_false ordered removed]
  | true =>
      induction names generalizing tree with
      | nil => cases tree <;> exact consistent
      | cons first rest ih =>
          cases consistent with
          | file hash size chunks => cases rest <;> exact .file hash size chunks
          | directory hash children hashed consistent =>
              cases rest with
              | nil =>
                  rw [removeRecursive] at removed ⊢
                  split
                  · exact consistent_dirNode fun entry member =>
                      consistent entry (SortedMap.mem_erase member)
                  · exact .directory hash children hashed consistent
              | cons second later =>
                  cases found : SortedMap.lookup first children with
                  | none =>
                      simp only [removeRecursive, found]
                      exact .directory hash children hashed consistent
                  | some child =>
                      have member := SortedMap.mem_of_lookup found
                      simp only [removeRecursive, found] at removed ⊢
                      rw [if_pos removed]
                      cases ordered with
                      | directory _ _ sorted ordered =>
                          exact consistent_dirNode_insert consistent
                            (ih (ordered _ member) (consistent _ member) removed)

/-- **An insertion below a file changes nothing.** -/
theorem insertRecursive_of_blocked {names : List Str} {newNode tree : Node}
    (ordered : tree.Ordered) (consistent : tree.Consistent) (blocked : Blocked names tree) :
    insertRecursive names newNode tree = tree := by
  induction names generalizing tree with
  | nil => cases tree <;> rfl
  | cons first rest ih =>
      cases consistent with
      | file hash size chunks => rw [insertRecursive_of_file]
      | directory hash children hashed consistent =>
          cases ordered with
          | directory _ _ sorted ordered =>
              obtain ⟨child, found, below⟩ := blocked.child
              have member := SortedMap.mem_of_lookup found
              cases rest with
              | nil => exact absurd below not_blocked_nil
              | cons second later =>
                  rw [insertRecursive_cons_cons, found, Option.getD_some,
                    ih (ordered _ member) (consistent _ member) below,
                    sorted.insert_of_lookup found, hashed]
                  rfl

/-- A scan builds consistent hashes. -/
theorem consistent_of_scanned {chunkSize : Nat} {tree : Node} (scanned : tree.Scanned chunkSize) :
    tree.Consistent := by
  induction scanned with
  | file data => exact .file _ _ _
  | directory children sorted named _ ih => exact consistent_dirNode ih

/-! ## Equal entries -/

omit [Blake3] in
theorem ordered_of_findNames {names : List Str} {tree node : Node} (ordered : tree.Ordered)
    (found : findNames names tree = some node) : node.Ordered := by
  induction names generalizing tree with
  | nil =>
      cases found
      exact ordered
  | cons first rest ih =>
      cases ordered with
      | file => exact absurd found.symm (Option.some_ne_none node)
      | directory hash children sorted ordered =>
          rw [findNames_cons_directory] at found
          obtain ⟨child, there, below⟩ := Option.bind_eq_some_iff.mp found
          exact ih (ordered _ (SortedMap.mem_of_lookup there)) below

theorem consistent_of_findNames {names : List Str} {tree node : Node}
    (consistent : tree.Consistent) (found : findNames names tree = some node) :
    node.Consistent := by
  induction names generalizing tree with
  | nil =>
      cases found
      exact consistent
  | cons first rest ih =>
      cases consistent with
      | file => exact absurd found.symm (Option.some_ne_none node)
      | directory hash children hashed consistent =>
          rw [findNames_cons_directory] at found
          obtain ⟨child, there, below⟩ := Option.bind_eq_some_iff.mp found
          exact ih (consistent _ (SortedMap.mem_of_lookup there)) below

/-- **The entries of a tree determine it.** -/
theorem eq_of_entries_eq {left right : Node} (leftOrdered : left.Ordered)
    (rightOrdered : right.Ordered) (leftConsistent : left.Consistent)
    (rightConsistent : right.Consistent) (same : entries left = entries right) : left = right := by
  induction leftOrdered generalizing right with
  | file hash size chunks =>
      have root := congrFun same []
      rw [entries_nil, entries_nil, Option.some.injEq] at root
      exact (Node.entry_eq_leaf_iff.mp root.symm).symm
  | directory hash children sorted ordered ih =>
      have root := congrFun same []
      rw [entries_nil, entries_nil, Option.some.injEq] at root
      obtain ⟨hash', children', rfl⟩ := Node.entry_eq_branch_iff.mp root.symm
      cases leftConsistent with
      | directory _ _ hashed consistent =>
          cases rightConsistent with
          | directory _ _ hashed' consistent' =>
              cases rightOrdered with
              | directory _ _ sorted' ordered' =>
                  suffices equal : children = children' by
                    rw [hashed, hashed', equal]
                  refine sorted.ext sorted' fun name => ?_
                  have below : ∀ rest,
                      ((SortedMap.lookup name children).bind fun child => entries child rest) =
                        (SortedMap.lookup name children').bind fun child => entries child rest := by
                    intro rest
                    rw [← entries_cons_directory, same, entries_cons_directory]
                  cases found : SortedMap.lookup name children with
                  | none =>
                      have absent := below []
                      rw [found] at absent
                      cases found' : SortedMap.lookup name children' with
                      | none => rfl
                      | some child' =>
                          rw [found'] at absent
                          exact absurd absent.symm (Option.some_ne_none _)
                  | some child =>
                      have present := below []
                      rw [found] at present below
                      cases found' : SortedMap.lookup name children' with
                      | none =>
                          rw [found'] at present
                          exact absurd present (Option.some_ne_none _)
                      | some child' =>
                          rw [found'] at below
                          have member := SortedMap.mem_of_lookup found
                          have member' := SortedMap.mem_of_lookup found'
                          exact congrArg some (ih _ member (ordered' _ member')
                            (consistent _ member) (consistent' _ member') (funext below))

/-- Equal entries at and below a path are equal nodes there. -/
theorem findNames_eq_of_entries {left right : Node} (leftOrdered : left.Ordered)
    (rightOrdered : right.Ordered) (leftConsistent : left.Consistent)
    (rightConsistent : right.Consistent) {names : List Str}
    (same : ∀ rest, entries left (names ++ rest) = entries right (names ++ rest)) :
    findNames names left = findNames names right := by
  cases found : findNames names left with
  | none =>
      have absent := entries_eq_none_iff.mpr found
      rw [← List.append_nil names, same, List.append_nil, entries_eq_none_iff] at absent
      exact absent.symm
  | some node =>
      cases found' : findNames names right with
      | none =>
          have absent := entries_eq_none_iff.mpr found'
          rw [← List.append_nil names, ← same, List.append_nil, entries_eq_none_iff, found]
            at absent
          exact absurd absent (Option.some_ne_none node)
      | some node' =>
          refine congrArg some (eq_of_entries_eq (ordered_of_findNames leftOrdered found)
            (ordered_of_findNames rightOrdered found')
            (consistent_of_findNames leftConsistent found)
            (consistent_of_findNames rightConsistent found') (funext fun rest => ?_))
          rw [← entries_of_findNames found, ← entries_of_findNames found', same]

/-! ## Lookups by path -/

omit [Blake3] in
/-- A path that is not text leads nowhere. -/
theorem findNode_of_not_text {query : RelPath} (notText : ∀ names : List Str,
    query ≠ names.map OsStr.utf8) (tree : Node) : findNode query tree = none := by
  induction query generalizing tree with
  | nil => exact absurd rfl (notText [])
  | cons name rest ih =>
      cases name with
      | invalid bytes => rfl
      | utf8 text =>
          cases tree with
          | file hash size chunks => rfl
          | directory hash children =>
              have later : ∀ names : List Str, rest ≠ names.map OsStr.utf8 := by
                rintro names rfl
                exact notText (text :: names) rfl
              simp only [findNode, OsStr.toStr]
              cases SortedMap.lookup text children with
              | none => rfl
              | some child => exact ih later child

omit [Blake3] in
theorem isAbove_map_utf8 {above names : List Str} :
    IsAbove (above.map OsStr.utf8) (names.map OsStr.utf8) ↔ IsAbove above names :=
  and_congr utf8_prefix_iff utf8_injective.ne_iff

/-- What an insertion does at, below, above and apart from its path. -/
structure InsertsAt (path : RelPath) (newNode tree after : Node) : Prop where
  here : findNode path after = some newNode
  below : ∀ query, IsAbove path query → findNode query after = none
  above : ∀ query, IsAbove query path →
    ∃ hash children, findNode query after = some (.directory hash children)
  apart : ∀ query, ¬ query <+: path → ¬ path <+: query → findNode query after = findNode query tree

/-- What a removal does at, below and apart from its path. -/
structure RemovesAt (path : RelPath) (tree after : Node) : Prop where
  gone : ∀ query, path <+: query → findNode query after = none
  apart : ∀ query, ¬ query <+: path → ¬ path <+: query → findNode query after = findNode query tree

/-- A file is found at a proper prefix of the path. -/
def StandsOnWay (path : RelPath) (tree : Node) : Prop :=
  ∃ above, IsAbove above path ∧ ∃ node, findNode above tree = some node ∧ node.isFile = true

omit [Blake3] in
theorem standsOnWay_map_utf8 {names : List Str} {tree : Node} :
    StandsOnWay (names.map OsStr.utf8) tree ↔ Blocked names tree := by
  constructor
  · rintro ⟨path, ⟨⟨rest, split⟩, proper⟩, node, found, file⟩
    obtain ⟨above, below, rfl, rfl, rfl⟩ := List.map_eq_append_iff.mp split.symm
    obtain ⟨hash, size, chunks, rfl⟩ := Node.isFile_iff.mp file
    rw [findNode_map_utf8] at found
    exact ⟨above, below, hash, size, chunks, rfl, fun empty => proper (by simp [empty]), found⟩
  · rintro ⟨above, below, hash, size, chunks, rfl, proper, found⟩
    refine ⟨above.map OsStr.utf8, isAbove_map_utf8.mpr ⟨List.prefix_append _ _, ?_⟩,
      .file hash size chunks, ?_, rfl⟩
    · exact fun same => proper (List.self_eq_append_right.mp same)
    · rw [findNode_map_utf8, found]

theorem insertsAt_insertNode {names : List Str} (nonempty : names ≠ []) {tree newNode : Node}
    (file : newNode.isFile = true) (free : ¬ Blocked names tree) :
    InsertsAt (names.map OsStr.utf8) newNode tree
      (insertNode tree (names.map OsStr.utf8) newNode) := by
  rw [insertNode, pathNames_map_utf8]
  have after := entries_insertRecursive nonempty free newNode
  constructor
  case here =>
    rw [findNode_map_utf8, findNames_insert_self nonempty free]
  case below =>
    intro query below
    by_cases text : ∃ more : List Str, query = more.map OsStr.utf8
    · obtain ⟨more, rfl⟩ := text
      obtain ⟨⟨rest, rfl⟩, proper⟩ := isAbove_map_utf8.mp below
      obtain ⟨hash, size, chunks, rfl⟩ := Node.isFile_iff.mp file
      rw [findNode_map_utf8, ← entries_eq_none_iff, after, PathMap.replace_append]
      obtain ⟨first, later, rfl⟩ := List.exists_cons_of_ne_nil
        (fun empty => proper (by simp [empty]) : rest ≠ [])
      rfl
    · exact findNode_of_not_text (not_exists.mp text) _
  case above =>
    rintro query ⟨⟨rest, split⟩, proper⟩
    obtain ⟨above, below, rfl, rfl, rfl⟩ := List.map_eq_append_iff.mp split.symm
    have notBelow : ¬ above ++ below <+: above := fun reaches =>
      proper (by rw [reaches.eq_of_length_le (by simp)])
    simp only [findNode_map_utf8, ← entries_eq_branch_iff]
    rw [after, PathMap.replace_of_not_prefix notBelow, PathMap.openTo, if_pos]
    exact ⟨List.prefix_append _ _, fun same => proper (congrArg _ same)⟩
  case apart =>
    intro query notAbove notBelow
    by_cases text : ∃ more : List Str, query = more.map OsStr.utf8
    · obtain ⟨more, rfl⟩ := text
      rw [utf8_prefix_iff] at notAbove notBelow
      rw [findNode_map_utf8, findNode_map_utf8, findNames_insert_of_unrelated notAbove notBelow]
    · rw [findNode_of_not_text (not_exists.mp text), findNode_of_not_text (not_exists.mp text)]

theorem removesAt_removePath {names : List Str} (nonempty : names ≠ []) {tree : Node}
    (ordered : tree.Ordered) (consistent : tree.Consistent) :
    RemovesAt (names.map OsStr.utf8) tree (removePath tree (names.map OsStr.utf8)).2 := by
  rw [removePath, pathNames_map_utf8]
  have after := entries_removeRecursive nonempty tree
  constructor
  case gone =>
    intro query reaches
    by_cases text : ∃ more : List Str, query = more.map OsStr.utf8
    · obtain ⟨more, rfl⟩ := text
      obtain ⟨rest, rfl⟩ := utf8_prefix_iff.mp reaches
      rw [findNode_map_utf8, ← entries_eq_none_iff, after, PathMap.replace_append]
    · exact findNode_of_not_text (not_exists.mp text) _
  case apart =>
    intro query notAbove notBelow
    by_cases text : ∃ more : List Str, query = more.map OsStr.utf8
    · obtain ⟨more, rfl⟩ := text
      rw [utf8_prefix_iff] at notAbove notBelow
      rw [findNode_map_utf8, findNode_map_utf8]
      refine findNames_eq_of_entries (ordered_removeRecursive ordered) ordered
        (consistent_removeRecursive ordered consistent) consistent fun rest => ?_
      rw [after, PathMap.replace_of_not_prefix]
      intro reaches
      rcases List.prefix_or_prefix_of_prefix reaches (List.prefix_append more rest) with
        below | above
      · exact notBelow below
      · exact notAbove above
    · rw [findNode_of_not_text (not_exists.mp text), findNode_of_not_text (not_exists.mp text)]

/-- **The Merkle tree refines a path map.** -/
theorem refines_pathMap {tree newNode : Node} {path : RelPath} (ordered : tree.Ordered)
    (consistent : tree.Consistent) (nonempty : path ≠ [])
    (text : ∃ names : List Str, path = names.map OsStr.utf8) (file : newNode.isFile = true) :
    (insertNode tree path newNode).Consistent ∧ (removePath tree path).2.Consistent ∧
      (¬ StandsOnWay path tree → InsertsAt path newNode tree (insertNode tree path newNode)) ∧
      (StandsOnWay path tree → insertNode tree path newNode = tree) ∧
      ((removePath tree path).1 = true ↔ (findNode path tree).isSome = true) ∧
      ((removePath tree path).1 = true → RemovesAt path tree (removePath tree path).2) ∧
      ((removePath tree path).1 = false → (removePath tree path).2 = tree) := by
  obtain ⟨names, rfl⟩ := text
  have nonempty : names ≠ [] := fun empty => nonempty (by rw [empty]; rfl)
  have newConsistent : newNode.Consistent := by
    obtain ⟨hash, size, chunks, rfl⟩ := Node.isFile_iff.mp file
    exact .file hash size chunks
  refine ⟨consistent_insertRecursive newConsistent consistent,
    consistent_removeRecursive ordered consistent, fun free => ?_, fun blocked => ?_, ?_,
    fun _ => removesAt_removePath nonempty ordered consistent, removeRecursive_of_false ordered⟩
  · exact insertsAt_insertNode nonempty file fun blocked => free (standsOnWay_map_utf8.mpr blocked)
  · rw [insertNode, pathNames_map_utf8]
    exact insertRecursive_of_blocked ordered consistent (standsOnWay_map_utf8.mp blocked)
  · rw [removePath, pathNames_map_utf8, removeRecursive_fst nonempty, findNode_map_utf8]

end Merkle

end Trees

/-! ## A concrete tree -/

namespace Merkle

attribute [local instance] keepsLength

/-- A directory with a directory `a` with a file `b`. -/
def nested : Disk := holding (.dir [(.utf8 ['b'], .file [1, 2, 3])])

theorem proper_nested : nested.Proper := by
  have name : (OsStr.utf8 ['a']).IsName := by decide
  have name' : (OsStr.utf8 ['b']).IsName := by decide
  refine .dir _ (List.pairwise_singleton _ _) (by simpa using name) ?_
  simpa using Disk.Proper.dir _ (List.pairwise_singleton _ _) (by simpa using name')
    (by simpa using Disk.Proper.file [1, 2, 3])

/-- The tree of its scan. -/
def nestedTree : Node := dirNode [(['a'], dirNode [(['b'], fileNodeWithChunkSize [1, 2, 3] 2)])]

theorem scan_nested : fromPathConfigured (fun _ => false) 2 [] nested = some nestedTree := rfl

/-- A file put over the file two directories down. -/
theorem refines_pathMap_nested :
    InsertsAt [.utf8 ['a'], .utf8 ['b']] (fileNodeWithChunkSize [4] 2) nestedTree
        (insertNode nestedTree [.utf8 ['a'], .utf8 ['b']] (fileNodeWithChunkSize [4] 2)) ∧
      RemovesAt [.utf8 ['a'], .utf8 ['b']] nestedTree
        (removePath nestedTree [.utf8 ['a'], .utf8 ['b']]).2 := by
  have free : ¬ StandsOnWay ([['a'], ['b']].map OsStr.utf8) nestedTree := by
    rw [standsOnWay_map_utf8]
    rintro ⟨_ | ⟨first, _ | ⟨second, above⟩⟩, below, hash, size, chunks, split, proper, found⟩
    · exact absurd found (by simp [nestedTree, dirNode])
    · obtain ⟨rfl, _⟩ := List.cons.inj split
      exact absurd found (by simp [nestedTree, dirNode, findNames, SortedMap.lookup])
    · obtain ⟨_, rest⟩ := List.cons.inj split
      obtain ⟨_, rest⟩ := List.cons.inj rest
      exact proper (List.append_eq_nil_iff.mp rest.symm).2
  have refines := refines_pathMap (ordered_fromPathConfigured scan_nested)
    (consistent_of_scanned (scanned_fromPathConfigured proper_nested scan_nested))
    (List.cons_ne_nil (OsStr.utf8 ['a']) [.utf8 ['b']]) ⟨[['a'], ['b']], rfl⟩
    (rfl : (fileNodeWithChunkSize [4] 2).isFile = true)
  exact ⟨refines.2.2.1 free, refines.2.2.2.2.2.1 (by decide +kernel)⟩

end Merkle

end P2Sync
