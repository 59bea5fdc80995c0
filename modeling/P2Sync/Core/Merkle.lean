import P2Sync.Core.Chunk
import P2Sync.Core.Disk
import Mathlib.Data.List.Infix

/-!
# The Merkle tree

A tree of files and directories, each with a hash: a file's from its chunks, a
directory's from the names and hashes of its children. Updates follow the names of a
path down and recompute every directory hash on the way back.

`findNames` is the view of a tree as a map from paths to nodes. An insertion puts its
node at its path and leaves every unrelated path as it was (`findNames_insert_self`,
`findNames_insert_of_unrelated`), unless a file stands on the way, and then it changes
nothing (`insertRecursive_of_file`).
-/

set_option autoImplicit false

namespace P2Sync

/-- A node of the Merkle tree. -/
inductive Node where
  | file (hash : Hash) (size : Nat) (chunks : List ChunkMeta)
  | directory (hash : Hash) (children : List (Str × Node))

namespace Node

def hash : Node → Hash
  | .file hash _ _ => hash
  | .directory hash _ => hash

end Node

namespace Merkle

section Hashing

variable [Blake3]

/-- Build a file node from raw data with a custom chunk size. -/
def fileNodeWithChunkSize (data : Bytes) (chunkSize : Nat) : Node :=
  .file (Chunk.fileHash (Chunk.metadata data chunkSize)) data.length
    (Chunk.metadata data chunkSize)

/-- The UTF-8 bytes of a name. -/
def utf8Bytes (text : Str) : Bytes := text.flatMap String.utf8EncodeChar

/-- The hash of a directory from its children. -/
def dirHash (children : List (Str × Node)) : Hash :=
  Blake3.hash (children.flatMap fun child => utf8Bytes child.1 ++ child.2.hash.val)

/-- Build a directory node from children. -/
def dirNode (children : List (Str × Node)) : Node := .directory (dirHash children) children

/-! ## Updates along a path -/

/-- The names of a path that the tree can hold: those that are UTF-8. -/
def pathNames (path : RelPath) : List Str := path.filterMap OsStr.toStr

def insertRecursive : List Str → Node → Node → Node
  | _, _, .file hash size chunks => .file hash size chunks
  | [], _, .directory hash children => .directory hash children
  | [first], newNode, .directory _ children => dirNode (SortedMap.insert first newNode children)
  | first :: rest, newNode, .directory _ children =>
      let child := (SortedMap.lookup first children).getD (dirNode [])
      dirNode (SortedMap.insert first (insertRecursive rest newNode child) children)
termination_by structural names => names

def insertNode (tree : Node) (path : RelPath) (newNode : Node) : Node :=
  insertRecursive (pathNames path) newNode tree

/-- Update a single file with a custom chunk size. -/
def updateFileWithChunkSize (tree : Node) (path : RelPath) (data : Bytes) (chunkSize : Nat) :
    Node :=
  insertNode tree path (fileNodeWithChunkSize data chunkSize)

/-- Whether something was removed, and the tree after. -/
def removeRecursive : List Str → Node → Bool × Node
  | _, .file hash size chunks => (false, .file hash size chunks)
  | [], .directory hash children => (false, .directory hash children)
  | [first], .directory hash children =>
      if (SortedMap.lookup first children).isSome then
        (true, dirNode (SortedMap.erase first children))
      else (false, .directory hash children)
  | first :: rest, .directory hash children =>
      match SortedMap.lookup first children with
      | none => (false, .directory hash children)
      | some child =>
          let (removed, child') := removeRecursive rest child
          let children' := SortedMap.insert first child' children
          (removed, if removed then dirNode children' else .directory hash children')
termination_by structural names => names

/-- Remove a file or directory from the tree. -/
def removePath (tree : Node) (path : RelPath) : Bool × Node :=
  removeRecursive (pathNames path) tree

end Hashing

/-- The node at a path of names. -/
def findNames : List Str → Node → Option Node
  | [], node => some node
  | _ :: _, .file _ _ _ => none
  | first :: rest, .directory _ children =>
      match SortedMap.lookup first children with
      | some child => findNames rest child
      | none => none
termination_by structural names => names

/-- The node at a path. -/
def findNode : RelPath → Node → Option Node
  | [], node => some node
  | name :: rest, node =>
      match name.toStr, node with
      | some text, .directory _ children =>
          match SortedMap.lookup text children with
          | some child => findNode rest child
          | none => none
      | _, _ => none
termination_by structural path => path

/-! ## Differences -/

/-- One difference between two trees, at a joined path. -/
inductive DiffEntry where
  | added (path : Str) (node : Node)
  | removed (path : Str) (node : Node)
  | modified (path : Str) (old new : Node)

mutual

/-- `diff_recursive`, below a path. -/
def diffRecursive (old : Node) (basePath : Str) : Node → List DiffEntry
  | .file hash size chunks =>
      if old.hash = hash then [] else [.modified basePath old (.file hash size chunks)]
  | .directory hash children =>
      if old.hash = hash then []
      else match old with
        | .file _ _ _ => [.modified basePath old (.directory hash children)]
        | .directory _ oldChildren =>
            diffChildren oldChildren basePath children ++
              (oldChildren.filter fun child =>
                (SortedMap.lookup child.1 children).isNone).map fun child =>
                  .removed (pathJoin basePath child.1) child.2

/-- The loop of `diff_recursive` over the new children. -/
def diffChildren (oldChildren : List (Str × Node)) (basePath : Str) :
    List (Str × Node) → List DiffEntry
  | [] => []
  | (name, newNode) :: rest =>
      (match SortedMap.lookup name oldChildren with
        | some oldNode => diffRecursive oldNode (pathJoin basePath name) newNode
        | none => [.added (pathJoin basePath name) newNode]) ++
      diffChildren oldChildren basePath rest

end

/-- Compare two Merkle trees and return the differences. -/
def diff (old new : Node) : List DiffEntry := diffRecursive old [] new

/-! ## The tree as a map from paths -/

@[simp] theorem findNames_nil (node : Node) : findNames [] node = some node := rfl

@[simp] theorem findNames_cons_file (first : Str) (rest : List Str) (hash : Hash) (size : Nat)
    (chunks : List ChunkMeta) : findNames (first :: rest) (.file hash size chunks) = none := rfl

theorem findNames_cons_directory (first : Str) (rest : List Str) (hash : Hash)
    (children : List (Str × Node)) :
    findNames (first :: rest) (.directory hash children) =
      (SortedMap.lookup first children).bind (findNames rest) := by
  rw [findNames]
  cases SortedMap.lookup first children <;> rfl

theorem findNames_append (above below : List Str) (node : Node) :
    findNames (above ++ below) node = (findNames above node).bind (findNames below) := by
  induction above generalizing node with
  | nil => rfl
  | cons first rest ih =>
      cases node with
      | file => rfl
      | directory hash children =>
          rw [List.cons_append, findNames_cons_directory, findNames_cons_directory]
          cases SortedMap.lookup first children with
          | none => rfl
          | some child => exact ih child

/-- Looking up a path is looking up its names, when the tree can hold them all. -/
theorem findNode_map_utf8 (names : List Str) (node : Node) :
    findNode (names.map OsStr.utf8) node = findNames names node := by
  induction names generalizing node with
  | nil => rfl
  | cons first rest ih =>
      cases node with
      | file hash size chunks => rfl
      | directory hash children =>
          rw [findNames_cons_directory]
          simp only [List.map_cons, findNode, OsStr.toStr]
          cases SortedMap.lookup first children with
          | none => rfl
          | some child => exact ih child

@[simp] theorem pathNames_map_utf8 (names : List Str) :
    pathNames (names.map OsStr.utf8) = names := by
  rw [pathNames, List.filterMap_map]
  exact List.filterMap_some

/-- A file stands at a proper prefix of the path. -/
def Blocked (names : List Str) (tree : Node) : Prop :=
  ∃ above below hash size chunks, names = above ++ below ∧ below ≠ [] ∧
    findNames above tree = some (.file hash size chunks)

theorem Blocked.cons {first : Str} {rest : List Str} {hash : Hash} {children : List (Str × Node)}
    {child : Node} (found : SortedMap.lookup first children = some child)
    (blocked : Blocked rest child) : Blocked (first :: rest) (.directory hash children) := by
  obtain ⟨above, below, hash', size, chunks, rfl, proper, standing⟩ := blocked
  refine ⟨first :: above, below, hash', size, chunks, rfl, proper, ?_⟩
  rw [findNames_cons_directory, found]
  exact standing

theorem not_blocked_nil {tree : Node} : ¬ Blocked [] tree := by
  rintro ⟨above, below, _, _, _, split, proper, _⟩
  exact proper (List.append_eq_nil_iff.mp split.symm).2

theorem Blocked.child {first : Str} {rest : List Str} {hash : Hash} {children : List (Str × Node)}
    (blocked : Blocked (first :: rest) (.directory hash children)) :
    ∃ child, SortedMap.lookup first children = some child ∧ Blocked rest child := by
  obtain ⟨above, below, hash', size, chunks, split, proper, standing⟩ := blocked
  cases above with
  | nil => exact absurd standing (by simp)
  | cons head above =>
      obtain ⟨rfl, parts⟩ := List.cons.inj split
      rw [findNames_cons_directory] at standing
      obtain ⟨child, found, standing⟩ := Option.bind_eq_some_iff.mp standing
      exact ⟨child, found, above, below, hash', size, chunks, parts, proper, standing⟩

theorem blocked_cons_directory_iff {first : Str} {rest : List Str} {hash : Hash}
    {children : List (Str × Node)} :
    Blocked (first :: rest) (.directory hash children) ↔
      ∃ child, SortedMap.lookup first children = some child ∧ Blocked rest child :=
  ⟨Blocked.child, fun ⟨_, found, blocked⟩ => blocked.cons found⟩

variable [Blake3]

/-- A way that is free stays free below. -/
theorem not_blocked_child {first second : Str} {rest : List Str} {hash : Hash}
    {children : List (Str × Node)}
    (free : ¬ Blocked (first :: second :: rest) (.directory hash children)) :
    ¬ Blocked (second :: rest) ((SortedMap.lookup first children).getD (dirNode [])) := by
  intro blocked
  cases found : SortedMap.lookup first children with
  | some child =>
      rw [found, Option.getD_some] at blocked
      exact free (blocked.cons found)
  | none =>
      rw [found, Option.getD_none] at blocked
      obtain ⟨above, below, _, _, _, _, _, standing⟩ := blocked
      cases above with
      | nil => exact absurd standing (by simp [dirNode])
      | cons _ _ => exact absurd standing (by simp [dirNode, findNames_cons_directory])

theorem insertRecursive_cons_cons (first second : Str) (rest : List Str) (newNode : Node)
    (hash : Hash) (children : List (Str × Node)) :
    insertRecursive (first :: second :: rest) newNode (.directory hash children) =
      dirNode (SortedMap.insert first
        (insertRecursive (second :: rest) newNode
          ((SortedMap.lookup first children).getD (dirNode []))) children) := rfl

theorem findNames_dirNode_insert (first query : Str) (rest : List Str) (child : Node)
    (children : List (Str × Node)) :
    findNames (query :: rest) (dirNode (SortedMap.insert first child children)) =
      if query = first then findNames rest child
      else (SortedMap.lookup query children).bind (findNames rest) := by
  rw [dirNode, findNames_cons_directory, SortedMap.lookup_insert]
  split <;> rfl

/-- **An insertion puts its node at its path**, unless a file stands on the way. -/
theorem findNames_insert_self {names : List Str} (nonempty : names ≠ []) {tree : Node}
    (free : ¬ Blocked names tree) (newNode : Node) :
    findNames names (insertRecursive names newNode tree) = some newNode := by
  induction names generalizing tree with
  | nil => exact absurd rfl nonempty
  | cons first rest ih =>
      cases tree with
      | file hash size chunks =>
          exact absurd ⟨[], first :: rest, hash, size, chunks, rfl, nonempty, rfl⟩ free
      | directory hash children =>
          cases rest with
          | nil =>
              rw [insertRecursive, findNames_dirNode_insert, if_pos rfl]
              rfl
          | cons second later =>
              rw [insertRecursive_cons_cons, findNames_dirNode_insert, if_pos rfl]
              exact ih (List.cons_ne_nil _ _) (not_blocked_child free)

/-- Under a file on the way there is nothing, and an insertion puts nothing there. -/
theorem findNames_insert_of_blocked {names : List Str} {tree : Node} (blocked : Blocked names tree)
    (newNode : Node) : findNames names (insertRecursive names newNode tree) = none := by
  induction names generalizing tree with
  | nil => exact absurd blocked not_blocked_nil
  | cons first rest ih =>
      cases tree with
      | file hash size chunks => cases rest <;> rfl
      | directory hash children =>
          obtain ⟨child, found, inside⟩ := blocked.child
          cases rest with
          | nil => exact absurd inside not_blocked_nil
          | cons second later =>
              rw [insertRecursive_cons_cons, findNames_dirNode_insert, if_pos rfl, found,
                Option.getD_some]
              exact ih inside

/-- **An insertion leaves every unrelated path as it was.** -/
theorem findNames_insert_of_unrelated {names query : List Str} (notAbove : ¬ query <+: names)
    (notBelow : ¬ names <+: query) (newNode tree : Node) :
    findNames query (insertRecursive names newNode tree) = findNames query tree := by
  induction names generalizing query tree with
  | nil => exact absurd (List.nil_prefix) notBelow
  | cons first rest ih =>
      cases query with
      | nil => exact absurd (List.nil_prefix) notAbove
      | cons query more =>
          cases tree with
          | file hash size chunks =>
              cases rest <;> rfl
          | directory hash children =>
              rw [findNames_cons_directory]
              by_cases same : query = first
              · subst same
                rw [List.cons_prefix_cons] at notAbove notBelow
                have above : ¬ more <+: rest := fun reaches => notAbove ⟨rfl, reaches⟩
                have below : ¬ rest <+: more := fun reaches => notBelow ⟨rfl, reaches⟩
                cases rest with
                | nil => exact absurd List.nil_prefix below
                | cons second later =>
                    rw [insertRecursive_cons_cons, findNames_dirNode_insert, if_pos rfl,
                      ih above below]
                    cases SortedMap.lookup query children with
                    | some child => rfl
                    | none =>
                        cases more with
                        | nil => exact absurd List.nil_prefix above
                        | cons _ _ => simp [dirNode, findNames_cons_directory]
              · cases rest with
                | nil => rw [insertRecursive, findNames_dirNode_insert, if_neg same]
                | cons second later =>
                    rw [insertRecursive_cons_cons, findNames_dirNode_insert, if_neg same]

/-- A file on the way stops an insertion. -/
theorem insertRecursive_of_file (names : List Str) (newNode : Node) (hash : Hash) (size : Nat)
    (chunks : List ChunkMeta) :
    insertRecursive names newNode (.file hash size chunks) = .file hash size chunks := by
  cases names with
  | nil => rfl
  | cons first rest => cases rest <;> rfl

end Merkle

end P2Sync
