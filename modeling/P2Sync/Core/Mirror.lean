import P2Sync.Core.Merkle

/-!
# Trees that mirror a folder

The tree of an index is meant to be a picture of the folder: proper, and with the file
node of its content at the path of every file. While a fetch is between its write and its
index update the picture is behind for one path. `Shows` says of one path what the tree
has there.

An insertion changes what is shown at its own path (`shows_insert_self`); elsewhere it
only hides what stands above or below a file, where the folder has none either
(`shows_insert_of_ne`).
-/

set_option autoImplicit false

namespace P2Sync

/-- A tree with names in order, each the name of a directory entry. -/
inductive Node.Proper : Node → Prop where
  | file (hash : Hash) (size : Nat) (chunks : List ChunkMeta) : Proper (.file hash size chunks)
  | directory (hash : Hash) (children : List (Str × Node)) (sorted : SortedMap.Sorted children)
      (named : ∀ child ∈ children, (OsStr.utf8 child.1).IsName)
      (proper : ∀ child ∈ children, Proper child.2) : Proper (.directory hash children)

theorem utf8_prefix_iff {above names : List Str} :
    above.map OsStr.utf8 <+: names.map OsStr.utf8 ↔ above <+: names :=
  List.prefix_map_iff_of_injective fun _ _ same => OsStr.utf8.inj same

namespace Disk

theorem read_append (above below : RelPath) (disk : Disk) {data : Bytes}
    (here : disk.read above = some data) (proper : below ≠ []) :
    disk.read (above ++ below) = none := by
  induction above generalizing disk with
  | nil =>
      cases disk with
      | dir entries => exact absurd here (Option.some_ne_none data).symm
      | file content =>
          cases below with
          | nil => exact absurd rfl proper
          | cons name rest => rfl
  | cons name rest ih =>
      cases disk with
      | file content => rfl
      | dir entries =>
          rw [read_cons_dir] at here
          rw [List.cons_append, read_cons_dir]
          obtain ⟨child, found, inside⟩ := Option.bind_eq_some_iff.mp here
          rw [found, Option.bind_some]
          exact ih child inside

/-- Above and below a file there is no other file. -/
theorem read_of_related {path query : RelPath} {disk : Disk} {data : Bytes}
    (here : disk.read path = some data) (apart : path ≠ query)
    (related : path <+: query ∨ query <+: path) : disk.read query = none := by
  rcases related with ⟨rest, rfl⟩ | ⟨rest, rfl⟩
  · exact read_append path rest disk here fun empty => apart (by simp [empty])
  · cases there : disk.read query with
    | none => rfl
    | some content =>
        have hidden := read_append query rest disk there fun empty => apart (by simp [empty])
        exact absurd (here.symm.trans hidden) (Option.some_ne_none data)

end Disk

namespace Merkle

variable [Blake3]

/-- What a tree has at a path: the file node of a content, or no file. -/
def Shows (chunkSize : Nat) (tree : Node) (names : List Str) : Option Bytes → Prop
  | some data => findNames names tree = some (fileNodeWithChunkSize data chunkSize)
  | none => ∀ hash size chunks, findNames names tree ≠ some (.file hash size chunks)

/-- The tree of a folder. -/
structure Mirrors (chunkSize : Nat) (tree : Node) (disk : Disk) : Prop where
  proper : tree.Proper
  named : ∀ path data, disk.read path = some data →
    ∃ names : List Str, path = names.map OsStr.utf8
  shows : ∀ names, Shows chunkSize tree names (disk.read (names.map OsStr.utf8))

theorem proper_dirNode_nil : (dirNode []).Proper :=
  .directory _ _ SortedMap.Sorted.nil (fun _ absent => absurd absent List.not_mem_nil)
    fun _ absent => absurd absent List.not_mem_nil

theorem proper_dirNode_insert {name : Str} {child : Node} {children : List (Str × Node)}
    (sorted : SortedMap.Sorted children)
    (named : ∀ child ∈ children, (OsStr.utf8 child.1).IsName)
    (proper : ∀ child ∈ children, child.2.Proper) (plain : (OsStr.utf8 name).IsName)
    (childProper : child.Proper) : (dirNode (SortedMap.insert name child children)).Proper := by
  refine .directory _ _ (sorted.insert name child) ?_ ?_
  · intro entry member
    rcases SortedMap.mem_insert member with rfl | old
    · exact plain
    · exact named entry old
  · intro entry member
    rcases SortedMap.mem_insert member with rfl | old
    · exact childProper
    · exact proper entry old

/-- **An insertion keeps a tree proper.** -/
theorem proper_insertRecursive {names : List Str} (named : ∀ text ∈ names, (OsStr.utf8 text).IsName)
    {newNode tree : Node} (newProper : newNode.Proper) (proper : tree.Proper) :
    (insertRecursive names newNode tree).Proper := by
  induction names generalizing tree with
  | nil => cases tree <;> exact proper
  | cons first rest ih =>
      rw [List.forall_mem_cons] at named
      cases proper with
      | file hash size chunks =>
          rw [insertRecursive_of_file]
          exact .file hash size chunks
      | directory hash children sorted childNamed childProper =>
          cases rest with
          | nil => exact proper_dirNode_insert sorted childNamed childProper named.1 newProper
          | cons second later =>
              rw [insertRecursive_cons_cons]
              refine proper_dirNode_insert sorted childNamed childProper named.1 (ih named.2 ?_)
              cases found : SortedMap.lookup first children with
              | none => exact proper_dirNode_nil
              | some child => exact childProper _ (SortedMap.mem_of_lookup found)

/-- An insertion below a path puts no file at it. -/
theorem findNames_insert_above {names rest : List Str} (below : rest ≠ []) {newNode tree : Node}
    {hash : Hash} {size : Nat} {chunks : List ChunkMeta}
    (after : findNames names (insertRecursive (names ++ rest) newNode tree) =
      some (.file hash size chunks)) : findNames names tree = some (.file hash size chunks) := by
  induction names generalizing tree with
  | nil =>
      cases tree with
      | file => rwa [insertRecursive_of_file] at after
      | directory dirHash children =>
          obtain ⟨first, later, rfl⟩ := List.exists_cons_of_ne_nil below
          cases later <;> exact absurd after (by simp [insertRecursive, dirNode])
  | cons first names ih =>
      cases tree with
      | file => rwa [insertRecursive_of_file] at after
      | directory dirHash children =>
          obtain ⟨second, later, shape⟩ : ∃ second later, names ++ rest = second :: later :=
            List.exists_cons_of_ne_nil fun empty => below (List.append_eq_nil_iff.mp empty).2
          rw [List.cons_append, shape, insertRecursive_cons_cons, findNames_dirNode_insert,
            if_pos rfl, ← shape] at after
          have inside := ih after
          rw [findNames_cons_directory]
          cases found : SortedMap.lookup first children with
          | some child =>
              rw [found, Option.getD_some] at inside
              exact inside
          | none =>
              rw [found, Option.getD_none] at inside
              cases names with
              | nil => exact absurd inside (by simp [dirNode])
              | cons => exact absurd inside (by simp [dirNode, findNames_cons_directory])

/-- An insertion of a file puts none below it. -/
theorem findNames_insert_below {names rest : List Str} (nonempty : names ≠ []) (below : rest ≠ [])
    {hash : Hash} {size : Nat} {chunks : List ChunkMeta} {tree : Node} :
    findNames (names ++ rest) (insertRecursive names (.file hash size chunks) tree) = none := by
  rw [findNames_append]
  by_cases blocked : Blocked names tree
  · rw [findNames_insert_of_blocked blocked]
    rfl
  · rw [findNames_insert_self nonempty blocked, Option.bind_some]
    obtain ⟨first, later, rfl⟩ := List.exists_cons_of_ne_nil below
    rfl

/-- Every file of a tree after an insertion was there before, but the one inserted. -/
theorem findNames_of_insert {names query : List Str} (apart : names ≠ query) {hash hash' : Hash}
    {size size' : Nat} {chunks chunks' : List ChunkMeta} {tree : Node}
    (after : findNames query (insertRecursive names (.file hash size chunks) tree) =
      some (.file hash' size' chunks')) :
    findNames query tree = some (.file hash' size' chunks') := by
  by_cases above : query <+: names
  · obtain ⟨rest, rfl⟩ := above
    exact findNames_insert_above (fun empty => apart (by simp [empty])) after
  · by_cases below : names <+: query
    · obtain ⟨rest, rfl⟩ := below
      cases names with
      | nil => cases tree <;> exact after
      | cons first more =>
          rw [findNames_insert_below (List.cons_ne_nil _ _) fun empty => apart (by simp [empty])]
            at after
          exact absurd after (Option.some_ne_none _).symm
    · rwa [findNames_insert_of_unrelated above below] at after

/-- **What an insertion of a file leaves shown elsewhere.** -/
theorem shows_insert_of_ne {chunkSize : Nat} {names query : List Str} (apart : names ≠ query)
    {hash : Hash} {size : Nat} {chunks : List ChunkMeta} {tree : Node} {content : Option Bytes}
    (missing : names <+: query ∨ query <+: names → content = none)
    (shows : Shows chunkSize tree query content) :
    Shows chunkSize (insertRecursive names (.file hash size chunks) tree) query content := by
  cases content with
  | none =>
      intro hash' size' chunks' after
      exact shows hash' size' chunks' (findNames_of_insert apart after)
  | some data =>
      have above : ¬ query <+: names := fun reaches =>
        absurd (missing (Or.inr reaches)) (Option.some_ne_none data)
      have below : ¬ names <+: query := fun reaches =>
        absurd (missing (Or.inl reaches)) (Option.some_ne_none data)
      rw [Shows, findNames_insert_of_unrelated above below]
      exact shows

/-- **What an insertion shows at its own path**, unless a file stands above it. -/
theorem shows_insert_self {chunkSize : Nat} {names : List Str} (nonempty : names ≠ [])
    {tree : Node} (free : ¬ Blocked names tree) (data : Bytes) :
    Shows chunkSize (insertRecursive names (fileNodeWithChunkSize data chunkSize) tree) names
      (some data) :=
  findNames_insert_self nonempty free _

end Merkle

end P2Sync
