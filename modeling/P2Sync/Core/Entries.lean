import P2Sync.Core.Merkle
import P2Sync.Support.PathMap

/-!
# The entries of a tree

A Merkle tree seen from outside is a path map: files are its leaves, directories its
branches. In that view an insertion opens the way to its path and puts its node there
(`entries_insertRecursive`), and a removal puts nothing at its path
(`entries_removeRecursive`).
-/

set_option autoImplicit false

namespace P2Sync

/-- A node as the end of a path. -/
def Node.entry : Node → PathMap.Entry (Hash × Nat × List ChunkMeta)
  | .file hash size chunks => .leaf (hash, size, chunks)
  | .directory _ _ => .branch

theorem Node.entry_eq_branch_iff {node : Node} :
    node.entry = .branch ↔ ∃ hash children, node = .directory hash children := by
  cases node with
  | file hash size chunks => simp [entry]
  | directory hash children => exact ⟨fun _ => ⟨hash, children, rfl⟩, fun _ => rfl⟩

theorem Node.entry_eq_leaf_iff {node : Node} {hash : Hash} {size : Nat}
    {chunks : List ChunkMeta} :
    node.entry = .leaf (hash, size, chunks) ↔ node = .file hash size chunks := by
  cases node <;> simp [entry]

namespace Merkle

/-- A tree as a map from paths. -/
def entries (tree : Node) : PathMap Str (Hash × Nat × List ChunkMeta) := fun names =>
  (findNames names tree).map Node.entry

@[simp] theorem entries_nil (tree : Node) : entries tree [] = some tree.entry := rfl

@[simp] theorem entries_cons_file (first : Str) (rest : List Str) (hash : Hash) (size : Nat)
    (chunks : List ChunkMeta) : entries (.file hash size chunks) (first :: rest) = none := rfl

theorem entries_cons_directory (first : Str) (rest : List Str) (hash : Hash)
    (children : List (Str × Node)) :
    entries (.directory hash children) (first :: rest) =
      (SortedMap.lookup first children).bind fun child => entries child rest := by
  rw [entries, findNames_cons_directory]
  cases SortedMap.lookup first children <;> rfl

theorem entries_append (above rest : List Str) (tree : Node) :
    entries tree (above ++ rest) = (findNames above tree).bind fun node => entries node rest := by
  rw [entries, findNames_append]
  cases findNames above tree <;> rfl

theorem entries_of_findNames {names : List Str} {tree node : Node}
    (found : findNames names tree = some node) (rest : List Str) :
    entries tree (names ++ rest) = entries node rest := by
  rw [entries_append, found, Option.bind_some]

theorem entries_eq_none_iff {names : List Str} {tree : Node} :
    entries tree names = none ↔ findNames names tree = none :=
  Option.map_eq_none_iff

theorem entries_eq_branch_iff {names : List Str} {tree : Node} :
    entries tree names = some .branch ↔
      ∃ hash children, findNames names tree = some (.directory hash children) := by
  rw [entries, Option.map_eq_some_iff]
  constructor
  · rintro ⟨node, found, branch⟩
    obtain ⟨hash, children, rfl⟩ := Node.entry_eq_branch_iff.mp branch
    exact ⟨hash, children, found⟩
  · rintro ⟨hash, children, found⟩
    exact ⟨_, found, rfl⟩

theorem entries_eq_leaf_iff {names : List Str} {tree : Node} {hash : Hash} {size : Nat}
    {chunks : List ChunkMeta} :
    entries tree names = some (.leaf (hash, size, chunks)) ↔
      findNames names tree = some (.file hash size chunks) := by
  rw [entries, Option.map_eq_some_iff]
  constructor
  · rintro ⟨node, found, leaf⟩
    rwa [Node.entry_eq_leaf_iff.mp leaf] at found
  · exact fun found => ⟨_, found, rfl⟩

/-- A tree is one as a map. -/
theorem treelike_entries (tree : Node) : (entries tree).Treelike := by
  intro above below entry proper stands
  rw [entries_append] at stands
  obtain ⟨node, found, inside⟩ := Option.bind_eq_some_iff.mp stands
  cases node with
  | file hash size chunks =>
      obtain ⟨first, rest, rfl⟩ := List.exists_cons_of_ne_nil proper
      exact absurd inside (Option.some_ne_none entry).symm
  | directory hash children => exact entries_eq_branch_iff.mpr ⟨hash, children, found⟩

section Updates

variable [Blake3]

/-! ## Removals -/

/-- What a removal of one name does. -/
theorem removeRecursive_single (first : Str) (hash : Hash) (children : List (Str × Node)) :
    (removeRecursive [first] (.directory hash children)).2 =
        dirNode (SortedMap.erase first children) ∨
      SortedMap.lookup first children = none ∧
        (removeRecursive [first] (.directory hash children)).2 = .directory hash children := by
  rw [removeRecursive]
  split
  · exact Or.inl rfl
  · rename_i absent
    exact Or.inr ⟨Option.not_isSome_iff_eq_none.mp absent, rfl⟩

/-- What a removal further down does. -/
theorem removeRecursive_cons_cons (first second : Str) (rest : List Str) (hash : Hash)
    (children : List (Str × Node)) :
    (∃ child hash', SortedMap.lookup first children = some child ∧
        (removeRecursive (first :: second :: rest) (.directory hash children)).2 =
          .directory hash'
            (SortedMap.insert first (removeRecursive (second :: rest) child).2 children)) ∨
      SortedMap.lookup first children = none ∧
        (removeRecursive (first :: second :: rest) (.directory hash children)).2 =
          .directory hash children := by
  cases found : SortedMap.lookup first children with
  | none => exact Or.inr ⟨rfl, by simp [removeRecursive, found]⟩
  | some child =>
      left
      cases removed : removeRecursive (second :: rest) child with
      | mk gone child' =>
          cases gone <;> exact ⟨child, _, rfl, by simp only [removeRecursive, found, removed]; rfl⟩

/-- **What a removal does to the children of a directory**: to the first name of its path, and to no
other. -/
theorem exists_removeRecursive_cons (first : Str) (rest : List Str) (hash : Hash)
    (children : List (Str × Node)) :
    ∃ hash' children', (removeRecursive (first :: rest) (.directory hash children)).2 =
        .directory hash' children' ∧
      ∀ query, SortedMap.lookup query children' =
        if query = first then
          if rest = [] then none
          else (SortedMap.lookup first children).map fun child => (removeRecursive rest child).2
        else SortedMap.lookup query children := by
  cases rest with
  | nil =>
      rcases removeRecursive_single first hash children with erased | ⟨absent, kept⟩
      · refine ⟨_, _, erased, fun query => ?_⟩
        rw [SortedMap.lookup_erase, if_pos rfl]
        by_cases here : query = first
        · rw [if_pos here, if_pos here]
        · rw [if_neg here, if_neg here]
      · refine ⟨_, _, kept, fun query => ?_⟩
        split
        · rename_i here
          rw [here, absent, if_pos rfl]
        · rfl
  | cons second later =>
      rcases removeRecursive_cons_cons first second later hash children with
        ⟨child, hash', found, changed⟩ | ⟨absent, kept⟩
      · refine ⟨_, _, changed, fun query => ?_⟩
        rw [SortedMap.lookup_insert, found, if_neg (List.cons_ne_nil _ _), Option.map_some]
        by_cases here : query = first
        · rw [if_pos here, if_pos here]
        · rw [if_neg here, if_neg here]
      · refine ⟨_, _, kept, fun query => ?_⟩
        split
        · rename_i here
          rw [here, absent, if_neg (List.cons_ne_nil _ _)]
          rfl
        · rfl

theorem removeRecursive_file (names : List Str) (hash : Hash) (size : Nat)
    (chunks : List ChunkMeta) :
    (removeRecursive names (.file hash size chunks)).2 = .file hash size chunks := by
  match names with
  | [] => rfl
  | [_] => rfl
  | _ :: _ :: _ => rfl

/-- **A removal puts nothing at its path.** -/
theorem entries_removeRecursive {names : List Str} (nonempty : names ≠ []) (tree : Node) :
    entries (removeRecursive names tree).2 =
      PathMap.replace names (fun _ => none) (entries tree) := by
  funext query
  rw [PathMap.replace]
  induction names generalizing query tree with
  | nil => exact absurd rfl nonempty
  | cons first rest ih =>
      cases tree with
      | file hash size chunks =>
          rw [removeRecursive_file]
          split
          · rename_i reaches
            obtain ⟨more, rfl⟩ := reaches
            rfl
          · rfl
      | directory hash children =>
          obtain ⟨hash', children', after, lookups⟩ :=
            exists_removeRecursive_cons first rest hash children
          rw [after]
          cases query with
          | nil =>
              rw [if_neg (by simp)]
              rfl
          | cons query more =>
              rw [entries_cons_directory, entries_cons_directory, lookups]
              simp only [List.cons_prefix_cons]
              by_cases here : query = first
              · subst here
                cases rest with
                | nil => simp
                | cons second later =>
                    rw [if_pos rfl, if_neg (List.cons_ne_nil _ _)]
                    cases SortedMap.lookup query children with
                    | none => simp
                    | some child => simpa using ih (List.cons_ne_nil _ _) child more
              · rw [if_neg here, if_neg fun reaches => here reaches.1.symm]

/-- When a removal finds something to take away. -/
theorem removeRecursive_fst {names : List Str} (nonempty : names ≠ []) (tree : Node) :
    (removeRecursive names tree).1 = (findNames names tree).isSome := by
  induction names generalizing tree with
  | nil => exact absurd rfl nonempty
  | cons first rest ih =>
      cases tree with
      | file hash size chunks => cases rest <;> rfl
      | directory hash children =>
          rw [findNames_cons_directory]
          cases rest with
          | nil =>
              rw [removeRecursive]
              cases SortedMap.lookup first children <;> rfl
          | cons second later =>
              cases found : SortedMap.lookup first children with
              | none => simp [removeRecursive, found]
              | some child =>
                  rw [Option.bind_some, ← ih (List.cons_ne_nil _ _)]
                  simp only [removeRecursive, found]

/-! ## Insertions -/

omit [Blake3] in
/-- A file on the way to a path blocks it. -/
theorem Blocked.of_file {first : Str} {rest : List Str} {hash : Hash} {size : Nat}
    {chunks : List ChunkMeta} : Blocked (first :: rest) (.file hash size chunks) :=
  ⟨[], first :: rest, hash, size, chunks, rfl, List.cons_ne_nil _ _, rfl⟩

/-- **An insertion opens the way to its path** and puts its node there. -/
theorem entries_insertRecursive {names : List Str} (nonempty : names ≠ []) {tree : Node}
    (free : ¬ Blocked names tree) (newNode : Node) :
    entries (insertRecursive names newNode tree) =
      PathMap.replace names (entries newNode) (PathMap.openTo names (entries tree)) := by
  funext query
  rw [PathMap.replace]
  split
  · rename_i reaches
    obtain ⟨rest, rfl⟩ := reaches
    rw [entries_of_findNames (findNames_insert_self nonempty free newNode), List.drop_left]
  · rename_i notBelow
    rw [PathMap.openTo]
    split
    · rename_i above
      obtain ⟨⟨rest, rfl⟩, proper⟩ := above
      clear notBelow nonempty
      induction query generalizing tree with
      | nil =>
          obtain ⟨first, later, rfl⟩ := List.exists_cons_of_ne_nil
            (fun empty => proper (by simp [empty]) : rest ≠ [])
          cases tree with
          | file => exact absurd Blocked.of_file free
          | directory => cases later <;> rfl
      | cons first query ih =>
          have below : rest ≠ [] := fun empty => proper (by simp [empty])
          obtain ⟨second, later, shape⟩ : ∃ second later, query ++ rest = second :: later :=
            List.exists_cons_of_ne_nil fun empty => below (List.append_eq_nil_iff.mp empty).2
          cases tree with
          | file => exact absurd Blocked.of_file free
          | directory hash children =>
              rw [List.cons_append, shape] at free ⊢
              rw [insertRecursive_cons_cons, dirNode, entries_cons_directory,
                SortedMap.lookup_insert_self, Option.bind_some, ← shape]
              refine ih ?_ fun same => proper (congrArg (first :: ·) same)
              rw [shape]
              exact not_blocked_child free
    · rename_i notAbove
      have apart : ¬ query <+: names := fun reaches =>
        notAbove ⟨reaches, fun same => notBelow (same ▸ List.prefix_rfl)⟩
      rw [entries, findNames_insert_of_unrelated apart notBelow, entries]

end Updates

end Merkle

end P2Sync
