import P2Sync.Core.Index
import P2Sync.Core.Mirror
import P2Sync.Core.Entries

/-!
# The files of a tree

`filePaths` lists the paths of the file nodes of a tree, and `HasFile` asks for one of them
by lookup. In a tree with names in order these are the same, and each path is listed once
(`mem_filePaths_iff`, `nodup_filePaths`).

A removal takes away everything at and below its path (`hasFile_removeRecursive`). An
insertion of a file takes away everything below its path and puts the file there, but does
nothing when a file stands above (`hasFile_insertRecursive`).
-/

set_option autoImplicit false

namespace P2Sync

namespace Node

def isFile : Node → Bool
  | .file _ _ _ => true
  | .directory _ _ => false

theorem isFile_iff {node : Node} :
    node.isFile = true ↔ ∃ hash size chunks, node = .file hash size chunks := by
  cases node with
  | file hash size chunks => exact ⟨fun _ => ⟨hash, size, chunks, rfl⟩, fun _ => rfl⟩
  | directory hash children => simp [isFile]

/-- A tree with names in order. -/
inductive Ordered : Node → Prop where
  | file (hash : Hash) (size : Nat) (chunks : List ChunkMeta) : Ordered (.file hash size chunks)
  | directory (hash : Hash) (children : List (Str × Node)) (sorted : SortedMap.Sorted children)
      (ordered : ∀ child ∈ children, Ordered child.2) : Ordered (.directory hash children)

end Node

namespace Merkle

mutual

/-- The paths of the file nodes of a tree. -/
def filePaths : Node → List (List Str)
  | .file _ _ _ => [[]]
  | .directory _ children => filePathsIn children

/-- The paths of the file nodes below the children of a directory. -/
def filePathsIn : List (Str × Node) → List (List Str)
  | [] => []
  | (name, child) :: rest => (filePaths child).map (name :: ·) ++ filePathsIn rest

end

/-- A file node is found at a path. -/
def HasFile (names : List Str) (tree : Node) : Prop :=
  (findNames names tree).any Node.isFile = true

instance decidableHasFile (names : List Str) (tree : Node) : Decidable (HasFile names tree) :=
  inferInstanceAs (Decidable (_ = _))

theorem hasFile_iff {names : List Str} {tree : Node} :
    HasFile names tree ↔
      ∃ hash size chunks, findNames names tree = some (.file hash size chunks) := by
  rw [HasFile, Option.any_eq_true]
  constructor
  · rintro ⟨node, found, file⟩
    obtain ⟨hash, size, chunks, rfl⟩ := Node.isFile_iff.mp file
    exact ⟨hash, size, chunks, found⟩
  · rintro ⟨hash, size, chunks, found⟩
    exact ⟨_, found, rfl⟩

/-- A path leads to a place above another. -/
def IsAbove {α : Type} (above path : List α) : Prop := above <+: path ∧ above ≠ path

theorem hasFile_cons_file (first : Str) (rest : List Str) (hash : Hash) (size : Nat)
    (chunks : List ChunkMeta) : ¬ HasFile (first :: rest) (.file hash size chunks) :=
  Bool.false_ne_true

theorem hasFile_nil_directory (hash : Hash) (children : List (Str × Node)) :
    ¬ HasFile [] (.directory hash children) :=
  Bool.false_ne_true

theorem hasFile_cons_directory {first : Str} {rest : List Str} {hash : Hash}
    {children : List (Str × Node)} :
    HasFile (first :: rest) (.directory hash children) ↔
      ∃ child, SortedMap.lookup first children = some child ∧ HasFile rest child := by
  rw [HasFile, findNames_cons_directory]
  cases SortedMap.lookup first children with
  | none => simp
  | some child => simp [HasFile]

/-! ## The listing -/

theorem mem_filePathsIn {children : List (Str × Node)} {names : List Str} :
    names ∈ filePathsIn children ↔
      ∃ child ∈ children, ∃ rest ∈ filePaths child.2, names = child.1 :: rest := by
  induction children with
  | nil => simp [filePathsIn]
  | cons child children ih =>
      obtain ⟨name, node⟩ := child
      rw [filePathsIn, List.mem_append, ih, List.mem_map, List.exists_mem_cons_iff]
      exact or_congr (exists_congr fun rest => and_congr_right fun _ => eq_comm) Iff.rfl

/-- **The listed paths are those at which a file is found.** -/
theorem mem_filePaths_iff {tree : Node} (ordered : tree.Ordered) {names : List Str} :
    names ∈ filePaths tree ↔ HasFile names tree := by
  induction ordered generalizing names with
  | file hash size chunks =>
      rw [filePaths, List.mem_singleton]
      cases names with
      | nil => exact ⟨fun _ => rfl, fun _ => rfl⟩
      | cons first rest =>
          exact ⟨fun same => absurd same (List.cons_ne_nil _ _),
            fun there => absurd there (hasFile_cons_file _ _ _ _ _)⟩
  | directory hash children sorted ordered ih =>
      rw [filePaths, mem_filePathsIn]
      constructor
      · rintro ⟨⟨first, child⟩, member, rest, listed, rfl⟩
        exact hasFile_cons_directory.mpr
          ⟨child, sorted.lookup_of_mem member, (ih _ member).mp listed⟩
      · intro there
        cases names with
        | nil => exact absurd there (hasFile_nil_directory _ _)
        | cons first rest =>
            obtain ⟨child, found, below⟩ := hasFile_cons_directory.mp there
            have member := SortedMap.mem_of_lookup found
            exact ⟨(first, child), member, rest, (ih _ member).mpr below, rfl⟩

/-- Each path is listed once. -/
theorem nodup_filePaths {tree : Node} (ordered : tree.Ordered) : (filePaths tree).Nodup := by
  induction ordered with
  | file hash size chunks => exact List.nodup_singleton _
  | directory hash children sorted ordered ih =>
      rw [filePaths]
      clear ordered
      induction children with
      | nil => exact List.nodup_nil
      | cons child children inner =>
          obtain ⟨name, node⟩ := child
          obtain ⟨above, sorted⟩ := List.pairwise_cons.mp sorted
          rw [filePathsIn, List.nodup_append]
          refine ⟨(ih _ List.mem_cons_self).map fun _ _ same => List.tail_eq_of_cons_eq same,
            inner sorted fun child member => ih child (List.mem_cons_of_mem _ member), ?_⟩
          rintro _ here other later rfl
          obtain ⟨rest, _, rfl⟩ := List.mem_map.mp here
          obtain ⟨child, member, below, _, same⟩ := mem_filePathsIn.mp later
          have less := above child member
          rw [← (List.cons.inj same).1] at less
          exact absurd less (lt_irrefl _)

/-! ## Removals -/

section Updates

variable [Blake3]

/-- **A removal takes away what is at its path and below.** -/
theorem hasFile_removeRecursive {names query : List Str} (nonempty : names ≠ []) {tree : Node} :
    HasFile query (removeRecursive names tree).2 ↔ ¬ names <+: query ∧ HasFile query tree := by
  simp only [hasFile_iff, ← entries_eq_leaf_iff, entries_removeRecursive nonempty]
  by_cases reaches : names <+: query
  · obtain ⟨rest, rfl⟩ := reaches
    simp [PathMap.replace_append]
  · simp only [PathMap.replace_of_not_prefix reaches, reaches, not_false_eq_true, true_and]

/-! ## Insertions -/

omit [Blake3] in
theorem hasFile_cons_insert {first query : Str} {rest : List Str} {child : Node} {hash : Hash}
    {children : List (Str × Node)} :
    HasFile (query :: rest) (.directory hash (SortedMap.insert first child children)) ↔
      if query = first then HasFile rest child
      else HasFile (query :: rest) (.directory hash children) := by
  rw [hasFile_cons_directory, SortedMap.lookup_insert]
  split
  · simp
  · exact hasFile_cons_directory.symm

omit [Blake3] in
theorem blocked_iff {names : List Str} {tree : Node} :
    Blocked names tree ↔
      ∃ above below, names = above ++ below ∧ below ≠ [] ∧ HasFile above tree := by
  simp only [hasFile_iff]
  constructor
  · rintro ⟨above, below, hash, size, chunks, split, proper, found⟩
    exact ⟨above, below, split, proper, hash, size, chunks, found⟩
  · rintro ⟨above, below, split, proper, hash, size, chunks, found⟩
    exact ⟨above, below, hash, size, chunks, split, proper, found⟩

/-- An insertion below a file leaves the file. -/
theorem hasFile_insert_above {names rest : List Str} (below : rest ≠ []) {newNode tree : Node}
    (there : HasFile names tree) :
    HasFile names (insertRecursive (names ++ rest) newNode tree) := by
  induction names generalizing tree with
  | nil =>
      cases tree with
      | file => rwa [insertRecursive_of_file]
      | directory hash children => exact absurd there (hasFile_nil_directory _ _)
  | cons first names ih =>
      cases tree with
      | file => exact absurd there (hasFile_cons_file _ _ _ _ _)
      | directory hash children =>
          obtain ⟨child, found, there⟩ := hasFile_cons_directory.mp there
          obtain ⟨second, later, shape⟩ : ∃ second later, names ++ rest = second :: later :=
            List.exists_cons_of_ne_nil fun empty => below (List.append_eq_nil_iff.mp empty).2
          rw [List.cons_append, shape, insertRecursive_cons_cons, dirNode, hasFile_cons_insert,
            if_pos rfl, found, Option.getD_some, ← shape]
          exact ih there

omit [Blake3] in
/-- There is nothing below a file. -/
theorem not_hasFile_of_blocked {names more : List Str} {tree : Node}
    (blocked : Blocked names tree) : ¬ HasFile (names ++ more) tree := by
  obtain ⟨above, below, hash, size, chunks, rfl, proper, found⟩ := blocked
  obtain ⟨first, rest, rfl⟩ := List.exists_cons_of_ne_nil proper
  rw [HasFile, List.append_assoc, findNames_append, found]
  exact Bool.false_ne_true

/-- **An insertion of a file does nothing below another file**, and otherwise takes away what is
below its path. -/
theorem hasFile_insertRecursive {names query : List Str} {hash : Hash} {size : Nat}
    {chunks : List ChunkMeta} {tree : Node} (nonempty : names ≠ []) :
    HasFile query (insertRecursive names (.file hash size chunks) tree) ↔
      (query = names ∧ ¬ Blocked names tree) ∨
        HasFile query tree ∧ (Blocked names tree ∨ ¬ names <+: query) := by
  by_cases same : query = names
  · subst same
    by_cases blocked : Blocked query tree
    · have absent : ¬ HasFile query tree := by
        simpa using @not_hasFile_of_blocked query [] tree blocked
      have none : ¬ HasFile query (insertRecursive query (.file hash size chunks) tree) := by
        rw [HasFile, findNames_insert_of_blocked blocked]
        exact Bool.false_ne_true
      simp [blocked, absent, none]
    · simp [blocked, hasFile_iff, findNames_insert_self nonempty blocked]
  · rw [or_iff_right fun here => same here.1]
    constructor
    · intro there
      obtain ⟨hash', size', chunks', found⟩ := hasFile_iff.mp there
      refine ⟨hasFile_iff.mpr ⟨hash', size', chunks', findNames_of_insert (Ne.symm same) found⟩, ?_⟩
      refine or_iff_not_imp_right.mpr fun below => ?_
      obtain ⟨rest, rfl⟩ := not_not.mp below
      rw [findNames_insert_below nonempty fun empty => same (by simp [empty])] at found
      exact absurd found (Option.some_ne_none _).symm
    · rintro ⟨there, kept⟩
      by_cases above : query <+: names
      · obtain ⟨rest, rfl⟩ := above
        exact hasFile_insert_above (fun empty => same (by simp [empty])) there
      · by_cases below : names <+: query
        · obtain ⟨rest, rfl⟩ := below
          rcases kept with blocked | apart
          · exact absurd there (not_hasFile_of_blocked blocked)
          · exact absurd (List.prefix_append names rest) apart
        · rwa [HasFile, findNames_insert_of_unrelated above below]

/-! ## Updates of one path -/

/-- An insertion does not make the root a file. -/
theorem not_hasFile_nil_insert {names : List Str} {newNode tree : Node}
    (directory : ¬ HasFile [] tree) : ¬ HasFile [] (insertRecursive names newNode tree) := by
  cases tree with
  | file => exact absurd rfl directory
  | directory hash children =>
      rcases names with _ | ⟨first, _ | ⟨second, later⟩⟩ <;> exact hasFile_nil_directory _ _

/-- Nor does a removal. -/
theorem not_hasFile_nil_remove {names : List Str} {tree : Node} (directory : ¬ HasFile [] tree) :
    ¬ HasFile [] (removeRecursive names tree).2 := by
  by_cases root : names = []
  · have same : (removeRecursive names tree).2 = tree := by
      rw [root]
      cases tree <;> rfl
    rwa [same]
  · rw [hasFile_removeRecursive root]
    exact fun there => directory there.2

/-- A file is found further down than a path. -/
def HasBelow (names : List Str) (tree : Node) : Prop :=
  ∃ query, query ≠ names ∧ names <+: query ∧ HasFile query tree

/-- **When an insertion adds its path and takes none away**: when no file is above or below. -/
theorem insert_adds_iff {names : List Str} {hash : Hash} {size : Nat} {chunks : List ChunkMeta}
    {tree : Node} (directory : ¬ HasFile [] tree) :
    (∀ query, HasFile query (insertRecursive names (.file hash size chunks) tree) ↔
        query = names ∨ HasFile query tree) ↔
      names ≠ [] ∧ ¬ Blocked names tree ∧ ¬ HasBelow names tree := by
  by_cases root : names = []
  · subst root
    refine iff_of_false (fun adds => ?_) fun alone => alone.1 rfl
    exact not_hasFile_nil_insert directory ((adds []).mpr (Or.inl rfl))
  · simp only [hasFile_insertRecursive root]
    constructor
    · intro adds
      have free : ¬ Blocked names tree := by
        intro blocked
        rcases (adds names).mpr (Or.inl rfl) with ⟨_, free⟩ | ⟨there, _⟩
        · exact free blocked
        · exact not_hasFile_of_blocked blocked (by rwa [List.append_nil])
      refine ⟨root, free, ?_⟩
      rintro ⟨query, apart, below, there⟩
      rcases (adds query).mpr (Or.inr there) with ⟨same, _⟩ | ⟨_, blocked | notBelow⟩
      · exact apart same
      · exact free blocked
      · exact notBelow below
    · rintro ⟨_, free, alone⟩ query
      constructor
      · rintro (⟨same, _⟩ | ⟨there, _⟩)
        · exact Or.inl same
        · exact Or.inr there
      · rintro (same | there)
        · exact Or.inl ⟨same, free⟩
        · by_cases same : query = names
          · exact Or.inl ⟨same, free⟩
          · exact Or.inr ⟨there, Or.inr fun below => alone ⟨query, same, below, there⟩⟩

/-- **When a removal takes away its path only**: when no file is below. -/
theorem remove_drops_iff {names : List Str} {tree : Node} (directory : ¬ HasFile [] tree) :
    (∀ query, HasFile query (removeRecursive names tree).2 ↔
        query ≠ names ∧ HasFile query tree) ↔ names = [] ∨ ¬ HasBelow names tree := by
  by_cases root : names = []
  · subst root
    refine iff_of_true (fun query => ?_) (Or.inl rfl)
    have same : (removeRecursive [] tree).2 = tree := by cases tree <;> rfl
    rw [same]
    refine ⟨fun there => ⟨?_, there⟩, And.right⟩
    rintro rfl
    exact directory there
  · simp only [hasFile_removeRecursive root, or_iff_right root]
    constructor
    · rintro drops ⟨query, apart, below, there⟩
      exact ((drops query).mpr ⟨apart, there⟩).1 below
    · intro alone query
      refine and_congr_left fun there => ⟨?_, fun apart below => alone ⟨query, apart, below, there⟩⟩
      rintro notBelow rfl
      exact notBelow List.prefix_rfl

/-! ## The file nodes -/

omit [Blake3] in
/-- The file node at a path. -/
def fileAt (names : List Str) (tree : Node) : Option Node :=
  (findNames names tree).filter Node.isFile

omit [Blake3] in
theorem fileAt_eq_some_iff {names : List Str} {tree node : Node} :
    fileAt names tree = some node ↔ findNames names tree = some node ∧ node.isFile = true :=
  Option.filter_eq_some_iff

omit [Blake3] in
theorem hasFile_of_fileAt {names : List Str} {tree node : Node}
    (found : fileAt names tree = some node) : HasFile names tree := by
  rw [HasFile, (fileAt_eq_some_iff.mp found).1]
  exact (fileAt_eq_some_iff.mp found).2

omit [Blake3] in
theorem fileAt_of_hasFile {names : List Str} {tree : Node} (there : HasFile names tree) :
    ∃ node, fileAt names tree = some node := by
  obtain ⟨node, found, file⟩ := (Option.any_eq_true _ _).mp there
  exact ⟨node, fileAt_eq_some_iff.mpr ⟨found, file⟩⟩

/-- **An insertion of a file changes the file node at its path**, and no other when there is
none above or below. -/
theorem fileAt_insertRecursive {names : List Str} (nonempty : names ≠ []) {hash : Hash}
    {size : Nat} {chunks : List ChunkMeta} {tree : Node}
    (alone : ∀ other node, fileAt other tree = some node →
      ¬ IsAbove other names ∧ ¬ IsAbove names other) (query : List Str) :
    fileAt query (insertRecursive names (.file hash size chunks) tree) =
      if query = names then some (.file hash size chunks) else fileAt query tree := by
  split
  · rename_i same
    subst same
    refine fileAt_eq_some_iff.mpr ⟨findNames_insert_self nonempty (fun blocked => ?_) _, rfl⟩
    obtain ⟨above, below, split, proper, there⟩ := blocked_iff.mp blocked
    obtain ⟨node, found⟩ := fileAt_of_hasFile there
    exact (alone above node found).1
      ⟨⟨below, split.symm⟩, fun same => proper (by simpa [same] using split)⟩
  · rename_i apart
    by_cases related : query <+: names ∨ names <+: query
    · have missing : fileAt query tree = none := by
        rw [Option.eq_none_iff_forall_ne_some]
        intro node found
        rcases related with reaches | reaches
        · exact (alone query node found).1 ⟨reaches, apart⟩
        · exact (alone query node found).2 ⟨reaches, Ne.symm apart⟩
      rw [missing, Option.eq_none_iff_forall_ne_some]
      intro node found
      obtain ⟨there, file⟩ := fileAt_eq_some_iff.mp found
      obtain ⟨hash', size', chunks', rfl⟩ := Node.isFile_iff.mp file
      have before := fileAt_eq_some_iff.mpr ⟨findNames_of_insert (Ne.symm apart) there, rfl⟩
      exact absurd (missing.symm.trans before) (Option.some_ne_none _).symm
    · rw [not_or] at related
      rw [fileAt, findNames_insert_of_unrelated related.1 related.2, fileAt]

/-- What a removal leaves was there before. -/
theorem fileAt_of_remove {names query : List Str} {tree node : Node}
    (found : fileAt query (removeRecursive names tree).2 = some node) :
    fileAt query tree = some node := by
  induction names generalizing query tree with
  | nil => cases tree <;> exact found
  | cons first rest ih =>
      cases tree with
      | file hash size chunks => rwa [removeRecursive_file] at found
      | directory hash children =>
          cases query with
          | nil =>
              have file := (fileAt_eq_some_iff.mp found).2
              have there := (fileAt_eq_some_iff.mp found).1
              obtain rfl := Option.some.inj there
              exact absurd file (not_hasFile_nil_remove (hasFile_nil_directory hash children))
          | cons query more =>
              obtain ⟨hash', children', after, lookups⟩ :=
                exists_removeRecursive_cons first rest hash children
              rw [after, fileAt, findNames_cons_directory, lookups] at found
              rw [fileAt, findNames_cons_directory]
              by_cases same : query = first
              · subst same
                rw [if_pos rfl] at found
                by_cases last : rest = []
                · rw [if_pos last] at found
                  exact absurd found (by simp)
                · rw [if_neg last] at found
                  cases there : SortedMap.lookup query children with
                  | none =>
                      rw [there] at found
                      exact found
                  | some child =>
                      rw [there] at found
                      exact ih found
              · rwa [if_neg same] at found

/-- **A removal takes away the file node at its path**, and no other when there is none
below. -/
theorem fileAt_removeRecursive {names : List Str} (nonempty : names ≠ []) {tree : Node}
    (alone : ∀ below node, fileAt below tree = some node → ¬ IsAbove names below)
    (query : List Str) :
    fileAt query (removeRecursive names tree).2 =
      if query = names then none else fileAt query tree := by
  split
  · rename_i same
    subst same
    rw [Option.eq_none_iff_forall_ne_some]
    intro node found
    exact ((hasFile_removeRecursive nonempty).mp (hasFile_of_fileAt found)).1 List.prefix_rfl
  · rename_i apart
    cases before : fileAt query tree with
    | none =>
        rw [Option.eq_none_iff_forall_ne_some]
        intro node found
        exact absurd (before.symm.trans (fileAt_of_remove found)) (Option.some_ne_none _).symm
    | some node =>
        have notBelow : ¬ names <+: query := fun reaches =>
          alone query node before ⟨reaches, Ne.symm apart⟩
        obtain ⟨node', found⟩ := fileAt_of_hasFile
          ((hasFile_removeRecursive nonempty).mpr ⟨notBelow, hasFile_of_fileAt before⟩)
        rw [found, ← before, fileAt_of_remove found]

/-! ## Order -/

omit [Blake3] in
theorem ordered_insert {name : Str} {child : Node} {hash : Hash}
    {children : List (Str × Node)} (sorted : SortedMap.Sorted children)
    (ordered : ∀ child ∈ children, child.2.Ordered) (childOrdered : child.Ordered) :
    (Node.directory hash (SortedMap.insert name child children)).Ordered := by
  refine .directory _ _ (sorted.insert name child) fun entry member => ?_
  rcases SortedMap.mem_insert member with rfl | old
  · exact childOrdered
  · exact ordered entry old

theorem ordered_insertRecursive {names : List Str} {newNode tree : Node}
    (newOrdered : newNode.Ordered) (ordered : tree.Ordered) :
    (insertRecursive names newNode tree).Ordered := by
  induction names generalizing tree with
  | nil => cases tree <;> exact ordered
  | cons first rest ih =>
      cases ordered with
      | file hash size chunks =>
          rw [insertRecursive_of_file]
          exact .file hash size chunks
      | directory hash children sorted childOrdered =>
          cases rest with
          | nil => exact ordered_insert sorted childOrdered newOrdered
          | cons second later =>
              rw [insertRecursive_cons_cons]
              refine ordered_insert sorted childOrdered (ih ?_)
              cases found : SortedMap.lookup first children with
              | none => exact .directory _ _ .nil fun _ absent => absurd absent List.not_mem_nil
              | some child => exact childOrdered _ (SortedMap.mem_of_lookup found)

theorem ordered_removeRecursive {names : List Str} {tree : Node} (ordered : tree.Ordered) :
    (removeRecursive names tree).2.Ordered := by
  induction names generalizing tree with
  | nil => cases tree <;> exact ordered
  | cons first rest ih =>
      cases ordered with
      | file hash size chunks => cases rest <;> exact .file hash size chunks
      | directory hash children sorted childOrdered =>
          cases rest with
          | nil =>
              rcases removeRecursive_single first hash children with erased | ⟨_, same⟩
              · rw [erased]
                exact .directory _ _ (sorted.erase first) fun entry member =>
                  childOrdered entry (SortedMap.mem_erase member)
              · rw [same]
                exact .directory _ _ sorted childOrdered
          | cons second later =>
              rcases removeRecursive_cons_cons first second later hash children with
                ⟨child, hash', found, changed⟩ | ⟨_, same⟩
              · rw [changed]
                exact ordered_insert sorted childOrdered
                  (ih (childOrdered _ (SortedMap.mem_of_lookup found)))
              · rw [same]
                exact .directory _ _ sorted childOrdered

mutual

/-- A scan lists names in order. -/
theorem ordered_fromPathConfigured {exclude : RelPath → Bool} {chunkSize : Nat} {path : RelPath}
    {tree : Node} : ∀ {disk : Disk},
      fromPathConfigured exclude chunkSize path disk = some tree → tree.Ordered
  | .file data, scanned => by
      rw [fromPathConfigured] at scanned
      cases scanned
      exact .file _ _ _
  | .dir entries, scanned => by
      rw [fromPathConfigured] at scanned
      obtain ⟨children, inside, rfl⟩ := Option.map_eq_some_iff.mp scanned
      obtain ⟨sorted, ordered⟩ := ordered_fromEntries inside .nil
        fun _ absent => absurd absent List.not_mem_nil
      exact .directory _ _ sorted ordered

theorem ordered_fromEntries {exclude : RelPath → Bool} {chunkSize : Nat} {path : RelPath}
    {result : List (Str × Node)} :
    ∀ {entries : List (OsStr × Disk)} {children : List (Str × Node)},
      fromEntries exclude chunkSize path entries children = some result →
        SortedMap.Sorted children → (∀ child ∈ children, child.2.Ordered) →
          SortedMap.Sorted result ∧ ∀ child ∈ result, child.2.Ordered
  | [], _, finished, sorted, ordered => by
      rw [fromEntries] at finished
      cases finished
      exact ⟨sorted, ordered⟩
  | (name, child) :: rest, children, going, sorted, ordered => by
      rcases fromEntries_cons_cases going with ⟨_, later⟩ | ⟨text, node, _, _, inside, later⟩
      · exact ordered_fromEntries later sorted ordered
      · have node := ordered_fromPathConfigured inside
        refine ordered_fromEntries later (sorted.insert text _) fun entry member => ?_
        rcases SortedMap.mem_insert member with rfl | old
        · exact node
        · exact ordered entry old

end

end Updates

/-! ## The clocks of a new index -/

mutual

theorem mem_collectFileMeta {localPeer : PeerId} {now : Nat} {path query : RelPath}
    {out : HashMap RelPath FileMeta} : ∀ {node : Node},
      query ∈ collectFileMeta node path localPeer now out ↔
        (∃ names ∈ filePaths node, query = path ++ names.map OsStr.utf8) ∨ query ∈ out
  | .file _ _ _ => by
      rw [collectFileMeta, Finmap.mem_insert]
      simp [filePaths]
  | .directory _ children => by
      rw [collectFileMeta, filePaths]
      exact mem_collectChildren

theorem mem_collectChildren {localPeer : PeerId} {now : Nat} {path query : RelPath}
    {out : HashMap RelPath FileMeta} : ∀ {children : List (Str × Node)},
      query ∈ collectChildren children path localPeer now out ↔
        (∃ names ∈ filePathsIn children, query = path ++ names.map OsStr.utf8) ∨ query ∈ out
  | [] => by
      rw [collectChildren]
      simp [filePathsIn]
  | (name, child) :: rest => by
      rw [collectChildren, mem_collectChildren, mem_collectFileMeta, ← or_assoc]
      refine or_congr_left ?_
      simp only [filePathsIn, List.mem_append, List.mem_map, or_and_right, exists_or]
      rw [or_comm]
      refine or_congr_left ⟨?_, ?_⟩
      · rintro ⟨names, listed, rfl⟩
        exact ⟨name :: names, ⟨names, listed, rfl⟩, by simp⟩
      · rintro ⟨_, ⟨names, listed, rfl⟩, rfl⟩
        exact ⟨names, listed, by simp⟩

end

end Merkle

end P2Sync
