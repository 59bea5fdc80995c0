import P2Sync.Core.Mirror
import P2Sync.Core.Refine

/-!
# What a difference says

`Change` is the meaning of `diff_recursive`: at which names two trees part, and how. The
differences of two trees, kept with their names apart, are exactly the changes
(`mem_differences_iff`), each at a place of its own. Where no change reaches, the two trees
have the same entries (`entries_eq_of_uncovered`).

`diff` joins the names to a path string, and whoever applies an entry takes the string apart
again into components. That leads back to the names when each of them is one component
(`JoinsNames`); then applying the entries to the old tree, in any order, gives the new one
(`diff_exact`). A name with a slash in it is taken apart into several
(`not_differs_exactly`).
-/

set_option autoImplicit false

namespace P2Sync

theorem Node.Proper.ordered {tree : Node} (proper : tree.Proper) : tree.Ordered := by
  induction proper with
  | file hash size chunks => exact .file hash size chunks
  | directory hash children sorted _ _ ih => exact .directory hash children sorted ih

namespace Merkle

/-! ## Entries of a difference -/

namespace DiffEntry

/-- The path of an entry. -/
def path : DiffEntry → Str
  | .added path _ => path
  | .removed path _ => path
  | .modified path _ _ => path

/-- What an entry says of two trees, at the components of its path. -/
def Describes (old new : Node) : DiffEntry → Prop
  | .added path node =>
      findNames (normalTexts path) old = none ∧ findNames (normalTexts path) new = some node
  | .removed path node =>
      findNames (normalTexts path) old = some node ∧ findNames (normalTexts path) new = none
  | .modified path node node' =>
      findNames (normalTexts path) old = some node ∧
        findNames (normalTexts path) new = some node' ∧ node ≠ node' ∧
          (node.isFile = true ∨ node'.isFile = true)

/-- An entry applied to a tree, at the components of its path. -/
def applyTo [Blake3] (tree : Node) : DiffEntry → Node
  | .added path node => insertNode tree ((normalTexts path).map OsStr.utf8) node
  | .removed path _ => (removePath tree ((normalTexts path).map OsStr.utf8)).2
  | .modified path _ new => insertNode tree ((normalTexts path).map OsStr.utf8) new

end DiffEntry

/-! ## Differences with their names apart -/

/-- One difference between two trees, at the names that lead to it. -/
inductive Difference where
  | added (path : List Str) (node : Node)
  | removed (path : List Str) (node : Node)
  | modified (path : List Str) (old new : Node)

namespace Difference

/-- The names that lead to a difference. -/
def path : Difference → List Str
  | .added path _ => path
  | .removed path _ => path
  | .modified path _ _ => path

/-- A difference further down. -/
def under (above : List Str) : Difference → Difference
  | .added path node => .added (above ++ path) node
  | .removed path node => .removed (above ++ path) node
  | .modified path old new => .modified (above ++ path) old new

/-- The entry of a difference: its names joined. -/
def toEntry : Difference → DiffEntry
  | .added path node => .added (diffPath path) node
  | .removed path node => .removed (diffPath path) node
  | .modified path old new => .modified (diffPath path) old new

@[simp] theorem path_under (above : List Str) (change : Difference) :
    (change.under above).path = above ++ change.path := by
  cases change <;> rfl

@[simp] theorem path_toEntry (change : Difference) :
    change.toEntry.path = diffPath change.path := by
  cases change <;> rfl

theorem under_under (first second : List Str) (change : Difference) :
    (change.under second).under first = change.under (first ++ second) := by
  cases change <;> simp only [under, List.append_assoc]

theorem under_nil (change : Difference) : change.under [] = change := by
  cases change <;> rfl

/-- What a difference says of two trees. -/
def Describes (old new : Node) : Difference → Prop
  | .added path node => findNames path old = none ∧ findNames path new = some node
  | .removed path node => findNames path old = some node ∧ findNames path new = none
  | .modified path node node' => findNames path old = some node ∧ findNames path new = some node' ∧
      node ≠ node' ∧ (node.isFile = true ∨ node'.isFile = true)

/-- A difference applied to a tree. -/
def applyTo [Blake3] (tree : Node) : Difference → Node
  | .added path node => insertRecursive path node tree
  | .removed path _ => (removeRecursive path tree).2
  | .modified path _ new => insertRecursive path new tree

/-- Every name on the way is one component of a path. -/
def Named (change : Difference) : Prop := ∀ name ∈ change.path, (OsStr.utf8 name).IsName

/-- **An entry says what its difference says**, when its path leads back to the names. -/
theorem describes_toEntry {old new : Node} {change : Difference} (named : change.Named) :
    change.toEntry.Describes old new ↔ change.Describes old new := by
  have back : normalTexts (diffPath change.path) = change.path := normalTexts_diffPath named
  cases change <;> rw [path] at back <;> rw [toEntry, DiffEntry.Describes, back] <;> rfl

/-- **An entry does what its difference does**, when its path leads back to the names. -/
theorem applyTo_toEntry [Blake3] {tree : Node} {change : Difference} (named : change.Named) :
    change.toEntry.applyTo tree = change.applyTo tree := by
  have back : normalTexts (diffPath change.path) = change.path := normalTexts_diffPath named
  cases change <;> rw [path] at back <;>
    simp only [toEntry, DiffEntry.applyTo, back, insertNode, removePath, pathNames_map_utf8,
      applyTo]

end Difference

open Difference (under under_under path_under applyTo)

mutual

/-- The differences of two nodes. -/
def differences (old : Node) : Node → List Difference
  | .file hash size chunks =>
      if old.hash = hash then [] else [.modified [] old (.file hash size chunks)]
  | .directory hash children =>
      if old.hash = hash then []
      else match old with
        | .file _ _ _ => [.modified [] old (.directory hash children)]
        | .directory _ oldChildren =>
            childDifferences oldChildren children ++
              (oldChildren.filter fun child =>
                (SortedMap.lookup child.1 children).isNone).map fun child =>
                  .removed [child.1] child.2

/-- The differences at and below a list of new children. -/
def childDifferences (oldChildren : List (Str × Node)) : List (Str × Node) → List Difference
  | [] => []
  | (name, newNode) :: rest =>
      (match SortedMap.lookup name oldChildren with
        | some oldNode => (differences oldNode newNode).map (under [name])
        | none => [.added [name] newNode]) ++
      childDifferences oldChildren rest

end

mutual

/-- **The entries are the differences with their names joined**, below any path. -/
theorem diffRecursive_eq (old : Node) (above : List Str) :
    ∀ new : Node, diffRecursive old (diffPath above) new =
      (differences old new).map fun change => (change.under above).toEntry
  | .file hash size chunks => by
      rw [diffRecursive, differences]
      split
      · rfl
      · simp [under, Difference.toEntry]
  | .directory hash children => by
      cases old with
      | file =>
          rw [diffRecursive, differences]
          split
          · rfl
          · simp [under, Difference.toEntry]
      | directory hash' oldChildren =>
          rw [diffRecursive, differences]
          split
          · rfl
          · rw [List.map_append, List.map_map, diffChildren_eq oldChildren above children]
            refine congrArg _ (List.map_congr_left fun child _ => ?_)
            rw [← diffPath_concat]
            rfl

theorem diffChildren_eq (oldChildren : List (Str × Node)) (above : List Str) :
    ∀ children : List (Str × Node), diffChildren oldChildren (diffPath above) children =
      (childDifferences oldChildren children).map fun change => (change.under above).toEntry
  | [] => rfl
  | (name, newNode) :: rest => by
      rw [diffChildren, childDifferences, List.map_append, diffChildren_eq oldChildren above rest,
        ← diffPath_concat]
      congr 1
      cases SortedMap.lookup name oldChildren with
      | none => rfl
      | some oldNode =>
          dsimp only
          rw [diffRecursive_eq oldNode (above ++ [name]) newNode, List.map_map]
          refine List.map_congr_left fun change _ => ?_
          rw [Function.comp_apply, under_under]

end

theorem diff_eq (old new : Node) : diff old new = (differences old new).map Difference.toEntry := by
  rw [diff, ← show diffPath [] = [] from rfl, diffRecursive_eq]
  exact List.map_congr_left fun change _ => congrArg Difference.toEntry change.under_nil

/-! ## The shape of the differences -/

/-- The differences at and below one of the new children. -/
def changesAt (oldChildren : List (Str × Node)) (child : Str × Node) : List Difference :=
  match SortedMap.lookup child.1 oldChildren with
  | some oldNode => (differences oldNode child.2).map (under [child.1])
  | none => [.added [child.1] child.2]

theorem childDifferences_eq (oldChildren children : List (Str × Node)) :
    childDifferences oldChildren children = children.flatMap (changesAt oldChildren) := by
  induction children with
  | nil => rfl
  | cons child rest ih =>
      rw [childDifferences, ih, List.flatMap_cons]
      rfl

theorem differences_of_hash {old new : Node} (same : old.hash = new.hash) :
    differences old new = [] := by
  cases new with
  | file => exact if_pos same
  | directory => exact if_pos same

theorem differences_of_isFile {old new : Node} (apart : old.hash ≠ new.hash)
    (kinds : old.isFile = true ∨ new.isFile = true) :
    differences old new = [.modified [] old new] := by
  cases new with
  | file => exact if_neg apart
  | directory hash children =>
      cases old with
      | file => exact if_neg apart
      | directory => exact absurd kinds (by simp [Node.isFile])

theorem differences_directories {hash hash' : Hash} {oldChildren children : List (Str × Node)}
    (apart : hash ≠ hash') :
    differences (.directory hash oldChildren) (.directory hash' children) =
      children.flatMap (changesAt oldChildren) ++
        (oldChildren.filter fun child => (SortedMap.lookup child.1 children).isNone).map
          fun child => .removed [child.1] child.2 := by
  have apart : (Node.directory hash oldChildren).hash ≠ hash' := apart
  rw [differences, if_neg apart, childDifferences_eq]

/-! ## The changes between two trees -/

/-- A change between two trees. -/
inductive Change : Node → Node → Difference → Prop where
  | replaced {old new : Node} (apart : old.hash ≠ new.hash)
      (kinds : old.isFile = true ∨ new.isFile = true) : Change old new (.modified [] old new)
  | added {hash hash' : Hash} {oldChildren children : List (Str × Node)} (apart : hash ≠ hash')
      {name : Str} {child : Node} (missing : SortedMap.lookup name oldChildren = none)
      (found : SortedMap.lookup name children = some child) :
      Change (.directory hash oldChildren) (.directory hash' children) (.added [name] child)
  | removed {hash hash' : Hash} {oldChildren children : List (Str × Node)} (apart : hash ≠ hash')
      {name : Str} {child : Node} (found : SortedMap.lookup name oldChildren = some child)
      (missing : SortedMap.lookup name children = none) :
      Change (.directory hash oldChildren) (.directory hash' children) (.removed [name] child)
  | within {hash hash' : Hash} {oldChildren children : List (Str × Node)} (apart : hash ≠ hash')
      {name : Str} {old new : Node} {entry : Difference}
      (foundOld : SortedMap.lookup name oldChildren = some old)
      (foundNew : SortedMap.lookup name children = some new) (change : Change old new entry) :
      Change (.directory hash oldChildren) (.directory hash' children) (entry.under [name])

theorem Change.hash_ne {old new : Node} {entry : Difference} (change : Change old new entry) :
    old.hash ≠ new.hash := by
  cases change with
  | replaced apart _ => exact apart
  | added apart _ _ => exact apart
  | removed apart _ _ => exact apart
  | within apart _ _ _ => exact apart

/-- **The entries of a difference are the changes.** -/
theorem mem_differences_iff {old new : Node} (oldOrdered : old.Ordered) (newOrdered : new.Ordered)
    {entry : Difference} : entry ∈ differences old new ↔ Change old new entry := by
  induction newOrdered generalizing old entry with
  | file hash size chunks =>
      by_cases apart : old.hash = hash
      · rw [differences_of_hash apart]
        exact iff_of_false List.not_mem_nil fun change => change.hash_ne apart
      · rw [differences_of_isFile apart (Or.inr rfl), List.mem_singleton]
        constructor
        · rintro rfl
          exact .replaced apart (Or.inr rfl)
        · intro change
          cases change
          rfl
  | directory hash' children sorted ordered ih =>
      by_cases apart : old.hash = hash'
      · rw [differences_of_hash apart]
        exact iff_of_false List.not_mem_nil fun change => change.hash_ne apart
      cases oldOrdered with
      | file hash size chunks =>
          rw [differences_of_isFile apart (Or.inl rfl), List.mem_singleton]
          constructor
          · rintro rfl
            exact .replaced apart (Or.inl rfl)
          · intro change
            cases change
            rfl
      | directory hash oldChildren oldSorted oldOrdered =>
          have apart : hash ≠ hash' := apart
          rw [differences_directories apart, List.mem_append, List.mem_flatMap, List.mem_map]
          constructor
          · rintro (⟨⟨name, new⟩, member, there⟩ | ⟨⟨name, child⟩, member, rfl⟩)
            · have foundNew := sorted.lookup_of_mem member
              rw [changesAt] at there
              cases foundOld : SortedMap.lookup name oldChildren with
              | none =>
                  rw [foundOld] at there
                  rw [List.mem_singleton.mp there]
                  exact .added apart foundOld foundNew
              | some old =>
                  rw [foundOld] at there
                  obtain ⟨inner, inside, rfl⟩ := List.mem_map.mp there
                  have oldChild := oldOrdered _ (SortedMap.mem_of_lookup foundOld)
                  exact .within apart foundOld foundNew ((ih _ member oldChild).mp inside)
            · obtain ⟨member, missing⟩ := List.mem_filter.mp member
              exact .removed apart (oldSorted.lookup_of_mem member)
                (Option.isNone_iff_eq_none.mp missing)
          · intro change
            cases change with
            | replaced _ kinds => exact absurd kinds (by simp [Node.isFile])
            | added _ missing found =>
                refine Or.inl ⟨_, SortedMap.mem_of_lookup found, ?_⟩
                rw [changesAt, missing]
                exact List.mem_singleton_self _
            | removed _ found missing =>
                exact Or.inr ⟨_, List.mem_filter.mpr ⟨SortedMap.mem_of_lookup found,
                  Option.isNone_iff_eq_none.mpr missing⟩, rfl⟩
            | within _ foundOld foundNew change =>
                have member := SortedMap.mem_of_lookup foundNew
                have oldChild := oldOrdered _ (SortedMap.mem_of_lookup foundOld)
                refine Or.inl ⟨_, member, ?_⟩
                rw [changesAt, foundOld]
                exact List.mem_map_of_mem ((ih _ member oldChild).mpr change)

/-- What a change says is so. -/
theorem Change.describes {old new : Node} {entry : Difference} (change : Change old new entry) :
    entry.Describes old new := by
  induction change with
  | replaced apart kinds =>
      exact ⟨rfl, rfl, fun same => apart (congrArg Node.hash same), kinds⟩
  | added _ missing found =>
      rw [Difference.Describes, findNames_cons_directory, findNames_cons_directory, missing, found]
      exact ⟨rfl, rfl⟩
  | removed _ found missing =>
      rw [Difference.Describes, findNames_cons_directory, findNames_cons_directory, missing, found]
      exact ⟨rfl, rfl⟩
  | @within _ _ _ _ _ name _ _ entry foundOld foundNew _ ih =>
      cases entry <;>
        simpa only [under, Difference.Describes, List.singleton_append, findNames_cons_directory,
          foundOld, foundNew, Option.bind_some] using ih

/-- The way to a change leads through directories on both sides. -/
theorem Change.opened {old new : Node} {entry : Difference} (change : Change old new entry)
    {above : List Str} (proper : IsAbove above entry.path) :
    entries old above = some .branch ∧ entries new above = some .branch := by
  induction change generalizing above with
  | replaced => exact absurd (List.prefix_nil.mp proper.1) proper.2
  | added | removed =>
      cases above with
      | nil => exact ⟨rfl, rfl⟩
      | cons first rest =>
          obtain ⟨rfl, reaches⟩ := List.cons_prefix_cons.mp proper.1
          exact absurd (by rw [List.prefix_nil.mp reaches]; rfl) proper.2
  | within _ foundOld foundNew _ ih =>
      rw [path_under, List.singleton_append] at proper
      cases above with
      | nil => exact ⟨rfl, rfl⟩
      | cons first rest =>
          obtain ⟨rfl, reaches⟩ := List.cons_prefix_cons.mp proper.1
          rw [entries_cons_directory, entries_cons_directory, foundOld, foundNew]
          exact ih ⟨reaches, fun same => proper.2 (congrArg (first :: ·) same)⟩

/-- A change between directories is below them. -/
theorem Change.path_ne_nil {old new : Node} {entry : Difference} (change : Change old new entry)
    (oldDirectory : old.isFile = false) (newDirectory : new.isFile = false) : entry.path ≠ [] := by
  cases change with
  | replaced _ kinds => exact absurd kinds (by simp [oldDirectory, newDirectory])
  | added | removed => exact List.cons_ne_nil _ _
  | within =>
      rw [path_under]
      exact List.cons_ne_nil _ _

/-- Nodes of two trees at the same path with equal hashes are equal. -/
def HashesTell (old new : Node) : Prop :=
  ∀ names node node', findNames names old = some node → findNames names new = some node' →
    node.hash = node'.hash → node = node'

theorem HashesTell.child {hash hash' : Hash} {oldChildren children : List (Str × Node)}
    (tell : HashesTell (.directory hash oldChildren) (.directory hash' children)) {name : Str}
    {old new : Node} (foundOld : SortedMap.lookup name oldChildren = some old)
    (foundNew : SortedMap.lookup name children = some new) : HashesTell old new := by
  intro names node node' found found'
  refine tell (name :: names) node node' ?_ ?_
  · rw [findNames_cons_directory, foundOld, Option.bind_some, found]
  · rw [findNames_cons_directory, foundNew, Option.bind_some, found']

/-- **Where no change reaches, the entries are the same.** -/
theorem entries_eq_of_uncovered {old new : Node} (newOrdered : new.Ordered)
    (tell : HashesTell old new) {query : List Str}
    (uncovered : ∀ entry, Change old new entry → ¬ entry.path <+: query) :
    entries old query = entries new query := by
  induction newOrdered generalizing old query with
  | file hash size chunks =>
      by_cases same : old.hash = hash
      · rw [tell [] old _ rfl rfl same]
      · exact absurd List.nil_prefix (uncovered _ (.replaced same (Or.inr rfl)))
  | directory hash' children sorted ordered ih =>
      by_cases same : old.hash = hash'
      · rw [tell [] old _ rfl rfl same]
      cases old with
      | file => exact absurd List.nil_prefix (uncovered _ (.replaced same (Or.inl rfl)))
      | directory hash oldChildren =>
          cases query with
          | nil => rfl
          | cons name rest =>
              rw [entries_cons_directory, entries_cons_directory]
              have here : ∀ {entry}, Change (.directory hash oldChildren)
                  (.directory hash' children) entry → entry.path ≠ [name] := by
                intro entry change path
                exact uncovered entry change (path ▸ List.prefix_append [name] rest)
              cases foundOld : SortedMap.lookup name oldChildren with
              | none =>
                  cases foundNew : SortedMap.lookup name children with
                  | none => rfl
                  | some new => exact absurd rfl (here (.added same foundOld foundNew))
              | some old =>
                  cases foundNew : SortedMap.lookup name children with
                  | none => exact absurd rfl (here (.removed same foundOld foundNew))
                  | some new =>
                      refine ih _ (SortedMap.mem_of_lookup foundNew) (tell.child foundOld foundNew)
                        fun entry change reaches => ?_
                      refine uncovered _ (.within same foundOld foundNew change) ?_
                      rw [path_under]
                      exact List.cons_prefix_cons.mpr ⟨rfl, reaches⟩

/-! ## Paths apart -/

/-- Neither path leads through the other. -/
def Apart (first second : Difference) : Prop :=
  ¬ first.path <+: second.path ∧ ¬ second.path <+: first.path

instance symm_apart : Std.Symm Apart := ⟨fun _ _ apart => ⟨apart.2, apart.1⟩⟩

theorem apart_of_head {first second : Difference} {name name' : Str} {rest rest' : List Str}
    (path : first.path = name :: rest) (path' : second.path = name' :: rest')
    (apart : name ≠ name') : Apart first second := by
  rw [Apart, path, path']
  exact ⟨fun reaches => apart (List.cons_prefix_cons.mp reaches).1,
    fun reaches => apart (List.cons_prefix_cons.mp reaches).1.symm⟩

theorem Apart.under {first second : Difference} (apart : Apart first second) (above : List Str) :
    Apart (first.under above) (second.under above) := by
  rw [Apart, path_under, path_under, List.prefix_append_right_inj, List.prefix_append_right_inj]
  exact apart

/-- Every change at and below a child has its name first. -/
theorem path_of_mem_changesAt {oldChildren : List (Str × Node)} {child : Str × Node}
    {entry : Difference} (member : entry ∈ changesAt oldChildren child) :
    ∃ rest, entry.path = child.1 :: rest := by
  rw [changesAt] at member
  split at member
  · obtain ⟨inner, _, rfl⟩ := List.mem_map.mp member
    exact ⟨inner.path, path_under _ _⟩
  · rw [List.mem_singleton.mp member]
    exact ⟨[], rfl⟩

/-- **The paths of a difference are apart.** -/
theorem pairwise_apart_differences {old new : Node} (oldOrdered : old.Ordered)
    (newOrdered : new.Ordered) : (differences old new).Pairwise Apart := by
  induction newOrdered generalizing old with
  | file hash size chunks =>
      by_cases same : old.hash = hash
      · rw [differences_of_hash same]
        exact List.Pairwise.nil
      · rw [differences_of_isFile same (Or.inr rfl)]
        exact List.pairwise_singleton _ _
  | directory hash' children sorted ordered ih =>
      by_cases same : old.hash = hash'
      · rw [differences_of_hash same]
        exact List.Pairwise.nil
      cases oldOrdered with
      | file =>
          rw [differences_of_isFile same (Or.inl rfl)]
          exact List.pairwise_singleton _ _
      | directory hash oldChildren oldSorted oldOrdered =>
          have same : hash ≠ hash' := same
          rw [differences_directories same, List.pairwise_append]
          refine ⟨List.pairwise_flatMap.mpr ⟨?_, ?_⟩, ?_, ?_⟩
          · -- below one child
            intro child member
            rw [changesAt]
            cases foundOld : SortedMap.lookup child.1 oldChildren with
            | none => exact List.pairwise_singleton _ _
            | some oldNode =>
                have oldChild := oldOrdered _ (SortedMap.mem_of_lookup foundOld)
                exact (ih child member oldChild).map _ fun _ _ apart => apart.under _
          · -- below two children
            refine sorted.imp fun less first here second there => ?_
            obtain ⟨rest, path⟩ := path_of_mem_changesAt here
            obtain ⟨rest', path'⟩ := path_of_mem_changesAt there
            exact apart_of_head path path' less.ne
          · -- two removals
            refine (oldSorted.filter _).map _ fun first second less => ?_
            exact apart_of_head rfl rfl less.ne
          · -- a removal is of a name that no new child has
            rintro entry here _ there
            obtain ⟨child, member, inside⟩ := List.mem_flatMap.mp here
            obtain ⟨gone, away, rfl⟩ := List.mem_map.mp there
            obtain ⟨rest, path⟩ := path_of_mem_changesAt inside
            have missing := Option.isNone_iff_eq_none.mp (List.mem_filter.mp away).2
            refine apart_of_head path rfl fun equal => ?_
            rw [← equal, sorted.lookup_of_mem member] at missing
            exact absurd missing (Option.some_ne_none _)

/-! ## Applying a difference -/

section Apply

variable [Blake3]

omit [Blake3] in
theorem not_blocked_of_opened {names : List Str} {tree : Node}
    (opened : ∀ above, IsAbove above names → entries tree above = some .branch) :
    ¬ Blocked names tree := by
  rintro ⟨above, below, hash, size, chunks, rfl, proper, found⟩
  have branch := opened above
    ⟨List.prefix_append above below, fun same => proper (List.self_eq_append_right.mp same)⟩
  rw [entries_eq_leaf_iff.mpr found] at branch
  exact absurd (Option.some.inj branch) nofun

/-- **A change applied** puts the new tree's entries at and below its path. -/
theorem entries_applyTo {old new tree : Node} {entry : Difference} (change : Change old new entry)
    (nonempty : entry.path ≠ [])
    (opened : ∀ above, IsAbove above entry.path → entries tree above = some .branch) :
    entries (applyTo tree entry) =
      PathMap.replace entry.path (PathMap.below entry.path (entries new)) (entries tree) := by
  have inserted : ∀ path node, findNames path new = some node → path ≠ [] →
      (∀ above, IsAbove above path → entries tree above = some .branch) →
        entries (insertRecursive path node tree) =
          PathMap.replace path (PathMap.below path (entries new)) (entries tree) := by
    intro path node found nonempty opened
    rw [entries_insertRecursive nonempty (not_blocked_of_opened opened),
      PathMap.openTo_eq_self fun above reaches proper => opened above ⟨reaches, proper⟩]
    congr 1
    funext rest
    exact (entries_of_findNames found rest).symm
  have said := change.describes
  cases entry with
  | added path node => exact inserted path node said.2 nonempty opened
  | modified path node node' => exact inserted path node' said.2.1 nonempty opened
  | removed path node =>
      have nonempty : path ≠ [] := nonempty
      rw [applyTo, entries_removeRecursive nonempty]
      congr 1
      funext rest
      have gone : findNames path new = none := said.2
      exact (congrArg (·.bind fun node => entries node rest) gone).symm.trans
        (entries_append path rest new).symm

/-- A change keeps a tree as a tree is. -/
theorem applyTo_wellFormed {old new tree : Node} {entry : Difference}
    (change : Change old new entry) (newOrdered : new.Ordered) (newConsistent : new.Consistent)
    (ordered : tree.Ordered) (consistent : tree.Consistent) :
    (applyTo tree entry).Ordered ∧ (applyTo tree entry).Consistent := by
  have said := change.describes
  cases entry with
  | added path node =>
      exact ⟨ordered_insertRecursive (ordered_of_findNames newOrdered said.2) ordered,
        consistent_insertRecursive (consistent_of_findNames newConsistent said.2) consistent⟩
  | modified path node node' =>
      exact ⟨ordered_insertRecursive (ordered_of_findNames newOrdered said.2.1) ordered,
        consistent_insertRecursive (consistent_of_findNames newConsistent said.2.1) consistent⟩
  | removed path node =>
      exact ⟨ordered_removeRecursive ordered, consistent_removeRecursive ordered consistent⟩

/-- **Changes applied in any order** put the new tree's entries wherever they reach. -/
theorem entries_foldl_applyTo {old new : Node} (newOrdered : new.Ordered)
    (newConsistent : new.Consistent) {changes : List Difference}
    (said : ∀ entry ∈ changes, Change old new entry ∧ entry.path ≠ []) {tree : Node}
    (ordered : tree.Ordered) (consistent : tree.Consistent)
    (between : ∀ query, entries tree query = entries old query ∨
      entries tree query = entries new query) :
    (changes.foldl applyTo tree).Ordered ∧ (changes.foldl applyTo tree).Consistent ∧
      entries (changes.foldl applyTo tree) =
        (changes.map Difference.path).foldl
          (fun map path => PathMap.replace path (PathMap.below path (entries new)) map)
          (entries tree) := by
  induction changes generalizing tree with
  | nil => exact ⟨ordered, consistent, rfl⟩
  | cons entry changes ih =>
      obtain ⟨change, nonempty⟩ := said entry List.mem_cons_self
      obtain ⟨ordered', consistent'⟩ :=
        applyTo_wellFormed change newOrdered newConsistent ordered consistent
      have opened : ∀ above, IsAbove above entry.path → entries tree above = some .branch := by
        intro above proper
        rcases between above with same | same
        · exact same.trans (change.opened proper).1
        · exact same.trans (change.opened proper).2
      have applied := entries_applyTo change nonempty opened
      rw [List.foldl_cons, List.map_cons, List.foldl_cons, ← applied]
      refine ih (fun entry member => said entry (List.mem_cons_of_mem _ member)) ordered'
        consistent' fun query => ?_
      rw [applied, PathMap.replace_below]
      split
      · exact Or.inr rfl
      · exact between query

/-- **The differences are exactly the difference**, while their names are kept apart. -/
theorem differences_exact {old new : Node} (oldDirectory : old.isFile = false)
    (newDirectory : new.isFile = false) (oldOrdered : old.Ordered) (newOrdered : new.Ordered)
    (oldConsistent : old.Consistent) (newConsistent : new.Consistent)
    (tell : HashesTell old new) {changes : List Difference}
    (order : changes.Perm (differences old new)) : changes.foldl applyTo old = new := by
  have said : ∀ change ∈ changes, Change old new change ∧ change.path ≠ [] := by
    intro change member
    have changed := (mem_differences_iff oldOrdered newOrdered).mp (order.mem_iff.mp member)
    exact ⟨changed, changed.path_ne_nil oldDirectory newDirectory⟩
  obtain ⟨ordered, consistent, applied⟩ := entries_foldl_applyTo newOrdered newConsistent said
    oldOrdered oldConsistent fun query => Or.inl rfl
  refine eq_of_entries_eq ordered newOrdered consistent newConsistent ?_
  rw [applied]
  refine PathMap.foldl_replace_eq fun query uncovered => ?_
  refine entries_eq_of_uncovered newOrdered tell fun change changed => uncovered _ ?_
  exact List.mem_map_of_mem
    (order.mem_iff.mpr ((mem_differences_iff oldOrdered newOrdered).mpr changed))

end Apply

/-! ## Joined paths -/

section Joined

/-- Every name that leads to a difference is one component of a path. -/
def JoinsNames (old new : Node) : Prop := ∀ change, Change old new change → change.Named

/-- Trees whose names are the names of directory entries have such names everywhere. -/
theorem joinsNames_of_proper {old new : Node} (oldProper : old.Proper) (newProper : new.Proper) :
    JoinsNames old new := by
  intro change changed
  induction changed with
  | replaced => exact List.forall_mem_nil _
  | added _ _ found =>
      cases newProper with
      | directory _ _ _ named _ =>
          exact List.forall_mem_singleton.mpr (named _ (SortedMap.mem_of_lookup found))
  | removed _ found _ =>
      cases oldProper with
      | directory _ _ _ named _ =>
          exact List.forall_mem_singleton.mpr (named _ (SortedMap.mem_of_lookup found))
  | within _ foundOld foundNew _ ih =>
      cases oldProper with
      | directory _ _ _ named oldProper =>
          cases newProper with
          | directory _ _ _ _ newProper =>
              have below := ih (oldProper _ (SortedMap.mem_of_lookup foundOld))
                (newProper _ (SortedMap.mem_of_lookup foundNew))
              rw [Difference.Named, path_under, List.singleton_append, List.forall_mem_cons]
              exact ⟨named _ (SortedMap.mem_of_lookup foundOld), below⟩

variable [Blake3]

/-- The entries of `diff` are exactly the difference: their paths are apart as paths are, each
entry says what is so of the two trees, and together they make the new tree of the old one. -/
structure DiffersExactly (old new : Node) : Prop where
  distinct : ((diff old new).map fun entry => components entry.path).Nodup
  apart : ∀ first ∈ diff old new, ∀ second ∈ diff old new, first ≠ second →
    ¬ components first.path <+: components second.path
  describes : ∀ entry ∈ diff old new, entry.Describes old new
  applies : ∀ changes : List DiffEntry, changes.Perm (diff old new) →
    changes.foldl DiffEntry.applyTo old = new

omit [Blake3] in
theorem components_prefix_iff {first second : Difference} (named : first.Named)
    (named' : second.Named) :
    components first.toEntry.path <+: components second.toEntry.path ↔
      first.path <+: second.path := by
  rw [Difference.path_toEntry, Difference.path_toEntry, components_diffPath named,
    components_diffPath named']
  exact List.prefix_map_iff_of_injective fun _ _ same => Component.normal.inj same

theorem foldl_applyTo_toEntry {changes : List Difference} (named : ∀ change ∈ changes, change.Named)
    (tree : Node) :
    (changes.map Difference.toEntry).foldl DiffEntry.applyTo tree = changes.foldl applyTo tree := by
  induction changes generalizing tree with
  | nil => rfl
  | cons change rest ih =>
      rw [List.forall_mem_cons] at named
      rw [List.map_cons, List.foldl_cons, List.foldl_cons, Difference.applyTo_toEntry named.1,
        ih named.2]

/-- **A difference is exactly the difference**, when its paths lead back to the names. -/
theorem diff_exact {old new : Node} (oldDirectory : old.isFile = false)
    (newDirectory : new.isFile = false) (oldOrdered : old.Ordered) (newOrdered : new.Ordered)
    (oldConsistent : old.Consistent) (newConsistent : new.Consistent)
    (tell : HashesTell old new) (joins : JoinsNames old new) : DiffersExactly old new := by
  have change : ∀ change ∈ differences old new, Change old new change := fun _ =>
    (mem_differences_iff oldOrdered newOrdered).mp
  have named : ∀ change ∈ differences old new, change.Named := fun change' member =>
    joins change' (change change' member)
  have apart := pairwise_apart_differences oldOrdered newOrdered
  have below : ∀ first ∈ differences old new, ∀ second ∈ differences old new, Apart first second →
      ¬ components first.toEntry.path <+: components second.toEntry.path :=
    fun first here second there apart =>
      mt (components_prefix_iff (named first here) (named second there)).mp apart.1
  constructor
  case distinct =>
    rw [diff_eq, List.map_map, List.Nodup, List.pairwise_map]
    refine apart.imp_of_mem fun {first second} here there apart same => ?_
    have same : components first.toEntry.path = components second.toEntry.path := same
    exact below first here second there apart (same ▸ List.prefix_rfl)
  case apart =>
    rw [diff_eq]
    rintro first here second there differ
    obtain ⟨change', inside, rfl⟩ := List.mem_map.mp here
    obtain ⟨change'', inside', rfl⟩ := List.mem_map.mp there
    exact below change' inside change'' inside'
      (apart.forall inside inside' fun same => differ (congrArg Difference.toEntry same))
  case describes =>
    rw [diff_eq]
    intro entry member
    obtain ⟨change', inside, rfl⟩ := List.mem_map.mp member
    exact (Difference.describes_toEntry (named change' inside)).mpr
      (change change' inside).describes
  case applies =>
    rw [diff_eq]
    intro changes order
    obtain ⟨changes, rfl, order'⟩ : Relation.Comp (· = List.map Difference.toEntry ·) List.Perm
        changes (differences old new) := by
      rw [List.eq_map_comp_perm]
      exact order
    rw [foldl_applyTo_toEntry fun change' member => named change' (order'.mem_iff.mp member)]
    exact differences_exact oldDirectory newDirectory oldOrdered newOrdered oldConsistent
      newConsistent tell order'

end Joined

/-! ## Concrete differences -/

attribute [local instance] keepsLength

/-- A directory with one file. -/
def folderOf (name : Str) (data : Bytes) : Node := dirNode [(name, fileNodeWithChunkSize data 2)]

/-- A directory `d` with the file `a`. -/
def before : Node := dirNode [(['d'], folderOf ['a'] [1])]

/-- The directory with the file changed and a directory `b` next to it. -/
def after : Node := dirNode [(['b'], dirNode []), (['d'], folderOf ['a'] [2])]

theorem ordered_folderOf (name : Str) (data : Bytes) : (folderOf name data).Ordered :=
  .directory _ _ (List.pairwise_singleton _ _) (List.forall_mem_singleton.mpr (.file _ _ _))

theorem consistent_folderOf (name : Str) (data : Bytes) : (folderOf name data).Consistent :=
  consistent_dirNode (List.forall_mem_singleton.mpr (.file _ _ _))

theorem proper_folderOf (data : Bytes) : (folderOf ['a'] data).Proper := by
  have named : (OsStr.utf8 ['a']).IsName := by decide
  exact .directory _ _ (List.pairwise_singleton _ _) (List.forall_mem_singleton.mpr named)
    (List.forall_mem_singleton.mpr (.file _ _ _))

theorem hashesTell_sample : HashesTell before after := by
  intro names node node' found found' same
  rcases names with _ | ⟨first, _ | ⟨second, later⟩⟩
  · cases found
    cases found'
    exact absurd same (by decide +kernel)
  · rw [before, dirNode, findNames_cons_directory, SortedMap.lookup_cons] at found
    split at found
    · rename_i here
      subst here
      cases found
      cases found'
      exact absurd same (by decide +kernel)
    · exact absurd found (Option.some_ne_none node).symm
  · rw [before, dirNode, findNames_cons_directory, SortedMap.lookup_cons] at found
    split at found
    · rename_i here
      subst here
      rw [Option.bind_some, folderOf, dirNode, findNames_cons_directory,
        SortedMap.lookup_cons] at found
      split at found
      · rename_i here
        subst here
        cases later with
        | nil =>
            cases found
            cases found'
            exact absurd same (by decide +kernel)
        | cons third rest => exact absurd found (Option.some_ne_none node).symm
      · exact absurd found (Option.some_ne_none node).symm
    · exact absurd found (Option.some_ne_none node).symm

/-- A directory is added, and a file inside the other one is modified. -/
theorem diff_exact_sample :
    (diff before after).map DiffEntry.path = [['b'], ['d', '/', 'a']] ∧
      (diff before after).reverse.foldl DiffEntry.applyTo before = after := by
  have proper : before.Proper :=
    .directory _ _ (List.pairwise_singleton _ _) (List.forall_mem_singleton.mpr (by decide))
      (List.forall_mem_singleton.mpr (proper_folderOf [1]))
  have proper' : after.Proper :=
    .directory _ _ (List.pairwise_pair.mpr (by decide))
      (List.forall_mem_cons.mpr ⟨by decide, List.forall_mem_singleton.mpr (by decide)⟩)
      (List.forall_mem_cons.mpr
        ⟨proper_dirNode_nil, List.forall_mem_singleton.mpr (proper_folderOf [2])⟩)
  have consistent : before.Consistent :=
    consistent_dirNode (List.forall_mem_singleton.mpr (consistent_folderOf ['a'] [1]))
  have consistent' : after.Consistent :=
    consistent_dirNode (List.forall_mem_cons.mpr ⟨consistent_dirNode (List.forall_mem_nil _),
      List.forall_mem_singleton.mpr (consistent_folderOf ['a'] [2])⟩)
  have exact' := diff_exact rfl rfl proper.ordered proper'.ordered consistent consistent'
    hashesTell_sample (joinsNames_of_proper proper proper')
  exact ⟨by decide +kernel, exact'.applies _ (List.reverse_perm _)⟩

/-- **The paths of a difference need not lead back to its names**: a new child `a/b` of the root is
inserted as `b` inside a directory `a`. -/
theorem not_differs_exactly :
    ∃ old new : Node, old.isFile = false ∧ new.isFile = false ∧ old.Ordered ∧ new.Ordered ∧
      old.Consistent ∧ new.Consistent ∧ HashesTell old new ∧ ¬ DiffersExactly old new := by
  refine ⟨dirNode [], folderOf ['a', '/', 'b'] [1], rfl, rfl,
    .directory _ _ .nil (List.forall_mem_nil _), ordered_folderOf _ _,
    consistent_dirNode (List.forall_mem_nil _), consistent_folderOf _ _, ?_, fun exact' => ?_⟩
  · rintro (_ | ⟨first, rest⟩) node node' found found' same
    · cases found
      cases found'
      exact absurd same (by decide +kernel)
    · exact absurd found (Option.some_ne_none node).symm
  · have applied := congrArg (fun tree => (findNames [['a']] tree).isSome)
      (exact'.applies _ (List.Perm.refl _))
    exact absurd applied (by decide +kernel)

end Merkle

end P2Sync
