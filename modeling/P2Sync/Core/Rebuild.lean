import P2Sync.Core.Refine
import P2Sync.Core.Writable

/-!
# Incremental indexing

A scan of a directory is determined by what it scans under each name
(`fromEntries_eq_some_iff`). So when one file of a folder is written or removed, scanning
again gives the old tree with the file node inserted or removed (`scan_store`,
`scan_removeFile`), which is what the index does with a local change
(`incremental_eq_rebuild`).
-/

set_option autoImplicit false

namespace P2Sync

section Trees

variable [Blake3] {exclude : RelPath → Bool} {chunkSize : Nat}

/-! ## A scan by names -/

/-- What a scan needs of an entry: to be excluded, or text over something that scans. -/
def Scans (exclude : RelPath → Bool) (chunkSize : Nat) (path : RelPath) (entry : OsStr × Disk) :
    Prop :=
  exclude (path ++ [entry.1]) = true ∨ ∃ text node, entry.1 = .utf8 text ∧
    fromPathConfigured exclude chunkSize (path ++ [entry.1]) entry.2 = some node

theorem fromEntries_isSome_iff {path : RelPath} {entries : List (OsStr × Disk)}
    {children : List (Str × Node)} :
    (fromEntries exclude chunkSize path entries children).isSome = true ↔
      ∀ entry ∈ entries, Scans exclude chunkSize path entry := by
  induction entries generalizing children with
  | nil => simp [fromEntries]
  | cons entry rest ih =>
      obtain ⟨name, child⟩ := entry
      rw [fromEntries, List.forall_mem_cons, Scans]
      split
      · rename_i excluded
        rw [ih, and_iff_right (Or.inl excluded)]
      · rename_i included
        cases name with
        | invalid bytes => simp [OsStr.toStr, included]
        | utf8 text =>
            simp only [OsStr.toStr]
            split
            · rename_i failed
              simp [failed, included]
            · rename_i node scanned
              rw [ih, and_iff_right (Or.inr ⟨text, node, rfl, scanned⟩)]

/-- **A scan of a directory** is determined by what it scans under each name. -/
theorem fromEntries_eq_some_iff {path : RelPath} {entries : List (OsStr × Disk)}
    {result : List (Str × Node)} (sorted : SortedMap.Sorted entries) :
    fromEntries exclude chunkSize path entries [] = some result ↔
      (∀ entry ∈ entries, Scans exclude chunkSize path entry) ∧ SortedMap.Sorted result ∧
        ∀ text, SortedMap.lookup text result =
          if exclude (path ++ [.utf8 text]) = true then none
          else (SortedMap.lookup (.utf8 text) entries).bind
            (fromPathConfigured exclude chunkSize (path ++ [.utf8 text])) := by
  have lookups : ∀ {result}, fromEntries exclude chunkSize path entries [] = some result →
      ∀ text, SortedMap.lookup text result =
        if exclude (path ++ [.utf8 text]) = true then none
        else (SortedMap.lookup (.utf8 text) entries).bind
          (fromPathConfigured exclude chunkSize (path ++ [.utf8 text])) := by
    intro result scanned text
    split
    · rename_i excluded
      exact lookup_fromEntries_of_excluded scanned excluded
    · rename_i included
      have there := lookup_fromEntries text sorted scanned (Bool.eq_false_iff.mpr included)
      cases found : SortedMap.lookup (OsStr.utf8 text) entries with
      | none =>
          rw [found] at there
          exact there
      | some child =>
          rw [found] at there
          obtain ⟨node, inside, there⟩ := there
          rw [there, Option.bind_some, inside]
  have sortedResult : ∀ {result}, fromEntries exclude chunkSize path entries [] = some result →
      SortedMap.Sorted result := fun scanned =>
    (Merkle.ordered_fromEntries scanned .nil (List.forall_mem_nil _)).1
  constructor
  · intro scanned
    exact ⟨fromEntries_isSome_iff.mp (Option.isSome_of_eq_some scanned), sortedResult scanned,
      lookups scanned⟩
  · rintro ⟨scans, sortedMap, same⟩
    obtain ⟨result', scanned⟩ := Option.isSome_iff_exists.mp (fromEntries_isSome_iff.mpr scans)
    rw [scanned, (sortedResult scanned).ext sortedMap fun text =>
      (lookups scanned text).trans (same text).symm]

/-- Something put under a name that is scanned. -/
theorem fromEntries_insert {path : RelPath} {entries : List (OsStr × Disk)}
    {children : List (Str × Node)} (sorted : SortedMap.Sorted entries)
    (scanned : fromEntries exclude chunkSize path entries [] = some children) {text : Str}
    (included : exclude (path ++ [.utf8 text]) = false) {child : Disk} {node : Node}
    (inside : fromPathConfigured exclude chunkSize (path ++ [.utf8 text]) child = some node) :
    fromEntries exclude chunkSize path (SortedMap.insert (.utf8 text) child entries) [] =
      some (SortedMap.insert text node children) := by
  obtain ⟨scans, sortedChildren, same⟩ := (fromEntries_eq_some_iff sorted).mp scanned
  refine (fromEntries_eq_some_iff (sorted.insert _ _)).mpr
    ⟨fun entry member => ?_, sortedChildren.insert _ _, fun query => ?_⟩
  · rcases SortedMap.mem_insert member with rfl | old
    · exact Or.inr ⟨text, node, rfl, inside⟩
    · exact scans entry old
  · rw [SortedMap.lookup_insert, SortedMap.lookup_insert, same]
    by_cases here : query = text
    · subst here
      rw [if_pos rfl, if_neg (by rw [included]; exact Bool.false_ne_true), if_pos rfl,
        Option.bind_some, inside]
    · rw [if_neg here, if_neg fun equal => here (OsStr.utf8.inj equal)]

/-- Something put under a name that is passed by. -/
theorem fromEntries_insert_of_excluded {path : RelPath} {entries : List (OsStr × Disk)}
    {children : List (Str × Node)} (sorted : SortedMap.Sorted entries)
    (scanned : fromEntries exclude chunkSize path entries [] = some children) {text : Str}
    (excluded : exclude (path ++ [.utf8 text]) = true) (child : Disk) :
    fromEntries exclude chunkSize path (SortedMap.insert (.utf8 text) child entries) [] =
      some children := by
  obtain ⟨scans, sortedChildren, same⟩ := (fromEntries_eq_some_iff sorted).mp scanned
  refine (fromEntries_eq_some_iff (sorted.insert _ _)).mpr
    ⟨fun entry member => ?_, sortedChildren, fun query => ?_⟩
  · rcases SortedMap.mem_insert member with rfl | old
    · exact Or.inl excluded
    · exact scans entry old
  · rw [SortedMap.lookup_insert, same]
    by_cases here : query = text
    · subst here
      rw [if_pos excluded, if_pos excluded]
    · rw [if_neg fun equal => here (OsStr.utf8.inj equal)]

/-- A name taken away. -/
theorem fromEntries_erase {path : RelPath} {entries : List (OsStr × Disk)}
    {children : List (Str × Node)} (sorted : SortedMap.Sorted entries)
    (scanned : fromEntries exclude chunkSize path entries [] = some children) (text : Str) :
    fromEntries exclude chunkSize path (SortedMap.erase (.utf8 text) entries) [] =
      some (SortedMap.erase text children) := by
  obtain ⟨scans, sortedChildren, same⟩ := (fromEntries_eq_some_iff sorted).mp scanned
  refine (fromEntries_eq_some_iff (sorted.erase _)).mpr
    ⟨fun entry member => scans entry (SortedMap.mem_erase member), sortedChildren.erase _,
      fun query => ?_⟩
  rw [SortedMap.lookup_erase, SortedMap.lookup_erase, same]
  by_cases here : query = text
  · subst here
    rw [if_pos rfl, if_pos rfl]
    exact (ite_self _).symm
  · rw [if_neg here, if_neg fun equal => here (OsStr.utf8.inj equal)]

/-! ## One file written -/

omit [Blake3] in
/-- A file stored under a name of a folder. -/
theorem store_single {name : OsStr} {data : Bytes} {entries : List (OsStr × Disk)}
    (writable : (Disk.dir entries).Writable [name]) :
    (Disk.dir entries).store [name] data = .dir (SortedMap.insert name (.file data) entries) := by
  have parents : (Disk.dir entries).createDirAll [name].dropLast = some (.dir entries) := rfl
  rw [Disk.store, Outcome.write, parents, Option.getD_some, Disk.write]
  cases found : SortedMap.lookup name entries with
  | none => rfl
  | some child =>
      cases child with
      | file old => rfl
      | dir inner =>
          refine absurd ?_ (writable.notDir inner)
          rw [Disk.at?_cons_dir, found, Option.bind_some, Disk.at?_nil]

omit [Blake3] in
/-- The folder below the first name of a path, made when it is missing. -/
theorem store_cons_cons {name second : OsStr} {later : RelPath} {data : Bytes}
    {entries : List (OsStr × Disk)} (sorted : SortedMap.Sorted entries)
    (writable : (Disk.dir entries).Writable (name :: second :: later)) :
    ∃ inner, (SortedMap.lookup name entries).getD (.dir []) = .dir inner ∧
      (Disk.dir inner).Writable (second :: later) ∧
        (Disk.dir entries).store (name :: second :: later) data =
          .dir (SortedMap.insert name ((Disk.dir inner).store (second :: later) data) entries) := by
  cases found : SortedMap.lookup name entries with
  | none =>
      have empty : (Disk.dir []).Writable (second :: later) := Disk.writable_cons_of_none later rfl
      refine ⟨[], rfl, empty, ?_⟩
      obtain ⟨written, success⟩ := Option.isSome_iff_exists.mp
        ((@Disk.write_createDirAll_isSome_iff _ data _).mpr empty)
      have made : (Disk.dir []).createDirAll (second :: later).dropLast =
          some (Disk.emptyDirs (second :: later).dropLast) := by
        cases later <;> rfl
      rw [made, Option.getD_some] at success
      have parents : (Disk.dir entries).createDirAll (name :: second :: later).dropLast =
          some (.dir (SortedMap.insert name (Disk.emptyDirs (second :: later).dropLast)
            entries)) := by
        rw [List.dropLast_cons_cons]
        simp only [Disk.createDirAll, found]
      simp only [Disk.store, Outcome.write, parents, made, Option.getD_some, success,
        Disk.write_cons_of_some (SortedMap.lookup_insert_self _ _ _), Option.map_some,
        sorted.insert_insert]
  | some child =>
      have inside := (Disk.writable_cons_iff found).mp writable
      cases child with
      | file old =>
          exact absurd (inside.free [] _ rfl (List.cons_ne_nil _ _)) (Option.some_ne_none old)
      | dir inner =>
          refine ⟨inner, rfl, inside, ?_⟩
          obtain ⟨written, success⟩ := Option.isSome_iff_exists.mp
            ((@Disk.write_createDirAll_isSome_iff _ data _).mpr inside)
          cases made : (Disk.dir inner).createDirAll (second :: later).dropLast with
          | none =>
              rw [made, Option.getD_none] at success
              have parents : (Disk.dir entries).createDirAll (name :: second :: later).dropLast =
                  none := by
                rw [List.dropLast_cons_cons]
                simp only [Disk.createDirAll, found, made, Option.map_none]
              simp only [Disk.store, Outcome.write, parents, made, Option.getD_none, success,
                Disk.write_cons_of_some found, Option.map_some]
          | some created =>
              rw [made, Option.getD_some] at success
              have parents : (Disk.dir entries).createDirAll (name :: second :: later).dropLast =
                  some (.dir (SortedMap.insert name created entries)) := by
                rw [List.dropLast_cons_cons]
                simp only [Disk.createDirAll, found, made, Option.map_some]
              simp only [Disk.store, Outcome.write, parents, made, Option.getD_some, success,
                Disk.write_cons_of_some (SortedMap.lookup_insert_self _ _ _), Option.map_some,
                sorted.insert_insert]

omit [Blake3] in
/-- A file stored in a proper folder leaves one. -/
theorem proper_store {path : RelPath} {data : Bytes} {entries : List (OsStr × Disk)}
    (named : ∀ name ∈ path, name.IsName) (proper : (Disk.dir entries).Proper)
    (writable : (Disk.dir entries).Writable path) :
    ∃ after, (Disk.dir entries).store path data = .dir after ∧ (Disk.dir after).Proper := by
  induction path generalizing entries with
  | nil => exact absurd (Disk.at?_nil _) (writable.notDir entries)
  | cons first rest ih =>
      rw [List.forall_mem_cons] at named
      cases proper with
      | dir _ sorted plain proper =>
          have inserted : ∀ child : Disk, child.Proper →
              (Disk.dir (SortedMap.insert first child entries)).Proper := by
            intro child childProper
            refine .dir _ (sorted.insert _ _) ?_ ?_
            · intro entry member
              rcases SortedMap.mem_insert member with rfl | old
              · exact named.1
              · exact plain entry old
            · intro entry member
              rcases SortedMap.mem_insert member with rfl | old
              · exact childProper
              · exact proper entry old
          cases rest with
          | nil => exact ⟨_, store_single writable, inserted _ (.file data)⟩
          | cons second later =>
              obtain ⟨inner, folder, writable, stored⟩ :=
                @store_cons_cons _ _ _ data _ sorted writable
              have innerProper : (Disk.dir inner).Proper := by
                rw [← folder]
                cases found : SortedMap.lookup first entries with
                | none => exact .dir _ .nil (List.forall_mem_nil _) (List.forall_mem_nil _)
                | some child => exact proper _ (SortedMap.mem_of_lookup found)
              obtain ⟨after, inside, afterProper⟩ := ih named.2 innerProper writable
              exact ⟨_, stored, inserted _ (inside ▸ afterProper)⟩

/-- What stands in a folder was scanned, where nothing on the way is excluded. -/
theorem exists_node_of_at? {path : RelPath} {names : List Str} {disk child : Disk} {tree : Node}
    (proper : disk.Proper) (scanned : fromPathConfigured exclude chunkSize path disk = some tree)
    (included : ∀ above, above ≠ [] → above <+: names →
      exclude (path ++ above.map OsStr.utf8) = false)
    (stands : disk.at? (names.map OsStr.utf8) = some child) :
    ∃ node, Merkle.findNames names tree = some node ∧
      fromPathConfigured exclude chunkSize (path ++ names.map OsStr.utf8) child = some node := by
  induction names generalizing path disk tree with
  | nil =>
      rw [List.map_nil, Disk.at?_nil] at stands
      cases stands
      exact ⟨tree, rfl, by rwa [List.map_nil, List.append_nil]⟩
  | cons first rest ih =>
      cases disk with
      | file data => exact absurd stands (Option.some_ne_none child).symm
      | dir entries =>
          rw [fromPathConfigured] at scanned
          obtain ⟨children, inside, rfl⟩ := Option.map_eq_some_iff.mp scanned
          rw [List.map_cons, Disk.at?_cons_dir] at stands
          obtain ⟨entry, found, stands⟩ := Option.bind_eq_some_iff.mp stands
          have here : exclude (path ++ [.utf8 first]) = false :=
            included [first] (List.cons_ne_nil _ _) (List.prefix_append [first] rest)
          cases proper with
          | dir _ sorted named proper =>
              have kept := lookup_fromEntries first sorted inside here
              rw [found] at kept
              obtain ⟨node, built, there⟩ := kept
              obtain ⟨below, deep, scannedBelow⟩ := ih (proper _ (SortedMap.mem_of_lookup found))
                built (fun above nonempty reaches => by
                  have whole := included (first :: above) (List.cons_ne_nil _ _)
                    (List.cons_prefix_cons.mpr ⟨rfl, reaches⟩)
                  rwa [List.append_assoc]) stands
              refine ⟨below, ?_, ?_⟩
              · rw [Merkle.dirNode, Merkle.findNames_cons_directory, there, Option.bind_some, deep]
              · rwa [List.append_assoc] at scannedBelow

/-- **A scan after one file was stored** is the old tree with the node of the file inserted. -/
theorem scan_store {path : RelPath} {names : List Str} {data : Bytes}
    {entries : List (OsStr × Disk)} {tree : Node} (nonempty : names ≠ [])
    (proper : (Disk.dir entries).Proper)
    (scanned : fromPathConfigured exclude chunkSize path (.dir entries) = some tree)
    (included : ∀ above, above ≠ [] → above <+: names →
      exclude (path ++ above.map OsStr.utf8) = false)
    (writable : (Disk.dir entries).Writable (names.map OsStr.utf8)) :
    fromPathConfigured exclude chunkSize path
        ((Disk.dir entries).store (names.map OsStr.utf8) data) =
      some (Merkle.insertRecursive names (Merkle.fileNodeWithChunkSize data chunkSize) tree) := by
  induction names generalizing path entries tree with
  | nil => exact absurd rfl nonempty
  | cons first rest ih =>
      rw [fromPathConfigured] at scanned
      obtain ⟨children, inside, rfl⟩ := Option.map_eq_some_iff.mp scanned
      have here : exclude (path ++ [.utf8 first]) = false :=
        included [first] (List.cons_ne_nil _ _) (List.prefix_append [first] rest)
      cases proper with
      | dir _ sorted named proper =>
          cases rest with
          | nil =>
              rw [List.map_singleton, store_single writable, fromPathConfigured,
                fromEntries_insert sorted inside here rfl]
              rfl
          | cons second later =>
              obtain ⟨inner, folder, writable, stored⟩ :=
                @store_cons_cons _ _ _ data _ sorted writable
              -- what was scanned under the first name, or an empty folder
              have below : (Disk.dir inner).Proper ∧
                  fromPathConfigured exclude chunkSize (path ++ [.utf8 first]) (.dir inner) =
                    some ((SortedMap.lookup first children).getD (Merkle.dirNode [])) := by
                have kept := lookup_fromEntries first sorted inside here
                cases found : SortedMap.lookup (OsStr.utf8 first) entries with
                | none =>
                    rw [found] at folder kept
                    cases folder
                    rw [show SortedMap.lookup first children = none from kept]
                    exact ⟨.dir _ .nil (List.forall_mem_nil _) (List.forall_mem_nil _), rfl⟩
                | some child =>
                    rw [found] at folder kept
                    obtain rfl : child = .dir inner := folder
                    obtain ⟨node, built, there⟩ := kept
                    rw [there, built]
                    exact ⟨proper _ (SortedMap.mem_of_lookup found), rfl⟩
              have after := ih (List.cons_ne_nil _ _) below.1 below.2
                (fun above nonempty reaches => by
                  have whole := included (first :: above) (List.cons_ne_nil _ _)
                    (List.cons_prefix_cons.mpr ⟨rfl, reaches⟩)
                  rwa [List.append_assoc]) writable
              rw [List.map_cons] at after
              rw [List.map_cons, List.map_cons, stored, fromPathConfigured,
                fromEntries_insert sorted inside here after]
              rfl

/-! ## One file removed -/

/-- **A scan after one file was removed** is the old tree with its path removed. -/
theorem scan_removeFile {path : RelPath} {names : List Str} {disk removed : Disk} {tree : Node}
    (proper : disk.Proper) (scanned : fromPathConfigured exclude chunkSize path disk = some tree)
    (success : disk.removeFile (names.map OsStr.utf8) = some removed) :
    fromPathConfigured exclude chunkSize path removed =
      some (Merkle.removeRecursive names tree).2 := by
  induction names generalizing path disk removed tree with
  | nil => exact absurd success (Option.some_ne_none removed).symm
  | cons first rest ih =>
      cases disk with
      | file data => exact absurd success (Option.some_ne_none removed).symm
      | dir entries =>
          rw [fromPathConfigured] at scanned
          obtain ⟨children, inside, rfl⟩ := Option.map_eq_some_iff.mp scanned
          cases proper with
          | dir _ sorted named proper =>
              rw [List.map_cons, Disk.removeFile] at success
              cases found : SortedMap.lookup (OsStr.utf8 first) entries with
              | none =>
                  rw [found] at success
                  exact absurd success (Option.some_ne_none removed).symm
              | some child =>
                  rw [found] at success
                  obtain ⟨_, sortedChildren, lookups⟩ := (fromEntries_eq_some_iff sorted).mp inside
                  cases child with
                  | file data =>
                      cases rest with
                      | nil =>
                          obtain rfl : Disk.dir (SortedMap.erase (.utf8 first) entries) = removed :=
                            Option.some.inj success
                          rw [fromPathConfigured, fromEntries_erase sorted inside, Option.map_some]
                          refine congrArg some ?_
                          rcases Merkle.removeRecursive_single first (Merkle.dirHash children)
                            children with erased | ⟨missing, same⟩
                          · exact erased.symm
                          · rw [sortedChildren.erase_of_lookup missing]
                            exact same.symm
                      | cons second later => exact absurd success (Option.some_ne_none removed).symm
                  | dir inner =>
                      obtain ⟨child, gone, rfl⟩ := Option.map_eq_some_iff.mp success
                      have deeper : rest ≠ [] := by
                        rintro rfl
                        exact absurd gone (Option.some_ne_none child).symm
                      obtain ⟨second, later, rfl⟩ := List.exists_cons_of_ne_nil deeper
                      have lookup := lookups first
                      split at lookup
                      · rename_i excluded
                        rw [fromPathConfigured,
                          fromEntries_insert_of_excluded sorted inside excluded]
                        simp only [Merkle.dirNode, Merkle.removeRecursive, lookup]
                        rfl
                      · rename_i included
                        have here := lookup_fromEntries first sorted inside
                          (Bool.eq_false_iff.mpr included)
                        rw [found] at here
                        obtain ⟨node, built, there⟩ := here
                        have after := ih (proper _ (SortedMap.mem_of_lookup found)) built gone
                        rw [fromPathConfigured, fromEntries_insert sorted inside
                          (Bool.eq_false_iff.mpr included) after, Option.map_some]
                        simp only [Merkle.dirNode, Merkle.removeRecursive, there]
                        split
                        · rfl
                        · rename_i nothing
                          have inOrder := Merkle.ordered_fromPathConfigured built
                          rw [Merkle.removeRecursive_of_false inOrder
                            (Bool.eq_false_iff.mpr nothing), sortedChildren.insert_of_lookup there]

end Trees

/-! ## The index -/

/-- Every name of a folder is text. -/
def Disk.Texts (disk : Disk) : Prop :=
  ∀ path, (disk.at? path).isSome = true → ∃ names : List Str, path = names.map OsStr.utf8

theorem Disk.Texts.child {entries : List (OsStr × Disk)} (texts : (Disk.dir entries).Texts)
    {name : OsStr} {child : Disk} (found : SortedMap.lookup name entries = some child) :
    (∃ text, name = .utf8 text) ∧ child.Texts := by
  have below : ∀ path, (child.at? path).isSome = true →
      ∃ names : List Str, name :: path = names.map OsStr.utf8 := by
    intro path there
    refine texts (name :: path) ?_
    rwa [Disk.at?_cons_dir, found, Option.bind_some]
  constructor
  · obtain ⟨names, same⟩ := below [] (by rw [Disk.at?_nil]; rfl)
    obtain ⟨text, rest, rfl, rfl, _⟩ := List.map_eq_cons_iff.mp same.symm
    exact ⟨text, rfl⟩
  · intro path there
    obtain ⟨names, same⟩ := below path there
    obtain ⟨text, rest, rfl, _, rfl⟩ := List.map_eq_cons_iff.mp same.symm
    exact ⟨rest, rfl⟩

theorem Disk.texts_file (data : Bytes) : (Disk.file data).Texts := by
  intro path there
  cases path with
  | nil => exact ⟨[], rfl⟩
  | cons name rest => exact absurd there Bool.false_ne_true

theorem Disk.texts_dir {entries : List (OsStr × Disk)}
    (texts : ∀ entry ∈ entries, (∃ text, entry.1 = .utf8 text) ∧ entry.2.Texts) :
    (Disk.dir entries).Texts := by
  intro path there
  cases path with
  | nil => exact ⟨[], rfl⟩
  | cons name rest =>
      rw [Disk.at?_cons_dir, Option.isSome_bind, Option.any_eq_true] at there
      obtain ⟨child, found, there⟩ := there
      obtain ⟨⟨text, rfl⟩, inside⟩ := texts _ (SortedMap.mem_of_lookup found)
      obtain ⟨names, rfl⟩ := inside rest there
      exact ⟨text :: names, rfl⟩

section Build

variable [Blake3]

/-- **A folder of names that are text** can be scanned. -/
theorem exists_scan {exclude : RelPath → Bool} {chunkSize : Nat} {path : RelPath} {disk : Disk}
    (proper : disk.Proper) (texts : disk.Texts) :
    ∃ tree, fromPathConfigured exclude chunkSize path disk = some tree := by
  induction proper generalizing path with
  | file data => exact ⟨_, rfl⟩
  | dir entries sorted named proper ih =>
      have scans : ∀ entry ∈ entries, Scans exclude chunkSize path entry := by
        rintro ⟨name, child⟩ member
        obtain ⟨⟨text, rfl⟩, inside⟩ := texts.child (sorted.lookup_of_mem member)
        obtain ⟨node, scanned⟩ := ih _ member inside
        exact Or.inr ⟨text, node, rfl, scanned⟩
      obtain ⟨children, inside⟩ :=
        Option.isSome_iff_exists.mp ((@fromEntries_isSome_iff _ _ _ _ _ []).mpr scans)
      exact ⟨_, by rw [fromPathConfigured, inside]; rfl⟩

/-- **Incremental indexing equals a rebuild.** -/
theorem incremental_eq_rebuild {entries : List (OsStr × Disk)} (proper : (Disk.dir entries).Proper)
    (texts : (Disk.dir entries).Texts) (localPeer : PeerId) (patterns : List Str)
    (storage : StorageConfig) (now : Nat) :
    ∃ index, SyncIndex.build (.dir entries) localPeer patterns storage now = some index ∧
      (∀ (names : List Str) (data : Bytes) (later : Nat),
        shouldExclude (names.map OsStr.utf8) patterns = false →
          (Disk.dir entries).Writable (names.map OsStr.utf8) →
            ∃ changed rebuilt,
              index.localFileChanged (names.map OsStr.utf8)
                  (((Disk.dir entries).store (names.map OsStr.utf8) data).read
                    (names.map OsStr.utf8)) later = some changed ∧
                SyncIndex.build ((Disk.dir entries).store (names.map OsStr.utf8) data) localPeer
                    patterns storage later = some rebuilt ∧
                  changed.tree = rebuilt.tree) ∧
      ∀ (path : RelPath) (data : Bytes) (later : Nat), (Disk.dir entries).read path = some data →
        ∃ removed rebuilt, (Disk.dir entries).removeFile path = some removed ∧
          SyncIndex.build removed localPeer patterns storage later = some rebuilt ∧
            (index.localFileDeleted path later).tree = rebuilt.tree := by
  obtain ⟨tree, scanned⟩ := @exists_scan _ (fun path => shouldExclude path patterns)
    storage.chunkSize [] _ proper texts
  refine ⟨_, by rw [SyncIndex.build, scanned]; rfl, ?_, ?_⟩
  · intro names data later included writable
    have nonempty : names ≠ [] := by
      rintro rfl
      exact writable.notDir entries (Disk.at?_nil _)
    have stored : fromPathConfigured (fun path => shouldExclude path patterns) storage.chunkSize []
        ((Disk.dir entries).store (names.map OsStr.utf8) data) = _ :=
      scan_store nonempty proper scanned (fun above _ reaches =>
        shouldExclude_of_prefix included (utf8_prefix_iff.mpr reaches)) writable
    rw [Disk.read_store_self writable]
    refine ⟨_, _, rfl, by rw [SyncIndex.build, stored]; rfl, ?_⟩
    simp only [SyncIndex.ticked, Merkle.updateFileWithChunkSize, Merkle.insertNode,
      Merkle.pathNames_map_utf8]
  · intro path data later present
    have nonempty : path ≠ [] := by
      rintro rfl
      exact absurd present (Option.some_ne_none data).symm
    obtain ⟨removed, success⟩ :=
      Option.isSome_iff_exists.mp (Disk.removeFile_isSome_of_read nonempty present)
    obtain ⟨names, rfl⟩ := texts path (Disk.pathExists_of_read present)
    have rescanned := scan_removeFile proper scanned success
    refine ⟨removed, _, success, by rw [SyncIndex.build, rescanned]; rfl, ?_⟩
    rw [SyncIndex.localFileDeleted, Merkle.removePath, Merkle.pathNames_map_utf8]

end Build

attribute [local instance] Merkle.keepsLength

open Merkle (nested proper_nested)

/-- A file written into a new folder next to the one there is, and the file there is removed. -/
theorem incremental_eq_rebuild_nested :
    ∃ index, SyncIndex.build nested ⟨List.replicate 8 1, rfl⟩ [] { chunkSize := 2 } 0 = some index ∧
      (∃ changed rebuilt,
        index.localFileChanged [.utf8 ['b'], .utf8 ['c']] (some [7]) 1 = some changed ∧
          SyncIndex.build (nested.store [.utf8 ['b'], .utf8 ['c']] [7]) ⟨List.replicate 8 1, rfl⟩ []
              { chunkSize := 2 } 1 = some rebuilt ∧ changed.tree = rebuilt.tree) ∧
        ∃ removed rebuilt, nested.removeFile [.utf8 ['a'], .utf8 ['b']] = some removed ∧
          SyncIndex.build removed ⟨List.replicate 8 1, rfl⟩ [] { chunkSize := 2 } 1 = some rebuilt ∧
            (index.localFileDeleted [.utf8 ['a'], .utf8 ['b']] 1).tree = rebuilt.tree := by
  have texts : nested.Texts := Disk.texts_dir (List.forall_mem_singleton.mpr
    ⟨⟨_, rfl⟩, Disk.texts_dir (List.forall_mem_singleton.mpr ⟨⟨_, rfl⟩, Disk.texts_file _⟩)⟩)
  obtain ⟨index, built, written, removed⟩ := incremental_eq_rebuild proper_nested texts
    ⟨List.replicate 8 1, rfl⟩ [] { chunkSize := 2 } 0
  exact ⟨index, built, written [['b'], ['c']] [7] 1 rfl (Disk.writable_cons_of_none _ rfl),
    removed _ [1, 2, 3] 1 rfl⟩

end P2Sync
