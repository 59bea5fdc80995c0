import P2Sync.Core.Index
import P2Sync.Core.Mirror

/-!
# The tree of a scanned folder

A scan builds a tree out of file nodes and directory nodes with names in order
(`Node.Scanned`). At a path that no pattern excludes the tree shows what the folder has
there (`shows_fromPathConfigured`), so a tree scanned without patterns is a picture of the
folder (`mirrors_build`).
-/

set_option autoImplicit false

namespace P2Sync

variable [Blake3]

/-- A tree as a scan builds it. -/
inductive Node.Scanned (chunkSize : Nat) : Node → Prop where
  | file (data : Bytes) : Scanned chunkSize (Merkle.fileNodeWithChunkSize data chunkSize)
  | directory (children : List (Str × Node)) (sorted : SortedMap.Sorted children)
      (named : ∀ child ∈ children, (OsStr.utf8 child.1).IsName)
      (scanned : ∀ child ∈ children, Scanned chunkSize child.2) :
      Scanned chunkSize (Merkle.dirNode children)

theorem Node.Scanned.proper {chunkSize : Nat} {tree : Node} (scanned : tree.Scanned chunkSize) :
    tree.Proper := by
  induction scanned with
  | file data => exact .file _ _ _
  | directory children sorted named _ ih => exact .directory _ _ sorted named ih

variable {exclude : RelPath → Bool} {chunkSize : Nat}

/-! ## The shape of the tree -/

mutual

theorem scanned_fromPathConfigured {path : RelPath} {tree : Node} : ∀ {disk : Disk},
    disk.Proper → fromPathConfigured exclude chunkSize path disk = some tree →
      tree.Scanned chunkSize
  | .file data, _, scanned => by
      rw [fromPathConfigured] at scanned
      cases scanned
      exact .file data
  | .dir entries, proper, scanned => by
      rw [fromPathConfigured] at scanned
      obtain ⟨children, inside, rfl⟩ := Option.map_eq_some_iff.mp scanned
      cases proper with
      | dir _ sorted named proper =>
          obtain ⟨sorted, named, scanned⟩ := scanned_fromEntries named proper inside .nil
            (fun _ absent => absurd absent List.not_mem_nil)
            fun _ absent => absurd absent List.not_mem_nil
          exact .directory children sorted named scanned

theorem scanned_fromEntries {path : RelPath} {result : List (Str × Node)} :
    ∀ {entries : List (OsStr × Disk)} {children : List (Str × Node)},
      (∀ entry ∈ entries, entry.1.IsName) → (∀ entry ∈ entries, entry.2.Proper) →
        fromEntries exclude chunkSize path entries children = some result →
          SortedMap.Sorted children → (∀ child ∈ children, (OsStr.utf8 child.1).IsName) →
            (∀ child ∈ children, child.2.Scanned chunkSize) →
              SortedMap.Sorted result ∧ (∀ child ∈ result, (OsStr.utf8 child.1).IsName) ∧
                ∀ child ∈ result, child.2.Scanned chunkSize
  | [], _, _, _, finished, sorted, named, scanned => by
      rw [fromEntries] at finished
      cases finished
      exact ⟨sorted, named, scanned⟩
  | (name, child) :: rest, children, names, propers, going, sorted, named, scanned => by
      have names' := fun entry member => names entry (List.mem_cons_of_mem (name, child) member)
      have propers' := fun entry member => propers entry (List.mem_cons_of_mem (name, child) member)
      rcases fromEntries_cons_cases going with ⟨_, later⟩ | ⟨text, node, _, isText, inside, later⟩
      · exact scanned_fromEntries names' propers' later sorted named scanned
      · have isName : (OsStr.utf8 text).IsName := isText ▸ names _ List.mem_cons_self
        have node := scanned_fromPathConfigured (propers (name, child) List.mem_cons_self) inside
        refine scanned_fromEntries names' propers' later (sorted.insert text _) ?_ ?_
        · intro child member
          rcases SortedMap.mem_insert member with rfl | old
          · exact isName
          · exact named child old
        · intro child member
          rcases SortedMap.mem_insert member with rfl | old
          · exact node
          · exact scanned child old

end

/-! ## What the tree shows -/

/-- What is shown depends on what is found. -/
theorem Merkle.Shows.congr {chunkSize : Nat} {tree tree' : Node} {names names' : List Str}
    {content : Option Bytes} (shows : Merkle.Shows chunkSize tree names content)
    (same : Merkle.findNames names' tree' = Merkle.findNames names tree) :
    Merkle.Shows chunkSize tree' names' content := by
  cases content with
  | some data => exact same.trans shows
  | none =>
      intro hash size chunks
      rw [same]
      exact shows hash size chunks

/-- The scan of a folder has at a name what it scanned there. -/
theorem lookup_fromEntries {path : RelPath} {result : List (Str × Node)} (text : Str)
    {entries : List (OsStr × Disk)} {children : List (Str × Node)}
    (sorted : SortedMap.Sorted entries)
    (scanned : fromEntries exclude chunkSize path entries children = some result)
    (included : exclude (path ++ [.utf8 text]) = false) :
    match SortedMap.lookup (.utf8 text) entries with
    | some child => ∃ node, fromPathConfigured exclude chunkSize (path ++ [.utf8 text]) child =
        some node ∧ SortedMap.lookup text result = some node
    | none => SortedMap.lookup text result = SortedMap.lookup text children := by
  induction entries generalizing children with
  | nil =>
      rw [fromEntries] at scanned
      cases scanned
      rfl
  | cons entry rest ih =>
      obtain ⟨name, child⟩ := entry
      have tail := (List.pairwise_cons.mp sorted).2
      rw [SortedMap.lookup_cons]
      rcases fromEntries_cons_cases scanned with
        ⟨excluded, later⟩ | ⟨text', node, _, rfl, inside, later⟩
      · have apart : OsStr.utf8 text ≠ name := by
          rintro rfl
          exact absurd (included.symm.trans excluded) Bool.false_ne_true
        rw [if_neg apart]
        exact ih tail later
      · have kept := ih tail later
        by_cases here : text = text'
        · subst here
          rw [sorted.lookup_tail] at kept
          rw [if_pos rfl]
          exact ⟨node, inside, kept.trans (SortedMap.lookup_insert_self _ _ _)⟩
        · rw [if_neg fun same => here (OsStr.utf8.inj same)]
          revert kept
          cases SortedMap.lookup (.utf8 text) rest with
          | some child => exact id
          | none => exact fun kept => kept.trans (SortedMap.lookup_insert_of_ne here _ _)

/-- **A scanned tree shows the folder** at a path that is not excluded. -/
theorem shows_fromPathConfigured {path : RelPath} {names : List Str} {disk : Disk} {tree : Node}
    (proper : disk.Proper) (scanned : fromPathConfigured exclude chunkSize path disk = some tree)
    (included : ∀ above, above ≠ [] → above <+: names →
      exclude (path ++ above.map OsStr.utf8) = false) :
    Merkle.Shows chunkSize tree names (disk.read (names.map OsStr.utf8)) := by
  induction names generalizing path disk tree with
  | nil =>
      cases disk with
      | file data =>
          rw [fromPathConfigured] at scanned
          cases scanned
          rfl
      | dir entries =>
          rw [fromPathConfigured] at scanned
          obtain ⟨children, _, rfl⟩ := Option.map_eq_some_iff.mp scanned
          exact fun hash size chunks found => absurd found (by simp [Merkle.dirNode])
  | cons first rest ih =>
      cases disk with
      | file data =>
          rw [fromPathConfigured] at scanned
          cases scanned
          exact fun hash size chunks found => absurd found.symm (Option.some_ne_none _)
      | dir entries =>
          rw [fromPathConfigured] at scanned
          obtain ⟨children, inside, rfl⟩ := Option.map_eq_some_iff.mp scanned
          cases proper with
          | dir _ sorted named proper =>
              have here := lookup_fromEntries first sorted inside
                (included [first] (List.cons_ne_nil _ _) ⟨rest, rfl⟩)
              rw [List.map_cons, Disk.read_cons_dir]
              cases found : SortedMap.lookup (OsStr.utf8 first) entries with
              | none =>
                  rw [found] at here
                  have missing : SortedMap.lookup first children = none := here
                  intro hash size chunks
                  rw [Merkle.dirNode, Merkle.findNames_cons_directory, missing]
                  exact (Option.some_ne_none _).symm
              | some child =>
                  rw [found] at here
                  obtain ⟨node, built, here⟩ := here
                  have shown := ih (proper _ (SortedMap.mem_of_lookup found)) built
                    fun above nonempty reaches => by
                      have whole := included (first :: above) (List.cons_ne_nil _ _)
                        (List.cons_prefix_cons.mpr ⟨rfl, reaches⟩)
                      rwa [List.append_assoc]
                  rw [Option.bind_some]
                  refine shown.congr ?_
                  rw [Merkle.dirNode, Merkle.findNames_cons_directory, here, Option.bind_some]

/-- A scan passes excluded names by. -/
theorem lookup_fromEntries_of_excluded {path : RelPath} {result : List (Str × Node)} {text : Str}
    {entries : List (OsStr × Disk)} {children : List (Str × Node)}
    (scanned : fromEntries exclude chunkSize path entries children = some result)
    (excluded : exclude (path ++ [.utf8 text]) = true) :
    SortedMap.lookup text result = SortedMap.lookup text children := by
  induction entries generalizing children with
  | nil =>
      rw [fromEntries] at scanned
      cases scanned
      rfl
  | cons entry rest ih =>
      obtain ⟨name, child⟩ := entry
      rcases fromEntries_cons_cases scanned with ⟨_, later⟩ | ⟨text', node, included, rfl, _, later⟩
      · exact ih later
      · have apart : text ≠ text' := by
          rintro rfl
          exact absurd (included.symm.trans excluded) Bool.false_ne_true
        exact (ih later).trans (SortedMap.lookup_insert_of_ne apart _ _)

/-- **A scanned tree has nothing** at and below an excluded path. -/
theorem findNames_fromPathConfigured_of_excluded {path : RelPath} {names above : List Str}
    {disk : Disk} {tree : Node} (proper : disk.Proper)
    (scanned : fromPathConfigured exclude chunkSize path disk = some tree) (nonempty : above ≠ [])
    (reaches : above <+: names) (excluded : exclude (path ++ above.map OsStr.utf8) = true) :
    Merkle.findNames names tree = none := by
  induction names generalizing path above disk tree with
  | nil => exact absurd (List.prefix_nil.mp reaches) nonempty
  | cons first rest ih =>
      obtain ⟨head, below, rfl⟩ := List.exists_cons_of_ne_nil nonempty
      obtain ⟨rfl, inner⟩ := List.cons_prefix_cons.mp reaches
      cases disk with
      | file data =>
          rw [fromPathConfigured] at scanned
          cases scanned
          rfl
      | dir entries =>
          rw [fromPathConfigured] at scanned
          obtain ⟨children, inside, rfl⟩ := Option.map_eq_some_iff.mp scanned
          rw [Merkle.dirNode, Merkle.findNames_cons_directory]
          by_cases here : exclude (path ++ [.utf8 head]) = true
          · rw [lookup_fromEntries_of_excluded inside here]
            rfl
          · cases proper with
            | dir _ sorted named proper =>
                have kept := lookup_fromEntries head sorted inside (Bool.eq_false_iff.mpr here)
                cases found : SortedMap.lookup (OsStr.utf8 head) entries with
                | none =>
                    rw [found] at kept
                    rw [show SortedMap.lookup head children = none from kept]
                    rfl
                | some child =>
                    rw [found] at kept
                    obtain ⟨node, built, there⟩ := kept
                    rw [there, Option.bind_some]
                    have below' : below ≠ [] := by
                      rintro rfl
                      exact here excluded
                    refine ih (proper _ (SortedMap.mem_of_lookup found)) built below' inner ?_
                    rwa [List.append_assoc]

/-- A scan fails at a name that is not text. -/
theorem exists_text_of_fromEntries {path : RelPath} {result : List (Str × Node)} {name : OsStr}
    {child : Disk} {entries : List (OsStr × Disk)} {children : List (Str × Node)}
    (member : (name, child) ∈ entries)
    (scanned : fromEntries exclude chunkSize path entries children = some result)
    (included : exclude (path ++ [name]) = false) :
    ∃ text node, name = .utf8 text ∧
      fromPathConfigured exclude chunkSize (path ++ [name]) child = some node := by
  induction entries generalizing children with
  | nil => exact absurd member List.not_mem_nil
  | cons entry rest ih =>
      obtain ⟨name', child'⟩ := entry
      rcases fromEntries_cons_cases scanned with
        ⟨excluded, later⟩ | ⟨text, node, _, isText, inside, later⟩
      · rcases List.mem_cons.mp member with here | after
        · cases here
          exact absurd (included.symm.trans excluded) Bool.false_ne_true
        · exact ih after later
      · rcases List.mem_cons.mp member with here | after
        · cases here
          exact ⟨text, node, isText, inside⟩
        · exact ih after later

/-- A file that no pattern excludes has a path of names. -/
theorem exists_names_of_read {path query : RelPath} {disk : Disk} {tree : Node} {data : Bytes}
    (scanned : fromPathConfigured exclude chunkSize path disk = some tree)
    (included : ∀ above, above ≠ [] → above <+: query → exclude (path ++ above) = false)
    (here : disk.read query = some data) :
    ∃ names : List Str, query = names.map OsStr.utf8 := by
  induction query generalizing path disk tree with
  | nil => exact ⟨[], rfl⟩
  | cons name rest ih =>
      cases disk with
      | file content => exact absurd here (Option.some_ne_none data).symm
      | dir entries =>
          rw [fromPathConfigured] at scanned
          obtain ⟨children, inside, rfl⟩ := Option.map_eq_some_iff.mp scanned
          rw [Disk.read_cons_dir] at here
          obtain ⟨child, found, below⟩ := Option.bind_eq_some_iff.mp here
          obtain ⟨text, node, rfl, built⟩ := exists_text_of_fromEntries
            (SortedMap.mem_of_lookup found) inside (included _ (List.cons_ne_nil _ _) ⟨rest, rfl⟩)
          obtain ⟨names, rfl⟩ := ih built (fun above _ reaches => by
            have whole := included (.utf8 text :: above) (List.cons_ne_nil _ _)
              (List.cons_prefix_cons.mpr ⟨rfl, reaches⟩)
            rwa [List.append_assoc]) below
          exact ⟨text :: names, rfl⟩

/-- **A scan without exclusions mirrors its folder.** -/
theorem mirrors_of_scan {disk : Disk} {tree : Node} (proper : disk.Proper)
    (scanned : fromPathConfigured (fun _ => false) chunkSize [] disk = some tree) :
    Merkle.Mirrors chunkSize tree disk :=
  ⟨(scanned_fromPathConfigured proper scanned).proper,
    fun _ _ here => exists_names_of_read scanned (fun _ _ _ => rfl) here,
    fun _ => shows_fromPathConfigured proper scanned fun _ _ _ => rfl⟩

/-- A new index without patterns mirrors its folder. -/
theorem mirrors_build {disk : Disk} {localPeer : PeerId} {storage : StorageConfig} {now : Nat}
    {index : SyncIndex} (proper : disk.Proper)
    (built : SyncIndex.build disk localPeer [] storage now = some index) :
    Merkle.Mirrors storage.chunkSize index.tree disk := by
  obtain ⟨tree, scanned, rfl⟩ := Option.map_eq_some_iff.mp built
  exact mirrors_of_scan proper scanned

end P2Sync
