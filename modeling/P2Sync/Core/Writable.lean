import P2Sync.Core.Disk

/-!
# Where a file can be written

A fetch creates the parents of its path as far as that goes and then writes the file.
The write succeeds when no file stands above the path and no folder at it
(`write_createDirAll_isSome_iff`). What stands at a path is left alone by writes and
parents of paths that are neither above nor below it (`at?_store`).
-/

set_option autoImplicit false

namespace P2Sync

namespace Disk

/-- No file stands above the path, and no folder at it. -/
structure Writable (path : RelPath) (disk : Disk) : Prop where
  free : ∀ above below, path = above ++ below → below ≠ [] → disk.read above = none
  notDir : ∀ entries, disk.at? path ≠ some (.dir entries)

/-- The folder after the parents of a file were created and the file was written, as far
as each succeeds. -/
def store (path : RelPath) (data : Bytes) (disk : Disk) : Disk :=
  (Outcome.succeeds.write path data ((disk.createDirAll path.dropLast).getD disk)).2

@[simp] theorem at?_nil (disk : Disk) : disk.at? [] = some disk := by cases disk <;> rfl

theorem at?_cons_dir (name : OsStr) (rest : RelPath) (entries : List (OsStr × Disk)) :
    (Disk.dir entries).at? (name :: rest) =
      (SortedMap.lookup name entries).bind fun child => child.at? rest := by
  rw [at?]
  cases SortedMap.lookup name entries <;> rfl

theorem at?_insert (name : OsStr) (child : Disk) (first : OsStr) (rest : RelPath)
    (entries : List (OsStr × Disk)) :
    (Disk.dir (SortedMap.insert name child entries)).at? (first :: rest) =
      if first = name then child.at? rest else (Disk.dir entries).at? (first :: rest) := by
  rw [at?_cons_dir, at?_cons_dir, SortedMap.lookup_insert]
  split <;> rfl

theorem at?_emptyDirs {path query : RelPath} (notAbove : ¬ query <+: path) :
    (emptyDirs path).at? query = none := by
  induction path generalizing query with
  | nil =>
      cases query with
      | nil => exact absurd List.prefix_rfl notAbove
      | cons first more => rfl
  | cons name rest ih =>
      cases query with
      | nil => exact absurd List.nil_prefix notAbove
      | cons first more =>
          rw [emptyDirs, at?_cons_dir, SortedMap.lookup_cons]
          split
          · rename_i same
            rw [Option.bind_some]
            exact ih fun reaches => notAbove (List.cons_prefix_cons.mpr ⟨same, reaches⟩)
          · rfl

/-! ## What is left alone -/

/-- Creating folders changes what stands at them and nothing else. -/
theorem at?_createDirAll {path query : RelPath} {disk created : Disk}
    (notAbove : ¬ query <+: path) (success : disk.createDirAll path = some created) :
    created.at? query = disk.at? query := by
  induction path generalizing disk created query with
  | nil =>
      cases disk with
      | file data => exact absurd success (Option.some_ne_none _).symm
      | dir entries =>
          obtain rfl := Option.some.inj success
          rfl
  | cons name rest ih =>
      cases disk with
      | file data => exact absurd success (Option.some_ne_none _).symm
      | dir entries =>
          cases query with
          | nil => exact absurd List.nil_prefix notAbove
          | cons first more =>
              have below : first = name → ¬ more <+: rest := fun same reaches =>
                notAbove (List.cons_prefix_cons.mpr ⟨same, reaches⟩)
              cases found : SortedMap.lookup name entries with
              | some child =>
                  simp only [createDirAll, found, Option.map_eq_some_iff] at success
                  obtain ⟨child', childCreated, rfl⟩ := success
                  rw [at?_insert]
                  split
                  · rename_i same
                    rw [ih (below same) childCreated, same, at?_cons_dir, found]
                    rfl
                  · rfl
              | none =>
                  simp only [createDirAll, found, Option.some.injEq] at success
                  subst success
                  rw [at?_insert]
                  split
                  · rename_i same
                    rw [at?_emptyDirs (below same), same, at?_cons_dir, found]
                    rfl
                  · rfl

/-- A write leaves alone what is neither above nor below its path. -/
theorem at?_write {path query : RelPath} {data : Bytes} {disk written : Disk}
    (notAbove : ¬ query <+: path) (notBelow : ¬ path <+: query)
    (success : disk.write path data = some written) : written.at? query = disk.at? query := by
  induction path generalizing disk written query with
  | nil => exact absurd List.nil_prefix notBelow
  | cons name rest ih =>
      cases disk with
      | file old => exact absurd success (Option.some_ne_none _).symm
      | dir entries =>
          cases query with
          | nil => exact absurd List.nil_prefix notAbove
          | cons first more =>
              have above : first = name → ¬ more <+: rest := fun same reaches =>
                notAbove (List.cons_prefix_cons.mpr ⟨same, reaches⟩)
              have below : first = name → ¬ rest <+: more := fun same reaches =>
                notBelow (List.cons_prefix_cons.mpr ⟨same.symm, reaches⟩)
              cases found : SortedMap.lookup name entries with
              | some child =>
                  rw [write_cons_of_some found, Option.map_eq_some_iff] at success
                  obtain ⟨child', childWritten, rfl⟩ := success
                  rw [at?_insert]
                  split
                  · rename_i same
                    rw [ih (above same) (below same) childWritten, same, at?_cons_dir, found]
                    rfl
                  · rfl
              | none =>
                  simp only [write, found, Option.ite_none_right_eq_some,
                    Option.some.injEq] at success
                  obtain ⟨rfl, rfl⟩ := success
                  rw [at?_insert]
                  split
                  · rename_i same
                    exact absurd List.nil_prefix (below same)
                  · rfl

theorem createDirAll_getD_at? {path query : RelPath} {disk : Disk} (notAbove : ¬ query <+: path) :
    ((disk.createDirAll path).getD disk).at? query = disk.at? query := by
  cases created : disk.createDirAll path with
  | none => rfl
  | some next => exact at?_createDirAll notAbove created

theorem createDirAll_getD_read (path query : RelPath) (disk : Disk) :
    ((disk.createDirAll path).getD disk).read query = disk.read query := by
  cases created : disk.createDirAll path with
  | none => rfl
  | some next => exact read_createDirAll created query

/-- **What a stored file leaves alone**: everything neither above nor below it. -/
theorem at?_store {path query : RelPath} {data : Bytes} {disk : Disk}
    (notAbove : ¬ query <+: path) (notBelow : ¬ path <+: query) :
    (disk.store path data).at? query = disk.at? query := by
  have parents : ((disk.createDirAll path.dropLast).getD disk).at? query = disk.at? query :=
    createDirAll_getD_at? fun reaches => notAbove (reaches.trans (List.dropLast_prefix path))
  rw [store, Outcome.write]
  split
  · rename_i written success
    rw [at?_write notAbove notBelow success, parents]
  · exact parents

theorem read_store_of_ne {path query : RelPath} {data : Bytes} {disk : Disk}
    (apart : query ≠ path) : (disk.store path data).read query = disk.read query := by
  rw [store, Outcome.write]
  split
  · rename_i written success
    rw [read_write_of_ne success apart, createDirAll_getD_read]
  · exact createDirAll_getD_read _ _ _

/-- Whether a file can be written does not depend on files elsewhere. -/
theorem writable_store_iff {path query : RelPath} {data : Bytes} {disk : Disk}
    (notAbove : ¬ query <+: path) (notBelow : ¬ path <+: query) :
    (disk.store path data).Writable query ↔ disk.Writable query := by
  have reads : ∀ above below, query = above ++ below →
      (disk.store path data).read above = disk.read above := by
    rintro above below rfl
    exact read_store_of_ne fun same => notBelow (same ▸ List.prefix_append above below)
  constructor
  · intro writable
    refine ⟨fun above below split proper => ?_, ?_⟩
    · rw [← reads above below split]
      exact writable.free above below split proper
    · rw [← at?_store notAbove notBelow]
      exact writable.notDir
  · intro writable
    refine ⟨fun above below split proper => ?_, ?_⟩
    · rw [reads above below split]
      exact writable.free above below split proper
    · rw [at?_store notAbove notBelow]
      exact writable.notDir

/-! ## When a write succeeds -/

theorem write_emptyDirs_isSome {first : OsStr} {rest : RelPath} {data : Bytes} :
    ((emptyDirs (first :: rest).dropLast).write (first :: rest) data).isSome := by
  induction rest generalizing first with
  | nil => rfl
  | cons second later ih =>
      have found : SortedMap.lookup first [(first, emptyDirs (second :: later).dropLast)] =
          some (emptyDirs (second :: later).dropLast) := by
        rw [SortedMap.lookup_cons, if_pos rfl]
      rw [List.dropLast_cons_cons, emptyDirs, write_cons_of_some found, Option.isSome_map]
      exact ih

theorem writable_cons_iff {name : OsStr} {rest : RelPath} {entries : List (OsStr × Disk)}
    {child : Disk} (found : SortedMap.lookup name entries = some child) :
    (Disk.dir entries).Writable (name :: rest) ↔ child.Writable rest := by
  constructor
  · intro writable
    refine ⟨fun above below split proper => ?_, fun inner stands => ?_⟩
    · have whole := writable.free (name :: above) below (congrArg _ split) proper
      rwa [read_cons_dir, found] at whole
    · refine writable.notDir inner ?_
      rw [at?_cons_dir, found]
      exact stands
  · intro writable
    refine ⟨fun above below split proper => ?_, fun inner stands => ?_⟩
    · cases above with
      | nil => rfl
      | cons head above =>
          obtain ⟨rfl, parts⟩ := List.cons.inj split
          rw [read_cons_dir, found]
          exact writable.free above below parts proper
    · rw [at?_cons_dir, found] at stands
      exact writable.notDir inner stands

theorem writable_cons_of_none {name : OsStr} (rest : RelPath) {entries : List (OsStr × Disk)}
    (found : SortedMap.lookup name entries = none) :
    (Disk.dir entries).Writable (name :: rest) := by
  refine ⟨fun above below split proper => ?_, fun inner stands => ?_⟩
  · cases above with
    | nil => rfl
    | cons head above =>
        obtain ⟨rfl, split⟩ := List.cons.inj split
        rw [read_cons_dir, found]
        rfl
  · rw [at?_cons_dir, found] at stands
    exact absurd stands (Option.some_ne_none _).symm

/-- **A file can be stored where it is writable.** -/
theorem write_createDirAll_isSome_iff {path : RelPath} {data : Bytes} {disk : Disk} :
    (((disk.createDirAll path.dropLast).getD disk).write path data).isSome ↔
      disk.Writable path := by
  induction path generalizing disk with
  | nil =>
      cases disk with
      | file old =>
          refine ⟨fun _ => ⟨fun above below split proper => ?_, fun _ stands => ?_⟩, fun _ => rfl⟩
          · exact absurd (List.append_eq_nil_iff.mp split.symm).2 proper
          · rw [at?_nil] at stands
            cases stands
      | dir entries =>
          refine ⟨fun written => absurd written Bool.false_ne_true, fun writable => ?_⟩
          exact absurd (at?_nil _) (writable.notDir entries)
  | cons name rest ih =>
      cases disk with
      | file old =>
          have blocked : ((Disk.file old).createDirAll (name :: rest).dropLast).getD (.file old) =
              .file old := by
            cases rest <;> rfl
          rw [blocked]
          refine ⟨fun written => absurd written Bool.false_ne_true, fun writable => ?_⟩
          exact absurd (writable.free [] (name :: rest) rfl (List.cons_ne_nil _ _))
            (Option.some_ne_none old)
      | dir entries =>
          cases found : SortedMap.lookup name entries with
          | none =>
              refine iff_of_true ?_ (writable_cons_of_none rest found)
              cases rest with
              | nil =>
                  rw [List.dropLast_singleton, createDirAll, Option.getD_some]
                  simp only [write, found, if_true, Option.isSome_some]
              | cons second later =>
                  have created :
                    (Disk.dir entries).createDirAll (name :: second :: later).dropLast =
                      some (.dir (SortedMap.insert name (emptyDirs (second :: later).dropLast)
                        entries)) := by
                    rw [List.dropLast_cons_cons]
                    simp only [createDirAll, found]
                  rw [created, Option.getD_some,
                    write_cons_of_some (SortedMap.lookup_insert_self name _ entries),
                    Option.isSome_map]
                  exact write_emptyDirs_isSome
          | some child =>
              rw [writable_cons_iff found, ← ih]
              cases rest with
              | nil =>
                  have kept :
                    ((Disk.dir entries).createDirAll [name].dropLast).getD (.dir entries) =
                      .dir entries := rfl
                  rw [kept, write_cons_of_some found, Option.isSome_map]
                  cases child <;> rfl
              | cons second later =>
                  have parents : ∃ entries', ((Disk.dir entries).createDirAll
                      (name :: second :: later).dropLast).getD (.dir entries) = .dir entries' ∧
                        SortedMap.lookup name entries' =
                          some ((child.createDirAll (second :: later).dropLast).getD child) := by
                    rw [List.dropLast_cons_cons]
                    simp only [createDirAll, found]
                    cases child.createDirAll (second :: later).dropLast with
                    | none => exact ⟨entries, rfl, found⟩
                    | some created => exact ⟨_, rfl, SortedMap.lookup_insert_self name _ entries⟩
                  obtain ⟨entries', same, inside⟩ := parents
                  rw [same, write_cons_of_some inside, Option.isSome_map]

/-- A file that is there can be written. -/
theorem writable_of_read {path : RelPath} {old : Bytes} {disk : Disk}
    (present : disk.read path = some old) : disk.Writable path := by
  have there : ((disk.createDirAll path.dropLast).getD disk).read path = some old := by
    rw [createDirAll_getD_read, present]
  exact (@write_createDirAll_isSome_iff path old disk).mp (write_isSome_of_read there)

theorem read_store_self {path : RelPath} {data : Bytes} {disk : Disk}
    (writable : disk.Writable path) : (disk.store path data).read path = some data := by
  obtain ⟨written, success⟩ :=
    Option.isSome_iff_exists.mp ((@write_createDirAll_isSome_iff path data disk).mpr writable)
  rw [store, Outcome.write, success]
  exact read_write_self success

/-- Where no file can be written a store changes no file. -/
theorem read_store_of_not_writable {path : RelPath} {data : Bytes} {disk : Disk}
    (obstructed : ¬ disk.Writable path) (query : RelPath) :
    (disk.store path data).read query = disk.read query := by
  have refused : ((disk.createDirAll path.dropLast).getD disk).write path data = none := by
    rw [← Option.not_isSome_iff_eq_none, write_createDirAll_isSome_iff]
    exact obstructed
  rw [store, Outcome.write, refused]
  exact createDirAll_getD_read _ _ _

end Disk

end P2Sync
