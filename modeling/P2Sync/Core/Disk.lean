import P2Sync.Core.Path
import P2Sync.Support.SortedMap

/-!
# The synchronised folder on disk

A folder holds files and folders under names. The standard library calls the engine
makes are functions on it: they return `none` where the call fails because of what
stands at the path (a missing parent, a file where a folder is needed, a folder where a
file is needed). Failures of the device are added where the calls are made.

What matters to the rest is which bytes are read at which path. Writing, copying and
removing change the bytes at one path (`read_write`, `read_removeFile`), and creating
parent folders changes none (`read_createDirAll`).
-/

set_option autoImplicit false

namespace P2Sync

/-- A file with its bytes, or a folder with its entries in order. -/
inductive Disk where
  | file (data : Bytes)
  | dir (entries : List (OsStr × Disk))

/-- A folder as the operating system keeps it: the entries of a folder are in order, and each
has the name of an entry. -/
inductive Disk.Proper : Disk → Prop where
  | file (data : Bytes) : Proper (.file data)
  | dir (entries : List (OsStr × Disk)) (sorted : SortedMap.Sorted entries)
      (named : ∀ entry ∈ entries, entry.1.IsName) (proper : ∀ entry ∈ entries, Proper entry.2) :
      Proper (.dir entries)

namespace Disk

/-- What stands at a path. -/
def at? : RelPath → Disk → Option Disk
  | [], node => some node
  | _ :: _, .file _ => none
  | name :: rest, .dir entries =>
      match SortedMap.lookup name entries with
      | some child => child.at? rest
      | none => none
termination_by structural path => path

/-- `std::fs::read`. -/
def read (path : RelPath) (disk : Disk) : Option Bytes :=
  match disk.at? path with
  | some (.file data) => some data
  | _ => none

/-- `Path::exists`. -/
def pathExists (path : RelPath) (disk : Disk) : Bool := (disk.at? path).isSome

/-- `Path::is_file`. -/
def isFile (path : RelPath) (disk : Disk) : Bool := (disk.read path).isSome

/-- The folders named by a path, each inside the one before. -/
def emptyDirs : RelPath → Disk
  | [] => .dir []
  | name :: rest => .dir [(name, emptyDirs rest)]

/-- `std::fs::create_dir_all`. -/
def createDirAll : RelPath → Disk → Option Disk
  | [], .file _ => none
  | [], .dir entries => some (.dir entries)
  | _ :: _, .file _ => none
  | name :: rest, .dir entries =>
      match SortedMap.lookup name entries with
      | some child =>
          (child.createDirAll rest).map fun child => .dir (SortedMap.insert name child entries)
      | none => some (.dir (SortedMap.insert name (emptyDirs rest) entries))
termination_by structural path => path

/-- `std::fs::write`: the parent folder has to exist. -/
def write : RelPath → Bytes → Disk → Option Disk
  | [], data, .file _ => some (.file data)
  | [], _, .dir _ => none
  | _ :: _, _, .file _ => none
  | name :: rest, data, .dir entries =>
      match SortedMap.lookup name entries with
      | some child =>
          (child.write rest data).map fun child => .dir (SortedMap.insert name child entries)
      | none =>
          if rest = [] then some (.dir (SortedMap.insert name (.file data) entries)) else none
termination_by structural path => path

/-- `std::fs::remove_file`. -/
def removeFile : RelPath → Disk → Option Disk
  | [], _ => none
  | _ :: _, .file _ => none
  | name :: rest, .dir entries =>
      match SortedMap.lookup name entries with
      | some (.file _) => if rest = [] then some (.dir (SortedMap.erase name entries)) else none
      | some (.dir inner) =>
          ((Disk.dir inner).removeFile rest).map fun child =>
            .dir (SortedMap.insert name child entries)
      | none => none
termination_by structural path => path

end Disk

/-- How the device ends a call that writes: it may refuse it, or fail after truncating the
file and storing some of the bytes. -/
inductive Outcome where
  | succeeds
  | refused
  | interrupted (kept : Nat)
deriving DecidableEq

namespace Outcome

/-- `std::fs::write` on a device: whether it succeeded, and the disk after. -/
def write (outcome : Outcome) (path : RelPath) (data : Bytes) (disk : Disk) : Bool × Disk :=
  match outcome with
  | .succeeds =>
      match disk.write path data with
      | some disk' => (true, disk')
      | none => (false, disk)
  | .refused => (false, disk)
  | .interrupted kept => (false, (disk.write path (data.take kept)).getD disk)

/-- The bytes a write leaves, when it gets to the file at all. -/
def stored (outcome : Outcome) (data : Bytes) : Option Bytes :=
  match outcome with
  | .succeeds => some data
  | .refused => none
  | .interrupted kept => some (data.take kept)

/-- `std::fs::copy` on a device. -/
def copy (outcome : Outcome) (source target : RelPath) (disk : Disk) : Bool × Disk :=
  match disk.read source with
  | some data => outcome.write target data disk
  | none => (false, disk)

end Outcome

namespace Disk

/-! ## What is read where -/

@[simp] theorem read_nil_file (data : Bytes) : (Disk.file data).read [] = some data := rfl

@[simp] theorem read_nil_dir (entries : List (OsStr × Disk)) : (Disk.dir entries).read [] = none :=
  rfl

@[simp] theorem read_cons_file (name : OsStr) (rest : RelPath) (data : Bytes) :
    (Disk.file data).read (name :: rest) = none := rfl

theorem read_cons_dir (name : OsStr) (rest : RelPath) (entries : List (OsStr × Disk)) :
    (Disk.dir entries).read (name :: rest) =
      (SortedMap.lookup name entries).bind fun child => child.read rest := by
  rw [read, at?]
  cases SortedMap.lookup name entries <;> rfl

/-- A file of a folder with one entry is one of that entry. -/
theorem exists_read_of_single {name : OsStr} {child : Disk} {path : RelPath} {data : Bytes}
    (here : (Disk.dir [(name, child)]).read path = some data) :
    ∃ rest, child.read rest = some data := by
  cases path with
  | nil => exact absurd here (Option.some_ne_none data).symm
  | cons first rest =>
      rw [read_cons_dir, SortedMap.lookup_cons] at here
      split at here
      · exact ⟨rest, here⟩
      · exact absurd here (Option.some_ne_none data).symm

/-- A folder after one of its entries was replaced: if the new entry reads like the old
one except at one path, so does the folder. -/
theorem read_insert {name : OsStr} {rest : RelPath} {child : Disk} {value : Option Bytes}
    {entries : List (OsStr × Disk)}
    (replaced : ∀ query, child.read query = if query = rest then value else
      (SortedMap.lookup name entries).bind fun old => old.read query) (query : RelPath) :
    (Disk.dir (SortedMap.insert name child entries)).read query =
      if query = name :: rest then value else (Disk.dir entries).read query := by
  cases query with
  | nil => rfl
  | cons first more =>
      rw [read_cons_dir, SortedMap.lookup_insert, read_cons_dir]
      by_cases same : first = name
      · subst same
        simp only [if_true, Option.bind_some, replaced, List.cons.injEq, true_and]
      · simp only [same, if_false, List.cons.injEq, false_and]

theorem write_cons_of_some {name : OsStr} {child : Disk} {entries : List (OsStr × Disk)}
    (found : SortedMap.lookup name entries = some child) (rest : RelPath) (data : Bytes) :
    (Disk.dir entries).write (name :: rest) data =
      (child.write rest data).map fun child => .dir (SortedMap.insert name child entries) := by
  simp only [write, found]

/-- **A write changes the bytes read at its own path.** -/
theorem read_write {path : RelPath} {data : Bytes} {disk written : Disk}
    (success : disk.write path data = some written) (query : RelPath) :
    written.read query = if query = path then some data else disk.read query := by
  induction path generalizing disk written query with
  | nil =>
      cases disk with
      | dir entries => exact absurd success (Option.some_ne_none _).symm
      | file old =>
          obtain rfl := Option.some.inj success
          cases query <;> rfl
  | cons name rest ih =>
      cases disk with
      | file old => exact absurd success (Option.some_ne_none _).symm
      | dir entries =>
          cases found : SortedMap.lookup name entries with
          | some child =>
              rw [write_cons_of_some found, Option.map_eq_some_iff] at success
              obtain ⟨child', childWritten, rfl⟩ := success
              refine read_insert (fun below => ?_) query
              rw [ih childWritten, found]
              rfl
          | none =>
              simp only [write, found, Option.ite_none_right_eq_some,
                Option.some.injEq] at success
              obtain ⟨rfl, rfl⟩ := success
              refine read_insert (fun below => ?_) query
              rw [found]
              cases below <;> rfl

theorem read_write_self {path : RelPath} {data : Bytes} {disk written : Disk}
    (success : disk.write path data = some written) : written.read path = some data := by
  rw [read_write success, if_pos rfl]

theorem read_write_of_ne {path query : RelPath} {data : Bytes} {disk written : Disk}
    (success : disk.write path data = some written) (apart : query ≠ path) :
    written.read query = disk.read query := by
  rw [read_write success, if_neg apart]

theorem read_emptyDirs (path query : RelPath) : (emptyDirs path).read query = none := by
  induction path generalizing query with
  | nil => cases query <;> rfl
  | cons name rest ih =>
      cases query with
      | nil => rfl
      | cons first more =>
          rw [emptyDirs, read_cons_dir, SortedMap.lookup_cons]
          split
          · exact ih more
          · rfl

/-- A folder one of whose entries was replaced by one that reads like it. -/
theorem read_insert_same {name : OsStr} {child : Disk} {entries : List (OsStr × Disk)}
    (same : ∀ query, child.read query =
      (SortedMap.lookup name entries).bind fun old => old.read query) (query : RelPath) :
    (Disk.dir (SortedMap.insert name child entries)).read query =
      (Disk.dir entries).read query := by
  cases query with
  | nil => rfl
  | cons first more =>
      rw [read_cons_dir, SortedMap.lookup_insert, read_cons_dir]
      split
      · rename_i here
        rw [here, Option.bind_some, same]
      · rfl

/-- Creating folders changes no file. -/
theorem read_createDirAll {path : RelPath} {disk created : Disk}
    (success : disk.createDirAll path = some created) (query : RelPath) :
    created.read query = disk.read query := by
  induction path generalizing disk created query with
  | nil =>
      cases disk with
      | file data => exact absurd success (Option.some_ne_none _).symm
      | dir entries =>
          obtain rfl := Option.some.inj success
          rfl
  | cons name rest ih =>
      cases disk with
      | file data => exact absurd success (Option.some_ne_none _).symm
      | dir entries =>
          cases found : SortedMap.lookup name entries with
          | some child =>
              simp only [createDirAll, found, Option.map_eq_some_iff] at success
              obtain ⟨child', childCreated, rfl⟩ := success
              refine read_insert_same (fun below => ?_) query
              rw [ih childCreated, found]
              rfl
          | none =>
              simp only [createDirAll, found, Option.some.injEq] at success
              subst success
              refine read_insert_same (fun below => ?_) query
              rw [read_emptyDirs, found]
              rfl

/-- **A removal forgets the bytes at its own path.** -/
theorem read_removeFile {path : RelPath} {disk removed : Disk}
    (success : disk.removeFile path = some removed) (query : RelPath) :
    removed.read query = if query = path then none else disk.read query := by
  induction path generalizing disk removed query with
  | nil => exact absurd success (Option.some_ne_none _).symm
  | cons name rest ih =>
      cases disk with
      | file data => exact absurd success (Option.some_ne_none _).symm
      | dir entries =>
          cases found : SortedMap.lookup name entries with
          | none => simp only [removeFile, found, reduceCtorEq] at success
          | some child =>
              cases child with
              | file data =>
                  simp only [removeFile, found, Option.ite_none_right_eq_some,
                Option.some.injEq] at success
                  obtain ⟨rfl, rfl⟩ := success
                  cases query with
                  | nil => rfl
                  | cons first more =>
                      rw [read_cons_dir, SortedMap.lookup_erase, read_cons_dir]
                      by_cases same : first = name
                      · subst same
                        cases more <;> simp [found]
                      · simp only [same, if_false, List.cons.injEq, false_and]
              | dir inner =>
                  simp only [removeFile, found, Option.map_eq_some_iff] at success
                  obtain ⟨child', childRemoved, rfl⟩ := success
                  refine read_insert (fun below => ?_) query
                  rw [ih childRemoved, found]
                  rfl

theorem pathExists_of_read {path : RelPath} {data : Bytes} {disk : Disk}
    (present : disk.read path = some data) : disk.pathExists path = true := by
  rw [pathExists, Option.isSome_iff_exists]
  rw [read] at present
  split at present
  · rename_i found
    exact ⟨_, found⟩
  · exact absurd present (Option.some_ne_none data).symm

/-- Whether a write gets to the file does not depend on the bytes. -/
theorem write_isSome (path : RelPath) (data other : Bytes) (disk : Disk) :
    (disk.write path data).isSome = (disk.write path other).isSome := by
  induction path generalizing disk with
  | nil => cases disk <;> rfl
  | cons name rest ih =>
      cases disk with
      | file _ => rfl
      | dir entries =>
          cases found : SortedMap.lookup name entries with
          | some child =>
              rw [write_cons_of_some found, write_cons_of_some found, Option.isSome_map,
                Option.isSome_map, ih]
          | none =>
              simp only [write, found]
              split <;> rfl

/-- A file that is there can be overwritten. -/
theorem write_isSome_of_read {path : RelPath} {data old : Bytes} {disk : Disk}
    (present : disk.read path = some old) : (disk.write path data).isSome := by
  induction path generalizing disk with
  | nil =>
      cases disk with
      | file _ => rfl
      | dir _ => exact absurd present (Option.some_ne_none _).symm
  | cons name rest ih =>
      cases disk with
      | file _ => exact absurd present (Option.some_ne_none _).symm
      | dir entries =>
          rw [read_cons_dir] at present
          cases found : SortedMap.lookup name entries with
          | none => simp [found] at present
          | some child =>
              rw [found, Option.bind_some] at present
              rw [write_cons_of_some found, Option.isSome_map]
              exact ih present

/-- A file that is there can be removed. -/
theorem removeFile_isSome_of_read {path : RelPath} {data : Bytes} {disk : Disk}
    (nonempty : path ≠ []) (present : disk.read path = some data) :
    (disk.removeFile path).isSome := by
  induction path generalizing disk with
  | nil => exact absurd rfl nonempty
  | cons name rest ih =>
      cases disk with
      | file _ => exact absurd present (Option.some_ne_none _).symm
      | dir entries =>
          rw [read_cons_dir] at present
          obtain ⟨child, found, inside⟩ := Option.bind_eq_some_iff.mp present
          rw [removeFile, found]
          cases child with
          | file content =>
              cases rest with
              | nil => rfl
              | cons _ _ => exact absurd inside (Option.some_ne_none _).symm
          | dir inner =>
              cases rest with
              | nil => exact absurd inside (Option.some_ne_none _).symm
              | cons second later =>
                  rw [Option.isSome_map]
                  exact ih (List.cons_ne_nil _ _) inside

/-- Only a file is removed. -/
theorem exists_read_of_removeFile {path : RelPath} {disk removed : Disk}
    (success : disk.removeFile path = some removed) : ∃ data, disk.read path = some data := by
  induction path generalizing disk removed with
  | nil => exact absurd success (Option.some_ne_none _).symm
  | cons name rest ih =>
      cases disk with
      | file data => exact absurd success (Option.some_ne_none _).symm
      | dir entries =>
          rw [read_cons_dir]
          cases found : SortedMap.lookup name entries with
          | none => simp only [removeFile, found, reduceCtorEq] at success
          | some child =>
              cases child with
              | file data =>
                  simp only [removeFile, found, Option.ite_none_right_eq_some] at success
                  exact ⟨data, by rw [success.1]; rfl⟩
              | dir inner =>
                  simp only [removeFile, found, Option.map_eq_some_iff] at success
                  obtain ⟨child', childRemoved, -⟩ := success
                  exact ih childRemoved

/-! ## Folders -/

/-- `Path::is_dir`. -/
def isDir (path : RelPath) (disk : Disk) : Bool :=
  match disk.at? path with
  | some (.dir _) => true
  | _ => false

@[simp] theorem isDir_nil_dir (entries : List (OsStr × Disk)) :
    (Disk.dir entries).isDir [] = true := rfl

@[simp] theorem isDir_file (path : RelPath) (data : Bytes) :
    (Disk.file data).isDir path = false := by
  cases path <;> rfl

theorem isDir_cons_dir (name : OsStr) (rest : RelPath) (entries : List (OsStr × Disk)) :
    (Disk.dir entries).isDir (name :: rest) =
      (SortedMap.lookup name entries).any fun child => child.isDir rest := by
  rw [isDir, at?]
  cases SortedMap.lookup name entries <;> rfl

theorem read_of_isDir {path : RelPath} {disk : Disk} (folder : disk.isDir path = true) :
    disk.read path = none := by
  rw [isDir] at folder
  rw [read]
  split at folder
  · rename_i found
    rw [found]
  · exact absurd folder Bool.false_ne_true

/-- What is above a file is a folder. -/
theorem isDir_of_read {above below : RelPath} {disk : Disk} {data : Bytes}
    (here : disk.read (above ++ below) = some data) (proper : below ≠ []) :
    disk.isDir above = true := by
  induction above generalizing disk with
  | nil =>
      obtain ⟨name, rest, rfl⟩ := List.exists_cons_of_ne_nil proper
      cases disk with
      | file content => exact absurd here (Option.some_ne_none data).symm
      | dir entries => rfl
  | cons name above ih =>
      cases disk with
      | file content => exact absurd here (Option.some_ne_none data).symm
      | dir entries =>
          rw [List.cons_append, read_cons_dir] at here
          obtain ⟨child, found, here⟩ := Option.bind_eq_some_iff.mp here
          rw [isDir_cons_dir, found]
          exact ih here

/-- The folders of a disk are folders of another. -/
def KeepsDirs (before after : Disk) : Prop :=
  ∀ path, before.isDir path = true → after.isDir path = true

theorem keepsDirs_insert {name : OsStr} {child : Disk} {entries : List (OsStr × Disk)}
    (kept : ∀ old, SortedMap.lookup name entries = some old → old.KeepsDirs child) :
    (Disk.dir entries).KeepsDirs (.dir (SortedMap.insert name child entries)) := by
  intro path folder
  cases path with
  | nil => rfl
  | cons first rest =>
      rw [isDir_cons_dir] at folder ⊢
      rw [SortedMap.lookup_insert]
      split
      · rename_i same
        obtain ⟨old, found, folder⟩ := (Option.any_eq_true _ _).mp folder
        exact kept old (same ▸ found) rest folder
      · exact folder

theorem keepsDirs_createDirAll {path : RelPath} {disk created : Disk}
    (success : disk.createDirAll path = some created) : disk.KeepsDirs created := by
  induction path generalizing disk created with
  | nil =>
      cases disk with
      | file data => exact absurd success (Option.some_ne_none _).symm
      | dir entries =>
          obtain rfl := Option.some.inj success
          exact fun _ => id
  | cons name rest ih =>
      cases disk with
      | file data => exact absurd success (Option.some_ne_none _).symm
      | dir entries =>
          cases found : SortedMap.lookup name entries with
          | some child =>
              simp only [createDirAll, found, Option.map_eq_some_iff] at success
              obtain ⟨child', childCreated, rfl⟩ := success
              refine keepsDirs_insert fun old there => ?_
              obtain rfl := Option.some.inj (found.symm.trans there)
              exact ih childCreated
          | none =>
              simp only [createDirAll, found, Option.some.injEq] at success
              subst success
              exact keepsDirs_insert fun old there =>
                absurd (found.symm.trans there) (Option.some_ne_none old).symm

theorem keepsDirs_write {path : RelPath} {data : Bytes} {disk written : Disk}
    (success : disk.write path data = some written) : disk.KeepsDirs written := by
  induction path generalizing disk written with
  | nil =>
      cases disk with
      | dir entries => exact absurd success (Option.some_ne_none _).symm
      | file old => exact fun path folder => absurd folder (by simp)
  | cons name rest ih =>
      cases disk with
      | file old => exact absurd success (Option.some_ne_none _).symm
      | dir entries =>
          cases found : SortedMap.lookup name entries with
          | some child =>
              rw [write_cons_of_some found, Option.map_eq_some_iff] at success
              obtain ⟨child', childWritten, rfl⟩ := success
              refine keepsDirs_insert fun old there => ?_
              obtain rfl := Option.some.inj (found.symm.trans there)
              exact ih childWritten
          | none =>
              simp only [write, found, Option.ite_none_right_eq_some,
                Option.some.injEq] at success
              obtain ⟨-, rfl⟩ := success
              exact keepsDirs_insert fun old there =>
                absurd (found.symm.trans there) (Option.some_ne_none old).symm

theorem keepsDirs_removeFile {path : RelPath} {disk removed : Disk}
    (success : disk.removeFile path = some removed) : disk.KeepsDirs removed := by
  induction path generalizing disk removed with
  | nil => exact absurd success (Option.some_ne_none _).symm
  | cons name rest ih =>
      cases disk with
      | file data => exact absurd success (Option.some_ne_none _).symm
      | dir entries =>
          cases found : SortedMap.lookup name entries with
          | none => simp only [removeFile, found, reduceCtorEq] at success
          | some child =>
              cases child with
              | file data =>
                  simp only [removeFile, found, Option.ite_none_right_eq_some,
                    Option.some.injEq] at success
                  obtain ⟨-, rfl⟩ := success
                  intro query folder
                  cases query with
                  | nil => rfl
                  | cons first more =>
                      rw [isDir_cons_dir] at folder ⊢
                      rw [SortedMap.lookup_erase]
                      split
                      · rename_i same
                        rw [same, found] at folder
                        exact absurd folder (by simp)
                      · exact folder
              | dir inner =>
                  simp only [removeFile, found, Option.map_eq_some_iff] at success
                  obtain ⟨child', childRemoved, rfl⟩ := success
                  refine keepsDirs_insert fun old there => ?_
                  obtain rfl := Option.some.inj (found.symm.trans there)
                  exact ih childRemoved

end Disk

/-! ## Writes on a device -/

section Outcome

variable {outcome : Outcome} {path query : RelPath} {data : Bytes} {disk after : Disk}

theorem Outcome.write_succeeds_iff :
    outcome.write path data disk = (true, after) ↔
      outcome = .succeeds ∧ disk.write path data = some after := by
  cases outcome with
  | succeeds => cases written : disk.write path data <;> simp [Outcome.write, written]
  | refused => simp [Outcome.write]
  | interrupted kept => simp [Outcome.write]

/-- Whether a write succeeds. -/
theorem Outcome.write_fst (outcome : Outcome) (path : RelPath) (data : Bytes) (disk : Disk) :
    (outcome.write path data disk).1 =
      (decide (outcome = .succeeds) && (disk.write path data).isSome) := by
  cases outcome with
  | succeeds => cases written : disk.write path data <;> simp [Outcome.write, written]
  | refused => rfl
  | interrupted kept => rfl

/-- What a write does to the folder: it stores some bytes, if it comes to the file. -/
theorem Outcome.write_disk :
    (outcome.write path data disk).2 =
      ((outcome.stored data).bind fun content => disk.write path content).getD disk := by
  cases outcome with
  | refused => rfl
  | interrupted kept => rfl
  | succeeds =>
      rw [Outcome.write, Outcome.stored, Option.bind_some]
      cases disk.write path data <;> rfl

theorem Outcome.read_write_of_ne (apart : query ≠ path) :
    (outcome.write path data disk).2.read query = disk.read query := by
  rw [Outcome.write_disk]
  cases written : (outcome.stored data).bind fun content => disk.write path content with
  | none => rfl
  | some after =>
      obtain ⟨content, _, written⟩ := Option.bind_eq_some_iff.mp written
      exact Disk.read_write_of_ne written apart

/-- **What is read where a write was tried.** -/
theorem Outcome.read_write_self :
    (outcome.write path data disk).2.read path =
      ((outcome.stored data).filter fun content => (disk.write path content).isSome).or
        (disk.read path) := by
  rw [Outcome.write_disk]
  cases outcome.stored data with
  | none => rfl
  | some content =>
      rw [Option.bind_some, Option.filter_some]
      cases written : disk.write path content with
      | none => rfl
      | some after => exact Disk.read_write_self written

/-- When a path holds given bytes after a write was tried. -/
theorem Outcome.read_write_self_eq_some_iff {old : Bytes} :
    (outcome.write path data disk).2.read path = some old ↔
      (∀ content, outcome.stored data = some content → (disk.write path []).isSome = true →
        content = old) ∧
      ((∀ content, outcome.stored data = some content → (disk.write path []).isSome = false) →
        disk.read path = some old) := by
  rw [Outcome.read_write_self]
  cases outcome.stored data with
  | none => simp
  | some content =>
      rw [Option.filter_some, Disk.write_isSome path content []]
      cases (disk.write path []).isSome <;> simp

/-- Whatever its outcome, a write changes the bytes at its own path only. -/
theorem Outcome.read_write (query : RelPath) :
    (outcome.write path data disk).2.read query = disk.read query ∨
      query = path ∧ ∃ content, outcome.stored data = some content ∧
        (outcome.write path data disk).2.read query = some content := by
  by_cases same : query = path
  · subst same
    rw [Outcome.read_write_self]
    cases wrote : (outcome.stored data).filter fun content => (disk.write query content).isSome with
    | none => exact Or.inl rfl
    | some content =>
        exact Or.inr ⟨rfl, content, (Option.filter_eq_some_iff.mp wrote).1, rfl⟩
  · exact Or.inl (Outcome.read_write_of_ne same)

/-- A failed write changed bytes at its own path only, and these when it broke off. -/
theorem Outcome.read_of_failed (failure : outcome.write path data disk = (false, after))
    (query : RelPath) :
    after.read query = disk.read query ∨
      query = path ∧ ∃ kept, outcome = .interrupted kept := by
  cases outcome with
  | succeeds =>
      rw [Outcome.write] at failure
      split at failure <;> cases failure
      exact Or.inl rfl
  | refused =>
      cases failure
      exact Or.inl rfl
  | interrupted kept =>
      have read := @Outcome.read_write (.interrupted kept) path data disk query
      rw [failure] at read
      exact read.imp_right fun changed => ⟨changed.1, kept, rfl⟩

/-- A write leaves its own path as it was when it gets nowhere, or stores what is there. -/
theorem Outcome.read_write_eq_iff :
    (outcome.write path data disk).2.read path = disk.read path ↔
      ∀ content, outcome.stored data = some content →
        (disk.write path content).isSome = true → disk.read path = some content := by
  rw [Outcome.read_write_self]
  cases stored : outcome.stored data with
  | none => simp
  | some content =>
      rw [Option.filter_some]
      constructor
      · intro same other stored room
        cases stored
        rw [if_pos room] at same
        exact same.symm
      · intro kept
        split
        · rename_i room
          exact (kept content rfl room).symm
        · rfl

/-- A copy that succeeds stores the bytes of the source. -/
theorem Outcome.read_copy_self {source : RelPath}
    (success : outcome.copy source path disk = (true, after)) :
    after.read path = disk.read source := by
  rw [Outcome.copy] at success
  cases found : disk.read source with
  | some data =>
      simp only [found] at success
      rw [Disk.read_write_self (Outcome.write_succeeds_iff.mp success).2]
  | none =>
      simp only [found] at success
      exact absurd (Prod.mk.inj success).1 Bool.false_ne_true

end Outcome

end P2Sync
