import P2Sync.Core.Conflict
import P2Sync.Support.Hex

/-!
# Names of backups

The name of a backup is made by cutting the path string at its last dot, wherever that is. The
backup lies beside its file when the mark goes into the file name (`staysBeside_iff`). It goes
elsewhere when the file name has no dot and some directory has one, and when a slash or a `.`
ends the string.

The names tell apart any two files, and two peers by the first four bytes of their identifiers
(`conflictFilename_inj_iff`).
-/

set_option autoImplicit false

namespace P2Sync

/-! ## Beside the file -/

/-- `Path::parent`, of a path made of names. -/
def RelPath.parent : RelPath → Option RelPath
  | [] => none
  | name :: rest => some (name :: rest).dropLast

/-- `Path::file_name`, of a path made of names. -/
def RelPath.fileName (path : RelPath) : Option OsStr := path.getLast?

theorem RelPath.parent_append_singleton (front : RelPath) (name : OsStr) :
    RelPath.parent (front ++ [name]) = some front := by
  cases front with
  | nil => rfl
  | cons first rest =>
      rw [List.cons_append, RelPath.parent, ← List.cons_append, List.dropLast_concat]

theorem RelPath.fileName_append_singleton (front : RelPath) (name : OsStr) :
    RelPath.fileName (front ++ [name]) = some name := List.getLast?_concat ..

theorem RelPath.fileName_append {back : RelPath} (named : back ≠ []) (front : RelPath) :
    RelPath.fileName (front ++ back) = back.fileName := List.getLast?_append_of_ne_nil _ named

theorem RelPath.parent_ne_self (path : RelPath) : path.parent ≠ some path := by
  intro same
  cases path with
  | nil => exact absurd same (Option.some_ne_none _).symm
  | cons name rest => exact absurd (congrArg List.length (Option.some.inj same)) (by simp)

/-- The backup of a path is in the same directory as the path, under another file name, which
carries the mark. -/
def StaysBeside (original : Str) (peer : PeerId) : Prop :=
  ∃ names backup name, safeRel original = some names ∧
    safeRel (conflictFilename original peer) = some backup ∧
      backup.parent = names.parent ∧ backup.fileName = some name ∧
        names.fileName ≠ some name ∧ conflictMark <:+: name.toStringLossy

/-- The last name of a path string is where its last dot is: the name has a dot and nothing but
slashes comes after it, or it ends a string without any dot. -/
def EndsInMarkedName (original : Str) : Prop :=
  ∃ before name later, segments original = before ++ name :: later ∧
    name ≠ [] ∧ name ≠ ['.'] ∧
      ('.' ∈ name ∧ (∀ segment ∈ later, segment = []) ∨ later = [] ∧ '.' ∉ original)

/-- The last element of a kind is in one place. -/
theorem last_of_kind_unique {α : Type} {kind : α → Prop} {before before' later later' : List α}
    {one other : α} (same : before ++ one :: later = before' ++ other :: later')
    (oneKind : kind one) (otherKind : kind other) (after : ∀ value ∈ later, ¬ kind value)
    (after' : ∀ value ∈ later', ¬ kind value) : one = other ∧ later = later' := by
  rcases List.append_eq_append_iff.mp same with ⟨between, _, rest⟩ | ⟨between, _, rest⟩
  · cases between with
    | nil => exact List.cons.inj rest
    | cons head tail =>
        obtain ⟨_, rfl⟩ := List.cons.inj rest
        exact absurd otherKind (after other (List.mem_append_right _ List.mem_cons_self))
  · cases between with
    | nil => exact (List.cons.inj rest).imp Eq.symm Eq.symm
    | cons head tail =>
        obtain ⟨_, rfl⟩ := List.cons.inj rest
        exact absurd oneKind (after' one (List.mem_append_right _ List.mem_cons_self))

theorem namedSegments_eq_nil_iff {parts : List Str} :
    namedSegments parts = [] ↔ ∀ segment ∈ parts, segment = [] ∨ segment = ['.'] := by
  simp [namedSegments, List.filter_eq_nil_iff, or_iff_not_imp_left]

theorem namedSegments_cons_of_named {name : Str} (notEmpty : name ≠ []) (notDot : name ≠ ['.'])
    (later : List Str) : namedSegments (name :: later) = name :: namedSegments later :=
  List.filter_cons_of_pos (by simp [notEmpty, notDot])

/-- Segments without dots that name nothing are empty. -/
theorem eq_nil_of_unnamed {parts : List Str} (unnamed : namedSegments parts = [])
    (noDot : ∀ segment ∈ parts, '.' ∉ segment) : ∀ segment ∈ parts, segment = [] := by
  intro segment member
  refine (namedSegments_eq_nil_iff.mp unnamed segment member).resolve_right ?_
  rintro rfl
  exact noDot _ member List.mem_cons_self

section Site

variable {original : Str} {before later : List Str} {old : Str}

/-- The end of the string is a name with a mark exactly when the segment that the mark goes into
is a name, and nothing after it is. -/
theorem endsInMarkedName_iff (parts : segments original = before ++ old :: later)
    (site : '.' ∈ old ∧ (∀ segment ∈ later, '.' ∉ segment) ∨ later = [] ∧ '.' ∉ original) :
    EndsInMarkedName original ↔
      old ≠ [] ∧ old ≠ ['.'] ∧ namedSegments later = [] := by
  have inside : ∀ segment ∈ segments original, '.' ∈ segment → '.' ∈ original :=
    fun _ member dot => mem_of_mem_segments member dot
  constructor
  · rintro ⟨before', name, later', parts', notEmpty, notDot, ending⟩
    rw [parts] at parts'
    rcases ending with ⟨dot, empty⟩ | ⟨rfl, noDot⟩
    · rcases site with ⟨oldDot, noDot⟩ | ⟨_, noDot⟩
      · obtain ⟨rfl, rfl⟩ := @last_of_kind_unique _ (fun segment => '.' ∈ segment) _ _ _ _ _ _
          parts' oldDot dot noDot fun segment member => by simp [empty segment member]
        exact ⟨notEmpty, notDot, namedSegments_eq_nil_iff.mpr fun segment member =>
          Or.inl (empty segment member)⟩
      · exact absurd (inside name (by rw [parts, parts']; simp) dot) noDot
    · rcases site with ⟨dot, _⟩ | ⟨rfl, _⟩
      · exact absurd (inside old (by rw [parts]; simp) dot) noDot
      · obtain ⟨_, last⟩ := List.append_inj' parts' rfl
        obtain rfl := List.head_eq_of_cons_eq last
        exact ⟨notEmpty, notDot, rfl⟩
  · rintro ⟨notEmpty, notDot, unnamed⟩
    refine ⟨before, old, later, parts, notEmpty, notDot, ?_⟩
    exact site.imp_left fun ⟨dot, noDot⟩ => ⟨dot, eq_nil_of_unnamed unnamed noDot⟩

end Site

/-- **When a backup stays beside its file**: the last dot of the path string is in the last name,
with at most slashes after it, or there is no dot and the string ends in a name. -/
theorem staysBeside_iff {original : Str} {names : RelPath} (peer : PeerId)
    (accepted : safeRel original = some names) :
    StaysBeside original peer ↔ EndsInMarkedName original := by
  obtain ⟨before, old, marked, later, parts, backupParts, mark, longer, site⟩ :=
    conflictFilename_site original peer
  obtain ⟨backup, backupAccepted, _⟩ := safeRel_conflictFilename peer accepted
  obtain ⟨markedNotEmpty, markedNotDot, _⟩ := marked_segment mark
  have backupNames : backup = ((namedSegments before).map OsStr.utf8 ++ [.utf8 marked]) ++
      (namedSegments later).map OsStr.utf8 := by
    rw [(safeRel_eq_some_iff.mp backupAccepted).2.2.2, backupParts, namedSegments_append,
      namedSegments_cons_of_named markedNotEmpty markedNotDot, List.map_append, List.map_cons,
      List.append_assoc]
    rfl
  have ownNames : names = ((namedSegments before).map OsStr.utf8 ++
      (namedSegments [old]).map OsStr.utf8) ++ (namedSegments later).map OsStr.utf8 := by
    rw [(safeRel_eq_some_iff.mp accepted).2.2.2, parts, ← List.map_append, ← List.map_append,
      ← namedSegments_append, ← namedSegments_append, List.append_assoc]
    rfl
  rw [endsInMarkedName_iff parts site]
  constructor
  · rintro ⟨_, _, name, accepted', backupAccepted', sameParent, last, otherName, _⟩
    obtain rfl := Option.some.inj (accepted.symm.trans accepted')
    obtain rfl := Option.some.inj (backupAccepted.symm.trans backupAccepted')
    -- A name after the mark is the file name of both paths.
    have unnamed : namedSegments later = [] := by
      by_contra named
      have back : (namedSegments later).map OsStr.utf8 ≠ [] := by simpa using named
      rw [backupNames, RelPath.fileName_append back] at last
      rw [ownNames, RelPath.fileName_append back] at otherName
      exact otherName last
    rw [unnamed, List.map_nil, List.append_nil] at backupNames ownNames
    rw [backupNames, RelPath.parent_append_singleton] at sameParent
    -- If the mark is a name of its own, the backup is in the path taken for a directory.
    have own : namedSegments [old] ≠ [] := by
      intro none
      rw [none, List.map_nil, List.append_nil] at ownNames
      rw [ownNames] at sameParent
      exact RelPath.parent_ne_self _ sameParent.symm
    rw [Ne, namedSegments_eq_nil_iff, List.forall_mem_singleton, not_or] at own
    exact ⟨own.1, own.2, unnamed⟩
  · rintro ⟨notEmpty, notDot, unnamed⟩
    rw [unnamed, List.map_nil, List.append_nil] at backupNames ownNames
    rw [namedSegments_cons_of_named notEmpty notDot] at ownNames
    refine ⟨names, backup, .utf8 marked, accepted, backupAccepted, ?_, ?_, ?_, mark⟩
    · rw [ownNames, backupNames, RelPath.parent_append_singleton]
      exact (RelPath.parent_append_singleton _ _).symm
    · rw [backupNames, RelPath.fileName_append_singleton]
    · rw [ownNames, List.map_cons, RelPath.fileName_append (List.cons_ne_nil _ _)]
      intro same
      exact longer.ne (congrArg List.length (OsStr.utf8.inj (Option.some.inj same)))

/-- The backup of `d/f.t` stays beside it. -/
theorem staysBeside_iff_sample : StaysBeside ['d', '/', 'f', '.', 't'] ⟨List.replicate 8 1, rfl⟩ :=
  (staysBeside_iff _ (by decide : safeRel ['d', '/', 'f', '.', 't'] =
    some [.utf8 ['d'], .utf8 ['f', '.', 't']])).mpr
    ⟨[['d']], ['f', '.', 't'], [], by decide, by decide, by decide, Or.inl ⟨by decide, by simp⟩⟩

/-- The file `f` in the directory `a.b`, whose backup is `f` in the directory
`a.conflict.01010101.b`. -/
theorem not_staysBeside_dotted_directory :
    (safeRel ['a', '.', 'b', '/', 'f']).isSome = true ∧
      ¬ StaysBeside ['a', '.', 'b', '/', 'f'] ⟨List.replicate 8 1, rfl⟩ := by
  refine ⟨by decide, ?_⟩
  rintro ⟨names, backup, name, _, accepted, _, last, _, mark⟩
  have made : (safeRel (conflictFilename ['a', '.', 'b', '/', 'f']
      ⟨List.replicate 8 1, rfl⟩)).bind RelPath.fileName = some (.utf8 ['f']) := by decide
  rw [accepted, Option.bind_some, last] at made
  obtain rfl := Option.some.inj made
  exact absurd mark (by decide)

/-! ## Distinct backups -/

theorem shortHex_eq (peer : PeerId) : shortHex peer = Hex.encode (peer.val.take 4) := by
  have long : min 8 (peerIdHex peer).length = 2 * 4 := by
    rw [show peerIdHex peer = Hex.encode peer.val from rfl, Hex.length_encode, peer.property]
    rfl
  rw [shortHex, long]
  exact Hex.take_encode peer.val 4

theorem length_shortHex (peer : PeerId) : (shortHex peer).length = 8 := by
  rw [shortHex_eq, Hex.length_encode, List.length_take, peer.property]
  rfl

theorem digit_of_mem_shortHex {peer : PeerId} {c : Char} (member : c ∈ shortHex peer) :
    (Hex.digit? c).isSome = true := by
  rw [shortHex_eq] at member
  exact (Hex.decode?_isSome_iff.mp (by rw [Hex.decode?_encode]; rfl)).2 c member

/-- The last dot of the name of a backup, and what is before it. -/
theorem rsplitOnceDot_conflictFilename (original : Str) (peer : PeerId) :
    rsplitOnceDot (conflictFilename original peer) =
      match rsplitOnceDot original with
      | some (base, ext) => some (base ++ (conflictMark ++ shortHex peer), ext)
      | none => some (original ++ conflictMark.dropLast, shortHex peer) := by
  rw [conflictFilename]
  cases found : rsplitOnceDot original with
  | some pair =>
      exact rsplitOnceDot_eq_some_iff.mpr ⟨rfl, (rsplitOnceDot_eq_some_iff.mp found).2⟩
  | none =>
      have noDot : '.' ∉ shortHex peer := fun member =>
        absurd (digit_of_mem_shortHex member) (by decide)
      have whole : original ++ (conflictMark ++ shortHex peer) =
          (original ++ conflictMark.dropLast) ++ '.' :: shortHex peer := by
        rw [List.append_assoc]
        rfl
      exact rsplitOnceDot_eq_some_iff.mpr ⟨whole, noDot⟩

/-- Text before the digits of a peer and those digits can be told apart. -/
theorem marked_inj {front back : Str} {peer other : PeerId}
    (same : front ++ (conflictMark ++ shortHex peer) = back ++ (conflictMark ++ shortHex other)) :
    front = back ∧ shortHex peer = shortHex other := by
  obtain ⟨fronts, marks⟩ := List.append_inj' same (by
    rw [List.length_append, List.length_append, length_shortHex, length_shortHex])
  exact ⟨fronts, List.append_cancel_left marks⟩

/-- A mark with the digits of a peer after it does not end like the mark. -/
theorem mark_ne_digits {front back : Str} {peer : PeerId} :
    front ++ (conflictMark ++ shortHex peer) ≠ back ++ conflictMark.dropLast := by
  intro same
  have split : (front ++ conflictMark) ++ shortHex peer =
      (back ++ ['.']) ++ ['c', 'o', 'n', 'f', 'l', 'i', 'c', 't'] := by
    rw [List.append_assoc, same, List.append_assoc]
    rfl
  have digits := List.append_inj_right' split (length_shortHex peer)
  exact absurd (digit_of_mem_shortHex (digits ▸ by decide : 't' ∈ shortHex peer)) (by decide)

/-- **Which backups have the same name**: those of one file, for peers that agree in the first
four bytes. -/
theorem conflictFilename_inj_iff (f g : Str) (p q : PeerId) :
    conflictFilename f p = conflictFilename g q ↔ f = g ∧ p.val.take 4 = q.val.take 4 := by
  have digits : shortHex p = shortHex q ↔ p.val.take 4 = q.val.take 4 := by
    rw [shortHex_eq, shortHex_eq]
    exact Hex.encode_injective.eq_iff
  rw [← digits]
  constructor
  · intro same
    have cut := congrArg rsplitOnceDot same
    rw [rsplitOnceDot_conflictFilename, rsplitOnceDot_conflictFilename] at cut
    cases ofF : rsplitOnceDot f with
    | some fPair =>
        obtain ⟨fBase, fExt⟩ := fPair
        cases ofG : rsplitOnceDot g with
        | some gPair =>
            obtain ⟨gBase, gExt⟩ := gPair
            rw [ofF, ofG] at cut
            obtain ⟨bases, rfl⟩ := Prod.mk.inj (Option.some.inj cut)
            obtain ⟨rfl, short⟩ := marked_inj bases
            have wholeF := (rsplitOnceDot_eq_some_iff.mp ofF).1
            have wholeG := (rsplitOnceDot_eq_some_iff.mp ofG).1
            exact ⟨wholeF.trans wholeG.symm, short⟩
        | none =>
            rw [ofF, ofG] at cut
            exact absurd (Prod.mk.inj (Option.some.inj cut)).1 mark_ne_digits
    | none =>
        cases ofG : rsplitOnceDot g with
        | some gPair =>
            rw [ofF, ofG] at cut
            exact absurd (Prod.mk.inj (Option.some.inj cut)).1.symm mark_ne_digits
        | none =>
            rw [ofF, ofG] at cut
            obtain ⟨bases, short⟩ := Prod.mk.inj (Option.some.inj cut)
            exact ⟨List.append_cancel_right bases, short⟩
  · rintro ⟨rfl, short⟩
    rw [conflictFilename, conflictFilename, short]

/-- Two peers that differ in the fifth byte give the backup of a file the same name. -/
theorem conflictFilename_fifth_byte :
    conflictFilename ['f'] ⟨[1, 2, 3, 4, 5, 0, 0, 0], rfl⟩ =
        conflictFilename ['f'] ⟨[1, 2, 3, 4, 6, 0, 0, 0], rfl⟩ ∧
      (⟨[1, 2, 3, 4, 5, 0, 0, 0], rfl⟩ : PeerId) ≠ ⟨[1, 2, 3, 4, 6, 0, 0, 0], rfl⟩ := by
  decide

end P2Sync
