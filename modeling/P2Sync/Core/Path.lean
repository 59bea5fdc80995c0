import Mathlib.Data.List.Infix
import Mathlib.Data.List.Lex
import Mathlib.Data.Char
import Mathlib.Data.UInt
import Mathlib.Order.Lattice

/-!
# File names and path strings

Paths reach the engine in two forms. A peer sends a string, which
`std::path::Path::components` cuts at every `/`, dropping empty segments and inner
`.` segments. The watcher reports names as the file system has them, which need not
be UTF-8.

A path below the synchronised root is a list of names (`RelPath`); two path strings
with the same components name the same file and the same index entry. `safePath` is
the engine's guard on strings that come from peers. Every path it accepts is the root
followed by the names that `safeRel` returns (`safePath_eq`), so the rest of the
development works with these names.
-/

set_option autoImplicit false

namespace P2Sync

/-- Rust's `str`: a sequence of scalar values. -/
abbrev Str := List Char

/-- File contents and other byte strings. -/
abbrev Bytes := List UInt8

/-! ## Names -/

/-- A Unix file name: UTF-8, or bytes that are not. -/
inductive OsStr where
  | utf8 (text : Str)
  | invalid (bytes : Bytes)

/-- A name as a list of numbers, by which names are ordered. -/
def OsStr.sortKey : OsStr → List Nat
  | .utf8 text => 0 :: text.map Char.toNat
  | .invalid bytes => 1 :: bytes.map UInt8.toNat

theorem OsStr.sortKey_injective : Function.Injective OsStr.sortKey := by
  have scalars : Function.Injective (List.map Char.toNat) :=
    List.map_injective_iff.mpr fun _ _ same => Char.toNat_inj.mp same
  have octets : Function.Injective (List.map UInt8.toNat) :=
    List.map_injective_iff.mpr fun _ _ same => UInt8.toNat_inj.mp same
  intro first second same
  cases first <;> cases second <;> simp only [sortKey, List.cons.injEq] at same
  · exact congrArg OsStr.utf8 (scalars same.2)
  · exact absurd same.1 (by decide)
  · exact absurd same.1 (by decide)
  · exact congrArg OsStr.invalid (octets same.2)

instance linearOrderOsStr : LinearOrder OsStr :=
  LinearOrder.lift' OsStr.sortKey OsStr.sortKey_injective

/-- `OsStr::to_str`. -/
def OsStr.toStr : OsStr → Option Str
  | .utf8 text => some text
  | .invalid _ => none

/-- U+FFFD, which stands for bytes that are not UTF-8. -/
def replacement : Char := Char.ofNat 0xFFFD

/-- A continuation byte of UTF-8. -/
def isContinuation (byte : UInt8) : Bool := byte &&& 0xC0 == 0x80

/-- The second bytes UTF-8 allows after a leading byte of a three or four byte scalar. -/
def isSecond (lead second : UInt8) : Bool :=
  if lead = 0xE0 then 0xA0 ≤ second && second ≤ 0xBF
  else if lead = 0xED then 0x80 ≤ second && second ≤ 0x9F
  else if lead = 0xF0 then 0x90 ≤ second && second ≤ 0xBF
  else if lead = 0xF4 then 0x80 ≤ second && second ≤ 0x8F
  else isContinuation second

/-- The scalar with these payload bytes, most significant first. -/
def scalarOf (lead : Nat) (payload : List UInt8) : Char :=
  Char.ofNat (payload.foldl (fun value byte => value * 64 + (byte.toNat - 0x80)) lead)

/-- `String::from_utf8_lossy`: each maximal invalid sequence becomes one U+FFFD. -/
def fromUtf8Lossy : Bytes → Str
  | [] => []
  | b :: rest =>
      if b < 0x80 then Char.ofNat b.toNat :: fromUtf8Lossy rest
      else if 0xC2 ≤ b ∧ b ≤ 0xDF then
        match rest with
        | [] => [replacement]
        | b₁ :: rest₁ =>
            if isContinuation b₁ then scalarOf (b.toNat - 0xC0) [b₁] :: fromUtf8Lossy rest₁
            else replacement :: fromUtf8Lossy (b₁ :: rest₁)
      else if 0xE0 ≤ b ∧ b ≤ 0xEF then
        match rest with
        | [] => [replacement]
        | [b₁] => if isSecond b b₁ then [replacement] else replacement :: fromUtf8Lossy [b₁]
        | b₁ :: b₂ :: rest₂ =>
            if !isSecond b b₁ then replacement :: fromUtf8Lossy (b₁ :: b₂ :: rest₂)
            else if !isContinuation b₂ then replacement :: fromUtf8Lossy (b₂ :: rest₂)
            else scalarOf (b.toNat - 0xE0) [b₁, b₂] :: fromUtf8Lossy rest₂
      else if 0xF0 ≤ b ∧ b ≤ 0xF4 then
        match rest with
        | [] => [replacement]
        | [b₁] => if isSecond b b₁ then [replacement] else replacement :: fromUtf8Lossy [b₁]
        | [b₁, b₂] =>
            if !isSecond b b₁ then replacement :: fromUtf8Lossy [b₁, b₂]
            else if !isContinuation b₂ then replacement :: fromUtf8Lossy [b₂]
            else [replacement]
        | b₁ :: b₂ :: b₃ :: rest₃ =>
            if !isSecond b b₁ then replacement :: fromUtf8Lossy (b₁ :: b₂ :: b₃ :: rest₃)
            else if !isContinuation b₂ then replacement :: fromUtf8Lossy (b₂ :: b₃ :: rest₃)
            else if !isContinuation b₃ then replacement :: fromUtf8Lossy (b₃ :: rest₃)
            else scalarOf (b.toNat - 0xF0) [b₁, b₂, b₃] :: fromUtf8Lossy rest₃
      else replacement :: fromUtf8Lossy rest

/-- `OsStr::to_string_lossy`. -/
def OsStr.toStringLossy : OsStr → Str
  | .utf8 text => text
  | .invalid bytes => fromUtf8Lossy bytes

/-- A path below the root, as its list of names. -/
abbrev RelPath := List OsStr

/-- `Path::to_string_lossy` of a path made of names. -/
def RelPath.toStringLossy (path : RelPath) : Str :=
  ['/'].intercalate (path.map OsStr.toStringLossy)

/-- A relative path as a JSON string; a path that is not UTF-8 does not serialise. -/
def RelPath.toWire (path : RelPath) : Option Str :=
  (path.mapM OsStr.toStr).map ['/'].intercalate

/-! ## Path strings -/

/-- The stretches of a path string between its slashes. -/
def segments : Str → List Str
  | [] => [[]]
  | c :: rest =>
      if c = '/' then [] :: segments rest
      else match segments rest with
        | [] => [[c]]
        | first :: later => (c :: first) :: later

/-- `std::path::Component`, on Unix. -/
inductive Component where
  | rootDir
  | curDir
  | parentDir
  | normal (text : Str)
deriving DecidableEq

/-- What `components` makes of one segment after the first. -/
def segmentComponent (segment : Str) : Option Component :=
  if segment = [] ∨ segment = ['.'] then none
  else if segment = ['.', '.'] then some .parentDir
  else some (.normal segment)

/-- `Path::is_absolute`. -/
def isAbsolute (path : Str) : Bool := path.head? == some '/'

/-- `Path::components`: a leading `.` of a relative path is kept, any other is dropped. -/
def components (path : Str) : List Component :=
  let body := (segments path).filterMap segmentComponent
  if isAbsolute path then .rootDir :: body
  else if (segments path).head? = some ['.'] then .curDir :: body
  else body

/-- The `Normal` components of a path string, as the tree is searched and changed with them. -/
def normalTexts (path : Str) : List Str :=
  (components path).filterMap fun component =>
    match component with
    | .normal text => some text
    | _ => none

/-- The names of a list of `Normal` components. -/
def normalNames : List Component → Option RelPath
  | [] => some []
  | .normal text :: rest => (normalNames rest).map (OsStr.utf8 text :: ·)
  | _ :: _ => none

/-- The names below the root of a path string accepted by `safePath`. -/
def safeRel (rel : Str) : Option RelPath :=
  if isAbsolute rel then none else normalNames (components rel)

/-- `safe_path`: join a relative path of `Normal` components to the root. -/
def safePath (root : List Component) (rel : Str) : Option (List Component) :=
  if isAbsolute rel then none
  else if (components rel).all (fun component => component matches .normal _) then
    let joined := root ++ components rel
    if root <+: joined then some joined else none
  else none

/-- `Path::join` on strings: an absolute argument replaces the path. -/
def pathJoin (base name : Str) : Str :=
  if isAbsolute name then name
  else if base = [] ∨ base.getLast? = some '/' then base ++ name
  else base ++ '/' :: name

/-! ## Segments of a concatenation -/

theorem segments_ne_nil (path : Str) : segments path ≠ [] := by
  cases path with
  | nil => exact List.cons_ne_nil _ _
  | cons c rest =>
      rw [segments]
      split
      · exact List.cons_ne_nil _ _
      · split <;> exact List.cons_ne_nil _ _

theorem segments_slash (rest : Str) : segments ('/' :: rest) = [] :: segments rest := by
  rw [segments, if_pos rfl]

theorem segments_char {c : Char} (notSlash : c ≠ '/') {rest first : Str} {later : List Str}
    (tail : segments rest = first :: later) : segments (c :: rest) = (c :: first) :: later := by
  rw [segments, if_neg notSlash, tail]

theorem segments_of_no_slash {text : Str} (noSlash : '/' ∉ text) : segments text = [text] := by
  induction text with
  | nil => rfl
  | cons c rest ih =>
      have notSlash : c ≠ '/' := fun same => noSlash (same ▸ List.mem_cons_self)
      exact segments_char notSlash (ih fun member => noSlash (List.mem_cons_of_mem _ member))

/-- **Concatenation glues the last segment of the front to the first of the back.** -/
theorem segments_append {front back last first : Str} {before later : List Str}
    (frontSegments : segments front = before ++ [last])
    (backSegments : segments back = first :: later) :
    segments (front ++ back) = before ++ (last ++ first) :: later := by
  induction front generalizing before last with
  | nil =>
      have whole : before ++ [last] = [[]] := frontSegments.symm
      obtain ⟨rfl, rfl⟩ : before = [] ∧ last = [] := by
        cases before with
        | nil => simpa using whole
        | cons head tail => simp at whole
      exact backSegments
  | cons c rest ih =>
      by_cases slash : c = '/'
      · subst slash
        rw [segments_slash] at frontSegments
        cases before with
        | nil => exact absurd (List.cons.inj frontSegments).2 (segments_ne_nil rest)
        | cons head tail =>
            obtain ⟨rfl, restSegments⟩ := List.cons.inj frontSegments
            rw [List.cons_append, segments_slash, ih restSegments]
            rfl
      · obtain ⟨head, tail, restSegments⟩ := List.exists_cons_of_ne_nil (segments_ne_nil rest)
        rw [segments_char slash restSegments] at frontSegments
        cases before with
        | nil =>
            obtain ⟨rfl, rfl⟩ := List.cons.inj frontSegments
            exact segments_char slash (@ih _ [] restSegments)
        | cons first' before' =>
            obtain ⟨rfl, rfl⟩ := List.cons.inj frontSegments
            exact segments_char slash (@ih _ (head :: before') restSegments)

/-- A path string is absolute when it has an empty segment before a slash. -/
theorem isAbsolute_iff_segments {path first : Str} {later : List Str}
    (parts : segments path = first :: later) :
    isAbsolute path = true ↔ first = [] ∧ later ≠ [] := by
  cases path with
  | nil =>
      obtain ⟨rfl, rfl⟩ := List.cons.inj parts
      decide
  | cons c rest =>
      by_cases slash : c = '/'
      · subst slash
        rw [segments_slash] at parts
        obtain ⟨rfl, rfl⟩ := List.cons.inj parts
        exact ⟨fun _ => ⟨rfl, segments_ne_nil rest⟩, fun _ => rfl⟩
      · obtain ⟨head, tail, restParts⟩ := List.exists_cons_of_ne_nil (segments_ne_nil rest)
        rw [segments_char slash restParts] at parts
        obtain ⟨rfl, rfl⟩ := List.cons.inj parts
        simp [isAbsolute, slash]

/-! ## Accepted paths -/

/-- The segments that name something: not empty and not `.`. -/
def namedSegments (parts : List Str) : List Str :=
  parts.filter fun segment => !(segment == [] || segment == ['.'])

theorem normalNames_filterMap {parts : List Str} (noParent : ['.', '.'] ∉ parts) :
    normalNames (parts.filterMap segmentComponent) =
      some ((namedSegments parts).map OsStr.utf8) := by
  induction parts with
  | nil => rfl
  | cons segment rest ih =>
      have restNoParent : ['.', '.'] ∉ rest := fun member =>
        noParent (List.mem_cons_of_mem _ member)
      have notParent : segment ≠ ['.', '.'] := fun same => noParent (same ▸ List.mem_cons_self)
      by_cases skipped : segment = [] ∨ segment = ['.']
      · have dropped : segmentComponent segment = none := if_pos skipped
        rw [List.filterMap_cons_none dropped, ih restNoParent]
        rcases skipped with rfl | rfl <;> rfl
      · have kept : segmentComponent segment = some (.normal segment) := by
          rw [segmentComponent, if_neg skipped, if_neg notParent]
        have named : namedSegments (segment :: rest) = segment :: namedSegments rest := by
          rw [not_or] at skipped
          rw [namedSegments, List.filter_cons_of_pos (by simp [skipped.1, skipped.2])]
          rfl
        rw [List.filterMap_cons_some kept, normalNames, ih restNoParent, named]
        rfl

theorem normalNames_isSome_iff {parts : List Component} :
    (normalNames parts).isSome ↔
      parts.all (fun component => component matches .normal _) = true := by
  induction parts with
  | nil => simp [normalNames]
  | cons component rest ih =>
      cases component <;> simp [normalNames, ih]

theorem noParent_of_normalNames {parts : List Str} {names : RelPath}
    (accepted : normalNames (parts.filterMap segmentComponent) = some names) :
    ['.', '.'] ∉ parts := by
  intro member
  have normal := normalNames_isSome_iff.mp (Option.isSome_iff_exists.mpr ⟨names, accepted⟩)
  have parent : Component.parentDir ∈ parts.filterMap segmentComponent :=
    List.mem_filterMap.mpr ⟨['.', '.'], member, by decide⟩
  exact absurd (List.all_eq_true.mp normal _ parent) (by decide)

/-- **What `safe_path` accepts**: a relative string with no leading `.` and no `..`. Its
names are the segments that name something. -/
theorem safeRel_eq_some_iff {rel : Str} {names : RelPath} :
    safeRel rel = some names ↔
      isAbsolute rel = false ∧ (segments rel).head? ≠ some ['.'] ∧
        ['.', '.'] ∉ segments rel ∧
          names = (namedSegments (segments rel)).map OsStr.utf8 := by
  constructor
  · intro accepted
    rw [safeRel] at accepted
    by_cases absolute : isAbsolute rel
    · simp [absolute] at accepted
    · rw [if_neg absolute, components, if_neg absolute] at accepted
      by_cases leading : (segments rel).head? = some ['.']
      · rw [if_pos leading] at accepted
        exact absurd accepted (Option.some_ne_none names).symm
      · rw [if_neg leading] at accepted
        have noParent := noParent_of_normalNames accepted
        refine ⟨by simpa using absolute, leading, noParent, ?_⟩
        rw [normalNames_filterMap noParent] at accepted
        exact (Option.some.inj accepted).symm
  · rintro ⟨relative, leading, noParent, rfl⟩
    have notAbsolute : ¬ isAbsolute rel = true := by simp [relative]
    rw [safeRel, if_neg notAbsolute, components, if_neg notAbsolute, if_neg leading,
      normalNames_filterMap noParent]

/-- A name a directory entry can have. -/
def OsStr.IsName : OsStr → Prop
  | .utf8 text => text ≠ [] ∧ text ≠ ['.'] ∧ text ≠ ['.', '.'] ∧ '/' ∉ text
  | .invalid _ => True

instance decidableIsName : (name : OsStr) → Decidable name.IsName
  | .utf8 _ => inferInstanceAs (Decidable (_ ∧ _ ∧ _ ∧ _))
  | .invalid _ => isTrue trivial

theorem slash_not_mem_segments {path segment : Str} (member : segment ∈ segments path) :
    '/' ∉ segment := by
  induction path generalizing segment with
  | nil =>
      rw [List.mem_singleton.mp member]
      exact List.not_mem_nil
  | cons c rest ih =>
      by_cases slash : c = '/'
      · subst slash
        rw [segments_slash] at member
        rcases List.mem_cons.mp member with rfl | later
        · exact List.not_mem_nil
        · exact ih later
      · obtain ⟨first, later, tail⟩ := List.exists_cons_of_ne_nil (segments_ne_nil rest)
        rw [segments_char slash tail] at member
        rcases List.mem_cons.mp member with rfl | inside
        · rw [List.mem_cons, not_or]
          exact ⟨fun same => slash same.symm, ih (tail ▸ List.mem_cons_self)⟩
        · exact ih (tail ▸ List.mem_cons_of_mem _ inside)

theorem mem_of_mem_segments {path segment : Str} (member : segment ∈ segments path) {c : Char}
    (inside : c ∈ segment) : c ∈ path := by
  induction path generalizing segment with
  | nil =>
      rw [List.mem_singleton.mp member] at inside
      exact inside
  | cons head rest ih =>
      by_cases slash : head = '/'
      · subst slash
        rw [segments_slash] at member
        rcases List.mem_cons.mp member with rfl | later
        · exact absurd inside List.not_mem_nil
        · exact List.mem_cons_of_mem _ (ih later inside)
      · obtain ⟨first, later, tail⟩ := List.exists_cons_of_ne_nil (segments_ne_nil rest)
        rw [segments_char slash tail] at member
        rcases List.mem_cons.mp member with rfl | after
        · rcases List.mem_cons.mp inside with rfl | under
          · exact List.mem_cons_self
          · exact List.mem_cons_of_mem _ (ih (tail ▸ List.mem_cons_self) under)
        · exact List.mem_cons_of_mem _ (ih (tail ▸ List.mem_cons_of_mem _ after) inside)

/-- An accepted path is made of names a directory entry can have. -/
theorem exists_names_of_safeRel {rel : Str} {path : RelPath} (accepted : safeRel rel = some path) :
    ∃ texts : List Str, path = texts.map OsStr.utf8 ∧ ∀ text ∈ texts, (OsStr.utf8 text).IsName := by
  obtain ⟨_, _, noParent, rfl⟩ := safeRel_eq_some_iff.mp accepted
  refine ⟨_, rfl, fun text member => ?_⟩
  obtain ⟨inside, named⟩ := List.mem_filter.mp member
  simp only [Bool.not_eq_true', Bool.or_eq_false_iff, beq_eq_false_iff_ne] at named
  exact ⟨named.1, named.2, fun parent => noParent (parent ▸ inside), slash_not_mem_segments inside⟩

/-- The segments of names put together with slashes are the names. -/
theorem segments_intercalate {first : Str} {rest : List Str}
    (noSlash : ∀ name ∈ first :: rest, '/' ∉ name) :
    segments (['/'].intercalate (first :: rest)) = first :: rest := by
  induction rest generalizing first with
  | nil => simpa using segments_of_no_slash (noSlash first List.mem_cons_self)
  | cons second rest ih =>
      have firstPlain := segments_of_no_slash (noSlash first List.mem_cons_self)
      have later := ih fun name member => noSlash name (List.mem_cons_of_mem _ member)
      have slash : segments ('/' :: ['/'].intercalate (second :: rest)) = [] :: second :: rest := by
        rw [segments_slash, later]
      have whole := @segments_append _ _ _ _ [] _ firstPlain slash
      rw [List.append_nil] at whole
      rw [List.intercalate_cons_cons, List.append_assoc]
      exact whole

/-- Names put together with slashes are accepted as these names. -/
theorem safeRel_intercalate {texts : List Str}
    (named : ∀ text ∈ texts, (OsStr.utf8 text).IsName) :
    safeRel (['/'].intercalate texts) = some (texts.map OsStr.utf8) := by
  cases texts with
  | nil => rfl
  | cons first rest =>
      have parts := @segments_intercalate first rest fun text member => (named text member).2.2.2
      have first' := named first List.mem_cons_self
      refine safeRel_eq_some_iff.mpr ⟨?_, ?_, ?_, ?_⟩
      · rw [Bool.eq_false_iff, Ne, isAbsolute_iff_segments parts]
        exact fun absolute => first'.1 absolute.1
      · rw [parts]
        exact fun same => first'.2.1 (Option.some.inj same)
      · rw [parts]
        exact fun member => (named _ member).2.2.1 rfl
      · rw [parts, namedSegments, List.filter_eq_self.mpr fun text member => ?_]
        simp [(named text member).1, (named text member).2.1]

/-- A path that serialises is made of names that are text. -/
theorem exists_names_of_toWire {path : RelPath} {raw : Str} (wire : path.toWire = some raw) :
    ∃ texts : List Str, path = texts.map OsStr.utf8 ∧ raw = ['/'].intercalate texts := by
  obtain ⟨texts, read, rfl⟩ := Option.map_eq_some_iff.mp wire
  refine ⟨texts, ?_, rfl⟩
  clear wire
  induction path generalizing texts with
  | nil =>
      obtain rfl := Option.some.inj read
      rfl
  | cons name rest ih =>
      rw [List.mapM_cons] at read
      cases name with
      | invalid bytes => exact absurd read (Option.some_ne_none texts).symm
      | utf8 text =>
          obtain ⟨text', here, read⟩ := Option.bind_eq_some_iff.mp read
          obtain rfl := Option.some.inj here
          obtain ⟨later, read', same⟩ := Option.bind_eq_some_iff.mp read
          obtain rfl := Option.some.inj same
          rw [List.map_cons, ← ih later read']

theorem toWire_map_utf8 (texts : List Str) :
    RelPath.toWire (texts.map OsStr.utf8) = some (['/'].intercalate texts) := by
  have read : (texts.map OsStr.utf8).mapM OsStr.toStr = some texts := by
    induction texts with
    | nil => rfl
    | cons text texts ih =>
        rw [List.map_cons, List.mapM_cons, ih]
        rfl
  rw [RelPath.toWire, read]
  rfl

/-- **The way of a path through a message**: the receiver gets the names it was made of. -/
theorem safeRel_toWire {path : RelPath} {raw : Str} (named : ∀ name ∈ path, name.IsName)
    (wire : path.toWire = some raw) : safeRel raw = some path := by
  obtain ⟨texts, rfl, rfl⟩ := exists_names_of_toWire wire
  exact safeRel_intercalate fun text member => named (.utf8 text) (List.mem_map_of_mem member)

/-- `safe_path` returns the root followed by the accepted names. -/
theorem safePath_eq (root : List Component) (rel : Str) :
    safePath root rel = (safeRel rel).map fun _ => root ++ components rel := by
  rw [safePath, safeRel]
  by_cases absolute : isAbsolute rel
  · simp [absolute]
  · rw [if_neg absolute, if_neg absolute]
    cases accepted : normalNames (components rel) with
    | none =>
        have rejected : ¬ (components rel).all
            (fun component => component matches .normal _) = true := by
          rw [← normalNames_isSome_iff, accepted]
          exact Bool.false_ne_true
        rw [if_neg rejected]
        rfl
    | some names =>
        have normal := normalNames_isSome_iff.mp (Option.isSome_iff_exists.mpr ⟨names, accepted⟩)
        rw [if_pos normal]
        simp

/-! ## Joined paths -/

theorem head?_segments_append {before : List Str} (nonempty : before ≠ []) (later : List Str) :
    (before ++ later).head? = before.head? := by
  cases before with
  | nil => exact absurd rfl nonempty
  | cons first rest => rfl

/-- A relative path joined to another one adds its own segments. -/
theorem exists_segments_pathJoin {base name : Str} (relative : isAbsolute name = false)
    (nonempty : base ≠ []) :
    ∃ before, before ≠ [] ∧ (segments base = before ∨ segments base = before ++ [[]]) ∧
      segments (pathJoin base name) = before ++ segments name := by
  obtain ⟨before, last, baseSegments⟩ :=
    List.eq_nil_or_concat' (segments base) |>.resolve_left (segments_ne_nil base)
  rw [pathJoin, relative, if_neg Bool.false_ne_true]
  by_cases slash : base.getLast? = some '/'
  · rw [if_pos (Or.inr slash)]
    obtain ⟨front, rfl⟩ := List.getLast?_eq_some_iff.mp slash
    obtain ⟨front', last', frontSegments⟩ :=
      List.eq_nil_or_concat' (segments front) |>.resolve_left (segments_ne_nil front)
    have whole := segments_append frontSegments (segments_slash [])
    obtain ⟨first, later, nameSegments⟩ := List.exists_cons_of_ne_nil (segments_ne_nil name)
    have split : segments (front ++ ['/']) = (front' ++ [last']) ++ [[]] := by
      rw [whole, List.append_nil, List.append_assoc]
      rfl
    refine ⟨front' ++ [last'], by simp, Or.inr split, ?_⟩
    rw [segments_append split nameSegments, nameSegments]
    rfl
  · rw [if_neg (not_or.mpr ⟨nonempty, slash⟩)]
    refine ⟨segments base, segments_ne_nil base, Or.inl rfl, ?_⟩
    rw [segments_append baseSegments (segments_slash name), List.append_nil, baseSegments,
      List.append_assoc]
    rfl

/-- **An accepted path joined to a root** adds its components to those of the root. -/
theorem components_pathJoin {rel : Str} {names : RelPath} (accepted : safeRel rel = some names)
    (root : Str) : components (pathJoin root rel) = components root ++ components rel := by
  obtain ⟨relative, leading, _, _⟩ := safeRel_eq_some_iff.mp accepted
  have notAbsolute : ¬ isAbsolute rel = true := by simp [relative]
  have body : components rel = (segments rel).filterMap segmentComponent := by
    rw [components, if_neg notAbsolute, if_neg leading]
  by_cases empty : root = []
  · subst empty
    rw [pathJoin, relative, if_neg Bool.false_ne_true, if_pos (Or.inl rfl)]
    rfl
  · obtain ⟨before, nonempty, rootSegments, joined⟩ := exists_segments_pathJoin relative empty
    have sameHead : (segments (pathJoin root rel)).head? = (segments root).head? := by
      rw [joined, head?_segments_append nonempty]
      rcases rootSegments with same | same <;> rw [same]
      rw [head?_segments_append nonempty]
    have absolute : isAbsolute (pathJoin root rel) = isAbsolute root := by
      obtain ⟨c, rest, rfl⟩ := List.exists_cons_of_ne_nil empty
      rw [pathJoin, relative, if_neg Bool.false_ne_true]
      split <;> rfl
    have bodies : (segments (pathJoin root rel)).filterMap segmentComponent =
        (segments root).filterMap segmentComponent ++ components rel := by
      rw [joined, List.filterMap_append, body]
      rcases rootSegments with same | same <;> rw [same]
      rw [List.filterMap_append, show [([] : Str)].filterMap segmentComponent = [] by decide,
        List.append_nil]
    rw [components, sameHead, absolute, bodies, components.eq_def root]
    dsimp only
    split
    · rfl
    · split <;> rfl

/-- The components of an accepted path are its names. -/
theorem components_of_safeRel {rel : Str} {names : RelPath} (accepted : safeRel rel = some names) :
    ∃ texts : List Str, names = texts.map OsStr.utf8 ∧
      components rel = texts.map Component.normal := by
  have relative := (safeRel_eq_some_iff.mp accepted).1
  rw [safeRel, relative, if_neg Bool.false_ne_true] at accepted
  generalize components rel = parts at accepted
  induction parts generalizing names with
  | nil =>
      obtain rfl := Option.some.inj accepted
      exact ⟨[], rfl, rfl⟩
  | cons component rest ih =>
      cases component with
      | normal text =>
          obtain ⟨later, inside, rfl⟩ := Option.map_eq_some_iff.mp accepted
          obtain ⟨texts, rfl, rfl⟩ := ih inside
          exact ⟨text :: texts, rfl, rfl⟩
      | _ => exact absurd accepted (Option.some_ne_none names).symm

/-! ## Joined names -/

theorem intercalate_concat {first : Str} {rest : List Str} (last : Str) :
    ['/'].intercalate ((first :: rest) ++ [last]) =
      ['/'].intercalate (first :: rest) ++ '/' :: last := by
  induction rest generalizing first with
  | nil => simp [List.intercalate_cons_cons]
  | cons second rest ih =>
      rw [List.cons_append, List.cons_append, List.intercalate_cons_cons, ← List.cons_append, ih,
        List.intercalate_cons_cons]
      simp only [List.append_assoc]

/-- A name is joined with a slash to names before it. -/
theorem pathJoin_intercalate {names : List Str} {name : Str}
    (named : ∀ text ∈ names ++ [name], (OsStr.utf8 text).IsName) :
    pathJoin (['/'].intercalate names) name = ['/'].intercalate (names ++ [name]) := by
  have last := named name (List.mem_append_right _ (List.mem_singleton_self _))
  have relative : isAbsolute name = false := by
    rw [Bool.eq_false_iff, Ne, isAbsolute_iff_segments (segments_of_no_slash last.2.2.2)]
    exact fun absolute => absolute.2 rfl
  rw [pathJoin, relative, if_neg Bool.false_ne_true]
  rcases List.eq_nil_or_concat' names with rfl | ⟨front, back, rfl⟩
  · simp
  · have plain := named back (List.mem_append_left _ (List.mem_append_right _
      (List.mem_singleton_self _)))
    obtain ⟨stem, ending, rfl⟩ := (List.eq_nil_or_concat' back).resolve_left plain.1
    have ends : ∃ before, ['/'].intercalate (front ++ [stem ++ [ending]]) =
        before ++ [ending] := by
      cases front with
      | nil => exact ⟨stem, by simp⟩
      | cons first rest =>
          refine ⟨['/'].intercalate (first :: rest) ++ '/' :: stem, ?_⟩
          rw [intercalate_concat]
          simp
    obtain ⟨before, shape⟩ := ends
    have open' : ¬ (['/'].intercalate (front ++ [stem ++ [ending]]) = [] ∨
        (['/'].intercalate (front ++ [stem ++ [ending]])).getLast? = some '/') := by
      rw [shape]
      rintro (empty | slash)
      · exact absurd empty (by simp)
      · rw [List.getLast?_concat, Option.some.injEq] at slash
        exact plain.2.2.2 (by simp [slash])
    rw [if_neg open']
    cases front with
    | nil => exact (@intercalate_concat _ [] name).symm
    | cons first rest => exact (intercalate_concat name).symm

theorem utf8_injective : Function.Injective (List.map OsStr.utf8) :=
  List.map_injective_iff.mpr fun _ _ same => OsStr.utf8.inj same

/-- The path string that names joined one after another make. -/
def diffPath (names : List Str) : Str := names.foldl pathJoin []

theorem diffPath_concat (names : List Str) (name : Str) :
    diffPath (names ++ [name]) = pathJoin (diffPath names) name := by
  rw [diffPath, List.foldl_append]
  rfl

theorem diffPath_eq {names : List Str} (named : ∀ text ∈ names, (OsStr.utf8 text).IsName) :
    diffPath names = ['/'].intercalate names := by
  induction names using List.reverseRecOn with
  | nil => rfl
  | append_singleton names name ih =>
      rw [diffPath_concat, ih fun text member => named text (List.mem_append_left _ member),
        pathJoin_intercalate named]

/-- **The path string of a difference** is accepted as the names it was joined from. -/
theorem safeRel_diffPath {names : List Str} (named : ∀ text ∈ names, (OsStr.utf8 text).IsName) :
    safeRel (diffPath names) = some (names.map OsStr.utf8) := by
  rw [diffPath_eq named, safeRel_intercalate named]

/-- The path string of a difference has the names it was joined from as its components. -/
theorem components_diffPath {names : List Str}
    (named : ∀ text ∈ names, (OsStr.utf8 text).IsName) :
    components (diffPath names) = names.map Component.normal := by
  obtain ⟨texts, same, parts⟩ := components_of_safeRel (safeRel_diffPath named)
  rw [parts, utf8_injective same]

theorem normalTexts_diffPath {names : List Str}
    (named : ∀ text ∈ names, (OsStr.utf8 text).IsName) : normalTexts (diffPath names) = names := by
  rw [normalTexts, components_diffPath named, List.filterMap_map]
  exact List.filterMap_some

end P2Sync
