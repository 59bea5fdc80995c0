import Mathlib.Data.List.Infix

/-!
# Maps from paths

Seen from outside, a tree of leaves and branches says of every path what stands there: a
leaf with its value, a branch, or nothing. A path map is that view.

`replace` puts a whole map at a path, over all that stood at and below it. Replacements by
parts of one target can be made in any order: what they cover is then the target's
(`foldl_replace`), so they lead to the target as soon as the rest is the target's already
(`foldl_replace_eq`).

A map that has only what lies on the way to the leaves of another one (`PartOf`) stays so
when a leaf of the other is put into it. With all the leaves it is the other map exactly
when every branch of that leads to a leaf (`PartOf.eq_iff`).
-/

set_option autoImplicit false

namespace P2Sync

universe u v

/-- What stands at a path. -/
inductive PathMap.Entry (L : Type v) where
  | leaf (value : L)
  | branch
deriving DecidableEq

/-- What stands at each path. -/
abbrev PathMap (K : Type u) (L : Type v) := List K → Option (PathMap.Entry L)

namespace PathMap

variable {K : Type u} {L : Type v} [DecidableEq K]

/-- A map put at a path. -/
def replace (path : List K) (part map : PathMap K L) : PathMap K L := fun query =>
  if path <+: query then part (query.drop path.length) else map query

/-- The part of a map at and below a path. -/
def below (path : List K) (map : PathMap K L) : PathMap K L := fun rest => map (path ++ rest)

/-- Branches on the way to a path. -/
def openTo (path : List K) (map : PathMap K L) : PathMap K L := fun query =>
  if query <+: path ∧ query ≠ path then some .branch else map query

theorem replace_append (path rest : List K) (part map : PathMap K L) :
    replace path part map (path ++ rest) = part rest := by
  rw [replace, if_pos (List.prefix_append path rest), List.drop_left]

theorem replace_of_not_prefix {path query : List K} (apart : ¬ path <+: query)
    (part map : PathMap K L) : replace path part map query = map query :=
  if_neg apart

/-- Where the branches on the way stand already, there is nothing to open. -/
theorem openTo_eq_self {path : List K} {map : PathMap K L}
    (opened : ∀ above, above <+: path → above ≠ path → map above = some .branch) :
    openTo path map = map := by
  funext query
  rw [openTo]
  split
  · rename_i above
    exact (opened query above.1 above.2).symm
  · rfl

/-- A part of the target put at its own path. -/
theorem replace_below (path : List K) (target map : PathMap K L) (query : List K) :
    replace path (below path target) map query =
      if path <+: query then target query else map query := by
  rw [replace]
  split
  · rename_i reaches
    rw [below, List.prefix_append_drop reaches, List.drop_left]
  · rfl

/-- **Parts of a target, put in any order**, leave the target wherever they reach. -/
theorem foldl_replace (target : PathMap K L) (paths : List (List K)) (map : PathMap K L)
    (query : List K) :
    paths.foldl (fun map path => replace path (below path target) map) map query =
      if ∃ path ∈ paths, path <+: query then target query else map query := by
  induction paths generalizing map with
  | nil => simp
  | cons path paths ih =>
      rw [List.foldl_cons, ih, replace_below]
      by_cases later : ∃ path ∈ paths, path <+: query
      · rw [if_pos later, if_pos]
        obtain ⟨path', member, reaches⟩ := later
        exact ⟨path', List.mem_cons_of_mem _ member, reaches⟩
      · rw [if_neg later]
        simp only [List.exists_mem_cons_iff, later, or_false]

/-- **They lead to the target** when the rest is the target's already. -/
theorem foldl_replace_eq {target : PathMap K L} {paths : List (List K)} {map : PathMap K L}
    (rest : ∀ query, (∀ path ∈ paths, ¬ path <+: query) → map query = target query) :
    paths.foldl (fun map path => replace path (below path target) map) map = target := by
  funext query
  rw [foldl_replace]
  split
  · rfl
  · rename_i uncovered
    exact rest query fun path member reaches => uncovered ⟨path, member, reaches⟩

/-! ## Parts that lead to leaves -/

/-- Whatever stands somewhere stands below branches. -/
def Treelike (map : PathMap K L) : Prop :=
  ∀ above below entry, below ≠ [] → map (above ++ below) = some entry → map above = some .branch

/-- A leaf stands at a path or below it. -/
def Leads (map : PathMap K L) (query : List K) : Prop :=
  ∃ rest value, map (query ++ rest) = some (.leaf value)

/-- Whatever stands in a map stands in a whole one too, at the root or on the way to a leaf. -/
def PartOf (whole map : PathMap K L) : Prop :=
  ∀ query entry, map query = some entry →
    whole query = some entry ∧ (query = [] ∨ Leads whole query)

omit [DecidableEq K] in
/-- Below a leaf nothing stands. -/
theorem Treelike.eq_nil_of_leaf {map : PathMap K L} (treelike : map.Treelike) {path rest : List K}
    {value : L} {entry : Entry L} (leaf : map path = some (.leaf value))
    (below : map (path ++ rest) = some entry) : rest = [] := by
  by_contra proper
  exact absurd (leaf.symm.trans (treelike path rest entry proper below)) (by simp)

/-- **A leaf of the whole put into a part** leaves a part. -/
theorem PartOf.replace_leaf {whole map : PathMap K L} (part : PartOf whole map)
    (treelike : whole.Treelike) {path : List K} {value : L}
    (leaf : whole path = some (.leaf value)) :
    PartOf whole (replace path (below path whole) (openTo path map)) := by
  intro query entry stands
  rw [replace_below] at stands
  split at stands
  · rename_i reaches
    obtain ⟨rest, rfl⟩ := reaches
    obtain rfl := treelike.eq_nil_of_leaf leaf stands
    rw [List.append_nil] at stands ⊢
    exact ⟨stands, Or.inr ⟨[], value, by rw [List.append_nil, leaf]⟩⟩
  · rw [openTo] at stands
    split at stands
    · rename_i above
      obtain ⟨⟨rest, rfl⟩, apart⟩ := above
      obtain rfl := Option.some.inj stands
      have proper : rest ≠ [] := fun empty => apart (by rw [empty, List.append_nil])
      exact ⟨treelike query rest _ proper leaf, Or.inr ⟨rest, value, leaf⟩⟩
    · exact part query entry stands

omit [DecidableEq K] in
/-- **A part with all the leaves** is the whole exactly when every branch leads to one. -/
theorem PartOf.eq_iff {whole map : PathMap K L} (part : PartOf whole map)
    (treelike : map.Treelike) (root : map [] = whole [])
    (leaves : ∀ path value, whole path = some (.leaf value) → map path = some (.leaf value)) :
    map = whole ↔ ∀ path, path ≠ [] → whole path = some .branch → Leads whole path := by
  constructor
  · intro same path proper branch
    rw [← same] at branch
    exact (part path _ branch).2.resolve_left proper
  · intro filled
    funext path
    cases there : whole path with
    | none =>
        cases here : map path with
        | none => rfl
        | some entry =>
            exact absurd (there.symm.trans (part path entry here).1) (Option.some_ne_none _).symm
    | some entry =>
        cases entry with
        | leaf value => exact leaves path value there
        | branch =>
            by_cases proper : path = []
            · rw [proper, root, ← proper, there]
            · obtain ⟨rest, value, leaf⟩ := filled path proper there
              refine treelike path rest _ ?_ (leaves _ value leaf)
              rintro rfl
              rw [List.append_nil, there] at leaf
              exact absurd leaf (by simp)

end PathMap

end P2Sync
