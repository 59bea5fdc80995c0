import Mathlib.Order.Lattice
import Mathlib.Data.List.Basic
import Mathlib.Data.List.Pairwise

/-!
# Ordered maps as key-sorted lists

A finite map over a linearly ordered key type is a list of entries with strictly
increasing keys. The list is the order in which the map is iterated, so whatever
is computed by walking the map is a function of the map alone.

The three operations are defined on raw lists, where a recursive type can nest
them. Their lookup laws need no sortedness (`lookup_insert`, `lookup_erase`), and
they keep it (`Sorted.insert`, `Sorted.erase`). Two sorted lists with the same
lookups are the same list (`Sorted.ext`). `BTreeMap` bundles a list with its
sortedness.
-/

set_option autoImplicit false

namespace P2Sync.SortedMap

universe u v

variable {K : Type u} {V : Type v} [LinearOrder K]

/-- The value stored under a key. -/
def lookup (key : K) : List (K × V) → Option V
  | [] => none
  | (other, value) :: rest => if key = other then some value else lookup key rest

/-- Insert in order, replacing the value of a key already present. -/
def insert (key : K) (value : V) : List (K × V) → List (K × V)
  | [] => [(key, value)]
  | (other, old) :: rest =>
      if key < other then (key, value) :: (other, old) :: rest
      else if key = other then (key, value) :: rest
      else (other, old) :: insert key value rest

/-- Remove every entry of a key. -/
def erase (key : K) : List (K × V) → List (K × V)
  | [] => []
  | (other, old) :: rest =>
      if key = other then erase key rest else (other, old) :: erase key rest

/-- Strictly increasing keys. -/
def Sorted (entries : List (K × V)) : Prop :=
  entries.Pairwise fun first second => first.1 < second.1

/-! ## Lookup laws -/

@[simp] theorem lookup_nil (key : K) : lookup key ([] : List (K × V)) = none := rfl

theorem lookup_cons (key other : K) (value : V) (rest : List (K × V)) :
    lookup key ((other, value) :: rest) =
      if key = other then some value else lookup key rest := rfl

/-- Insertion changes the value of one key. -/
theorem lookup_insert (key query : K) (value : V) (entries : List (K × V)) :
    lookup query (insert key value entries) =
      if query = key then some value else lookup query entries := by
  induction entries with
  | nil => rfl
  | cons entry rest ih =>
      obtain ⟨other, old⟩ := entry
      by_cases less : key < other
      · simp only [insert, if_pos less, lookup_cons]
      · by_cases same : key = other
        · subst same
          simp only [insert, if_neg less, if_true, lookup_cons]
          split <;> rfl
        · simp only [insert, if_neg less, if_neg same, lookup_cons, ih]
          by_cases here : query = other
          · have apart : ¬ query = key := fun equal => same (equal.symm.trans here)
            simp only [if_pos here, if_neg apart]
          · simp only [if_neg here]

@[simp] theorem lookup_insert_self (key : K) (value : V) (entries : List (K × V)) :
    lookup key (insert key value entries) = some value := by
  rw [lookup_insert, if_pos rfl]

theorem lookup_insert_of_ne {key query : K} (apart : query ≠ key) (value : V)
    (entries : List (K × V)) :
    lookup query (insert key value entries) = lookup query entries := by
  rw [lookup_insert, if_neg apart]

/-- Removal forgets one key. -/
theorem lookup_erase (key query : K) (entries : List (K × V)) :
    lookup query (erase key entries) =
      if query = key then none else lookup query entries := by
  induction entries with
  | nil => simp only [erase, lookup_nil, ite_self]
  | cons entry rest ih =>
      obtain ⟨other, old⟩ := entry
      by_cases same : key = other
      · subst same
        simp only [erase, if_true, ih, lookup_cons]
        split <;> rfl
      · simp only [erase, if_neg same, lookup_cons, ih]
        by_cases here : query = other
        · have apart : ¬ query = key := fun equal => same (equal.symm.trans here)
          simp only [if_pos here, if_neg apart]
        · simp only [if_neg here]

@[simp] theorem lookup_erase_self (key : K) (entries : List (K × V)) :
    lookup key (erase key entries) = none := by
  rw [lookup_erase, if_pos rfl]

theorem mem_of_lookup {key : K} {value : V} {entries : List (K × V)}
    (found : lookup key entries = some value) : (key, value) ∈ entries := by
  induction entries with
  | nil => exact absurd found (Option.some_ne_none value).symm
  | cons entry rest ih =>
      obtain ⟨other, old⟩ := entry
      rw [lookup_cons] at found
      by_cases same : key = other
      · rw [if_pos same] at found
        cases found
        exact same ▸ List.mem_cons_self
      · rw [if_neg same] at found
        exact List.mem_cons_of_mem _ (ih found)

/-! ## Sortedness -/

theorem mem_insert {key : K} {value : V} {entries : List (K × V)} {entry : K × V}
    (member : entry ∈ insert key value entries) : entry = (key, value) ∨ entry ∈ entries := by
  induction entries with
  | nil => exact Or.inl (List.mem_singleton.mp member)
  | cons head rest ih =>
      obtain ⟨other, old⟩ := head
      simp only [insert] at member
      split at member
      · exact List.mem_cons.mp member
      · split at member
        · exact (List.mem_cons.mp member).imp_right (List.mem_cons_of_mem _)
        · rcases List.mem_cons.mp member with here | later
          · exact Or.inr (here ▸ List.mem_cons_self)
          · exact (ih later).imp_right (List.mem_cons_of_mem _)

theorem mem_erase {key : K} {entries : List (K × V)} {entry : K × V}
    (member : entry ∈ erase key entries) : entry ∈ entries := by
  induction entries with
  | nil => exact member
  | cons head rest ih =>
      obtain ⟨other, old⟩ := head
      simp only [erase] at member
      split at member
      · exact List.mem_cons_of_mem _ (ih member)
      · rcases List.mem_cons.mp member with here | later
        · exact here ▸ List.mem_cons_self
        · exact List.mem_cons_of_mem _ (ih later)

theorem Sorted.nil : Sorted ([] : List (K × V)) := List.Pairwise.nil

theorem Sorted.insert {entries : List (K × V)} (sorted : Sorted entries) (key : K) (value : V) :
    Sorted (insert key value entries) := by
  induction entries with
  | nil => exact List.pairwise_singleton _ _
  | cons head rest ih =>
      obtain ⟨other, old⟩ := head
      obtain ⟨above, tail⟩ := List.pairwise_cons.mp sorted
      simp only [SortedMap.insert]
      split
      · rename_i less
        refine List.pairwise_cons.mpr ⟨fun entry member => ?_, sorted⟩
        rcases List.mem_cons.mp member with here | later
        · exact here ▸ less
        · exact less.trans (above entry later)
      · rename_i notLess
        split
        · rename_i same
          exact List.pairwise_cons.mpr ⟨fun entry member => same ▸ above entry member, tail⟩
        · rename_i apart
          refine List.pairwise_cons.mpr ⟨fun entry member => ?_, ih tail⟩
          rcases mem_insert member with here | later
          · exact here ▸ lt_of_le_of_ne (not_lt.mp notLess) (Ne.symm apart)
          · exact above entry later

theorem Sorted.erase {entries : List (K × V)} (sorted : Sorted entries) (key : K) :
    Sorted (erase key entries) := by
  induction entries with
  | nil => exact Sorted.nil
  | cons head rest ih =>
      obtain ⟨above, tail⟩ := List.pairwise_cons.mp sorted
      simp only [SortedMap.erase]
      split
      · exact ih tail
      · exact List.pairwise_cons.mpr
          ⟨fun entry member => above entry (mem_erase member), ih tail⟩

/-- A sorted list holds its entries under their keys. -/
theorem Sorted.lookup_of_mem {entries : List (K × V)} (sorted : Sorted entries) {key : K}
    {value : V} (member : (key, value) ∈ entries) : lookup key entries = some value := by
  induction entries with
  | nil => exact absurd member List.not_mem_nil
  | cons head rest ih =>
      obtain ⟨other, old⟩ := head
      obtain ⟨above, tail⟩ := List.pairwise_cons.mp sorted
      rcases List.mem_cons.mp member with here | later
      · cases here
        rw [lookup_cons, if_pos rfl]
      · rw [lookup_cons, if_neg (ne_of_gt (above _ later)), ih tail later]

theorem Sorted.mem_iff_lookup {entries : List (K × V)} (sorted : Sorted entries) {key : K}
    {value : V} : (key, value) ∈ entries ↔ lookup key entries = some value :=
  ⟨sorted.lookup_of_mem, mem_of_lookup⟩

/-- **Sorted lists with the same lookups are equal.** -/
theorem Sorted.ext {left right : List (K × V)} (leftSorted : Sorted left)
    (rightSorted : Sorted right) (same : ∀ key, lookup key left = lookup key right) :
    left = right := by
  have distinct : ∀ {entries : List (K × V)}, Sorted entries → entries.Nodup :=
    fun sorted => sorted.imp fun less equal => absurd (equal ▸ less) (lt_irrefl _)
  refine List.Perm.eq_of_pairwise (fun first second _ _ less greater =>
    absurd (less.trans greater) (lt_irrefl _)) leftSorted rightSorted ?_
  refine (List.perm_ext_iff_of_nodup (distinct leftSorted) (distinct rightSorted)).mpr ?_
  rintro ⟨key, value⟩
  rw [leftSorted.mem_iff_lookup, rightSorted.mem_iff_lookup, same key]

/-- The first key of a sorted list is not among the later ones. -/
theorem Sorted.lookup_tail {key : K} {value : V} {rest : List (K × V)}
    (sorted : Sorted ((key, value) :: rest)) : lookup key rest = none := by
  rw [Option.eq_none_iff_forall_ne_some]
  intro later found
  exact lt_irrefl key ((List.pairwise_cons.mp sorted).1 _ (mem_of_lookup found))

/-- Inserting what is there already changes nothing. -/
theorem Sorted.insert_of_lookup {entries : List (K × V)} (sorted : Sorted entries) {key : K}
    {value : V} (found : lookup key entries = some value) :
    SortedMap.insert key value entries = entries := by
  refine (sorted.insert key value).ext sorted fun query => ?_
  rw [lookup_insert]
  split
  · rename_i same
    rw [same, found]
  · rfl

/-- Removing what is not there changes nothing. -/
theorem Sorted.erase_of_lookup {entries : List (K × V)} (sorted : Sorted entries) {key : K}
    (missing : lookup key entries = none) : SortedMap.erase key entries = entries := by
  refine (sorted.erase key).ext sorted fun query => ?_
  rw [lookup_erase]
  split
  · rename_i same
    rw [same, missing]
  · rfl

/-- Of two insertions under one key the later counts. -/
theorem Sorted.insert_insert {entries : List (K × V)} (sorted : Sorted entries) (key : K)
    (value value' : V) :
    SortedMap.insert key value (SortedMap.insert key value' entries) =
      SortedMap.insert key value entries := by
  refine ((sorted.insert key value').insert key value).ext (sorted.insert key value) fun query => ?_
  simp only [lookup_insert]
  split <;> rfl

end P2Sync.SortedMap

namespace P2Sync

open SortedMap (Sorted)

universe u v

/-- An ordered map: a list of entries that carries its sortedness. -/
structure BTreeMap (K : Type u) (V : Type v) [LinearOrder K] where
  entries : List (K × V)
  sorted : Sorted entries

namespace BTreeMap

variable {K : Type u} {V : Type v} [LinearOrder K]

instance decidableEqBTreeMap [DecidableEq V] : DecidableEq (BTreeMap K V) := fun left right =>
  decidable_of_iff (left.entries = right.entries) ⟨fun same => by
    cases left; cases right; cases same; rfl, fun same => by rw [same]⟩

/-- The empty map. -/
def empty : BTreeMap K V := ⟨[], Sorted.nil⟩

def get (map : BTreeMap K V) (key : K) : Option V := SortedMap.lookup key map.entries

def insert (map : BTreeMap K V) (key : K) (value : V) : BTreeMap K V :=
  ⟨SortedMap.insert key value map.entries, map.sorted.insert key value⟩

/-- The keys, in increasing order. -/
def keys (map : BTreeMap K V) : List K := map.entries.map Prod.fst

@[simp] theorem get_empty (key : K) : (empty : BTreeMap K V).get key = none := rfl

theorem get_insert (map : BTreeMap K V) (key query : K) (value : V) :
    (map.insert key value).get query = if query = key then some value else map.get query :=
  SortedMap.lookup_insert key query value map.entries

theorem ext_get {left right : BTreeMap K V} (same : ∀ key, left.get key = right.get key) :
    left = right := by
  obtain ⟨leftEntries, leftSorted⟩ := left
  obtain ⟨rightEntries, rightSorted⟩ := right
  obtain rfl : leftEntries = rightEntries := leftSorted.ext rightSorted same
  rfl

theorem get_foldl_insert {entries : List (K × V)} (sorted : Sorted entries)
    (base : BTreeMap K V) (query : K) :
    (entries.foldl (fun map entry => map.insert entry.1 entry.2) base).get query =
      (SortedMap.lookup query entries).or (base.get query) := by
  induction entries generalizing base with
  | nil => rfl
  | cons entry rest ih =>
      obtain ⟨key, value⟩ := entry
      rw [List.foldl_cons, ih (List.pairwise_cons.mp sorted).2, get_insert, SortedMap.lookup_cons]
      by_cases here : query = key
      · rw [if_pos here, if_pos here, here, sorted.lookup_tail]
        rfl
      · rw [if_neg here, if_neg here]

/-- **The entries of a map**, inserted one after the other, make the map. -/
theorem foldl_insert_entries (map : BTreeMap K V) :
    map.entries.foldl (fun map entry => map.insert entry.1 entry.2) empty = map := by
  refine ext_get fun query => ?_
  rw [get_foldl_insert map.sorted, get_empty, Option.or_none]
  rfl

theorem mem_keys_iff {map : BTreeMap K V} {key : K} :
    key ∈ map.keys ↔ (map.get key).isSome := by
  rw [keys, List.mem_map, Option.isSome_iff_exists]
  constructor
  · rintro ⟨⟨_, value⟩, member, rfl⟩
    exact ⟨value, map.sorted.lookup_of_mem member⟩
  · rintro ⟨value, found⟩
    exact ⟨(key, value), SortedMap.mem_of_lookup found, rfl⟩

end BTreeMap

end P2Sync
