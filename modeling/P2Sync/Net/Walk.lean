import P2Sync.Core.Mirror
import P2Sync.Net.Engine

/-!
# What a reconciliation walks

A reconciliation compares the two trees and fetches the files below the differences. The
comparison skips a node whose hash is the one at the same place of the other tree, so it
comes to a file of the remote tree unless a node on the way, or the file itself, is
skipped (`Hidden`). It comes to it once: the names of a proper tree are apart and need no
cleaning, and the path strings lead back to the names they were joined from
(`safeRel_diffPath`).

`fetchesOf_walkDiff` says it in one equation: the fetches of a path are the one of the
remote file that stands there, or none when it is hidden or there is no file.
-/

set_option autoImplicit false

namespace P2Sync

/-! ## Hidden paths -/

/-- How many chunks a file has. -/
def Node.chunkCount : Node → Option Nat
  | .file _ _ chunks => some chunks.length
  | .directory _ _ => none

/-- Some node on the way to a path, or at it, has one hash in both trees. -/
def Merkle.Hidden (names : List Str) (old new : Node) : Prop :=
  ∃ above below oldNode newNode, names = above ++ below ∧
    Merkle.findNames above old = some oldNode ∧ Merkle.findNames above new = some newNode ∧
      oldNode.hash = newNode.hash

/-! ## Fetches of a path -/

/-- The number of chunks a step of the walk fetches of a path, if it fetches it. -/
def Walk.countOf {ι : Type} (path : RelPath) : Walk ι → Option Nat
  | .fetchFile _ raw chunkCount => if safeRel raw = some path then some chunkCount else none
  | .counted _ => none

/-- The fetches of a path in a walk. -/
def fetchesOf {ι : Type} (path : RelPath) (walk : List (Walk ι)) : List Nat :=
  walk.filterMap (Walk.countOf path)

section Walks

variable {ι : Type} {peer : ι} {above : List Str} {path : RelPath}

theorem fetchesOf_append (early late : List (Walk ι)) :
    fetchesOf path (early ++ late) = fetchesOf path early ++ fetchesOf path late :=
  List.filterMap_append

@[simp] theorem fetchesOf_counted (files : Nat) :
    fetchesOf path [(.counted files : Walk ι)] = [] := rfl

theorem concat_named {name : Str} (named : ∀ text ∈ above, (OsStr.utf8 text).IsName)
    (plain : (OsStr.utf8 name).IsName) : ∀ text ∈ above ++ [name], (OsStr.utf8 text).IsName := by
  intro text member
  rcases List.mem_append.mp member with early | last
  · exact named text early
  · rw [List.mem_singleton.mp last]
    exact plain

/-- Names with different prefixes of one length are different. -/
theorem not_prefix_of_ne {first other : Str} (apart : first ≠ other) (rest : List Str) :
    ¬ (above ++ [other]).map OsStr.utf8 <+: (above ++ first :: rest).map OsStr.utf8 := by
  intro reaches
  rw [List.map_append, List.map_append, List.prefix_append_right_inj] at reaches
  exact apart (OsStr.utf8.inj (List.cons_prefix_cons.mp reaches).1).symm

theorem not_prefix_self (name : Str) :
    ¬ (above ++ [name]).map OsStr.utf8 <+: above.map OsStr.utf8 := by
  intro reaches
  have short := reaches.length_le
  rw [List.length_map, List.length_map, List.length_append, List.length_singleton] at short
  omega

mutual

/-- What is fetched below a path has that path above it. -/
theorem fetchesOf_fetchNode_apart {above : List Str}
    (named : ∀ text ∈ above, (OsStr.utf8 text).IsName) (apart : ¬ above.map OsStr.utf8 <+: path) :
    ∀ node : Node, node.Proper → fetchesOf path (fetchNodeRecursive peer (diffPath above) node) = []
  | .file hash size chunks, _ => by
      have elsewhere : safeRel (diffPath above) ≠ some path := by
        rw [safeRel_diffPath named]
        rintro same
        obtain rfl := Option.some.inj same
        exact apart List.prefix_rfl
      rw [fetchNodeRecursive, fetchesOf, List.filterMap_cons, Walk.countOf, if_neg elsewhere]
      rfl
  | .directory hash children, proper => by
      cases proper with
      | directory _ _ sorted plain proper =>
          rw [fetchNodeRecursive]
          refine fetchesOf_fetchChildren_apart named children plain proper fun child member => ?_
          intro reaches
          rw [List.map_append] at reaches
          exact apart ((List.prefix_append _ _).trans reaches)

/-- What is fetched of a list of children has one of them above it. -/
theorem fetchesOf_fetchChildren_apart {above : List Str}
    (named : ∀ text ∈ above, (OsStr.utf8 text).IsName) :
    ∀ children : List (Str × Node), (∀ child ∈ children, (OsStr.utf8 child.1).IsName) →
      (∀ child ∈ children, child.2.Proper) →
        (∀ child ∈ children, ¬ (above ++ [child.1]).map OsStr.utf8 <+: path) →
          fetchesOf path (fetchChildren peer (diffPath above) children) = []
  | [], _, _, _ => by
      rw [fetchChildren]
      rfl
  | (name, child) :: rest, plain, proper, apart => by
      rw [List.forall_mem_cons] at plain proper apart
      rw [fetchChildren, fetchesOf_append, ← diffPath_concat,
        fetchesOf_fetchNode_apart (concat_named named plain.1) apart.1 child proper.1,
        fetchesOf_fetchChildren_apart named rest plain.2 proper.2 apart.2]
      rfl

end

mutual

/-- **What is fetched below a path**: the file that the node has there. -/
theorem fetchesOf_fetchNode {above : List Str}
    (named : ∀ text ∈ above, (OsStr.utf8 text).IsName) :
    ∀ (node : Node) (below : List Str), node.Proper →
      fetchesOf ((above ++ below).map OsStr.utf8) (fetchNodeRecursive peer (diffPath above) node) =
        ((Merkle.findNames below node).bind Node.chunkCount).toList
  | .file hash size chunks, below, _ => by
      rw [fetchNodeRecursive, fetchesOf, List.filterMap_cons, Walk.countOf, safeRel_diffPath named]
      cases below with
      | nil => simp [Node.chunkCount]
      | cons first rest =>
          have elsewhere : ¬ some (above.map OsStr.utf8) =
              some ((above ++ first :: rest).map OsStr.utf8) := by
            rw [Option.some.injEq, List.map_append]
            exact fun same => absurd (congrArg List.length same) (by simp)
          rw [if_neg elsewhere]
          rfl
  | .directory hash children, below, proper => by
      cases proper with
      | directory _ _ sorted plain proper =>
          rw [fetchNodeRecursive]
          cases below with
          | nil =>
              rw [List.append_nil]
              exact fetchesOf_fetchChildren_apart named children plain proper
                fun child _ => not_prefix_self child.1
          | cons first rest =>
              rw [fetchesOf_fetchChildren named children first rest sorted plain proper,
                Merkle.findNames_cons_directory]

/-- What is fetched of a list of children is what is fetched of the one on the path. -/
theorem fetchesOf_fetchChildren {above : List Str}
    (named : ∀ text ∈ above, (OsStr.utf8 text).IsName) :
    ∀ (children : List (Str × Node)) (first : Str) (rest : List Str),
      SortedMap.Sorted children → (∀ child ∈ children, (OsStr.utf8 child.1).IsName) →
        (∀ child ∈ children, child.2.Proper) →
          fetchesOf ((above ++ first :: rest).map OsStr.utf8)
              (fetchChildren peer (diffPath above) children) =
            (((SortedMap.lookup first children).bind (Merkle.findNames rest)).bind
              Node.chunkCount).toList
  | [], _, _, _, _, _ => by
      rw [fetchChildren]
      rfl
  | (name, child) :: later, first, rest, sorted, plain, proper => by
      rw [List.forall_mem_cons] at plain proper
      rw [SortedMap.Sorted, List.pairwise_cons] at sorted
      rw [fetchChildren, fetchesOf_append, ← diffPath_concat, SortedMap.lookup_cons]
      by_cases here : first = name
      · subst here
        have whole : above ++ first :: rest = (above ++ [first]) ++ rest := by simp
        rw [if_pos rfl, whole,
          fetchesOf_fetchNode (concat_named named plain.1) child rest proper.1, ← whole,
          fetchesOf_fetchChildren_apart named later plain.2 proper.2 fun other member =>
            not_prefix_of_ne (sorted.1 other member).ne rest, List.append_nil]
        rfl
      · rw [if_neg here, fetchesOf_fetchNode_apart (concat_named named plain.1)
          (not_prefix_of_ne here rest) child proper.1, List.nil_append,
          fetchesOf_fetchChildren named later first rest sorted.2 plain.2 proper.2]

end

/-! ## Differences -/

omit peer above path in
theorem hidden_of_hash {names : List Str} {old new : Node} (same : old.hash = new.hash) :
    Merkle.Hidden names old new := ⟨[], names, old, new, rfl, rfl, rfl, same⟩

theorem hidden_nil_iff {old new : Node} : Merkle.Hidden [] old new ↔ old.hash = new.hash := by
  refine ⟨?_, hidden_of_hash⟩
  rintro ⟨early, late, oldNode, newNode, split, inOld, inNew, same⟩
  obtain ⟨rfl, rfl⟩ := List.append_eq_nil_iff.mp split.symm
  obtain rfl := Option.some.inj inOld
  obtain rfl := Option.some.inj inNew
  exact same

/-- Past two directories a path is hidden when they have one hash, or their children hide it. -/
theorem hidden_cons_iff {first : Str} {rest : List Str} {oldHash hash : Hash}
    {oldChildren children : List (Str × Node)} :
    Merkle.Hidden (first :: rest) (.directory oldHash oldChildren) (.directory hash children) ↔
      oldHash = hash ∨ ∃ oldChild child, SortedMap.lookup first oldChildren = some oldChild ∧
        SortedMap.lookup first children = some child ∧ Merkle.Hidden rest oldChild child := by
  constructor
  · rintro ⟨early, late, oldNode, newNode, split, inOld, inNew, same⟩
    cases early with
    | nil =>
        obtain rfl := Option.some.inj inOld
        obtain rfl := Option.some.inj inNew
        exact Or.inl same
    | cons head early =>
        obtain ⟨rfl, rfl⟩ := List.cons.inj split
        rw [Merkle.findNames_cons_directory] at inOld inNew
        obtain ⟨oldChild, oldFound, inOld⟩ := Option.bind_eq_some_iff.mp inOld
        obtain ⟨child, found, inNew⟩ := Option.bind_eq_some_iff.mp inNew
        exact Or.inr ⟨oldChild, child, oldFound, found, early, late, oldNode, newNode, rfl, inOld,
          inNew, same⟩
  · rintro (same | ⟨oldChild, child, oldFound, found, early, late, oldNode, newNode, rfl, inOld,
      inNew, same⟩)
    · exact hidden_of_hash same
    · refine ⟨first :: early, late, oldNode, newNode, rfl, ?_, ?_, same⟩
      · rw [Merkle.findNames_cons_directory, oldFound]
        exact inOld
      · rw [Merkle.findNames_cons_directory, found]
        exact inNew

/-- Below a file of the old tree nothing is hidden. -/
theorem hidden_file_iff {names : List Str} {hash : Hash} {size : Nat} {chunks : List ChunkMeta}
    {new : Node} : Merkle.Hidden names (.file hash size chunks) new ↔ hash = new.hash := by
  refine ⟨?_, fun same => hidden_of_hash same⟩
  rintro ⟨early, late, oldNode, newNode, split, inOld, inNew, same⟩
  cases early with
  | nil =>
      obtain rfl := Option.some.inj inOld
      obtain rfl := Option.some.inj inNew
      exact same
  | cons => exact absurd inOld (Option.some_ne_none oldNode).symm

/-- What is fetched for a list of differences. -/
def walkEntries (peer : ι) (entries : List Merkle.DiffEntry) : List (Walk ι) :=
  entries.flatMap (walkEntry peer false)

theorem walkEntries_append (peer : ι) (early late : List Merkle.DiffEntry) :
    walkEntries peer (early ++ late) = walkEntries peer early ++ walkEntries peer late :=
  List.flatMap_append

theorem fetchesOf_added (peer : ι) (raw : Str) (node : Node) :
    fetchesOf path (walkEntries peer [.added raw node]) =
      fetchesOf path (fetchNodeRecursive peer raw node) := by
  rw [walkEntries, List.flatMap_singleton, walkEntry, if_neg Bool.false_ne_true, fetchesOf_append,
    fetchesOf_counted, List.append_nil]

theorem fetchesOf_modified (peer : ι) (raw : Str) (old node : Node) :
    fetchesOf path (walkEntries peer [.modified raw old node]) =
      fetchesOf path (fetchNodeRecursive peer raw node) := by
  rw [walkEntries, List.flatMap_singleton, walkEntry, if_neg Bool.false_ne_true, fetchesOf_append,
    fetchesOf_counted, List.append_nil]

theorem mem_of_added {raw : Str} {node : Node} {asked : ι} {path : Str} {chunkCount : Nat}
    (member : .fetchFile asked path chunkCount ∈ walkEntries peer [.added raw node]) :
    .fetchFile asked path chunkCount ∈ fetchNodeRecursive peer raw node := by
  rw [walkEntries, List.flatMap_singleton, walkEntry, if_neg Bool.false_ne_true,
    List.mem_append] at member
  exact member.resolve_right fun counted => by cases List.mem_singleton.mp counted

theorem mem_of_modified {raw : Str} {old node : Node} {asked : ι} {path : Str} {chunkCount : Nat}
    (member : .fetchFile asked path chunkCount ∈ walkEntries peer [.modified raw old node]) :
    .fetchFile asked path chunkCount ∈ fetchNodeRecursive peer raw node :=
  mem_of_added member

theorem walkEntries_removed (peer : ι) (raw : Str) (children : List (Str × Node)) :
    walkEntries peer (children.map fun child => .removed (pathJoin raw child.1) child.2) = [] := by
  rw [walkEntries, List.flatMap_map]
  exact List.flatMap_eq_nil_iff.mpr fun _ _ => rfl

mutual

/-- Differences below a path make no fetch elsewhere. -/
theorem fetchesOf_diffRecursive_apart {above : List Str}
    (named : ∀ text ∈ above, (OsStr.utf8 text).IsName) (apart : ¬ above.map OsStr.utf8 <+: path) :
    ∀ new : Node, ∀ old : Node, new.Proper →
      fetchesOf path (walkEntries peer (Merkle.diffRecursive old (diffPath above) new)) = []
  | .file hash size chunks, old, proper => by
      rw [Merkle.diffRecursive]
      split
      · rfl
      · rw [fetchesOf_modified, fetchesOf_fetchNode_apart named apart _ proper]
  | .directory hash children, old, proper => by
      rw [Merkle.diffRecursive.eq_def]
      dsimp only
      split
      · rfl
      · cases old with
        | file => rw [fetchesOf_modified, fetchesOf_fetchNode_apart named apart _ proper]
        | directory oldHash oldChildren =>
            cases proper with
            | directory _ _ sorted plain proper =>
                dsimp only
                rw [walkEntries_append, walkEntries_removed, List.append_nil]
                refine fetchesOf_diffChildren_apart named children oldChildren plain proper
                  fun child member => ?_
                intro reaches
                rw [List.map_append] at reaches
                exact apart ((List.prefix_append _ _).trans reaches)

/-- Differences of a list of children make no fetch but below one of them. -/
theorem fetchesOf_diffChildren_apart {above : List Str}
    (named : ∀ text ∈ above, (OsStr.utf8 text).IsName) :
    ∀ (children oldChildren : List (Str × Node)),
      (∀ child ∈ children, (OsStr.utf8 child.1).IsName) → (∀ child ∈ children, child.2.Proper) →
        (∀ child ∈ children, ¬ (above ++ [child.1]).map OsStr.utf8 <+: path) →
          fetchesOf path
            (walkEntries peer (Merkle.diffChildren oldChildren (diffPath above) children)) = []
  | [], _, _, _, _ => by
      rw [Merkle.diffChildren]
      rfl
  | (name, child) :: rest, oldChildren, plain, proper, apart => by
      rw [List.forall_mem_cons] at plain proper apart
      rw [Merkle.diffChildren, walkEntries_append, fetchesOf_append, ← diffPath_concat,
        fetchesOf_diffChildren_apart named rest oldChildren plain.2 proper.2 apart.2,
        List.append_nil]
      cases SortedMap.lookup name oldChildren with
      | some old =>
          exact fetchesOf_diffRecursive_apart (concat_named named plain.1) apart.1 child old
            proper.1
      | none =>
          dsimp only
          rw [fetchesOf_added,
            fetchesOf_fetchNode_apart (concat_named named plain.1) apart.1 _ proper.1]

end

/-- What is fetched of a path when it is not hidden: the file of the new tree. -/
abbrev fetchOf (below : List Str) (new : Node) : List Nat :=
  ((Merkle.findNames below new).bind Node.chunkCount).toList

mutual

/-- The fetches that the differences of two nodes make of a path below them. -/
theorem fetchesOf_diffRecursive {above : List Str}
    (named : ∀ text ∈ above, (OsStr.utf8 text).IsName) :
    ∀ (new : Node) (below : List Str) (old : Node), new.Proper →
      (Merkle.Hidden below old new → fetchesOf ((above ++ below).map OsStr.utf8)
        (walkEntries peer (Merkle.diffRecursive old (diffPath above) new)) = []) ∧
      (¬ Merkle.Hidden below old new → fetchesOf ((above ++ below).map OsStr.utf8)
        (walkEntries peer (Merkle.diffRecursive old (diffPath above) new)) = fetchOf below new)
  | .file hash size chunks, below, old, proper => by
      rw [Merkle.diffRecursive]
      by_cases same : old.hash = hash
      · rw [if_pos same]
        exact ⟨fun _ => rfl, fun shown => absurd (hidden_of_hash same) shown⟩
      · rw [if_neg same, fetchesOf_modified, fetchesOf_fetchNode named _ below proper]
        refine ⟨?_, fun _ => rfl⟩
        rintro ⟨early, late, oldNode, newNode, rfl, inOld, inNew, equal⟩
        cases early with
        | nil =>
            obtain rfl := Option.some.inj inOld
            obtain rfl := Option.some.inj inNew
            exact absurd equal same
        | cons => exact absurd inNew (Option.some_ne_none newNode).symm
  | .directory hash children, below, old, proper => by
      rw [Merkle.diffRecursive.eq_def]
      dsimp only
      by_cases same : old.hash = hash
      · rw [if_pos same]
        exact ⟨fun _ => rfl, fun shown => absurd (hidden_of_hash same) shown⟩
      · rw [if_neg same]
        cases old with
        | file oldHash size chunks =>
            dsimp only
            rw [fetchesOf_modified, fetchesOf_fetchNode named _ below proper]
            exact ⟨fun hidden => absurd (hidden_file_iff.mp hidden) same, fun _ => rfl⟩
        | directory oldHash oldChildren =>
            cases proper with
            | directory _ _ sorted plain proper =>
                dsimp only
                rw [walkEntries_append, walkEntries_removed, List.append_nil]
                cases below with
                | nil =>
                    rw [List.append_nil, fetchesOf_diffChildren_apart named children oldChildren
                      plain proper fun child _ => not_prefix_self child.1]
                    exact ⟨fun _ => rfl, fun _ => rfl⟩
                | cons first rest =>
                    obtain ⟨hidden, shown⟩ := fetchesOf_diffChildren named children first rest
                      oldChildren sorted plain proper
                    have apart : oldHash ≠ hash := same
                    rw [hidden_cons_iff, or_iff_right apart, fetchOf,
                      Merkle.findNames_cons_directory]
                    exact ⟨hidden, shown⟩

/-- The fetches that the differences of a list of children make of a path below one. -/
theorem fetchesOf_diffChildren {above : List Str}
    (named : ∀ text ∈ above, (OsStr.utf8 text).IsName) :
    ∀ (children : List (Str × Node)) (first : Str) (rest : List Str)
      (oldChildren : List (Str × Node)), SortedMap.Sorted children →
        (∀ child ∈ children, (OsStr.utf8 child.1).IsName) → (∀ child ∈ children, child.2.Proper) →
          ((∃ oldChild child, SortedMap.lookup first oldChildren = some oldChild ∧
              SortedMap.lookup first children = some child ∧ Merkle.Hidden rest oldChild child) →
            fetchesOf ((above ++ first :: rest).map OsStr.utf8)
              (walkEntries peer (Merkle.diffChildren oldChildren (diffPath above) children)) = []) ∧
          ((¬ ∃ oldChild child, SortedMap.lookup first oldChildren = some oldChild ∧
              SortedMap.lookup first children = some child ∧ Merkle.Hidden rest oldChild child) →
            fetchesOf ((above ++ first :: rest).map OsStr.utf8)
              (walkEntries peer (Merkle.diffChildren oldChildren (diffPath above) children)) =
            (((SortedMap.lookup first children).bind (Merkle.findNames rest)).bind
              Node.chunkCount).toList)
  | [], _, _, _, _, _, _ => by
      rw [Merkle.diffChildren]
      exact ⟨fun _ => rfl, fun _ => rfl⟩
  | (name, child) :: later, first, rest, oldChildren, sorted, plain, proper => by
      rw [List.forall_mem_cons] at plain proper
      rw [SortedMap.Sorted, List.pairwise_cons] at sorted
      rw [Merkle.diffChildren, walkEntries_append, fetchesOf_append, ← diffPath_concat,
        SortedMap.lookup_cons]
      by_cases here : first = name
      · subst here
        rw [if_pos rfl, fetchesOf_diffChildren_apart named later oldChildren plain.2 proper.2
          fun other member => not_prefix_of_ne (sorted.1 other member).ne rest, List.append_nil]
        have whole : above ++ first :: rest = (above ++ [first]) ++ rest := by simp
        rw [whole]
        cases found : SortedMap.lookup first oldChildren with
        | none =>
            dsimp only
            rw [fetchesOf_added,
              fetchesOf_fetchNode (concat_named named plain.1) child rest proper.1]
            refine ⟨?_, fun _ => rfl⟩
            rintro ⟨oldChild, _, absent, _⟩
            exact absurd absent (Option.some_ne_none oldChild).symm
        | some oldChild =>
            obtain ⟨hidden, shown⟩ :=
              fetchesOf_diffRecursive (concat_named named plain.1) child rest
              oldChild proper.1
            refine ⟨?_, fun notHidden => shown fun inside => notHidden
              ⟨oldChild, child, rfl, rfl, inside⟩⟩
            rintro ⟨_, _, same, same', inside⟩
            cases same
            cases same'
            exact hidden inside
      · have later' := fetchesOf_diffChildren named later first rest oldChildren sorted.2 plain.2
          proper.2
        rw [if_neg here]
        cases SortedMap.lookup name oldChildren with
        | some old =>
            dsimp only
            rw [fetchesOf_diffRecursive_apart (concat_named named plain.1)
              (not_prefix_of_ne here rest) child old proper.1, List.nil_append]
            exact later'
        | none =>
            dsimp only
            rw [fetchesOf_added, fetchesOf_fetchNode_apart (concat_named named plain.1)
              (not_prefix_of_ne here rest) _ proper.1, List.nil_append]
            exact later'

end

/-! ## The walk -/

theorem walkDiff_pull (localTree remoteTree : Node) :
    walkDiff peer false localTree remoteTree =
      walkEntries peer (Merkle.diffRecursive localTree (diffPath []) remoteTree) := rfl

theorem walkDiff_noPull (localTree remoteTree : Node) :
    walkDiff peer true localTree remoteTree = [] := by
  rw [walkDiff]
  exact List.flatMap_eq_nil_iff.mpr fun entry _ => by cases entry <;> rfl

/-- Trees with one hash have no differences. -/
theorem walkDiff_of_hash {noPull : Bool} {localTree remoteTree : Node}
    (same : localTree.hash = remoteTree.hash) : walkDiff peer noPull localTree remoteTree = [] := by
  have none : Merkle.diff localTree remoteTree = [] := by
    rw [Merkle.diff, Merkle.diffRecursive.eq_def]
    cases remoteTree <;> exact if_pos same
  rw [walkDiff, none]
  rfl

/-- The walk of a reconciliation comes to a file of the remote tree with so many chunks. -/
structure ComesTo (noPull : Bool) (localTree remoteTree : Node) (path : RelPath)
    (chunkCount : Nat) : Prop where
  pulls : noPull = false
  shown : ∃ names hash size chunks, path = names.map OsStr.utf8 ∧
    Merkle.findNames names remoteTree = some (.file hash size chunks) ∧
      chunkCount = chunks.length ∧ ¬ Merkle.Hidden names localTree remoteTree

/-- Under a file the walk comes to there is no other. -/
theorem ComesTo.eq_of_prefix {noPull : Bool} {localTree remoteTree : Node} {other : RelPath}
    {chunkCount chunkCount' : Nat} (comes : ComesTo noPull localTree remoteTree path chunkCount)
    (comes' : ComesTo noPull localTree remoteTree other chunkCount') (reaches : path <+: other) :
    path = other ∧ chunkCount = chunkCount' := by
  obtain ⟨names, hash, size, chunks, rfl, found, rfl, _⟩ := comes.shown
  obtain ⟨names', hash', size', chunks', rfl, found', rfl, _⟩ := comes'.shown
  obtain ⟨rest, same⟩ := reaches
  obtain ⟨front, back, rfl, front_eq, back_eq⟩ := List.map_eq_append_iff.mp same.symm
  obtain rfl := utf8_injective front_eq
  rw [Merkle.findNames_append, found, Option.bind_some] at found'
  cases back with
  | nil =>
      cases found'
      simp
  | cons => exact absurd found' (Option.some_ne_none _).symm

theorem exists_names_of_fetches {walk : List (Walk ι)} {chunkCount : Nat}
    (fetched : chunkCount ∈ fetchesOf path walk) :
    ∃ names : List Str, path = names.map OsStr.utf8 := by
  obtain ⟨entry, _, counted⟩ := List.mem_filterMap.mp fetched
  cases entry with
  | counted files => exact absurd counted (Option.some_ne_none chunkCount).symm
  | fetchFile source raw count =>
      rw [Walk.countOf, Option.ite_none_right_eq_some] at counted
      exact ⟨_, (safeRel_eq_some_iff.mp counted.1).2.2.2⟩

/-- **What a reconciliation fetches of a path**: the file the walk comes to, once. -/
theorem fetchesOf_walkDiff {noPull : Bool} {localTree remoteTree : Node}
    (proper : remoteTree.Proper) (path : RelPath) :
    (∃ chunkCount, ComesTo noPull localTree remoteTree path chunkCount ∧
        fetchesOf path (walkDiff peer noPull localTree remoteTree) = [chunkCount]) ∨
      (∀ chunkCount, ¬ ComesTo noPull localTree remoteTree path chunkCount) ∧
        fetchesOf path (walkDiff peer noPull localTree remoteTree) = [] := by
  cases noPull with
  | true =>
      rw [walkDiff_noPull]
      exact Or.inr ⟨fun _ comes => absurd comes.pulls.symm Bool.false_ne_true, rfl⟩
  | false =>
      by_cases named : ∃ names : List Str, path = names.map OsStr.utf8
      · obtain ⟨names, rfl⟩ := named
        obtain ⟨hidden, shown⟩ := @fetchesOf_diffRecursive ι peer []
          (fun _ absent => absurd absent List.not_mem_nil) remoteTree names localTree proper
        rw [walkDiff_pull]
        by_cases covered : Merkle.Hidden names localTree remoteTree
        · refine Or.inr ⟨?_, hidden covered⟩
          rintro count ⟨_, names', hash, size, chunks, same, _, _, open'⟩
          exact open' (utf8_injective same ▸ covered)
        · have fetched := shown covered
          rw [List.nil_append] at fetched
          rw [fetched, fetchOf]
          cases found : Merkle.findNames names remoteTree with
          | none =>
              refine Or.inr ⟨?_, rfl⟩
              rintro count ⟨_, names', hash, size, chunks, same, found', _⟩
              rw [← utf8_injective same, found] at found'
              cases found'
          | some node =>
              cases node with
              | file hash size chunks =>
                  exact Or.inl ⟨chunks.length,
                    ⟨rfl, names, hash, size, chunks, rfl, found, rfl, covered⟩, rfl⟩
              | directory hash children =>
                  refine Or.inr ⟨?_, rfl⟩
                  rintro count ⟨_, names', hash, size, chunks, same, found', _⟩
                  rw [← utf8_injective same, found] at found'
                  cases found'
      · refine Or.inr ⟨?_, ?_⟩
        · rintro count ⟨_, names, _, _, _, same, _⟩
          exact named ⟨names, same⟩
        · refine List.eq_nil_iff_forall_not_mem.mpr fun count fetched => ?_
          exact named (exists_names_of_fetches fetched)

mutual

theorem source_of_mem_fetchNode {source : ι} {raw : Str} {chunkCount : Nat} :
    ∀ (base : Str) (node : Node),
      .fetchFile source raw chunkCount ∈ fetchNodeRecursive peer base node → source = peer
  | base, .file hash size chunks, member => by
      rw [fetchNodeRecursive, List.mem_singleton] at member
      cases member
      rfl
  | base, .directory hash children, member => by
      rw [fetchNodeRecursive] at member
      exact source_of_mem_fetchChildren base children member

theorem source_of_mem_fetchChildren {source : ι} {raw : Str} {chunkCount : Nat} :
    ∀ (base : Str) (children : List (Str × Node)),
      .fetchFile source raw chunkCount ∈ fetchChildren peer base children → source = peer
  | base, [], member => by
      rw [fetchChildren] at member
      exact absurd member List.not_mem_nil
  | base, (name, child) :: rest, member => by
      rw [fetchChildren, List.mem_append] at member
      rcases member with here | later
      · exact source_of_mem_fetchNode (pathJoin base name) child here
      · exact source_of_mem_fetchChildren base rest later

end

/-- Everything in a walk is fetched from the peer that was asked for its tree. -/
theorem source_of_mem_walkDiff {source : ι} {noPull : Bool} {localTree remoteTree : Node}
    {raw : Str} {chunkCount : Nat}
    (member : .fetchFile source raw chunkCount ∈ walkDiff peer noPull localTree remoteTree) :
    source = peer := by
  have below : ∀ base node, .fetchFile source raw chunkCount ∈
      fetchNodeRecursive peer base node ++ [.counted (countFiles node)] →
        source = peer := by
    intro base node member
    rcases List.mem_append.mp member with here | counted
    · exact source_of_mem_fetchNode _ node here
    · cases List.mem_singleton.mp counted
  obtain ⟨entry, _, inside⟩ := List.mem_flatMap.mp member
  cases noPull with
  | true => cases entry <;> exact absurd inside List.not_mem_nil
  | false =>
      cases entry with
      | removed => exact absurd inside List.not_mem_nil
      | added path node => exact below path node inside
      | modified path old node => exact below path node inside

/-! ## The path strings of a walk -/

/-- A string that names of directory entries were joined to. -/
def JoinedNames (raw : Str) : Prop :=
  ∃ names : List Str, raw = diffPath names ∧ ∀ text ∈ names, (OsStr.utf8 text).IsName

omit peer above path in
theorem JoinedNames.join {base name : Str} (joined : JoinedNames base)
    (plain : (OsStr.utf8 name).IsName) : JoinedNames (pathJoin base name) := by
  obtain ⟨names, rfl, named⟩ := joined
  exact ⟨names ++ [name], (diffPath_concat names name).symm, concat_named named plain⟩

mutual

theorem joinedNames_of_mem_fetchNode {source : ι} {raw : Str} {chunkCount : Nat} :
    ∀ (base : Str) (node : Node), JoinedNames base → node.Proper →
      .fetchFile source raw chunkCount ∈ fetchNodeRecursive peer base node → JoinedNames raw
  | base, .file hash size chunks, joined, _, member => by
      rw [fetchNodeRecursive, List.mem_singleton] at member
      cases member
      exact joined
  | base, .directory hash children, joined, proper, member => by
      cases proper with
      | directory _ _ _ plain proper =>
          rw [fetchNodeRecursive] at member
          exact joinedNames_of_mem_fetchChildren base children joined plain proper member

theorem joinedNames_of_mem_fetchChildren {source : ι} {raw : Str} {chunkCount : Nat} :
    ∀ (base : Str) (children : List (Str × Node)), JoinedNames base →
      (∀ child ∈ children, (OsStr.utf8 child.1).IsName) → (∀ child ∈ children, child.2.Proper) →
        .fetchFile source raw chunkCount ∈ fetchChildren peer base children → JoinedNames raw
  | base, [], _, _, _, member => by
      rw [fetchChildren] at member
      exact absurd member List.not_mem_nil
  | base, (name, child) :: rest, joined, plain, proper, member => by
      rw [List.forall_mem_cons] at plain proper
      rw [fetchChildren, List.mem_append] at member
      rcases member with here | later
      · exact joinedNames_of_mem_fetchNode (pathJoin base name) child (joined.join plain.1) proper.1
          here
      · exact joinedNames_of_mem_fetchChildren base rest joined plain.2 proper.2 later

end

mutual

theorem joinedNames_of_mem_diffRecursive {source : ι} {raw : Str} {chunkCount : Nat} :
    ∀ (new old : Node) (base : Str), JoinedNames base → new.Proper →
      .fetchFile source raw chunkCount ∈ walkEntries peer (Merkle.diffRecursive old base new) →
        JoinedNames raw
  | .file hash size chunks, old, base, joined, proper, member => by
      rw [Merkle.diffRecursive] at member
      split at member
      · exact absurd member List.not_mem_nil
      · exact joinedNames_of_mem_fetchNode base _ joined proper (mem_of_modified member)
  | .directory hash children, old, base, joined, proper, member => by
      rw [Merkle.diffRecursive.eq_def] at member
      dsimp only at member
      split at member
      · exact absurd member List.not_mem_nil
      · cases old with
        | file => exact joinedNames_of_mem_fetchNode base _ joined proper (mem_of_modified member)
        | directory oldHash oldChildren =>
            cases proper with
            | directory _ _ _ plain proper =>
                dsimp only at member
                rw [walkEntries_append, walkEntries_removed, List.append_nil] at member
                exact joinedNames_of_mem_diffChildren children oldChildren base joined plain proper
                  member

theorem joinedNames_of_mem_diffChildren {source : ι} {raw : Str} {chunkCount : Nat} :
    ∀ (children oldChildren : List (Str × Node)) (base : Str), JoinedNames base →
      (∀ child ∈ children, (OsStr.utf8 child.1).IsName) → (∀ child ∈ children, child.2.Proper) →
        .fetchFile source raw chunkCount ∈
          walkEntries peer (Merkle.diffChildren oldChildren base children) → JoinedNames raw
  | [], oldChildren, base, _, _, _, member => by
      rw [Merkle.diffChildren] at member
      exact absurd member List.not_mem_nil
  | (name, child) :: rest, oldChildren, base, joined, plain, proper, member => by
      rw [List.forall_mem_cons] at plain proper
      rw [Merkle.diffChildren, walkEntries_append, List.mem_append] at member
      rcases member with here | later
      · cases found : SortedMap.lookup name oldChildren with
        | some old =>
            rw [found] at here
            exact joinedNames_of_mem_diffRecursive child old (pathJoin base name)
              (joined.join plain.1) proper.1 here
        | none =>
            rw [found] at here
            exact joinedNames_of_mem_fetchNode (pathJoin base name) child (joined.join plain.1)
              proper.1 (mem_of_added here)
      · exact joinedNames_of_mem_diffChildren rest oldChildren base joined plain.2 proper.2 later

end

/-- **The paths of a walk** are joined from the names of the remote tree. -/
theorem joinedNames_of_mem_walkDiff {source : ι} {noPull : Bool} {localTree remoteTree : Node}
    {raw : Str} {chunkCount : Nat} (proper : remoteTree.Proper)
    (member : .fetchFile source raw chunkCount ∈ walkDiff peer noPull localTree remoteTree) :
    JoinedNames raw := by
  cases noPull with
  | true =>
      rw [walkDiff_noPull] at member
      exact absurd member List.not_mem_nil
  | false =>
      rw [walkDiff_pull] at member
      exact joinedNames_of_mem_diffRecursive remoteTree localTree _
        ⟨[], rfl, List.forall_mem_nil _⟩ proper member

end Walks

/-- A path that is joined from names does not say that a directory is there. -/
theorem JoinedNames.namesDirectory {path : SafePath} (joined : JoinedNames path.raw) :
    path.namesDirectory = false := by
  obtain ⟨names, raw, named⟩ := joined
  rw [SafePath.namesDirectory, raw, diffPath_eq named]
  rcases List.eq_nil_or_concat' names with rfl | ⟨front, last, rfl⟩
  · rfl
  · obtain ⟨first, rest, split⟩ : ∃ first rest, front ++ [last] = first :: rest :=
      List.exists_cons_of_ne_nil (by simp)
    have plain := named last (List.mem_append_right _ (List.mem_singleton_self last))
    rw [split, segments_intercalate fun text member => (named text (split ▸ member)).2.2.2, ← split,
      List.reverse_concat]
    cases front.reverse with
    | nil => rfl
    | cons => simp [plain.1, plain.2.1]

end P2Sync
