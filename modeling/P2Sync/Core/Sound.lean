import P2Sync.Core.Listing
import P2Sync.Core.Scan

/-!
# What the root hash says

What a scan takes of a directory is a tree of names and contents (`Folder`), and the Merkle
tree is computed from it (`scan_eq`). The string hashed for a node puts its parts together
without saying what they are: the hashes of the chunks of a file, or the names and hashes of
the children of a directory. Different parts can give one string. An empty file and an empty
directory both hash the empty string, whatever the hash function.

Two trees are ambiguous when two nodes at the same place do that, with everything above them
alike (`Ambiguous`). As long as no two strings that are hashed for the two trees collide,
equal root hashes mean equal trees exactly when they are not ambiguous (`sound_iff`).
-/

set_option autoImplicit false

namespace P2Sync

/-- What a scan takes of a directory. -/
inductive Folder where
  | file (data : Bytes)
  | dir (children : List (Str × Folder))

section Included

variable (exclude : RelPath → Bool)

mutual

/-- What stands at a path without what is excluded; `none` when a name is not UTF-8. -/
def included (path : RelPath) : Disk → Option Folder
  | .file data => some (.file data)
  | .dir entries => (includedIn path entries []).map .dir

/-- The entries of a directory that are not excluded, in order. -/
def includedIn (path : RelPath) :
    List (OsStr × Disk) → List (Str × Folder) → Option (List (Str × Folder))
  | [], children => some children
  | (name, child) :: rest, children =>
      if exclude (path ++ [name]) then includedIn path rest children
      else
        match name.toStr with
        | none => none
        | some text =>
            match included (path ++ [name]) child with
            | none => none
            | some folder => includedIn path rest (SortedMap.insert text folder children)

end

end Included

/-! ## From a folder to its tree -/

namespace SortedMap

variable {K V W : Type} [LinearOrder K]

theorem map_insert (convert : V → W) (key : K) (value : V) (entries : List (K × V)) :
    (insert key value entries).map (fun entry => (entry.1, convert entry.2)) =
      insert key (convert value) (entries.map fun entry => (entry.1, convert entry.2)) := by
  induction entries with
  | nil => rfl
  | cons entry rest ih =>
      obtain ⟨other, old⟩ := entry
      rw [insert, List.map_cons, insert]
      split
      · rfl
      · split
        · rfl
        · rw [List.map_cons, ih]

end SortedMap

section Trees

variable [Blake3] (chunkSize : Nat)

mutual

/-- The Merkle tree of a folder. -/
def Folder.node : Folder → Node
  | .file data => Merkle.fileNodeWithChunkSize data chunkSize
  | .dir children => Merkle.dirNode (Folder.nodes children)

/-- The Merkle trees of the children of a folder. -/
def Folder.nodes : List (Str × Folder) → List (Str × Node)
  | [] => []
  | (name, child) :: rest => (name, child.node) :: Folder.nodes rest

end

theorem Folder.nodes_eq_map (children : List (Str × Folder)) :
    Folder.nodes chunkSize children =
      children.map fun child => (child.1, child.2.node chunkSize) := by
  induction children with
  | nil => rfl
  | cons child rest ih => rw [nodes, List.map_cons, ih]

mutual

/-- **A scan is the Merkle tree of what it takes of the directory.** -/
theorem scan_eq (exclude : RelPath → Bool) (path : RelPath) : ∀ disk : Disk,
    fromPathConfigured exclude chunkSize path disk =
      (included exclude path disk).map (Folder.node chunkSize)
  | .file data => rfl
  | .dir entries => by
      rw [fromPathConfigured, included, Option.map_map]
      have inside := scanEntries_eq exclude path entries []
      rw [Folder.nodes] at inside
      rw [inside, Option.map_map]
      rfl

theorem scanEntries_eq (exclude : RelPath → Bool) (path : RelPath) :
    ∀ (entries : List (OsStr × Disk)) (children : List (Str × Folder)),
      fromEntries exclude chunkSize path entries (Folder.nodes chunkSize children) =
        (includedIn exclude path entries children).map (Folder.nodes chunkSize)
  | [], children => rfl
  | (name, child) :: rest, children => by
      rw [fromEntries, includedIn]
      split
      · exact scanEntries_eq exclude path rest children
      · cases name.toStr with
        | none => rfl
        | some text =>
            dsimp only
            rw [scan_eq exclude (path ++ [name]) child]
            cases included exclude (path ++ [name]) child with
            | none => rfl
            | some folder =>
                have inserted : SortedMap.insert text (folder.node chunkSize)
                    (Folder.nodes chunkSize children) =
                      Folder.nodes chunkSize (SortedMap.insert text folder children) := by
                  rw [Folder.nodes_eq_map, Folder.nodes_eq_map, SortedMap.map_insert]
                dsimp only [Option.map_some]
                rw [inserted]
                exact scanEntries_eq exclude path rest _

end

/-! ## What is hashed -/

/-- The parts that the hash of a node is computed from. -/
inductive Parts where
  | file (chunks : List Hash)
  | directory (entries : List (Str × Hash))

/-- The string that is hashed: nothing stands between the parts. -/
def Parts.bytes : Parts → Bytes
  | .file chunks => chunks.flatMap Subtype.val
  | .directory entries => entries.flatMap fun entry => Merkle.utf8Bytes entry.1 ++ entry.2.val

def Node.parts : Node → Parts
  | .file _ _ chunks => .file (chunks.map ChunkMeta.hash)
  | .directory _ children => .directory (children.map fun child => (child.1, child.2.hash))

theorem Folder.hash_node (folder : Folder) :
    (folder.node chunkSize).hash = Blake3.hash (folder.node chunkSize).parts.bytes := by
  cases folder with
  | file data =>
      rw [node, Merkle.fileNodeWithChunkSize, Node.hash, Node.parts, Parts.bytes,
        List.flatMap_map]
      rfl
  | dir children =>
      rw [node, Merkle.dirNode, Node.hash, Node.parts, Parts.bytes, List.flatMap_map]
      rfl

mutual

/-- The strings that are hashed for a folder. -/
def Folder.hashed : Folder → List Bytes
  | .file data =>
      (Merkle.fileNodeWithChunkSize data chunkSize).parts.bytes :: Chunk.slices data chunkSize
  | .dir children =>
      (Merkle.dirNode (Folder.nodes chunkSize children)).parts.bytes :: Folder.hashedIn children

/-- The strings that are hashed for the children of a folder. -/
def Folder.hashedIn : List (Str × Folder) → List Bytes
  | [] => []
  | (_, child) :: rest => child.hashed ++ Folder.hashedIn rest

end

/-- The strings that a scan hashes. -/
def scanHashes (exclude : RelPath → Bool) (disk : Disk) : List Bytes :=
  ((included exclude [] disk).map (Folder.hashed chunkSize)).getD []

/-- No string of one list collides with another one of the other list. -/
def NoCollision (strings others : List Bytes) : Prop :=
  ∀ string ∈ strings, ∀ other ∈ others, Blake3.hash string = Blake3.hash other → string = other

instance decidableNoCollision (strings others : List Bytes) :
    Decidable (NoCollision strings others) :=
  inferInstanceAs (Decidable (∀ string ∈ strings, ∀ other ∈ others, _ → _))

theorem Folder.parts_mem_hashed (folder : Folder) :
    (folder.node chunkSize).parts.bytes ∈ folder.hashed chunkSize := by
  cases folder <;> exact List.mem_cons_self

/-! ## Ambiguous trees -/

/-- Two nodes at the same place hash one string for different parts, with everything above
them alike. -/
inductive Ambiguous : Node → Node → Prop where
  | here {left right : Node} (same : left.parts.bytes = right.parts.bytes)
      (apart : left.parts ≠ right.parts) : Ambiguous left right
  | deeper {hash hash' : Hash} {children children' : List (Str × Node)} {name : Str}
      {child child' : Node}
      (same : (Node.directory hash children).parts = (Node.directory hash' children').parts)
      (found : SortedMap.lookup name children = some child)
      (found' : SortedMap.lookup name children' = some child') (inside : Ambiguous child child') :
      Ambiguous (.directory hash children) (.directory hash' children')

omit [Blake3] in
/-- Ambiguous trees hash one string and are different. -/
theorem Ambiguous.bytes_and_ne {left right : Node} (ambiguous : Ambiguous left right) :
    left.parts.bytes = right.parts.bytes ∧ left ≠ right := by
  induction ambiguous with
  | here same apart => exact ⟨same, fun equal => apart (by rw [equal])⟩
  | deeper same found found' inside ih =>
      refine ⟨by rw [same], fun equal => ih.2 ?_⟩
      cases equal
      exact Option.some.inj (found.symm.trans found')

/-! ## Equal hashes -/

omit [Blake3] in
/-- Lists with equal images, where equal images come from equal elements. -/
theorem eq_of_map_eq {α β : Type} {convert : α → β} : ∀ {left right : List α},
    (∀ first ∈ left, ∀ second ∈ right, convert first = convert second → first = second) →
      left.map convert = right.map convert → left = right
  | [], [], _, _ => rfl
  | [], _ :: _, _, same => absurd same (List.cons_ne_nil _ _).symm
  | _ :: _, [], _, same => absurd same (List.cons_ne_nil _ _)
  | first :: left, second :: right, injective, same => by
      obtain ⟨head, tail⟩ := List.cons.inj same
      rw [injective first List.mem_cons_self second List.mem_cons_self head,
        eq_of_map_eq (fun first member second member' => injective first
          (List.mem_cons_of_mem _ member) second (List.mem_cons_of_mem _ member')) tail]

theorem Chunk.metadata_map_hash (data : Bytes) :
    (Chunk.metadata data chunkSize).map ChunkMeta.hash =
      (Chunk.slices data chunkSize).map Blake3.hash := by
  have hashes : ((Chunk.slices data chunkSize).zipIdx.map Prod.fst).map Blake3.hash =
      (Chunk.slices data chunkSize).map Blake3.hash := by rw [List.zipIdx_map_fst]
  rw [← hashes, Chunk.metadata, List.map_map, List.map_map]
  rfl

mutual

/-- **Folders with equal hashes are equal**, when no hashed strings collide and the trees are
not ambiguous. -/
theorem Folder.eq_of_hash {chunkSize : Nat} (positive : 0 < chunkSize) : ∀ {left right : Folder},
    (left.node chunkSize).Ordered → (right.node chunkSize).Ordered →
      NoCollision (left.hashed chunkSize) (right.hashed chunkSize) →
        ¬ Ambiguous (left.node chunkSize) (right.node chunkSize) →
          (left.node chunkSize).hash = (right.node chunkSize).hash → left = right
  | left, right, ordered, ordered', free, clear, same => by
      have bytes : (left.node chunkSize).parts.bytes = (right.node chunkSize).parts.bytes := by
        rw [hash_node, hash_node] at same
        exact free _ (parts_mem_hashed chunkSize left) _ (parts_mem_hashed chunkSize right) same
      have parts : (left.node chunkSize).parts = (right.node chunkSize).parts := by
        by_contra apart
        exact clear (.here bytes apart)
      cases left with
      | file data =>
          cases right with
          | dir children => cases parts
          | file data' =>
              have hashes := Parts.file.inj parts
              rw [Chunk.metadata_map_hash, Chunk.metadata_map_hash] at hashes
              have slices := eq_of_map_eq (fun slice member slice' member' => free slice
                (List.mem_cons_of_mem _ member) slice' (List.mem_cons_of_mem _ member')) hashes
              rw [← Chunk.flatten_slices positive data, slices, Chunk.flatten_slices positive]
      | dir children =>
          cases right with
          | file data => cases parts
          | dir children' =>
              cases ordered with
              | directory _ _ sorted inner =>
                  cases ordered' with
                  | directory _ _ sorted' inner' =>
                      rw [Folder.eqIn_of_hash positive inner inner'
                        (fun string member other member' => free string
                          (List.mem_cons_of_mem _ member) other (List.mem_cons_of_mem _ member'))
                        (fun name child child' member member' inside => clear (.deeper parts
                          (sorted.lookup_of_mem member) (sorted'.lookup_of_mem member') inside))
                        (Parts.directory.inj parts)]

/-- The same for the children of folders. -/
theorem Folder.eqIn_of_hash {chunkSize : Nat} (positive : 0 < chunkSize) :
    ∀ {children children' : List (Str × Folder)},
      (∀ child ∈ nodes chunkSize children, child.2.Ordered) →
        (∀ child ∈ nodes chunkSize children', child.2.Ordered) →
          NoCollision (hashedIn chunkSize children) (hashedIn chunkSize children') →
            (∀ name child child', (name, child) ∈ nodes chunkSize children →
              (name, child') ∈ nodes chunkSize children' → ¬ Ambiguous child child') →
                (nodes chunkSize children).map (fun child => (child.1, child.2.hash)) =
                  (nodes chunkSize children').map (fun child => (child.1, child.2.hash)) →
                    children = children'
  | [], [], _, _, _, _, _ => rfl
  | [], _ :: _, _, _, _, _, same => absurd same (List.cons_ne_nil _ _).symm
  | _ :: _, [], _, _, _, _, same => absurd same (List.cons_ne_nil _ _)
  | (name, child) :: rest, (name', child') :: rest', ordered, ordered', free, clear, same => by
      obtain ⟨head, tail⟩ := List.cons.inj same
      obtain ⟨rfl, hashes⟩ := Prod.mk.inj head
      have first := Folder.eq_of_hash positive (ordered _ List.mem_cons_self)
        (ordered' _ List.mem_cons_self)
        (fun string member other member' => free string (List.mem_append_left _ member) other
          (List.mem_append_left _ member'))
        (clear name _ _ List.mem_cons_self List.mem_cons_self) hashes
      have later := Folder.eqIn_of_hash positive
        (fun child member => ordered child (List.mem_cons_of_mem _ member))
        (fun child member => ordered' child (List.mem_cons_of_mem _ member))
        (fun string member other member' => free string (List.mem_append_right _ member) other
          (List.mem_append_right _ member'))
        (fun name child child' member member' => clear name child child'
          (List.mem_cons_of_mem _ member) (List.mem_cons_of_mem _ member')) tail
      rw [first, later]

end

/-- **What equal root hashes say of two scanned directories**, when no hashed strings collide:
that the trees are equal, and so the files with their contents, exactly when the trees are not
ambiguous. -/
theorem sound_iff {chunkSize : Nat} (positive : 0 < chunkSize) {exclude exclude' : RelPath → Bool}
    {disk disk' : Disk} {left right : Node}
    (scanned : fromPathConfigured exclude chunkSize [] disk = some left)
    (scanned' : fromPathConfigured exclude' chunkSize [] disk' = some right)
    (free : NoCollision (scanHashes chunkSize exclude disk) (scanHashes chunkSize exclude' disk')) :
    (left.hash = right.hash →
        left = right ∧ included exclude [] disk = included exclude' [] disk') ↔
      ¬ Ambiguous left right := by
  have ordered := Merkle.ordered_fromPathConfigured scanned
  have ordered' := Merkle.ordered_fromPathConfigured scanned'
  rw [scan_eq] at scanned scanned'
  obtain ⟨folder, taken, rfl⟩ := Option.map_eq_some_iff.mp scanned
  obtain ⟨folder', taken', rfl⟩ := Option.map_eq_some_iff.mp scanned'
  rw [scanHashes, taken, scanHashes, taken'] at free
  rw [taken, taken']
  constructor
  · intro sound ambiguous
    obtain ⟨bytes, apart⟩ := ambiguous.bytes_and_ne
    refine apart (sound ?_).1
    rw [Folder.hash_node, Folder.hash_node, bytes]
  · intro clear same
    obtain rfl := Folder.eq_of_hash positive ordered ordered' free clear same
    exact ⟨rfl, rfl⟩

/-! ## Which trees are ambiguous -/

omit [Blake3] in
/-- Two files never are. -/
theorem not_ambiguous_files {hash hash' : Hash} {size size' : Nat}
    {chunks chunks' : List ChunkMeta} :
    ¬ Ambiguous (.file hash size chunks) (.file hash' size' chunks') := by
  have framed : ∀ left right : List Hash,
      left.flatMap Subtype.val = right.flatMap Subtype.val → left = right := by
    intro left
    induction left with
    | nil =>
        rintro (_ | ⟨second, right⟩) same
        · rfl
        · have length := congrArg List.length same
          rw [List.flatMap_cons, List.length_append, second.2, List.flatMap_nil, List.length_nil]
            at length
          exact absurd length (by omega)
    | cons first left ih =>
        rintro (_ | ⟨second, right⟩) same
        · have length := congrArg List.length same
          rw [List.flatMap_cons, List.length_append, first.2, List.flatMap_nil, List.length_nil]
            at length
          exact absurd length (by omega)
        · rw [List.flatMap_cons, List.flatMap_cons] at same
          obtain ⟨head, tail⟩ := List.append_inj same (first.2.trans second.2.symm)
          rw [Subtype.ext head, ih right tail]
  intro ambiguous
  cases ambiguous with
  | here same apart => exact apart (congrArg Parts.file (framed _ _ same))

/-- An empty file and an empty directory are, whatever the hash function. -/
theorem ambiguous_empty :
    Ambiguous (Merkle.fileNodeWithChunkSize [] chunkSize) (Merkle.dirNode []) := by
  have slices : Chunk.slices [] chunkSize = [] := by
    rw [← List.length_eq_zero_iff, Chunk.length_slices, List.length_nil]
    rcases Nat.eq_zero_or_pos chunkSize with none | positive
    · rw [none]
    · exact Nat.div_eq_of_lt (by omega)
  refine .here ?_ nofun
  rw [Merkle.fileNodeWithChunkSize, Chunk.metadata, slices]
  rfl

end Trees

/-! ## Two concrete pairs -/

namespace Merkle

/-- A hash that keeps the length and the last 31 bytes. -/
@[reducible] def keepsLength : Blake3 where
  hash bytes :=
    ⟨(UInt8.ofNat bytes.length :: bytes.reverse ++ List.replicate 32 0).take 32, by simp⟩

attribute [local instance] keepsLength

/-- A directory with something named `a`. -/
def holding (child : Disk) : Disk := .dir [(.utf8 ['a'], child)]

/-- A directory with an empty file and one with an empty directory of the same name have equal
root hashes, and no collision is needed for it. -/
theorem exists_unsound :
    ∃ left right, fromPathConfigured (fun _ => false) 2 [] (holding (.file [])) = some left ∧
      fromPathConfigured (fun _ => false) 2 [] (holding (.dir [])) = some right ∧
        NoCollision (scanHashes 2 (fun _ => false) (holding (.file [])))
          (scanHashes 2 (fun _ => false) (holding (.dir []))) ∧
          left.hash = right.hash ∧ left ≠ right := by
  refine ⟨_, _, rfl, rfl, by decide +kernel, by decide +kernel, fun same => ?_⟩
  injection same with _ children
  injection children with entry _
  injection entry with _ node
  exact absurd node nofun

/-- Two directories that differ in what the second one excludes. -/
theorem sound_iff_sample :
    ∃ left right, fromPathConfigured (fun _ => false) 2 [] (holding (.file [1, 2, 3])) = some left ∧
      fromPathConfigured (fun path => path == [.utf8 ['b']]) 2 []
        (.dir [(.utf8 ['a'], .file [1, 2, 3]), (.utf8 ['b'], .file [4])]) = some right ∧
        left.hash = right.hash ∧ left = right ∧
          included (fun _ => false) [] (holding (.file [1, 2, 3])) =
            included (fun path => path == [.utf8 ['b']]) []
              (.dir [(.utf8 ['a'], .file [1, 2, 3]), (.utf8 ['b'], .file [4])]) := by
  have scanned : fromPathConfigured (fun _ => false) 2 [] (holding (.file [1, 2, 3])) =
      some (Merkle.dirNode [(['a'], Merkle.fileNodeWithChunkSize [1, 2, 3] 2)]) := rfl
  have scanned' : fromPathConfigured (fun path => path == [.utf8 ['b']]) 2 []
      (.dir [(.utf8 ['a'], .file [1, 2, 3]), (.utf8 ['b'], .file [4])]) =
        some (Merkle.dirNode [(['a'], Merkle.fileNodeWithChunkSize [1, 2, 3] 2)]) := rfl
  exact ⟨_, _, scanned, scanned', rfl,
    (sound_iff Nat.zero_lt_two scanned scanned' (by decide +kernel)).mpr
      (fun ambiguous => ambiguous.bytes_and_ne.2 rfl) rfl⟩

end Merkle

end P2Sync
