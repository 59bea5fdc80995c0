import P2Sync.Support.Encoding
import P2Sync.Support.SortedMap
import Mathlib.Logic.Equiv.Defs

/-!
# Reading back what was encoded

A codec writes contents as values and reads values as contents. It reads back what it has written
when the content fits, that is when its numbers are as small as their types say, and it reads
nothing that does not fit (`Codec`).

Codecs are made from codecs. A record is a map with a field for each of its names: fields of other
names are passed by, and a field that is missing or there twice is refused (`Fields`). A variant is
a map from its name to its fields (`tagged`).
-/

set_option autoImplicit false

namespace P2Sync.Encoding

/-- A format for contents of a type. No content is written as `null`. -/
structure Codec (α : Type) where
  write : α → Value
  read : Value → Option α
  Fits : α → Prop
  read_write : ∀ content, Fits content → read (write content) = some content
  fits : ∀ value content, read value = some content → Fits content
  write_ne_null : ∀ content, write content ≠ .null

namespace Codec

variable {α β : Type}

/-- **What fits is what is read back.** -/
theorem read_write_iff (codec : Codec α) (content : α) :
    codec.read (codec.write content) = some content ↔ codec.Fits content :=
  ⟨codec.fits _ content, codec.read_write content⟩

/-- Numbers below a bound. -/
def number (bound : Nat) : Codec Nat where
  write := .number
  read
    | .number value => if value < bound then some value else none
    | _ => none
  Fits value := value < bound
  read_write _ fits := if_pos fits
  fits value content accepted := by
    cases value with
    | number value =>
        dsimp only at accepted
        split at accepted
        · cases accepted
          assumption
        · cases accepted
    | _ => cases accepted
  write_ne_null _ := nofun

/-- Texts. -/
def text : Codec (List Char) where
  write := .text
  read
    | .text content => some content
    | _ => none
  Fits _ := True
  read_write _ _ := rfl
  fits _ _ _ := trivial
  write_ne_null _ := nofun

/-- A codec for the same contents under other names. -/
def congr (codec : Codec α) (equiv : α ≃ β) : Codec β where
  write content := codec.write (equiv.symm content)
  read value := (codec.read value).map equiv
  Fits content := codec.Fits (equiv.symm content)
  read_write content fits := by
    rw [codec.read_write _ fits, Option.map_some, Equiv.apply_symm_apply]
  fits value content accepted := by
    obtain ⟨read, found, rfl⟩ := Option.map_eq_some_iff.mp accepted
    rw [Equiv.symm_apply_apply]
    exact codec.fits value read found
  write_ne_null content := codec.write_ne_null _

/-- A codec for the contents that have a property, which is checked when they are read. -/
def subtype (codec : Codec α) (property : α → Prop) [DecidablePred property] :
    Codec {content : α // property content} where
  write content := codec.write content.val
  read value := (codec.read value).bind fun content =>
    if proper : property content then some ⟨content, proper⟩ else none
  Fits content := codec.Fits content.val
  read_write content fits := by
    rw [codec.read_write _ fits, Option.bind_some, dif_pos content.property]
  fits value content accepted := by
    obtain ⟨read, found, kept⟩ := Option.bind_eq_some_iff.mp accepted
    split at kept
    · cases kept
      exact codec.fits value read found
    · cases kept
  write_ne_null content := codec.write_ne_null _

/-! ## Sequences -/

/-- The contents of the items of a sequence. -/
def readItems (read : Value → Option α) : List Value → Option (List α)
  | [] => some []
  | item :: rest => (read item).bind fun content => (readItems read rest).map (content :: ·)

theorem readItems_map (codec : Codec α) {contents : List α}
    (fits : ∀ content ∈ contents, codec.Fits content) :
    readItems codec.read (contents.map codec.write) = some contents := by
  induction contents with
  | nil => rfl
  | cons content rest ih =>
      rw [List.map_cons, readItems, codec.read_write _ (fits _ List.mem_cons_self),
        ih fun later member => fits later (List.mem_cons_of_mem _ member)]
      rfl

theorem fits_of_readItems (codec : Codec α) {items : List Value} {contents : List α}
    (accepted : readItems codec.read items = some contents) :
    ∀ content ∈ contents, codec.Fits content := by
  induction items generalizing contents with
  | nil =>
      cases accepted
      exact fun _ absent => absurd absent List.not_mem_nil
  | cons item rest ih =>
      obtain ⟨first, here, mapped⟩ := Option.bind_eq_some_iff.mp accepted
      obtain ⟨later, there, rfl⟩ := Option.map_eq_some_iff.mp mapped
      intro content member
      rcases List.mem_cons.mp member with rfl | member
      · exact codec.fits item content here
      · exact ih there content member

/-- Lists, as sequences. -/
def seq (codec : Codec α) : Codec (List α) where
  write contents := .seq (contents.map codec.write)
  read
    | .seq items => readItems codec.read items
    | _ => none
  Fits contents := ∀ content ∈ contents, codec.Fits content
  read_write _ fits := readItems_map codec fits
  fits value contents accepted := by
    cases value with
    | seq items => exact fits_of_readItems codec accepted
    | _ => cases accepted
  write_ne_null _ := nofun

/-- Pairs, as sequences of two items. -/
def pair (first : Codec α) (second : Codec β) : Codec (α × β) where
  write content := .seq [first.write content.1, second.write content.2]
  read
    | .seq [one, other] => (first.read one).bind fun left =>
        (second.read other).map fun right => (left, right)
    | _ => none
  Fits content := first.Fits content.1 ∧ second.Fits content.2
  read_write content fits := by
    dsimp only
    rw [first.read_write _ fits.1, second.read_write _ fits.2]
    rfl
  fits value content accepted := by
    split at accepted
    · obtain ⟨left, here, mapped⟩ := Option.bind_eq_some_iff.mp accepted
      obtain ⟨right, there, rfl⟩ := Option.map_eq_some_iff.mp mapped
      exact ⟨first.fits _ _ here, second.fits _ _ there⟩
    · cases accepted
  write_ne_null _ := nofun

/-- A byte, as a number. -/
def byte : Codec UInt8 where
  write value := .number value.toNat
  read value := ((number 256).read value).map UInt8.ofNat
  Fits _ := True
  read_write value _ := by
    have read : (number 256).read (.number value.toNat) = some value.toNat :=
      (number 256).read_write value.toNat value.toNat_lt
    rw [read, Option.map_some, UInt8.ofNat_toNat]
  fits _ _ _ := trivial
  write_ne_null _ := nofun

/-- A byte string, as a sequence of numbers. -/
def bytes : Codec (List UInt8) := byte.seq

theorem bytes_fits (content : List UInt8) : bytes.Fits content := fun _ _ => trivial

end Codec

/-! ## Records -/

/-- The values of the fields of a name. -/
def fieldsOf (name : List Char) (entries : List (List Char × Value)) : List Value :=
  (entries.filter fun entry => entry.1 = name).map Prod.snd

theorem fieldsOf_eq_nil {name : List Char} {entries : List (List Char × Value)}
    (other : ∀ entry ∈ entries, entry.1 ≠ name) : fieldsOf name entries = [] := by
  rw [fieldsOf, List.filter_eq_nil_iff.mpr fun entry member named =>
    other entry member (of_decide_eq_true named), List.map_nil]

/-- A field is found between fields of other names. -/
theorem fieldsOf_append {name : List Char} {value : Value}
    {earlier later : List (List Char × Value)} (before : ∀ entry ∈ earlier, entry.1 ≠ name)
    (after : ∀ entry ∈ later, entry.1 ≠ name) :
    fieldsOf name (earlier ++ (name, value) :: later) = [value] := by
  have kept : fieldsOf name ((name, value) :: later) = value :: fieldsOf name later := by
    rw [fieldsOf, fieldsOf, List.filter_cons_of_pos (by simp), List.map_cons]
  rw [fieldsOf, List.filter_append, List.map_append]
  change fieldsOf name earlier ++ fieldsOf name ((name, value) :: later) = [value]
  rw [fieldsOf_eq_nil before, kept, fieldsOf_eq_nil after, List.nil_append]

namespace Codec

variable {α : Type}

/-- A field that has to be there. -/
def readField (codec : Codec α) : List Value → Option α
  | [value] => codec.read value
  | _ => none

/-- A field that may be missing, or `null`. -/
def readOptional (codec : Codec α) : List Value → Option (Option α)
  | [] => some none
  | [.null] => some none
  | [value] => (codec.read value).map some
  | _ => none

/-- What is written into a field that may be `null`. -/
def writeOptional (codec : Codec α) (content : Option α) : Value :=
  (content.map codec.write).getD .null

theorem readOptional_write (codec : Codec α) {content : Option α}
    (fits : ∀ inner ∈ content, codec.Fits inner) :
    codec.readOptional [codec.writeOptional content] = some content := by
  cases content with
  | none => rfl
  | some inner =>
      have read := codec.read_write inner (fits inner rfl)
      rw [writeOptional, Option.map_some, Option.getD_some]
      rw [readOptional, read, Option.map_some]
      exact codec.write_ne_null inner

theorem fits_of_readOptional (codec : Codec α) {values : List Value} {content : Option α}
    (accepted : codec.readOptional values = some content) :
    ∀ inner ∈ content, codec.Fits inner := by
  rw [readOptional.eq_def] at accepted
  split at accepted
  · cases accepted
    exact nofun
  · cases accepted
    exact nofun
  · obtain ⟨inner, read, rfl⟩ := Option.map_eq_some_iff.mp accepted
    rintro _ ⟨rfl⟩
    exact codec.fits _ inner read
  · cases accepted

end Codec

/-- The fields of a record, written in order and read wherever they are. -/
structure Fields (ρ : Type) where
  names : List (List Char)
  write : ρ → List (List Char × Value)
  read : List (List Char × Value) → Option ρ
  Fits : ρ → Prop
  named : ∀ content, ∀ entry ∈ write content, entry.1 ∈ names
  read_write : ∀ earlier content, (∀ entry ∈ earlier, entry.1 ∉ names) → Fits content →
    read (earlier ++ write content) = some content
  fits : ∀ entries content, read entries = some content → Fits content

namespace Fields

variable {α ρ : Type}

/-- No fields. -/
def nil : Fields Unit where
  names := []
  write _ := []
  read _ := some ()
  Fits _ := True
  named _ _ absent := absurd absent List.not_mem_nil
  read_write _ _ _ _ := rfl
  fits _ _ _ := trivial

/-- A field before others, with a way to write its value and to read the values of its name. -/
def consWith (name : List Char) (write : α → Value) (read : List Value → Option α) (Fits : α → Prop)
    (read_write : ∀ content, Fits content → read [write content] = some content)
    (fits : ∀ values content, read values = some content → Fits content)
    (fields : Fields ρ) (fresh : name ∉ fields.names) : Fields (α × ρ) where
  names := name :: fields.names
  write content := (name, write content.1) :: fields.write content.2
  read entries := (read (fieldsOf name entries)).bind fun first =>
    (fields.read entries).map fun rest => (first, rest)
  Fits content := Fits content.1 ∧ fields.Fits content.2
  named content entry member := by
    rcases List.mem_cons.mp member with rfl | member
    · exact List.mem_cons_self
    · exact List.mem_cons_of_mem _ (fields.named content.2 entry member)
  read_write earlier content other fit := by
    have found : fieldsOf name (earlier ++ (name, write content.1) :: fields.write content.2) =
        [write content.1] :=
      fieldsOf_append (fun entry member same => other entry member (same ▸ List.mem_cons_self))
        fun entry member same => fresh (same ▸ fields.named content.2 entry member)
    have rest := fields.read_write (earlier ++ [(name, write content.1)]) content.2
      (fun entry member => by
        rcases List.mem_append.mp member with member | last
        · exact fun named => other entry member (List.mem_cons_of_mem _ named)
        · rw [List.mem_singleton.mp last]
          exact fresh) fit.2
    rw [List.append_assoc] at rest
    rw [found, read_write _ fit.1, Option.bind_some]
    exact congrArg (Option.map _) rest
  fits entries content accepted := by
    obtain ⟨first, here, mapped⟩ := Option.bind_eq_some_iff.mp accepted
    obtain ⟨rest, there, rfl⟩ := Option.map_eq_some_iff.mp mapped
    exact ⟨fits _ first here, fields.fits entries rest there⟩

/-- A field that has to be there, before others. -/
def cons (name : List Char) (codec : Codec α) (fields : Fields ρ) (fresh : name ∉ fields.names) :
    Fields (α × ρ) :=
  consWith name codec.write codec.readField codec.Fits (fun content => codec.read_write content)
    (fun values content accepted => by
      rw [Codec.readField.eq_def] at accepted
      split at accepted
      · exact codec.fits _ content accepted
      · cases accepted) fields fresh

/-- A field that may be missing, before others. -/
def optional (name : List Char) (codec : Codec α) (fields : Fields ρ)
    (fresh : name ∉ fields.names) : Fields (Option α × ρ) :=
  consWith name codec.writeOptional codec.readOptional (fun content => ∀ inner ∈ content,
    codec.Fits inner) (fun _ fits => codec.readOptional_write fits)
    (fun _ _ accepted => codec.fits_of_readOptional accepted) fields fresh

/-- What is written alone is read back. -/
theorem read_write_self (fields : Fields ρ) {content : ρ} (fits : fields.Fits content) :
    fields.read (fields.write content) = some content :=
  fields.read_write [] content (fun _ absent => absurd absent List.not_mem_nil) fits

/-- A record, as a map with its fields. -/
def record (fields : Fields ρ) : Codec ρ where
  write content := .map (fields.write content)
  read
    | .map entries => fields.read entries
    | _ => none
  Fits := fields.Fits
  read_write _ fits := fields.read_write_self fits
  fits value content accepted := by
    cases value with
    | map entries => exact fields.fits entries content accepted
    | _ => cases accepted
  write_ne_null _ := nofun

end Fields

/-! ## Variants -/

/-- A variant with fields, and what it makes of them. -/
structure Variant (ε ρ : Type) where
  name : List Char
  fields : Fields ρ
  make : ρ → ε

/-- What the name of a variant makes of its fields. -/
def tagged {ε : Type} (branches : List (List Char × (List (List Char × Value) → Option ε))) :
    Value → Option ε
  | .map [(name, .map entries)] => (branches.lookup name).bind fun read => read entries
  | _ => none

namespace Variant

variable {ε ρ : Type} (variant : Variant ε ρ)

/-- A variant, as a map from its name to its fields. -/
def write (content : ρ) : Value := .map [(variant.name, .map (variant.fields.write content))]

def read (entries : List (List Char × Value)) : Option ε :=
  (variant.fields.read entries).map variant.make

/-- The variant among others. -/
def branch : List Char × (List (List Char × Value) → Option ε) := (variant.name, variant.read)

/-- A variant is read back. -/
theorem tagged_write (branches : List (List Char × (List (List Char × Value) → Option ε)))
    (content : ρ) (listed : branches.lookup variant.name = some variant.read)
    (fits : variant.fields.Fits content) :
    tagged branches (variant.write content) = some (variant.make content) := by
  rw [write, tagged, listed, Option.bind_some, read, variant.fields.read_write_self fits,
    Option.map_some]

/-- What is read of the fields has a property when what is made of fields that fit has it. -/
theorem of_read {property : ε → Prop}
    (kept : ∀ content, variant.fields.Fits content → property (variant.make content))
    (entries : List (List Char × Value)) (content : ε)
    (accepted : variant.read entries = some content) : property content := by
  obtain ⟨fields, found, rfl⟩ := Option.map_eq_some_iff.mp accepted
  exact kept fields (variant.fields.fits entries fields found)

end Variant

/-- What is read of a variant is read by one of the branches. -/
theorem of_tagged {ε : Type} {branches : List (List Char × (List (List Char × Value) → Option ε))}
    {property : ε → Prop} {value : Value} {content : ε}
    (accepted : tagged branches value = some content)
    (each : ∀ branch ∈ branches, ∀ entries content, branch.2 entries = some content →
      property content) : property content := by
  rw [tagged.eq_def] at accepted
  split at accepted
  · rename_i name entries
    obtain ⟨read, listed, found⟩ := Option.bind_eq_some_iff.mp accepted
    obtain ⟨earlier, later, same, -⟩ := List.lookup_eq_some_iff.mp listed
    exact each (name, read) (by rw [same]; simp) entries content found
  · cases accepted

end P2Sync.Encoding
