import P2Sync.Support.Decoding

/-!
# Records with defaults

A field of a settings record that is missing has its default. What is written of some of the fields
is read back as these, with the defaults of the others (`Settings`), so a file may list as little as
it wants to change.
-/

set_option autoImplicit false

namespace P2Sync.Encoding

namespace Codec

variable {α : Type}

/-- A field that may be missing. -/
def readOr (codec : Codec α) (standard : α) : List Value → Option α
  | [] => some standard
  | [value] => codec.read value
  | _ => none

theorem fits_of_readOr (codec : Codec α) {standard : α} (proper : codec.Fits standard)
    {values : List Value} {content : α}
    (accepted : codec.readOr standard values = some content) : codec.Fits content := by
  rw [readOr.eq_def] at accepted
  split at accepted
  · cases accepted
    exact proper
  · exact codec.fits _ content accepted
  · cases accepted

end Codec

/-- The fields of the names that are listed. -/
def listed (selected : List Char → Bool) (entries : List (List Char × Value)) :
    List (List Char × Value) :=
  entries.filter fun entry => selected entry.1

theorem mem_of_mem_listed {selected : List Char → Bool} {entry : List Char × Value}
    {entries : List (List Char × Value)} (member : entry ∈ listed selected entries) :
    entry ∈ entries :=
  (List.mem_filter.mp member).1

/-- Fields that may each be missing. -/
structure Settings (ρ : Type) extends Fields ρ where
  /-- The record with the default of each field. -/
  standard : ρ
  /-- Another record in the fields of some names. -/
  only : (List Char → Bool) → ρ → ρ
  proper : Fits standard
  read_listed : ∀ selected earlier content, (∀ entry ∈ earlier, entry.1 ∉ names) → Fits content →
    read (earlier ++ listed selected (write content)) = some (only selected content)

namespace Settings

variable {α ρ : Type}

/-- No fields. -/
def nil : Settings Unit where
  toFields := Fields.nil
  standard := ()
  only _ _ := ()
  proper := trivial
  read_listed _ _ _ _ _ := rfl

/-- A field with a default, before others. -/
def cons (name : List Char) (codec : Codec α) (standard : α) (proper : codec.Fits standard)
    (settings : Settings ρ) (fresh : name ∉ settings.names) : Settings (α × ρ) where
  toFields := Fields.consWith name codec.write (codec.readOr standard) codec.Fits
    (fun content fits => codec.read_write content fits)
    (fun _ _ accepted => codec.fits_of_readOr proper accepted) settings.toFields fresh
  standard := (standard, settings.standard)
  only selected content :=
    (if selected name then content.1 else standard, settings.only selected content.2)
  proper := ⟨proper, settings.proper⟩
  read_listed selected earlier content other fit := by
    have before : ∀ entry ∈ earlier, entry.1 ≠ name :=
      fun entry member same => other entry member (same ▸ List.mem_cons_self)
    have beforeRest : ∀ entry ∈ earlier, entry.1 ∉ settings.names :=
      fun entry member named => other entry member (List.mem_cons_of_mem _ named)
    have after : ∀ entry ∈ listed selected (settings.write content.2), entry.1 ≠ name :=
      fun entry member same =>
        fresh (same ▸ settings.named content.2 entry (mem_of_mem_listed member))
    by_cases picked : selected name = true
    · have rest := settings.read_listed selected (earlier ++ [(name, codec.write content.1)])
        content.2 (fun entry member => by
          rcases List.mem_append.mp member with member | last
          · exact beforeRest entry member
          · rw [List.mem_singleton.mp last]
            exact fresh) fit.2
      rw [List.append_assoc] at rest
      have entries_eq : listed selected ((name, codec.write content.1) ::
          settings.write content.2) =
            (name, codec.write content.1) :: listed selected (settings.write content.2) :=
        List.filter_cons_of_pos picked
      simp only [Fields.consWith]
      rw [entries_eq, fieldsOf_append before after, Codec.readOr, codec.read_write _ fit.1,
        Option.bind_some, if_pos picked]
      exact congrArg (Option.map _) rest
    · have rest := settings.read_listed selected earlier content.2 beforeRest fit.2
      have entries_eq : listed selected ((name, codec.write content.1) ::
          settings.write content.2) = listed selected (settings.write content.2) :=
        List.filter_cons_of_neg picked
      have missing : fieldsOf name (earlier ++ listed selected (settings.write content.2)) = [] :=
        fieldsOf_eq_nil fun entry member => (List.mem_append.mp member).elim (before entry)
          (after entry)
      simp only [Fields.consWith]
      rw [entries_eq, missing, Codec.readOr, Option.bind_some, if_neg picked]
      exact congrArg (Option.map _) rest

/-- The settings as a codec of what they are the fields of. -/
def codec (settings : Settings ρ) (fields : α ≃ ρ) : Codec α :=
  settings.record.congr fields.symm

/-- What is written of some of the fields. -/
def writeListed (settings : Settings ρ) (fields : α ≃ ρ) (selected : List Char → Bool)
    (content : α) : Value :=
  .map (listed selected (settings.write (fields content)))

end Settings

end P2Sync.Encoding
