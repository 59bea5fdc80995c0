import P2Sync.Core.Conflict
import P2Sync.Support.Hex

/-!
# Clocks as maps of text

A clock crosses the network as a map from text keys to counters. A key is the peer in sixteen
hexadecimal digits. The encoder writes one entry for each peer in order, and the decoder reads
the entries of any peer, byte by byte with `u8::from_str_radix`.

That function takes a plus sign before its digits, so a key of eight pairs is read also when
some of the pairs are a sign and one digit. Other than that the decoder takes
what the encoder's format allows (`readsHexKeys_iff`), and it reads back every map that was
written (`deserialize_serialize`).
-/

set_option autoImplicit false

namespace P2Sync

/-! ## Slices of a string -/

/-- `str::len`: the length in bytes. -/
def byteLen (text : Str) : Nat := (text.map Char.utf8Size).sum

/-- `str::is_ascii`. -/
def isAscii (text : Str) : Bool := text.all fun c => c.toNat < 128

/-- The text from a byte position on, `none` when it is not a character boundary. -/
def dropBytes : Nat → Str → Option Str
  | 0, text => some text
  | _ + 1, [] => none
  | count + 1, c :: rest =>
      if c.utf8Size ≤ count + 1 then dropBytes (count + 1 - c.utf8Size) rest else none
termination_by structural _ text => text

/-- The text up to a byte position, `none` when it is not a character boundary. -/
def takeBytes : Nat → Str → Option Str
  | 0, _ => some []
  | _ + 1, [] => none
  | count + 1, c :: rest =>
      if c.utf8Size ≤ count + 1 then (takeBytes (count + 1 - c.utf8Size) rest).map (c :: ·)
      else none
termination_by structural _ text => text

/-- `&text[start..stop]`, `none` where it panics. -/
def sliceBytes (text : Str) (start stop : Nat) : Option Str :=
  if start ≤ stop then (dropBytes start text).bind (takeBytes (stop - start)) else none

/-! ## Numbers in text -/

/-- `std::num::IntErrorKind`, for an unsigned number. -/
inductive IntErrorKind where
  | empty
  | invalidDigit
  | posOverflow
deriving DecidableEq

/-- The text of a `ParseIntError`. -/
def IntErrorKind.message : IntErrorKind → String
  | .empty => "cannot parse integer from empty string"
  | .invalidDigit => "invalid digit found in string"
  | .posOverflow => "number too large to fit in target type"

/-- The digits of `u8::from_str_radix`, with the value of those before. -/
def readDigits : Nat → Str → Except IntErrorKind UInt8
  | value, [] => .ok (UInt8.ofNat value)
  | value, c :: rest =>
      match Hex.digit? c with
      | none => .error .invalidDigit
      | some digit =>
          if value * 16 + digit < 256 then readDigits (value * 16 + digit) rest
          else .error .posOverflow

/-- `u8::from_str_radix(_, 16)`: an optional plus sign, and digits. -/
def fromStrRadix16 : Str → Except IntErrorKind UInt8
  | [] => .error .empty
  | ['+'] => .error .invalidDigit
  | ['-'] => .error .invalidDigit
  | '+' :: digits => readDigits 0 digits
  | digits => readDigits 0 digits

/-! ## The codec -/

/-- How the decoder ends. -/
inductive Decoded (α : Type) where
  | ok (value : α)
  | error (message : String)
  | panic

/-- The bytes of a key, at the byte positions where they start. -/
def decodePairs (key : Str) : List Nat → Decoded Bytes
  | [] => .ok []
  | start :: later =>
      match sliceBytes key start (start + 2) with
      | none => .panic
      | some text =>
          match fromStrRadix16 text with
          | .error kind => .error kind.message
          | .ok byte =>
              match decodePairs key later with
              | .ok bytes => .ok (byte :: bytes)
              | .error message => .error message
              | .panic => .panic

/-- The peer of a key. -/
def decodeKey (key : Str) : Decoded PeerId :=
  if byteLen key % 2 ≠ 0 || !isAscii key then .error "invalid hex peer ID key"
  else
    match decodePairs key ((List.range ((byteLen key + 1) / 2)).map (2 * ·)) with
    | .ok bytes =>
        if eight : bytes.length = 8 then .ok ⟨bytes, eight⟩
        else .error "peer ID must be 8 bytes"
    | .error message => .error message
    | .panic => .panic

/-- The loop of `visit_map`. -/
def visitMap : BTreeMap PeerId UInt64 → List (Str × UInt64) → Decoded (BTreeMap PeerId UInt64)
  | map, [] => .ok map
  | map, (key, value) :: rest =>
      match decodeKey key with
      | .ok peer => visitMap (map.insert peer value) rest
      | .error message => .error message
      | .panic => .panic

/-- `peer_id_map::deserialize`, of the entries of a map. -/
def deserialize (entries : List (Str × UInt64)) : Decoded (BTreeMap PeerId UInt64) :=
  visitMap .empty entries

/-- `peer_id_map::serialize`: the entries of the map it writes. -/
def serialize (map : BTreeMap PeerId UInt64) : List (Str × UInt64) :=
  map.entries.map fun entry => (peerIdHex entry.1, entry.2)

/-! ## Slices of ASCII -/

theorem utf8Size_of_ascii {c : Char} (ascii : c.toNat < 128) : c.utf8Size = 1 :=
  Char.utf8Size_eq_one_iff.mpr (UInt32.le_iff_toNat_le.mpr (Nat.le_of_lt_succ ascii))

theorem isAscii_cons {c : Char} {rest : Str} :
    isAscii (c :: rest) = true ↔ c.toNat < 128 ∧ isAscii rest = true := by
  rw [isAscii, isAscii, List.all_cons, Bool.and_eq_true, decide_eq_true_eq]

theorem byteLen_of_ascii {text : Str} (ascii : isAscii text = true) :
    byteLen text = text.length := by
  induction text with
  | nil => rfl
  | cons c rest ih =>
      obtain ⟨small, ascii⟩ := isAscii_cons.mp ascii
      rw [byteLen, List.map_cons, List.sum_cons, utf8Size_of_ascii small, List.length_cons,
        ← ih ascii, byteLen]
      omega

theorem dropBytes_append {front rest : Str} (ascii : isAscii front = true) :
    dropBytes front.length (front ++ rest) = some rest := by
  induction front with
  | nil => cases rest <;> rfl
  | cons c front ih =>
      obtain ⟨small, ascii⟩ := isAscii_cons.mp ascii
      rw [List.length_cons, List.cons_append, dropBytes, utf8Size_of_ascii small,
        if_pos (Nat.le_add_left ..), Nat.add_sub_cancel, ih ascii]

theorem takeBytes_append {front rest : Str} (ascii : isAscii front = true) :
    takeBytes front.length (front ++ rest) = some front := by
  induction front with
  | nil => cases rest <;> rfl
  | cons c front ih =>
      obtain ⟨small, ascii⟩ := isAscii_cons.mp ascii
      rw [List.length_cons, List.cons_append, takeBytes, utf8Size_of_ascii small,
        if_pos (Nat.le_add_left ..), Nat.add_sub_cancel, ih ascii]
      rfl

/-- **No slice of ASCII panics** inside the text. -/
theorem sliceBytes_append {front middle back : Str} (before : isAscii front = true)
    (ascii : isAscii middle = true) :
    sliceBytes (front ++ (middle ++ back)) front.length (front.length + middle.length) =
      some middle := by
  rw [sliceBytes, if_pos (Nat.le_add_right ..), dropBytes_append before, Option.bind_some,
    Nat.add_sub_cancel_left, takeBytes_append ascii]

/-! ## Pairs of digits -/

/-- A pair as it is read: two digits, or a plus sign and a digit. -/
def readPair (first second : Char) : Option UInt8 :=
  if first = '+' then (Hex.digit? second).map UInt8.ofNat else Hex.byte? first second

theorem fromStrRadix16_pair (first second : Char) :
    fromStrRadix16 [first, second] =
      match readPair first second with
      | some byte => .ok byte
      | none => .error .invalidDigit := by
  have digits : ∀ value, value < 16 → readDigits value [second] =
      match (Hex.digit? second).map fun digit => UInt8.ofNat (value * 16 + digit) with
      | some byte => .ok byte
      | none => .error .invalidDigit := by
    intro value small
    rw [readDigits]
    cases read : Hex.digit? second with
    | none => rfl
    | some digit =>
        have bound := (Hex.digit?_bounds read).1
        dsimp only
        rw [if_pos (by omega)]
        rfl
  rw [readPair]
  by_cases sign : first = '+'
  · subst sign
    have after : fromStrRadix16 ['+', second] = readDigits 0 [second] := rfl
    rw [if_pos rfl, after, digits 0 (by decide)]
    simp only [Nat.zero_mul, Nat.zero_add]
  · rw [if_neg sign, fromStrRadix16.eq_def]
    split
    · rename_i empty
      exact absurd empty (List.cons_ne_nil _ _)
    · rename_i single
      exact absurd (List.cons.inj single).2 (List.cons_ne_nil _ _)
    · rename_i single
      exact absurd (List.cons.inj single).2 (List.cons_ne_nil _ _)
    · rename_i signed
      exact absurd (List.cons.inj signed).1 sign
    · rw [readDigits, Hex.byte?]
      cases read : Hex.digit? first with
      | none => rfl
      | some value =>
          have bound := (Hex.digit?_bounds read).1
          dsimp only
          rw [if_pos (by omega), digits _ (by omega), Nat.zero_mul, Nat.zero_add,
            Nat.mul_comm value]
          rfl

theorem readPair_isSome_iff {first second : Char} :
    (readPair first second).isSome = true ↔
      ((Hex.digit? first).isSome = true ∨ first = '+') ∧ (Hex.digit? second).isSome = true := by
  rw [readPair]
  by_cases sign : first = '+'
  · simp [sign]
  · simp [sign, Hex.byte?_isSome_iff]

/-- A pair without a sign is two digits. -/
theorem readPair_of_ne {first second : Char} (unsigned : first ≠ '+') :
    readPair first second = Hex.byte? first second := if_neg unsigned

/-! ## Keys -/

/-- The value, or an error with a message. -/
def Decoded.orError {α : Type} (message : String) : Option α → Decoded α
  | some value => .ok value
  | none => .error message

/-- **The loop over byte positions** reads the pairs of a key one after the other. -/
theorem decodePairs_append {front rest : Str} (before : isAscii front = true)
    (ascii : isAscii rest = true) {start count : Nat} (even : front.length = 2 * start)
    (pairs : rest.length = 2 * count) :
    decodePairs (front ++ rest) ((List.range' start count).map (2 * ·)) =
      .orError IntErrorKind.invalidDigit.message (Hex.pairs? readPair rest) := by
  induction count generalizing front rest start with
  | zero =>
      obtain rfl := List.length_eq_zero_iff.mp pairs
      rfl
  | succ count ih =>
      obtain ⟨first, second, rest, rfl⟩ :
          ∃ first second later, rest = first :: second :: later := by
        match rest, pairs with
        | first :: second :: later, _ => exact ⟨first, second, later, rfl⟩
      obtain ⟨firstAscii, ascii⟩ := isAscii_cons.mp ascii
      obtain ⟨secondAscii, ascii⟩ := isAscii_cons.mp ascii
      have middle : isAscii [first, second] = true :=
        isAscii_cons.mpr ⟨firstAscii, isAscii_cons.mpr ⟨secondAscii, rfl⟩⟩
      have slice : sliceBytes (front ++ first :: second :: rest) (2 * start) (2 * start + 2) =
          some [first, second] := by
        rw [← even]
        exact @sliceBytes_append front [first, second] rest before middle
      have later : decodePairs (front ++ first :: second :: rest)
          ((List.range' (start + 1) count).map (2 * ·)) =
            .orError IntErrorKind.invalidDigit.message (Hex.pairs? readPair rest) := by
        have whole : front ++ first :: second :: rest = (front ++ [first, second]) ++ rest := by
          rw [List.append_assoc]
          rfl
        rw [whole]
        refine ih ?_ ascii ?_ ?_
        · rw [isAscii, List.all_append, Bool.and_eq_true]
          exact ⟨before, middle⟩
        · rw [List.length_append, even]
          rfl
        · rw [List.length_cons, List.length_cons] at pairs
          omega
      rw [List.range'_succ, List.map_cons, decodePairs, slice]
      dsimp only
      rw [fromStrRadix16_pair, Hex.pairs?]
      cases readPair first second with
      | none => rfl
      | some byte =>
          dsimp only
          rw [later, Option.bind_some]
          cases Hex.pairs? readPair rest <;> rfl

/-- What the decoder makes of a key. -/
theorem decodeKey_eq {key : Str} (ascii : isAscii key = true) (even : key.length % 2 = 0) :
    decodeKey key =
      match Hex.pairs? readPair key with
      | some bytes =>
          if eight : bytes.length = 8 then .ok ⟨bytes, eight⟩ else .error "peer ID must be 8 bytes"
      | none => .error IntErrorKind.invalidDigit.message := by
  have read := @decodePairs_append [] key rfl ascii 0 ((key.length + 1) / 2) rfl (by omega)
  rw [List.nil_append, ← List.range_eq_range'] at read
  rw [decodeKey, byteLen_of_ascii ascii, ascii, even, if_neg (by decide), read]
  cases Hex.pairs? readPair key <;> rfl

/-- A key that is read is ASCII, of an even length. -/
theorem ascii_of_pairs? {key : Str} {bytes : Bytes}
    (read : Hex.pairs? readPair key = some bytes) :
    isAscii key = true ∧ key.length % 2 = 0 := by
  have digit : ∀ {c : Char}, (Hex.digit? c).isSome = true → c.toNat < 128 := by
    intro c read
    obtain ⟨value, read⟩ := Option.isSome_iff_exists.mp read
    exact (Hex.digit?_bounds read).2
  have pairs := Hex.pairs?_isSome_iff.mp (Option.isSome_iff_exists.mpr ⟨bytes, read⟩)
  have both := Hex.allPairs_both_iff.mp (pairs.imp fun first second taken => by
    obtain ⟨either, last⟩ := readPair_isSome_iff.mp taken
    refine (⟨?_, digit last⟩ : first.toNat < 128 ∧ second.toNat < 128)
    rcases either with number | rfl
    · exact digit number
    · decide)
  exact ⟨List.all_eq_true.mpr fun c member => decide_eq_true (both.2 c member), both.1⟩

/-- A key that is not ASCII, or of an odd length, is an error; every other one is read in pairs. -/
theorem decodeKey_cases (key : Str) :
    decodeKey key = .error "invalid hex peer ID key" ∨
      isAscii key = true ∧ key.length % 2 = 0 := by
  by_cases checked : (byteLen key % 2 ≠ 0 || !isAscii key) = true
  · exact Or.inl (if_pos checked)
  · simp only [Bool.or_eq_true, decide_eq_true_eq, Bool.not_eq_true', not_or,
      Bool.not_eq_false, ne_eq, Decidable.not_not] at checked
    exact Or.inr ⟨checked.2, byteLen_of_ascii checked.2 ▸ checked.1⟩

theorem decodeKey_eq_ok_iff {key : Str} {peer : PeerId} :
    decodeKey key = .ok peer ↔ Hex.pairs? readPair key = some peer.val := by
  constructor
  · intro accepted
    rcases decodeKey_cases key with refused | ⟨ascii, even⟩
    · rw [refused] at accepted
      cases accepted
    · rw [decodeKey_eq ascii even] at accepted
      split at accepted
      · rename_i bytes read
        split at accepted
        · cases accepted
          exact read
        · cases accepted
      · cases accepted
  · intro read
    obtain ⟨ascii, even⟩ := ascii_of_pairs? read
    rw [decodeKey_eq ascii even, read]
    exact dif_pos peer.property

/-- **No key makes the decoder panic.** -/
theorem decodeKey_ne_panic (key : Str) : decodeKey key ≠ .panic := by
  intro panics
  rcases decodeKey_cases key with refused | ⟨ascii, even⟩
  · rw [refused] at panics
    cases panics
  · rw [decodeKey_eq ascii even] at panics
    split at panics
    · split at panics <;> cases panics
    · cases panics

/-! ## Entries -/

/-- The map of the entries whose keys are read as peers. Of two entries for one peer the later
one counts. -/
def StoredAs (read : Str → Option Bytes) (entries : List (Str × UInt64))
    (map : BTreeMap PeerId UInt64) : Prop :=
  ∃ stored : List (PeerId × UInt64),
    List.Forall₂ (fun entry kept => read entry.1 = some kept.1.val ∧ kept.2 = entry.2)
        entries stored ∧
      map = stored.foldl (fun map entry => map.insert entry.1 entry.2) .empty

theorem visitMap_eq_ok_iff {base map : BTreeMap PeerId UInt64} {entries : List (Str × UInt64)} :
    visitMap base entries = .ok map ↔
      ∃ stored : List (PeerId × UInt64),
        List.Forall₂ (fun entry kept => Hex.pairs? readPair entry.1 = some kept.1.val ∧
            kept.2 = entry.2) entries stored ∧
          map = stored.foldl (fun map entry => map.insert entry.1 entry.2) base := by
  induction entries generalizing base with
  | nil =>
      constructor
      · intro done
        cases done
        exact ⟨[], .nil, rfl⟩
      · rintro ⟨stored, same, rfl⟩
        rw [List.forall₂_nil_left_iff.mp same]
        rfl
  | cons entry rest ih =>
      obtain ⟨key, value⟩ := entry
      rw [visitMap]
      constructor
      · intro done
        split at done
        · rename_i peer read
          obtain ⟨stored, same, rfl⟩ := ih.mp done
          exact ⟨(peer, value) :: stored, .cons ⟨decodeKey_eq_ok_iff.mp read, rfl⟩ same, rfl⟩
        · cases done
        · cases done
      · rintro ⟨stored, same, rfl⟩
        obtain ⟨⟨peer, kept⟩, later, ⟨read, counted⟩, below, rfl⟩ :=
          List.forall₂_cons_left_iff.mp same
        obtain rfl : kept = value := counted
        rw [decodeKey_eq_ok_iff.mpr read]
        exact ih.mpr ⟨later, below, rfl⟩

/-- **What the decoder makes of entries.** -/
theorem deserialize_eq_ok_iff {entries : List (Str × UInt64)} {map : BTreeMap PeerId UInt64} :
    deserialize entries = .ok map ↔ StoredAs (Hex.pairs? readPair) entries map :=
  visitMap_eq_ok_iff

theorem visitMap_ne_panic (base : BTreeMap PeerId UInt64) (entries : List (Str × UInt64)) :
    visitMap base entries ≠ .panic := by
  induction entries generalizing base with
  | nil => exact fun panics => by cases panics
  | cons entry rest ih =>
      rw [visitMap]
      split
      · exact ih _
      · exact fun panics => by cases panics
      · rename_i panics
        exact absurd panics (decodeKey_ne_panic _)

/-! ## The format -/

/-- A key of the format: sixteen hexadecimal digits. -/
def IsHexKey (key : Str) : Prop := key.length = 16 ∧ ∀ c ∈ key, (Hex.digit? c).isSome = true

/-- Eight pairs of a digit or a plus sign, and a digit. -/
def IsSignedKey (key : Str) : Prop :=
  key.length = 16 ∧
    Hex.AllPairs (fun first second =>
      ((Hex.digit? first).isSome = true ∨ first = '+') ∧ (Hex.digit? second).isSome = true) key

theorem isSignedKey_iff {key : Str} :
    IsSignedKey key ↔ ∃ peer : PeerId, Hex.pairs? readPair key = some peer.val := by
  have pairs : Hex.AllPairs (fun first second =>
      ((Hex.digit? first).isSome = true ∨ first = '+') ∧ (Hex.digit? second).isSome = true) key ↔
        ∃ bytes, Hex.pairs? readPair key = some bytes := by
    simp only [← readPair_isSome_iff]
    rw [← Hex.pairs?_isSome_iff, Option.isSome_iff_exists]
  rw [IsSignedKey, pairs]
  constructor
  · rintro ⟨length, bytes, read⟩
    have eight := Hex.length_of_pairs? read
    exact ⟨⟨bytes, by omega⟩, read⟩
  · rintro ⟨⟨bytes, eight⟩, read⟩
    exact ⟨by rw [Hex.length_of_pairs? read, eight], bytes, read⟩

theorem IsHexKey.isSignedKey {key : Str} (hex : IsHexKey key) : IsSignedKey key := by
  have digits := Hex.allPairs_both_iff.mpr ⟨by rw [hex.1], hex.2⟩
  exact ⟨hex.1, digits.imp fun _ _ both => ⟨Or.inl both.1, both.2⟩⟩

/-- A digit is not a plus sign. -/
theorem IsHexKey.unsigned {key : Str} (hex : IsHexKey key) : '+' ∉ key := fun member =>
  absurd (hex.2 _ member) (by decide)

/-- Without plus signs the decoder reads pairs of digits. -/
theorem pairs?_readPair {key : Str} (unsigned : '+' ∉ key) :
    Hex.pairs? readPair key = Hex.decode? key := by
  have even : ∀ {text : Str}, '+' ∉ text → Hex.pairs? readPair text = Hex.decode? text := by
    intro text
    induction text using Hex.pairs?.induct with
    | case1 => exact fun _ => rfl
    | case2 => exact fun _ => rfl
    | case3 first second rest ih =>
        intro unsigned
        simp only [List.mem_cons, not_or] at unsigned
        rw [Hex.pairs?, readPair_of_ne (Ne.symm unsigned.1), ih unsigned.2.2]
        rfl
  exact even unsigned

theorem isSignedKey_iff_isHexKey {key : Str} (unsigned : '+' ∉ key) :
    IsSignedKey key ↔ IsHexKey key := by
  refine ⟨fun signed => ⟨signed.1, ?_⟩, IsHexKey.isSignedKey⟩
  obtain ⟨peer, read⟩ := isSignedKey_iff.mp signed
  rw [pairs?_readPair unsigned] at read
  exact (Hex.decode?_isSome_iff.mp (Option.isSome_iff_exists.mpr ⟨_, read⟩)).2

/-- **Which lists of entries are decoded.** -/
theorem deserialize_isOk_iff {entries : List (Str × UInt64)} :
    (∃ map, deserialize entries = .ok map) ↔ ∀ entry ∈ entries, IsSignedKey entry.1 := by
  simp only [deserialize_eq_ok_iff, StoredAs, isSignedKey_iff]
  constructor
  · rintro ⟨_, stored, same, _⟩ entry member
    obtain ⟨position, found⟩ := List.mem_iff_get.mp member
    obtain ⟨length, related⟩ := List.forall₂_iff_get.mp same
    exact ⟨_, found ▸ (related position.val position.isLt (length ▸ position.isLt)).1⟩
  · intro read
    suffices ∃ stored : List (PeerId × UInt64), List.Forall₂ (fun entry kept =>
        Hex.pairs? readPair entry.1 = some kept.1.val ∧ kept.2 = entry.2) entries stored by
      obtain ⟨stored, same⟩ := this
      exact ⟨_, stored, same, rfl⟩
    induction entries with
    | nil => exact ⟨[], .nil⟩
    | cons entry rest ih =>
        obtain ⟨peer, here⟩ := read entry List.mem_cons_self
        obtain ⟨stored, same⟩ := ih fun later member => read later (List.mem_cons_of_mem _ member)
        exact ⟨(peer, entry.2) :: stored, .cons ⟨here, rfl⟩ same⟩

/-- The decoder takes the encoder's format and nothing else: it does not panic, it accepts
entries with keys of sixteen digits, and it stores them under the bytes of the digits. -/
structure ReadsHexKeys (entries : List (Str × UInt64)) : Prop where
  total : deserialize entries ≠ .panic
  accepts : (∃ map, deserialize entries = .ok map) ↔ ∀ entry ∈ entries, IsHexKey entry.1
  stored : ∀ map, deserialize entries = .ok map → StoredAs Hex.decode? entries map

/-- **When the decoder keeps to the format**: no key has a plus sign in it, or some key is none
that it reads, signs allowed. -/
theorem readsHexKeys_iff {entries : List (Str × UInt64)} :
    ReadsHexKeys entries ↔
      (∀ entry ∈ entries, '+' ∉ entry.1) ∨ ∃ entry ∈ entries, ¬ IsSignedKey entry.1 := by
  constructor
  · intro format
    by_cases signed : ∀ entry ∈ entries, IsSignedKey entry.1
    · left
      have hex := format.accepts.mp (deserialize_isOk_iff.mpr signed)
      exact fun entry member => (hex entry member).unsigned
    · right
      simpa using signed
  · rintro (unsigned | ⟨entry, member, foreign⟩)
    · refine ⟨visitMap_ne_panic _ _, ?_, fun map accepted => ?_⟩
      · rw [deserialize_isOk_iff]
        exact forall₂_congr fun entry member => isSignedKey_iff_isHexKey (unsigned entry member)
      · obtain ⟨stored, same, made⟩ := deserialize_eq_ok_iff.mp accepted
        obtain ⟨length, related⟩ := List.forall₂_iff_get.mp same
        refine ⟨stored, List.forall₂_iff_get.mpr ⟨length, fun index inside within => ?_⟩, made⟩
        obtain ⟨read, value⟩ := related index inside within
        exact ⟨pairs?_readPair (unsigned _ (List.get_mem _ _)) ▸ read, value⟩
    · have refused : ¬ ∃ map, deserialize entries = .ok map := fun accepted =>
        foreign (deserialize_isOk_iff.mp accepted entry member)
      refine ⟨visitMap_ne_panic _ _, iff_of_false refused fun hex => ?_, fun map accepted => ?_⟩
      · exact foreign (hex entry member).isSignedKey
      · exact absurd ⟨map, accepted⟩ refused

/-- The key `+1+1+1+1+1+1+1+1`. -/
def signedKey : Str := (List.replicate 8 ['+', '1']).flatten

/-- The key of eight signed digits is no key of the format, and it is decoded. -/
theorem not_readsHexKeys_signedKey : ¬ ReadsHexKeys [(signedKey, 5)] := by
  intro format
  have accepted : ∃ map, deserialize [(signedKey, 5)] = .ok map := ⟨_, rfl⟩
  have hex : IsHexKey signedKey := format.accepts.mp accepted _ List.mem_cons_self
  exact hex.unsigned (by decide)

/-! ## Round trip -/

theorem isHexKey_peerIdHex (peer : PeerId) : IsHexKey (peerIdHex peer) := by
  have read : Hex.decode? (peerIdHex peer) = some peer.val := Hex.decode?_encode peer.val
  have length : (peerIdHex peer).length = 16 := by
    rw [Hex.length_of_pairs? read, peer.property]
  exact ⟨length, (Hex.decode?_isSome_iff.mp (Option.isSome_iff_exists.mpr ⟨_, read⟩)).2⟩

/-- The decoder reads the digits of a peer. -/
theorem pairs?_peerIdHex (peer : PeerId) :
    Hex.pairs? readPair (peerIdHex peer) = some peer.val := by
  rw [pairs?_readPair (isHexKey_peerIdHex peer).unsigned]
  exact Hex.decode?_encode peer.val

theorem peerIdHex_injective : Function.Injective peerIdHex := fun _ _ same =>
  Subtype.ext (Hex.encode_injective same)

/-- Every map is the decoding of some entries, those that are written for it. -/
theorem storedAs_serialize (map : BTreeMap PeerId UInt64) :
    StoredAs (Hex.pairs? readPair) (serialize map) map := by
  refine ⟨map.entries, ?_, (BTreeMap.foldl_insert_entries map).symm⟩
  rw [serialize, List.forall₂_map_left_iff, List.forall₂_same]
  exact fun entry _ => ⟨pairs?_peerIdHex entry.1, rfl⟩

/-- **What is written is read back**: the keys are distinct, there is one entry for each
counter, and decoding gives the map that was encoded. -/
theorem deserialize_serialize (clock : VectorClock) :
    ((serialize clock.counters).map Prod.fst).Nodup ∧
      (serialize clock.counters).length = clock.counters.entries.length ∧
        (∀ peer count, (peerIdHex peer, count) ∈ serialize clock.counters ↔
          clock.counters.get peer = some count) ∧
            deserialize (serialize clock.counters) = .ok clock.counters := by
  refine ⟨?_, List.length_map .., fun peer count => ?_,
    deserialize_eq_ok_iff.mpr (storedAs_serialize clock.counters)⟩
  · have distinct : clock.counters.keys.Nodup :=
      List.pairwise_map.mpr (clock.counters.sorted.imp ne_of_lt)
    rw [serialize, List.map_map, show Prod.fst ∘ (fun entry : PeerId × UInt64 =>
      (peerIdHex entry.1, entry.2)) = peerIdHex ∘ Prod.fst from rfl, ← List.map_map]
    exact distinct.map peerIdHex_injective
  · rw [BTreeMap.get, ← clock.counters.sorted.mem_iff_lookup, serialize, List.mem_map]
    constructor
    · rintro ⟨⟨other, value⟩, member, same⟩
      obtain ⟨hex, rfl⟩ := Prod.mk.inj same
      exact peerIdHex_injective hex ▸ member
    · exact fun member => ⟨_, member, rfl⟩

end P2Sync
