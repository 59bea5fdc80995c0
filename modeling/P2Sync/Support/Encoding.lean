import Mathlib.Algebra.BigOperators.Group.List.Basic
import Mathlib.Data.List.Range
import Mathlib.Data.UInt
import Mathlib.Data.Nat.Digits.Defs

/-!
# Values and how many bytes they take

A message is made of numbers, texts, sequences and maps before it is encoded. CBOR writes a
number as a head of one to nine bytes, and before a text, a sequence or a map a head with
its length. JSON writes decimal digits, quotes and escapes its texts, and puts commas and
brackets around what it lists.

`cborSize` and `jsonSize` say how many bytes a value takes, without encoding it. They are
exact for `cbor` and `json`, which encode it (`length_cbor`, `length_json`). The rest is
what sizes are computed with: a sequence takes the sum of what its items take, a byte
string written as a sequence of numbers takes two bytes for each byte from 24 on
(`cborSize_ofBytes`), and the heads of the numbers below a bound add up to a closed form
(`sum_headSize_range`).
-/

set_option autoImplicit false

namespace P2Sync.Encoding

/-- What an encoder is given. -/
inductive Value where
  | null
  | number (value : Nat)
  | text (content : List Char)
  | seq (items : List Value)
  | map (fields : List (List Char × Value))

/-- The UTF-8 bytes of a text. -/
def utf8 (content : List Char) : List UInt8 := content.flatMap String.utf8EncodeChar

/-! ## CBOR -/

/-- How many bytes the head of a number takes. -/
def headSize (value : Nat) : Nat :=
  if value < 24 then 1
  else if value < 256 then 2
  else if value < 65536 then 3
  else if value < 4294967296 then 5
  else 9

/-- How many bytes a text takes, with its head. -/
def cborTextSize (content : List Char) : Nat :=
  headSize (utf8 content).length + (utf8 content).length

mutual
/-- How many bytes a value takes. -/
def cborSize : Value → Nat
  | .null => 1
  | .number value => headSize value
  | .text content => cborTextSize content
  | .seq items => headSize items.length + cborItemsSize items
  | .map fields => headSize fields.length + cborFieldsSize fields

def cborItemsSize : List Value → Nat
  | [] => 0
  | item :: rest => cborSize item + cborItemsSize rest

def cborFieldsSize : List (List Char × Value) → Nat
  | [] => 0
  | (key, item) :: rest => cborTextSize key + cborSize item + cborFieldsSize rest
end

/-- A number in a fixed width, most significant byte first. -/
def bigEndian (width value : Nat) : List UInt8 :=
  (List.range width).map fun place => UInt8.ofNat (value / 256 ^ (width - 1 - place))

/-- The head of a number, under the major type of what it counts. -/
def head (major value : Nat) : List UInt8 :=
  if value < 24 then [UInt8.ofNat (32 * major + value)]
  else if value < 256 then UInt8.ofNat (32 * major + 24) :: bigEndian 1 value
  else if value < 65536 then UInt8.ofNat (32 * major + 25) :: bigEndian 2 value
  else if value < 4294967296 then UInt8.ofNat (32 * major + 26) :: bigEndian 4 value
  else UInt8.ofNat (32 * major + 27) :: bigEndian 8 value

def cborText (content : List Char) : List UInt8 :=
  head 3 (utf8 content).length ++ utf8 content

mutual
/-- A value in CBOR. -/
def cbor : Value → List UInt8
  | .null => [0xF6]
  | .number value => head 0 value
  | .text content => cborText content
  | .seq items => head 4 items.length ++ cborItems items
  | .map fields => head 5 fields.length ++ cborFields fields

def cborItems : List Value → List UInt8
  | [] => []
  | item :: rest => cbor item ++ cborItems rest

def cborFields : List (List Char × Value) → List UInt8
  | [] => []
  | (key, item) :: rest => cborText key ++ cbor item ++ cborFields rest
end

@[simp] theorem length_head (major value : Nat) : (head major value).length = headSize value := by
  rw [head, headSize]
  split_ifs <;> simp [bigEndian]

@[simp] theorem length_cborText (content : List Char) :
    (cborText content).length = cborTextSize content := by
  simp [cborText, cborTextSize]

mutual
/-- The size of a value is the number of bytes it is encoded in. -/
theorem length_cbor : ∀ value : Value, (cbor value).length = cborSize value
  | .null => rfl
  | .number value => by simp [cbor, cborSize]
  | .text content => by simp [cbor, cborSize]
  | .seq items => by simp [cbor, cborSize, length_cborItems items]
  | .map fields => by simp [cbor, cborSize, length_cborFields fields]

theorem length_cborItems : ∀ items : List Value,
    (cborItems items).length = cborItemsSize items
  | [] => rfl
  | item :: rest => by
      simp [cborItems, cborItemsSize, length_cbor item, length_cborItems rest]

theorem length_cborFields : ∀ fields : List (List Char × Value),
    (cborFields fields).length = cborFieldsSize fields
  | [] => rfl
  | (key, item) :: rest => by
      simp [cborFields, cborFieldsSize, length_cbor item, length_cborFields rest, Nat.add_assoc]
end

/-- A sequence takes a head and what its items take. -/
theorem cborSize_seq_map {α : Type} (encode : α → Value) (items : List α) :
    cborSize (.seq (items.map encode)) =
      headSize items.length + (items.map fun item => cborSize (encode item)).sum := by
  rw [cborSize, List.length_map]
  congr 1
  induction items with
  | nil => rfl
  | cons item rest ih => rw [List.map_cons, cborItemsSize, ih, List.map_cons, List.sum_cons]

/-! ## JSON -/

/-- How many decimal digits a number has. -/
def digits (value : Nat) : Nat := (Nat.toDigits 10 value).length

/-- The letter after the backslash that escapes a character, for those that have one. -/
def escapeLetter (code : Nat) : Option UInt8 :=
  match code with
  | 0x22 => some 0x22
  | 0x5C => some 0x5C
  | 0x08 => some 0x62
  | 0x09 => some 0x74
  | 0x0A => some 0x6E
  | 0x0C => some 0x66
  | 0x0D => some 0x72
  | _ => none

/-- How many bytes a character of a text takes. -/
def escapedSize (c : Char) : Nat :=
  if (escapeLetter c.toNat).isSome then 2 else if c.toNat < 0x20 then 6 else c.utf8Size

/-- How many bytes a text takes, with its quotes. -/
def jsonTextSize (content : List Char) : Nat := 2 + (content.map escapedSize).sum

mutual
/-- How many bytes a value takes. What is listed has a comma after each item but the last. -/
def jsonSize : Value → Nat
  | .null => 4
  | .number value => digits value
  | .text content => jsonTextSize content
  | .seq items => 2 + (jsonItemsSize items - 1)
  | .map fields => 2 + (jsonFieldsSize fields - 1)

def jsonItemsSize : List Value → Nat
  | [] => 0
  | item :: rest => jsonSize item + 1 + jsonItemsSize rest

def jsonFieldsSize : List (List Char × Value) → Nat
  | [] => 0
  | (key, item) :: rest => jsonTextSize key + 1 + jsonSize item + 1 + jsonFieldsSize rest
end

/-- An ASCII character as its byte. -/
def ascii (c : Char) : UInt8 := UInt8.ofNat c.toNat

/-- A character of a text, escaped where it has to be. -/
def escape (c : Char) : List UInt8 :=
  match escapeLetter c.toNat with
  | some letter => [0x5C, letter]
  | none =>
      if c.toNat < 0x20 then
        [0x5C, 0x75, 0x30, 0x30, ascii (Nat.digitChar (c.toNat / 16)),
          ascii (Nat.digitChar (c.toNat % 16))]
      else String.utf8EncodeChar c

def jsonText (content : List Char) : List UInt8 := 0x22 :: content.flatMap escape ++ [0x22]

mutual
/-- A value in JSON. What is listed comes with a comma before each item, of which the first
is taken off. -/
def json : Value → List UInt8
  | .null => [0x6E, 0x75, 0x6C, 0x6C]
  | .number value => (Nat.toDigits 10 value).map ascii
  | .text content => jsonText content
  | .seq items => 0x5B :: (jsonItems items).tail ++ [0x5D]
  | .map fields => 0x7B :: (jsonFields fields).tail ++ [0x7D]

def jsonItems : List Value → List UInt8
  | [] => []
  | item :: rest => 0x2C :: json item ++ jsonItems rest

def jsonFields : List (List Char × Value) → List UInt8
  | [] => []
  | (key, item) :: rest => 0x2C :: jsonText key ++ 0x3A :: json item ++ jsonFields rest
end

@[simp] theorem length_escape (c : Char) : (escape c).length = escapedSize c := by
  rw [escape, escapedSize]
  cases escapeLetter c.toNat with
  | some letter => rfl
  | none =>
      by_cases control : c.toNat < 0x20
      · rw [if_pos control, Option.isSome_none, if_neg Bool.false_ne_true, if_pos control]
        rfl
      · rw [if_neg control, Option.isSome_none, if_neg Bool.false_ne_true, if_neg control,
          String.length_utf8EncodeChar]

@[simp] theorem length_jsonText (content : List Char) :
    (jsonText content).length = jsonTextSize content := by
  have escaped : (content.flatMap escape).length = (content.map escapedSize).sum := by
    rw [List.length_flatMap]
    exact congrArg List.sum (List.map_congr_left fun c _ => length_escape c)
  simp only [jsonText, jsonTextSize, List.length_append, List.length_cons, List.length_nil, escaped]
  omega

mutual
/-- The size of a value is the number of bytes it is encoded in. -/
theorem length_json : ∀ value : Value, (json value).length = jsonSize value
  | .null => rfl
  | .number value => by simp [json, jsonSize, digits]
  | .text content => by simp [json, jsonSize]
  | .seq items => by
      have listed := length_jsonItems items
      simp only [json, jsonSize, List.length_append, List.length_cons, List.length_tail,
        List.length_nil, listed]
      omega
  | .map fields => by
      have listed := length_jsonFields fields
      simp only [json, jsonSize, List.length_append, List.length_cons, List.length_tail,
        List.length_nil, listed]
      omega

theorem length_jsonItems : ∀ items : List Value, (jsonItems items).length = jsonItemsSize items
  | [] => rfl
  | item :: rest => by
      simp [jsonItems, jsonItemsSize, length_json item, length_jsonItems rest, Nat.add_right_comm]

theorem length_jsonFields : ∀ fields : List (List Char × Value),
    (jsonFields fields).length = jsonFieldsSize fields
  | [] => rfl
  | (key, item) :: rest => by
      simp only [jsonFields, jsonFieldsSize, List.length_append, List.length_cons,
        length_jsonText, length_json item, length_jsonFields rest]
      omega
end

/-- A sequence takes its brackets, what its items take, and the commas between them. -/
theorem jsonSize_seq_map {α : Type} (encode : α → Value) (items : List α) :
    jsonSize (.seq (items.map encode)) =
      2 + ((items.map fun item => jsonSize (encode item) + 1).sum - 1) := by
  rw [jsonSize]
  congr 2
  induction items with
  | nil => rfl
  | cons item rest ih => rw [List.map_cons, jsonItemsSize, ih, List.map_cons, List.sum_cons]

/-- A map takes its braces, what its keys and items take, and the marks between them. -/
theorem jsonSize_map_map {α : Type} (key : α → List Char) (encode : α → Value) (items : List α) :
    jsonSize (.map (items.map fun item => (key item, encode item))) =
      2 + ((items.map fun item => jsonTextSize (key item) + 1 + jsonSize (encode item) + 1).sum -
        1) := by
  rw [jsonSize]
  congr 2
  induction items with
  | nil => rfl
  | cons item rest ih => rw [List.map_cons, jsonFieldsSize, ih, List.map_cons, List.sum_cons]

theorem digits_pos (value : Nat) : 0 < digits value := Nat.length_toDigits_pos

/-! ## Byte strings -/

/-- A byte string as a sequence of numbers. -/
def Value.ofBytes (bytes : List UInt8) : Value :=
  .seq (bytes.map fun byte => .number byte.toNat)

/-- The bytes of a string that do not fit in a head of one byte. -/
def wide (bytes : List UInt8) : Nat := bytes.countP fun byte => 24 ≤ byte.toNat

theorem headSize_byte (byte : UInt8) :
    headSize byte.toNat = 1 + if 24 ≤ byte.toNat then 1 else 0 := by
  have small := byte.toNat_lt
  rw [headSize]
  split_ifs <;> omega

/-- A byte string takes a head, and a byte or two for each of its bytes. -/
theorem cborSize_ofBytes (bytes : List UInt8) :
    cborSize (.ofBytes bytes) = headSize bytes.length + (bytes.length + wide bytes) := by
  rw [Value.ofBytes, cborSize_seq_map]
  congr 1
  induction bytes with
  | nil => rfl
  | cons byte rest ih =>
      rw [List.map_cons, List.sum_cons, ih, cborSize, headSize_byte, List.length_cons, wide, wide,
        List.countP_cons]
      simp only [decide_eq_true_eq]
      omega

/-- How many bytes the numbers of a byte string take in JSON, with brackets and commas. -/
def jsonBytesSize (bytes : List UInt8) : Nat :=
  2 + ((bytes.map fun byte => digits byte.toNat + 1).sum - 1)

theorem jsonSize_ofBytes (bytes : List UInt8) :
    jsonSize (.ofBytes bytes) = jsonBytesSize bytes := by
  rw [Value.ofBytes, jsonSize_seq_map, jsonBytesSize]
  simp only [jsonSize]

theorem le_jsonBytesSize (bytes : List UInt8) : 2 * bytes.length + 1 ≤ jsonBytesSize bytes := by
  have listed : 2 * bytes.length ≤ (bytes.map fun byte => digits byte.toNat + 1).sum := by
    induction bytes with
    | nil => exact Nat.zero_le _
    | cons byte rest ih =>
        have := digits_pos byte.toNat
        rw [List.length_cons, List.map_cons, List.sum_cons]
        omega
  rw [jsonBytesSize]
  omega

/-! ## Sums of heads -/

/-- What the heads of the numbers below a bound take together. -/
def headsBelow (bound : Nat) : Nat :=
  bound + (bound - 24) + (bound - 256) + 2 * (bound - 65536) + 4 * (bound - 4294967296)

theorem sum_headSize_range (bound : Nat) :
    ((List.range bound).map headSize).sum = headsBelow bound := by
  induction bound with
  | zero => rfl
  | succ bound ih =>
      have next : headsBelow bound + headSize bound = headsBelow (bound + 1) := by
        unfold headsBelow headSize
        split_ifs <;> omega
      rw [List.range_succ, List.map_append, List.sum_append, ih, List.map_singleton,
        List.sum_singleton, next]

end P2Sync.Encoding
