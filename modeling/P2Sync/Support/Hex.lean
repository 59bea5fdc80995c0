import Mathlib.Data.List.Basic
import Mathlib.Data.UInt

/-!
# Bytes as hexadecimal digits

A byte is written as two digits, the high half first, and a string of bytes as the pairs of
its bytes. What is written is read back (`decode?_encode`), and a string of digits is read
exactly when it can be cut into pairs (`decode?_isSome_iff`).

How a pair is read is a parameter of `pairs?`, since not every reader takes just two digits.
-/

set_option autoImplicit false

namespace P2Sync.Hex

universe u v

/-! ## Digits -/

/-- The value of a hexadecimal digit of either case. -/
def digit? (c : Char) : Option Nat :=
  if '0' ≤ c ∧ c ≤ '9' then some (c.toNat - 48)
  else if 'a' ≤ c ∧ c ≤ 'f' then some (c.toNat - 87)
  else if 'A' ≤ c ∧ c ≤ 'F' then some (c.toNat - 55)
  else none

theorem digit?_digitChar {value : Nat} (small : value < 16) :
    digit? (Nat.digitChar value) = some value := by
  revert value
  decide

/-- A digit stands for less than sixteen, and it is an ASCII character. -/
theorem digit?_bounds {c : Char} {value : Nat} (digit : digit? c = some value) :
    value < 16 ∧ c.toNat < 128 := by
  rw [digit?] at digit
  split at digit
  · rename_i between
    have between : 48 ≤ c.toNat ∧ c.toNat ≤ 57 := between
    obtain rfl := Option.some.inj digit
    omega
  · split at digit
    · rename_i between
      have between : 97 ≤ c.toNat ∧ c.toNat ≤ 102 := between
      obtain rfl := Option.some.inj digit
      omega
    · split at digit
      · rename_i between
        have between : 65 ≤ c.toNat ∧ c.toNat ≤ 70 := between
        obtain rfl := Option.some.inj digit
        omega
      · exact absurd digit (Option.some_ne_none value).symm

/-- The byte of two digits. -/
def byte? (high low : Char) : Option UInt8 :=
  (digit? high).bind fun h => (digit? low).map fun l => UInt8.ofNat (16 * h + l)

theorem byte?_isSome_iff {high low : Char} :
    (byte? high low).isSome = true ↔ (digit? high).isSome = true ∧ (digit? low).isSome = true := by
  rw [byte?]
  cases digit? high <;> cases digit? low <;> simp

/-- A byte as two lower case digits. -/
def pair (byte : UInt8) : List Char :=
  [Nat.digitChar (byte.toNat / 16), Nat.digitChar (byte.toNat % 16)]

theorem byte?_pair (byte : UInt8) :
    byte? (Nat.digitChar (byte.toNat / 16)) (Nat.digitChar (byte.toNat % 16)) = some byte := by
  have small := byte.toNat_lt
  rw [byte?, digit?_digitChar (by omega), digit?_digitChar (by omega), Option.bind_some,
    Option.map_some, Nat.div_add_mod, UInt8.ofNat_toNat]

/-! ## Pairs -/

section Pairs

variable {α : Type u} {β : Type v} (read : α → α → Option β)

/-- Read a list two elements at a time. -/
def pairs? : List α → Option (List β)
  | [] => some []
  | [_] => none
  | first :: second :: rest => (read first second).bind fun value => (pairs? rest).map (value :: ·)

/-- A list can be cut into pairs that are related. -/
def AllPairs (related : α → α → Prop) : List α → Prop
  | [] => True
  | [_] => False
  | first :: second :: rest => related first second ∧ AllPairs related rest

variable {read}

theorem length_of_pairs? : ∀ {list : List α} {values : List β},
    pairs? read list = some values → list.length = 2 * values.length
  | [], values, found => by
      obtain rfl := Option.some.inj found
      rfl
  | [_], values, found => absurd found (Option.some_ne_none values).symm
  | first :: second :: rest, values, found => by
      obtain ⟨value, _, later⟩ := Option.bind_eq_some_iff.mp found
      obtain ⟨values, below, rfl⟩ := Option.map_eq_some_iff.mp later
      rw [List.length_cons, List.length_cons, length_of_pairs? below, List.length_cons]
      omega

/-- **A list is read when all its pairs are.** -/
theorem pairs?_isSome_iff : ∀ {list : List α}, (pairs? read list).isSome = true ↔
    AllPairs (fun first second => (read first second).isSome = true) list
  | [] => ⟨fun _ => trivial, fun _ => rfl⟩
  | [_] => ⟨fun found => absurd found Bool.false_ne_true, False.elim⟩
  | first :: second :: rest => by
      rw [AllPairs, ← pairs?_isSome_iff, pairs?]
      cases read first second <;> simp

theorem AllPairs.imp {weak strong : α → α → Prop}
    (implies : ∀ first second, strong first second → weak first second) : ∀ {list : List α},
    AllPairs strong list → AllPairs weak list
  | [], _ => trivial
  | [_], impossible => impossible
  | first :: second :: _, holds => ⟨implies first second holds.1, holds.2.imp implies⟩

theorem allPairs_both_iff {good : α → Prop} : ∀ {list : List α},
    AllPairs (fun first second => good first ∧ good second) list ↔
      list.length % 2 = 0 ∧ ∀ value ∈ list, good value
  | [] => by simp [AllPairs]
  | [_] => by simp [AllPairs]
  | first :: second :: rest => by
      have ih := @allPairs_both_iff good rest
      have length : (first :: second :: rest).length % 2 = rest.length % 2 := by
        rw [List.length_cons, List.length_cons]
        omega
      rw [AllPairs, ih, length, List.forall_mem_cons, List.forall_mem_cons]
      tauto

end Pairs

/-! ## Bytes -/

/-- The bytes of a string of digits. -/
def decode? (text : List Char) : Option (List UInt8) := pairs? byte? text

/-- The digits of a string of bytes. -/
def encode (bytes : List UInt8) : List Char := bytes.flatMap pair

theorem encode_cons (byte : UInt8) (rest : List UInt8) :
    encode (byte :: rest) =
      Nat.digitChar (byte.toNat / 16) :: Nat.digitChar (byte.toNat % 16) :: encode rest := rfl

/-- **What is written is read back.** -/
theorem decode?_encode (bytes : List UInt8) : decode? (encode bytes) = some bytes := by
  rw [decode?]
  induction bytes with
  | nil => rfl
  | cons byte rest ih =>
      rw [encode_cons, pairs?, byte?_pair, Option.bind_some, ih, Option.map_some]

theorem encode_injective : Function.Injective encode := by
  intro first second same
  have read := decode?_encode first
  rw [same, decode?_encode] at read
  exact (Option.some.inj read).symm

theorem length_encode (bytes : List UInt8) : (encode bytes).length = 2 * bytes.length :=
  length_of_pairs? (decode?_encode bytes)

/-- The digits of the first bytes are the first digits. -/
theorem take_encode (bytes : List UInt8) (count : Nat) :
    (encode bytes).take (2 * count) = encode (bytes.take count) := by
  induction bytes generalizing count with
  | nil => simp [encode]
  | cons byte rest ih =>
      cases count with
      | zero => rfl
      | succ count =>
          rw [encode_cons, Nat.mul_succ, List.take_succ_cons, List.take_succ_cons, ih,
            List.take_succ_cons, encode_cons]

/-- **The strings that are read**: digits, and an even number of them. -/
theorem decode?_isSome_iff {text : List Char} :
    (decode? text).isSome = true ↔
      text.length % 2 = 0 ∧ ∀ c ∈ text, (digit? c).isSome = true := by
  rw [decode?, pairs?_isSome_iff, ← allPairs_both_iff]
  simp only [byte?_isSome_iff]

end P2Sync.Hex
