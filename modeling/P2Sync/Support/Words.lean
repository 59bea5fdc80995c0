import Mathlib.Algebra.Group.Nat.Defs
import Mathlib.Order.Lattice
import Mathlib.Order.BoundedOrder.Basic

/-!
# Machine words as linear orders

The order of `UInt8` and `UInt64` is the order of the naturals they stand for. The
instances below let the order library be used on bytes, on byte strings and on 64-bit
counters.
-/

set_option autoImplicit false

namespace P2Sync

instance linearOrderUInt8 : LinearOrder UInt8 where
  le_refl := UInt8.le_refl
  le_trans _ _ _ := UInt8.le_trans
  le_antisymm _ _ := UInt8.le_antisymm
  le_total := UInt8.le_total
  lt_iff_le_not_ge first second := by
    rw [UInt8.not_le]
    exact ⟨fun less => ⟨UInt8.le_of_lt less, less⟩, And.right⟩
  toDecidableLE := inferInstance
  toDecidableEq := inferInstance
  toDecidableLT := inferInstance

instance linearOrderUInt64 : LinearOrder UInt64 where
  le_refl := UInt64.le_refl
  le_trans _ _ _ := UInt64.le_trans
  le_antisymm _ _ := UInt64.le_antisymm
  le_total := UInt64.le_total
  lt_iff_le_not_ge first second := by
    rw [UInt64.not_le]
    exact ⟨fun less => ⟨UInt64.le_of_lt less, less⟩, And.right⟩
  toDecidableLE := inferInstance
  toDecidableEq := inferInstance
  toDecidableLT := inferInstance

instance orderBotUInt64 : OrderBot UInt64 where
  bot := 0
  bot_le _ := UInt64.le_iff_toNat_le.mpr (Nat.zero_le _)

/-- Adding one is strictly increasing below the largest word. -/
theorem u64_lt_succ {value : UInt64} (below : value.toNat + 1 < 2 ^ 64) :
    value < value + 1 := by
  rw [UInt64.lt_iff_toNat_lt, UInt64.toNat_add]
  have one : (1 : UInt64).toNat = 1 := rfl
  rw [one, Nat.mod_eq_of_lt below]
  exact Nat.lt_succ_self _

end P2Sync
