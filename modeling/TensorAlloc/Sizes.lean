/-
  File:      TensorAlloc/Sizes.lean
  Subject:   Bytes, items and orders: `size_to_item`, `size_to_order` and `item_to_order`.

  * `itemToOrder_eq`, `sizeToOrder_eq`, `sizeToItem_eq` -- each as the rounding it is: the first one
    saturates at 63;
  * **`size_conversions_agree`** -- the three agree, on all of the 64 bits.
-/
import Mathlib.Algebra.Order.Floor.Div
import TensorAlloc.Base.CeilLog
import TensorAlloc.Ops

namespace TensorAlloc

open CeilLog

/-- `size_to_order`. -/
def sizeToOrder (size : Nat) : Nat := fls ((size - 1) / 2 ^ fixedItemSizeShift)

/-- `size_to_item`: the bits shifted out are what is left of them at the top of the word. -/
def sizeToItem (size : Nat) : Nat :=
  let x := size / 2 ^ fixedItemSizeShift
  let y := size * 2 ^ (bitsPerLong - fixedItemSizeShift) % 2 ^ bitsPerLong
  if y ≠ 0 then x + 1 else x

section Roundings

variable {n size : Nat}

/-- `item_to_order` is the least order that holds the count, 63 where that does not fit a shift. -/
theorem itemToOrder_eq (h0 : n ≠ 0) (h : n < 2 ^ 64) :
    itemToOrder n = (min (Nat.clog 2 n) 63, 0) := by
  have hlog : n.log2 < 64 := (Nat.log2_lt h0).mpr h
  have hfls : fls n = n.log2 + 1 := if_neg h0
  unfold itemToOrder
  simp only [hfls, if_neg h0, Nat.add_sub_cancel]
  by_cases he : n = 2 ^ n.log2
  · rw [if_neg (show ¬ 2 ^ n.log2 < n from he.symm.not_lt), ite_self, clog_of_eq he,
      Nat.min_eq_left (Nat.le_of_lt_succ hlog)]
  · have hlt : 2 ^ n.log2 < n := lt_of_le_of_ne (Nat.log2_self_le h0) (Ne.symm he)
    rw [clog_of_ne h0 he, if_pos hlt]
    split
    · next hmax =>
        have h63 : n.log2 = 63 := Nat.succ.inj hmax
        rw [h63]
        rfl
    · next hmax => rw [Nat.min_eq_left (by omega)]

/-- The orders below 64: none is saturated up to `2 ^ 63`. -/
theorem itemToOrder_of_le (h0 : n ≠ 0) (h : n ≤ 2 ^ 63) : itemToOrder n = (Nat.clog 2 n, 0) := by
  rw [itemToOrder_eq h0 (Nat.lt_of_le_of_lt h (by decide)),
    Nat.min_eq_left (Nat.clog_le_of_le_pow h)]

/-- A shift of the bytes left by all but the page's bits keeps the page offset. -/
theorem shifted_out (size : Nat) :
    size * 2 ^ (bitsPerLong - fixedItemSizeShift) % 2 ^ bitsPerLong =
      size % fixedItemSize * 2 ^ (bitsPerLong - fixedItemSizeShift) :=
  Nat.mul_mod_mul_right _ _ fixedItemSize

/-- `size_to_item` rounds up. -/
theorem sizeToItem_eq (size : Nat) : sizeToItem size = size ⌈/⌉ fixedItemSize := by
  have hpage : 2 ^ fixedItemSizeShift = 4096 := rfl
  have hpos := Nat.two_pow_pos (bitsPerLong - fixedItemSizeShift)
  unfold sizeToItem
  simp only [shifted_out, Nat.ceilDiv_eq_add_pred_div, fixedItemSize_eq, hpage, ne_eq,
    Nat.mul_eq_zero, hpos.ne', or_false]
  by_cases h : size % 4096 = 0
  · rw [if_neg (not_not.mpr h)]
    omega
  · rw [if_pos h]
    omega

/-- The items of a size that is not zero, less one. -/
theorem sizeToItem_pred (h : 1 ≤ size) :
    sizeToItem size = (size - 1) / 2 ^ fixedItemSizeShift + 1 := by
  rw [sizeToItem_eq, Nat.ceilDiv_eq_add_pred_div, fixedItemSize_eq, fixedItemSizeShift]
  omega

/-- **`size_to_order` is the least order that holds the items of the size.** -/
theorem sizeToOrder_eq (h : 1 ≤ size) : sizeToOrder size = Nat.clog 2 (sizeToItem size) := by
  rw [sizeToItem_pred h]
  unfold sizeToOrder fls
  split
  · next h0 => rw [h0, Nat.zero_add, Nat.clog_one_right]
  · next h0 => rw [clog_succ h0]

end Roundings

/-- **Bytes, items and orders agree.** The items are the bytes rounded up to pages; `size_to_order` and
    `item_to_order` give the least power of two that holds them, the latter taking all of them as
    served; of any other count `item_to_order` is the least order up to `2 ^ 63`, and 63 above. -/
theorem size_conversions_agree :
    (∀ size, 1 ≤ size → size < 2 ^ 64 →
      sizeToItem size = size ⌈/⌉ fixedItemSize ∧
      IsLeast {p | (∃ o, p = 2 ^ o) ∧ sizeToItem size ≤ p} (2 ^ sizeToOrder size) ∧
      itemToOrder (sizeToItem size) = (sizeToOrder size, 0)) ∧
    ∀ n, 1 ≤ n → n < 2 ^ 64 →
      (n ≤ 2 ^ 63 → IsLeast {o | n ≤ 2 ^ o} (itemToOrder n).1) ∧
      (2 ^ 63 < n → (itemToOrder n).1 = 63) := by
  constructor
  · intro size h1 h64
    have hitems : sizeToItem size ≠ 0 := by
      rw [sizeToItem_pred h1]
      exact Nat.succ_ne_zero _
    have hle : sizeToItem size ≤ 2 ^ 63 := by
      rw [sizeToItem_pred h1, fixedItemSizeShift]
      omega
    refine ⟨sizeToItem_eq size, ?_, ?_⟩
    · rw [sizeToOrder_eq h1]
      exact isLeast_two_pow_clog _
    · rw [itemToOrder_of_le hitems hle, sizeToOrder_eq h1]
  · intro n h1 h64
    have h0 : n ≠ 0 := Nat.one_le_iff_ne_zero.mp h1
    constructor
    · intro hle
      rw [itemToOrder_of_le h0 hle]
      exact isLeast_clog n
    · intro hlt
      have h63 : 63 < Nat.clog 2 n := (Nat.lt_clog_iff_pow_lt (by decide)).mpr hlt
      rw [itemToOrder_eq h0 h64, Nat.min_eq_right h63.le]

/-- A page and a byte is two items; one item more than `2 ^ 63` is taken as `2 ^ 63` of them. -/
theorem size_conversions_page_and_byte :
    itemToOrder (sizeToItem 4097) = (sizeToOrder 4097, 0) ∧ (itemToOrder (2 ^ 63 + 1)).1 = 63 :=
  ⟨(size_conversions_agree.1 4097 (by decide) (by decide)).2.2,
    (size_conversions_agree.2 (2 ^ 63 + 1) (by decide) (by decide)).2 (by decide)⟩

end TensorAlloc
