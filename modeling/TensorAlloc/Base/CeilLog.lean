/-
  File:      TensorAlloc/Base/CeilLog.lean
  Subject:   The least power of two that holds a count, from the position of its highest one. Library:
             no count of any particular program.

  * `clog_of_eq`, `clog_of_ne` -- the exponent from the top bit of the count itself;
  * `clog_succ` -- the exponent from the top bit of the count less one;
  * `isLeast_clog`, `isLeast_two_pow_clog` -- Mathlib's `Nat.clog` as a least element.
-/
import Mathlib.Algebra.Order.Ring.Nat
import Mathlib.Data.Nat.Log
import Mathlib.Order.Bounds.Basic

namespace CeilLog

variable {n : Nat}

/-- The exponent is the least that holds the count. -/
theorem isLeast_clog (n : Nat) : IsLeast {o | n ≤ 2 ^ o} (Nat.clog 2 n) :=
  ⟨Nat.le_pow_clog (by decide) n, fun _ ho => Nat.clog_le_of_le_pow ho⟩

/-- **Its power is the least power of two that holds the count.** -/
theorem isLeast_two_pow_clog (n : Nat) :
    IsLeast {p | (∃ o, p = 2 ^ o) ∧ n ≤ p} (2 ^ Nat.clog 2 n) := by
  obtain ⟨hmem, hleast⟩ := isLeast_clog n
  refine ⟨⟨⟨_, rfl⟩, hmem⟩, fun p hp => ?_⟩
  obtain ⟨⟨o, rfl⟩, ho⟩ := hp
  exact Nat.pow_le_pow_right (by decide) (hleast ho)

/-- A power of two is its own. -/
theorem clog_of_eq (h : n = 2 ^ n.log2) : Nat.clog 2 n = n.log2 := by
  conv_lhs => rw [h]
  exact Nat.clog_pow 2 _ (by decide)

/-- Any other count lies strictly between two powers of two. -/
theorem clog_of_ne (h0 : n ≠ 0) (h : n ≠ 2 ^ n.log2) : Nat.clog 2 n = n.log2 + 1 := by
  have hlt : 2 ^ n.log2 < n := lt_of_le_of_ne (Nat.log2_self_le h0) (Ne.symm h)
  refine Nat.le_antisymm (Nat.clog_le_of_le_pow Nat.lt_log2_self.le) ?_
  exact (Nat.lt_clog_iff_pow_lt (by decide)).mpr hlt

/-- **The top bit of the count less one**: no comparison is needed then. -/
theorem clog_succ (h0 : n ≠ 0) : Nat.clog 2 (n + 1) = n.log2 + 1 := by
  refine Nat.le_antisymm (Nat.clog_le_of_le_pow Nat.lt_log2_self) ?_
  exact (Nat.lt_clog_iff_pow_lt (by decide)).mpr (Nat.lt_succ_of_le (Nat.log2_self_le h0))

end CeilLog
