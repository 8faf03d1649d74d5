/-
  File:      TensorAlloc/Base/Ones.lean
  Subject:   The positions of the ones of a number. Library: no request, no digit of any
             particular program.

  * `bitIndices_split` -- a number cut at bit `s`: the ones of the low part, then those of the high
    part, `s` further up;
  * `bitIndices_top` -- the case of a high part of one bit: taking the highest one away;
  * `length_bitIndices_le` -- a number of `w` bits has at most `w` ones.
-/
import Mathlib.Data.Nat.BitIndices
import Mathlib.Data.List.Range
import Mathlib.Data.List.Perm.Subperm
import Mathlib.Tactic.Ring

namespace Ones

/-- A number below `2 ^ w` has its ones below position `w`. -/
theorem lt_of_mem_bitIndices {n w i : Nat} (h : n < 2 ^ w) (hi : i ∈ n.bitIndices) : i < w :=
  (Nat.pow_lt_pow_iff_right (by decide)).mp
    (Nat.lt_of_le_of_lt (Nat.two_pow_le_of_mem_bitIndices hi) h)

/-- **The ones of a number cut at bit `s`.** -/
theorem bitIndices_split {s lo : Nat} (hi : Nat) (h : lo < 2 ^ s) :
    (hi * 2 ^ s + lo).bitIndices = lo.bitIndices ++ hi.bitIndices.map (· + s) := by
  have hsorted : (lo.bitIndices ++ hi.bitIndices.map (· + s)).SortedLT := by
    rw [List.sortedLT_iff_pairwise, List.pairwise_append]
    refine ⟨Nat.bitIndices_sorted.pairwise, ?_, fun a ha b hb => ?_⟩
    · rw [List.pairwise_map]
      exact Nat.bitIndices_sorted.pairwise.imp fun hab => by omega
    · obtain ⟨c, -, rfl⟩ := List.mem_map.mp hb
      have := lt_of_mem_bitIndices h ha
      omega
  have hsum : ((lo.bitIndices ++ hi.bitIndices.map (· + s)).map fun i => 2 ^ i).sum =
      hi * 2 ^ s + lo := by
    have hshift : ((fun i => 2 ^ i) ∘ (· + s) : Nat → Nat) = fun i => 2 ^ i * 2 ^ s := by
      funext i
      exact Nat.pow_add 2 i s
    rw [List.map_append, List.sum_append, Nat.sum_map_two_pow_bitIndices, List.map_map, hshift,
      List.sum_map_mul_right, Nat.sum_map_two_pow_bitIndices, Nat.add_comm]
  rw [← hsum]
  exact Nat.bitIndices_sum_map_two_pow hsorted

/-- **Taking the highest one away.** -/
theorem bitIndices_top {n : Nat} (h : n ≠ 0) :
    n.bitIndices = (n - 2 ^ n.log2).bitIndices ++ [n.log2] := by
  have hle := Nat.log2_self_le h
  have hlt : n < 2 ^ (n.log2 + 1) := Nat.lt_log2_self
  have hlow : n - 2 ^ n.log2 < 2 ^ n.log2 := by
    rw [Nat.pow_succ] at hlt
    omega
  have hsplit := bitIndices_split 1 hlow
  rw [Nat.one_mul, Nat.add_sub_cancel' hle, Nat.bitIndices_one] at hsplit
  rw [hsplit]
  simp

theorem length_bitIndices_le {n w : Nat} (h : n < 2 ^ w) : n.bitIndices.length ≤ w := by
  have hsub : n.bitIndices ⊆ List.range w :=
    fun i hi => List.mem_range.mpr (lt_of_mem_bitIndices h hi)
  have := (List.subperm_of_subset Nat.bitIndices_nodup hsub).length_le
  rwa [List.length_range] at this

end Ones
