/-
  File:      TensorAlloc/Base/BitField.lean
  Subject:   Fields of `count` bits at bit `base` of a 64-bit word. Library: no flags word of any
             particular program.

  * `mask`, `get`, `set` -- read and write one field;
  * `get_set_same`, `get_set_other` -- a field reads back what was last written to it, cut to its
    width, and a write to a field that shares no bit leaves it alone;
  * `or_shiftLeft` -- bits put above all that are set are added.
-/
import Mathlib.Data.BitVec

namespace BitField

/-- `count` ones. -/
def mask (count : Nat) : BitVec 64 := (1#64 <<< count) - 1#64

/-- The field of `count` bits at `base`. -/
def get (w : BitVec 64) (base count : Nat) : BitVec 64 := (w &&& (mask count <<< base)) >>> base

/-- The word with the field of `count` bits at `base` replaced by the low bits of `v`. -/
def set (w : BitVec 64) (base count : Nat) (v : BitVec 64) : BitVec 64 :=
  (w &&& ~~~(w &&& (mask count <<< base))) ||| ((v &&& mask count) <<< base)

theorem toNat_mask {count : Nat} (h : count < 64) : (mask count).toNat = 2 ^ count - 1 := by
  have hp := Nat.two_pow_pos count
  have hlt : 2 ^ count < 2 ^ 64 := Nat.pow_lt_pow_right (by decide) h
  have e : (1#64 <<< count).toNat = 2 ^ count := by
    rw [BitVec.toNat_shiftLeft, Nat.shiftLeft_eq]
    simp only [BitVec.toNat_ofNat, Nat.one_mod_two_pow, Nat.reduceLT, Nat.one_mul]
    exact (Nat.mod_eq_of_lt (by simpa using hlt))
  unfold mask
  rw [BitVec.toNat_sub_of_le (by rw [BitVec.le_def, e]; exact hp), e]
  rfl

theorem getLsbD_mask {count : Nat} (h : count < 64) (i : Nat) :
    (mask count).getLsbD i = decide (i < count) := by
  rw [BitVec.getLsbD, toNat_mask h, Nat.testBit_two_pow_sub_one]

theorem getLsbD_get {w : BitVec 64} {base count : Nat} (h : base + count ≤ 64) (hc : count < 64)
    (i : Nat) : (get w base count).getLsbD i = (decide (i < count) && w.getLsbD (base + i)) := by
  unfold get
  rw [BitVec.getLsbD_ushiftRight, BitVec.getLsbD_and, BitVec.getLsbD_shiftLeft, getLsbD_mask hc]
  by_cases hi : i < count
  · have h1 : base + i < 64 := by omega
    simp [hi, h1, Bool.and_comm]
  · simp [hi]

theorem getLsbD_set {w v : BitVec 64} {base count : Nat} (hc : count < 64) {i : Nat} (hi : i < 64) :
    (set w base count v).getLsbD i =
      if base ≤ i ∧ i < base + count then v.getLsbD (i - base) else w.getLsbD i := by
  unfold set
  simp only [BitVec.getLsbD_or, BitVec.getLsbD_and, BitVec.getLsbD_not, BitVec.getLsbD_shiftLeft,
    getLsbD_mask hc, hi, decide_true, Bool.true_and]
  by_cases hb : i < base
  · have : ¬ (base ≤ i ∧ i < base + count) := by omega
    simp [hb, this]
  · by_cases he : i < base + count
    · have h1 : base ≤ i ∧ i < base + count := by omega
      have h2 : i - base < count := by omega
      simp [hb, h1, h2]
    · have h1 : ¬ (base ≤ i ∧ i < base + count) := by omega
      have h2 : ¬ i - base < count := by omega
      simp [hb, h1, h2]

/-- **A field reads back what was written to it, cut to its width.** -/
theorem get_set_same {w v : BitVec 64} {base count : Nat} (h : base + count ≤ 64)
    (hc : count < 64) :
    get (set w base count v) base count = v &&& mask count := by
  apply BitVec.eq_of_getLsbD_eq
  intro i hi
  rw [getLsbD_get h hc, BitVec.getLsbD_and, getLsbD_mask hc]
  by_cases hic : i < count
  · rw [getLsbD_set hc (by omega), if_pos (by omega)]
    simp [hic]
  · simp [hic]

/-- **A write to a field that shares no bit leaves the field alone.** -/
theorem get_set_other {w v : BitVec 64} {base count base' count' : Nat} (h : base + count ≤ 64)
    (hc : count < 64) (hc' : count' < 64)
    (hd : base + count ≤ base' ∨ base' + count' ≤ base) :
    get (set w base' count' v) base count = get w base count := by
  apply BitVec.eq_of_getLsbD_eq
  intro i hi
  rw [getLsbD_get h hc, getLsbD_get h hc]
  by_cases hic : i < count
  · rw [getLsbD_set hc' (by omega), if_neg (by omega)]
  · simp [hic]

/-- A field is below the power of two of its width. -/
theorem toNat_get_lt {w : BitVec 64} {base count : Nat} (h : base + count ≤ 64) (hc : count < 64) :
    (get w base count).toNat < 2 ^ count := by
  refine Nat.lt_pow_two_of_testBit _ fun i hi => ?_
  show (get w base count).getLsbD i = false
  rw [getLsbD_get h hc, decide_eq_false (Nat.not_lt.mpr hi), Bool.false_and]

theorem toNat_and_mask {v : BitVec 64} {count : Nat} (hc : count < 64) :
    (v &&& mask count).toNat = v.toNat % 2 ^ count := by
  rw [BitVec.toNat_and, toNat_mask hc, Nat.and_two_pow_sub_one_eq_mod]

/-- Clearing the low bits rounds down. -/
theorem toNat_and_not_mask {v : BitVec 64} {count : Nat} (hc : count < 64) :
    (v &&& ~~~mask count).toNat = v.toNat / 2 ^ count * 2 ^ count := by
  have hshift : v &&& ~~~mask count = (v >>> count) <<< count := by
    apply BitVec.eq_of_getLsbD_eq
    intro i hi
    rw [BitVec.getLsbD_and, BitVec.getLsbD_not, getLsbD_mask hc, BitVec.getLsbD_shiftLeft,
      BitVec.getLsbD_ushiftRight]
    by_cases h : i < count
    · simp [h, hi]
    · simp [h, hi, Nat.add_sub_cancel' (Nat.le_of_not_lt h)]
  rw [hshift, BitVec.toNat_shiftLeft, BitVec.toNat_ushiftRight, Nat.shiftRight_eq_div_pow,
    Nat.shiftLeft_eq, Nat.mod_eq_of_lt]
  exact Nat.lt_of_le_of_lt (Nat.div_mul_le_self _ _) v.isLt

/-- Bits put above a word that has none there are added to it. -/
theorem or_shiftLeft {w : Nat} {lo hi : BitVec w} {s : Nat} (h : lo.toNat < 2 ^ s) :
    lo ||| hi <<< s = lo + hi <<< s := by
  refine (BitVec.add_eq_or_of_and_eq_zero lo (hi <<< s) ?_).symm
  apply BitVec.eq_of_getLsbD_eq
  intro i hi'
  rw [BitVec.getLsbD_and, BitVec.getLsbD_shiftLeft, BitVec.getLsbD_zero]
  by_cases hs : i < s
  · simp [hs]
  · have hlo : lo.getLsbD i = false :=
      Nat.testBit_lt_two_pow (Nat.lt_of_lt_of_le h (Nat.pow_le_pow_right (by decide) (by omega)))
    simp [hlo]

/-- … and a small count stays below the next field. -/
theorem toNat_or_shiftLeft {lo : BitVec 64} {i s c : Nat} (h : lo.toNat < 2 ^ s) (hi : i < 2 ^ c)
    (hc : s + c ≤ 64) :
    (lo ||| BitVec.ofNat 64 i <<< s).toNat = lo.toNat + i * 2 ^ s ∧
      lo.toNat + i * 2 ^ s < 2 ^ (s + c) := by
  have hlt : lo.toNat + i * 2 ^ s < 2 ^ (s + c) := by
    calc lo.toNat + i * 2 ^ s < 2 ^ s + i * 2 ^ s := by omega
      _ = (i + 1) * 2 ^ s := by rw [Nat.add_mul, Nat.one_mul, Nat.add_comm]
      _ ≤ 2 ^ c * 2 ^ s := Nat.mul_le_mul_right _ hi
      _ = 2 ^ (s + c) := by rw [Nat.pow_add, Nat.mul_comm]
  have h64 : lo.toNat + i * 2 ^ s < 2 ^ 64 :=
    Nat.lt_of_lt_of_le hlt (Nat.pow_le_pow_right (by decide) hc)
  have hi64 : i < 2 ^ 64 :=
    Nat.lt_of_lt_of_le hi (Nat.pow_le_pow_right (by decide) (by omega))
  refine ⟨?_, hlt⟩
  rw [or_shiftLeft h, BitVec.toNat_add, BitVec.toNat_shiftLeft, BitVec.toNat_ofNat,
    Nat.mod_eq_of_lt hi64, Nat.shiftLeft_eq, Nat.mod_eq_of_lt (a := i * 2 ^ s) (by omega),
    Nat.mod_eq_of_lt h64]
end BitField
