/-
  File:      TensorAlloc/Base/BitSearch.lean
  Subject:   The lowest one of a 64-bit word, found by halving. Library: no bitmap of any
             particular program.

  * `narrow` -- one halving: where the low `n` bits are all zero, shift them out and count them;
  * `Narrowed` -- what the halvings keep: the lowest one lies in the low `n` bits of what is left;
  * `Narrowed.lowest` -- with one bit left, the count is the position of the lowest one.
-/
import TensorAlloc.Base.BitField

namespace BitSearch

/-- `p` is the lowest one of `w`. -/
structure Lowest (w : BitVec 64) (p : Nat) : Prop where
  one : w.getLsbD p = true
  zeros : ∀ j < p, w.getLsbD j = false

/-- A word has one lowest one. -/
theorem Lowest.unique {w : BitVec 64} {p q : Nat} (hp : Lowest w p) (hq : Lowest w q) : p = q := by
  rcases Nat.lt_trichotomy p q with h | h | h
  · have := hq.zeros p h
    rw [hp.one] at this
    cases this
  · exact h
  · have := hp.zeros q h
    rw [hq.one] at this
    cases this

/-- What is left of the word, and how many bits were shifted out of it. -/
structure Search where
  word : BitVec 64
  num : Nat

/-- One halving. -/
def narrow (s : Search) (n : Nat) : Search :=
  if s.word &&& BitField.mask n = 0#64 then ⟨s.word >>> n, s.num + n⟩ else s

/-- **What the halvings keep**: zeros were shifted out, and the low `n` bits left hold a one. -/
structure Narrowed (w : BitVec 64) (n : Nat) (s : Search) : Prop where
  rest : s.word = w >>> s.num
  zeros : ∀ j < s.num, w.getLsbD j = false
  window : ∃ j < n, s.word.getLsbD j = true

theorem narrowed_start {w : BitVec 64} (h : w ≠ 0#64) : Narrowed w 64 ⟨w, 0⟩ where
  rest := (BitVec.ushiftRight_zero w).symm
  zeros j hj := absurd hj (Nat.not_lt_zero j)
  window := by
    by_contra hno
    refine h (BitVec.eq_of_getLsbD_eq fun j hj => ?_)
    rw [BitVec.getLsbD_zero]
    exact Bool.eq_false_of_not_eq_true fun ht => hno ⟨j, hj, ht⟩

/-- A word is zero under a mask where its low bits are. -/
theorem and_mask_eq_zero {w : BitVec 64} {n : Nat} (hn : n < 64) :
    w &&& BitField.mask n = 0#64 ↔ ∀ j < n, w.getLsbD j = false := by
  constructor
  · intro h j hj
    have hbit := congrArg (BitVec.getLsbD · j) h
    simpa [BitField.getLsbD_mask hn, hj] using hbit
  · intro h
    refine BitVec.eq_of_getLsbD_eq fun j _ => ?_
    rw [BitVec.getLsbD_and, BitField.getLsbD_mask hn, BitVec.getLsbD_zero]
    by_cases hj : j < n
    · rw [h j hj, Bool.false_and]
    · simp [hj]

/-- **One halving halves the window.** -/
theorem Narrowed.step {w : BitVec 64} {n m : Nat} {s : Search} (h : Narrowed w m s)
    (hm : m = n + n) (hn : n < 64) : Narrowed w n (narrow s n) := by
  subst hm
  unfold narrow
  by_cases hz : s.word &&& BitField.mask n = 0#64
  · rw [if_pos hz]
    have hlow := (and_mask_eq_zero hn).mp hz
    refine ⟨?_, fun j hj => ?_, ?_⟩
    · rw [h.rest, BitVec.shiftRight_add]
    · by_cases hjs : j < s.num
      · exact h.zeros j hjs
      · have hj' : j < s.num + n := hj
        have := hlow (j - s.num) (by omega)
        rwa [h.rest, BitVec.getLsbD_ushiftRight, Nat.add_sub_cancel' (by omega)] at this
    · obtain ⟨j, hj, hone⟩ := h.window
      have hnj : n ≤ j := by
        by_contra hlt
        rw [hlow j (by omega)] at hone
        cases hone
      refine ⟨j - n, by omega, ?_⟩
      rw [BitVec.getLsbD_ushiftRight, Nat.add_sub_cancel' hnj]
      exact hone
  · rw [if_neg hz]
    refine ⟨h.rest, h.zeros, ?_⟩
    by_contra hno
    refine hz ((and_mask_eq_zero hn).mpr fun j hj => ?_)
    exact Bool.eq_false_of_not_eq_true fun ht => hno ⟨j, hj, ht⟩

/-- **One bit left is the lowest one.** -/
theorem Narrowed.lowest {w : BitVec 64} {s : Search} (h : Narrowed w 1 s) : Lowest w s.num where
  one := by
    obtain ⟨j, hj, hone⟩ := h.window
    obtain rfl : j = 0 := by omega
    rwa [h.rest, BitVec.getLsbD_ushiftRight] at hone
  zeros := h.zeros

end BitSearch
