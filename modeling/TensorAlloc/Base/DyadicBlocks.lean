/-
  File:      TensorAlloc/Base/DyadicBlocks.lean
  Subject:   Blocks of `2 ^ log` consecutive cells, their buddies, and how often a collection of
             blocks covers a cell. Library: no allocator, no list, no program.

  * `buddy_cases` -- the one fact about `x ^^^ 2 ^ n` the rest rests on: an aligned start is
    either the lower half of its pair (the buddy sits above) or the upper half (below);
  * `mem_pair_iff` -- the two halves together are the block of the next size, and `&&&` of the
    two starts is where it starts;
  * `cover` -- how many blocks of a multiset hold a cell; a collection is disjoint when no cell
    is covered twice (`Apart`), and tiles a set when every cell of it is covered once;
  * `mem_of_wide_buddy` -- an aligned block that starts at the buddy's start and is larger than
    the block swallows the block itself;
  * `rowBelow` -- equal blocks side by side;
  * `volume` -- the cells of all blocks together: what fits a block has at most its size.
-/
import Mathlib.Data.Nat.Bitwise
import Mathlib.Data.Multiset.Count
import Mathlib.Algebra.Order.Group.Multiset
import Mathlib.Data.Multiset.OrderedMonoid
import Mathlib.Algebra.BigOperators.Intervals
import Mathlib.Algebra.Order.BigOperators.Group.Finset
import Mathlib.Tactic.Ring

namespace DyadicBlocks

/-- The `2 ^ log` consecutive cells from `start`. -/
structure Block where
  start : Nat
  log : Nat
  deriving DecidableEq, Repr

instance : Membership Nat Block := ⟨fun b d => b.start ≤ d ∧ d < b.start + 2 ^ b.log⟩

theorem mem_mk {x n d : Nat} : d ∈ (⟨x, n⟩ : Block) ↔ x ≤ d ∧ d < x + 2 ^ n := Iff.rfl

instance (b : Block) (d : Nat) : Decidable (d ∈ b) := inferInstanceAs (Decidable (_ ∧ _))

/-- A block starts at a multiple of its size. -/
def Block.Aligned (b : Block) : Prop := 2 ^ b.log ∣ b.start

/-- A block holds its first cell. -/
theorem start_mem (b : Block) : b.start ∈ b :=
  ⟨Nat.le_refl _, by have := Nat.two_pow_pos b.log; omega⟩

/-! ## 1. Buddies -/

theorem xor_mul_two_pow (q n : Nat) : (q * 2 ^ n) ^^^ 2 ^ n = (q ^^^ 1) * 2 ^ n := by
  have h := Nat.shiftLeft_xor_distrib (a := q) (b := 1) (i := n)
  simpa only [Nat.shiftLeft_eq, Nat.one_mul] using h.symm

theorem and_mul_two_pow (a b n : Nat) : (a * 2 ^ n) &&& (b * 2 ^ n) = (a &&& b) * 2 ^ n := by
  have h := Nat.shiftLeft_and_distrib (a := a) (b := b) (i := n)
  simpa only [Nat.shiftLeft_eq] using h.symm

/-- An odd number and its predecessor meet in the predecessor. -/
theorem and_pred_of_odd {q : Nat} (h : q % 2 = 1) : (q - 1) &&& q = q - 1 := by
  apply Nat.eq_of_testBit_eq
  intro i
  cases i with
  | zero =>
      rw [Nat.testBit_and]
      simp only [Nat.testBit_zero]
      have : (q - 1) % 2 = 0 := by omega
      simp [this]
  | succ i =>
      rw [Nat.testBit_and, Nat.testBit_succ, Nat.testBit_succ]
      have : (q - 1) / 2 = q / 2 := by omega
      rw [this, Bool.and_self]

/-- **Where the buddy of an aligned block sits**: above a block that starts at a multiple of
    twice the size, below any other; `&&&` of the two starts is the lower of them. -/
theorem buddy_cases {x n : Nat} (h : 2 ^ n ∣ x) :
    (2 ^ (n + 1) ∣ x ∧ x ^^^ 2 ^ n = x + 2 ^ n ∧ (x ^^^ 2 ^ n) &&& x = x) ∨
    (2 ^ n ≤ x ∧ 2 ^ (n + 1) ∣ x - 2 ^ n ∧ ¬ 2 ^ (n + 1) ∣ x ∧ x ^^^ 2 ^ n = x - 2 ^ n ∧
      (x ^^^ 2 ^ n) &&& x = x - 2 ^ n) := by
  obtain ⟨q, rfl⟩ := h
  rw [Nat.mul_comm, xor_mul_two_pow, and_mul_two_pow]
  have hp := Nat.two_pow_pos n
  rcases Nat.mod_two_eq_zero_or_one q with hq | hq
  · left
    have hx : q ^^^ 1 = q + 1 := Nat.xor_one_of_even (Nat.even_iff.mpr hq)
    have ha : (q + 1) &&& q = q := by
      have := and_pred_of_odd (q := q + 1) (by omega)
      rw [Nat.add_sub_cancel, Nat.and_comm] at this
      exact this
    refine ⟨⟨q / 2, ?_⟩, by rw [hx]; ring, by rw [hx, ha]⟩
    rw [pow_succ]
    have : q = q / 2 * 2 := by omega
    calc q * 2 ^ n = q / 2 * 2 * 2 ^ n := by rw [← this]
      _ = 2 ^ n * 2 * (q / 2) := by ring
  · right
    have hx : q ^^^ 1 = q - 1 := Nat.xor_one_of_odd (Nat.odd_iff.mpr hq)
    have hsub : q * 2 ^ n - 2 ^ n = (q - 1) * 2 ^ n := by rw [Nat.sub_mul, Nat.one_mul]
    refine ⟨?_, ⟨(q - 1) / 2, ?_⟩, ?_, by rw [hx, hsub], by rw [hx, and_pred_of_odd hq, hsub]⟩
    · exact Nat.le_mul_of_pos_left _ (by omega)
    · rw [hsub, pow_succ]
      have : q - 1 = (q - 1) / 2 * 2 := by omega
      calc (q - 1) * 2 ^ n = (q - 1) / 2 * 2 * 2 ^ n := by rw [← this]
        _ = 2 ^ n * 2 * ((q - 1) / 2) := by ring
    · intro h
      obtain ⟨r, hr⟩ := h
      rw [pow_succ, Nat.mul_comm q, Nat.mul_assoc] at hr
      have := Nat.eq_of_mul_eq_mul_left hp hr
      omega

/-- A flip of bit `n` takes at most `2 ^ n` away. -/
theorem le_xor_two_pow (x n : Nat) : x ≤ (x ^^^ 2 ^ n) + 2 ^ n := by
  have hdiv : (x ^^^ 2 ^ n) / 2 ^ n = x / 2 ^ n ^^^ 1 := by
    rw [← Nat.shiftRight_eq_div_pow, Nat.shiftRight_xor_distrib, Nat.shiftRight_eq_div_pow,
      Nat.shiftRight_eq_div_pow, Nat.div_self (Nat.two_pow_pos n)]
  have hmod : (x ^^^ 2 ^ n) % 2 ^ n = x % 2 ^ n := by
    rw [Nat.xor_mod_two_pow, Nat.mod_self, Nat.xor_zero]
  have hq : x / 2 ^ n ≤ (x / 2 ^ n ^^^ 1) + 1 := by
    rcases Nat.mod_two_eq_zero_or_one (x / 2 ^ n) with h | h
    · rw [Nat.xor_one_of_even (Nat.even_iff.mpr h)]
      omega
    · rw [Nat.xor_one_of_odd (Nat.odd_iff.mpr h)]
      omega
  calc x = 2 ^ n * (x / 2 ^ n) + x % 2 ^ n := (Nat.div_add_mod x _).symm
    _ ≤ 2 ^ n * ((x / 2 ^ n ^^^ 1) + 1) + x % 2 ^ n := Nat.add_le_add_right (Nat.mul_le_mul_left _ hq) _
    _ = (2 ^ n * ((x ^^^ 2 ^ n) / 2 ^ n) + (x ^^^ 2 ^ n) % 2 ^ n) + 2 ^ n := by
        rw [hdiv, hmod, Nat.mul_add, Nat.mul_one, Nat.add_right_comm]
    _ = (x ^^^ 2 ^ n) + 2 ^ n := by rw [Nat.div_add_mod]

/-- The buddy of a lower half is the upper one, and their pair starts where the lower does. -/
theorem lower_buddy {x n c : Nat} (hn : n < c) (ha : 2 ^ c ∣ x) :
    x ^^^ 2 ^ n = x + 2 ^ n ∧ (x ^^^ 2 ^ n) &&& x = x := by
  have h1 : 2 ^ (n + 1) ∣ x := Nat.dvd_trans (Nat.pow_dvd_pow 2 hn) ha
  rcases buddy_cases (Nat.dvd_trans (Nat.pow_dvd_pow 2 (Nat.le_succ n)) h1) with
    ⟨-, e, e'⟩ | ⟨-, -, hno, -, -⟩
  · exact ⟨e, e'⟩
  · exact absurd h1 hno

/-- The pair of an aligned block starts at a multiple of twice the size. -/
theorem dvd_pair {x n : Nat} (h : 2 ^ n ∣ x) : 2 ^ (n + 1) ∣ (x ^^^ 2 ^ n) &&& x := by
  rcases buddy_cases h with ⟨hd, _, e⟩ | ⟨_, hd, _, _, e⟩ <;> rw [e] <;> exact hd

/-- Rounding down to the next size is what `&&&` with the buddy does. -/
theorem pair_start (x n : Nat) :
    (x / 2 ^ n * 2 ^ n ^^^ 2 ^ n) &&& (x / 2 ^ n * 2 ^ n) = x / 2 ^ (n + 1) * 2 ^ (n + 1) := by
  have hq : x / 2 ^ (n + 1) = x / 2 ^ n / 2 := by rw [pow_succ, Nat.div_div_eq_div_mul]
  rw [xor_mul_two_pow, and_mul_two_pow, hq, pow_succ, Nat.mul_comm (2 ^ n) 2, ← Nat.mul_assoc]
  congr 1
  generalize x / 2 ^ n = q
  rcases Nat.mod_two_eq_zero_or_one q with h | h
  · have ha := and_pred_of_odd (show (q + 1) % 2 = 1 by omega)
    rw [Nat.add_sub_cancel, Nat.and_comm] at ha
    rw [Nat.xor_one_of_even (Nat.even_iff.mpr h), ha]
    omega
  · rw [Nat.xor_one_of_odd (Nat.odd_iff.mpr h), and_pred_of_odd h]
    omega

/-- **A block and its buddy make the block of the next size.** -/
theorem mem_pair_iff {x n : Nat} (h : 2 ^ n ∣ x) (d : Nat) :
    d ∈ (⟨(x ^^^ 2 ^ n) &&& x, n + 1⟩ : Block) ↔
      d ∈ (⟨x, n⟩ : Block) ∨ d ∈ (⟨x ^^^ 2 ^ n, n⟩ : Block) := by
  have hp := Nat.two_pow_pos n
  simp only [mem_mk, pow_succ]
  rcases buddy_cases h with ⟨_, e, e'⟩ | ⟨hle, _, _, e, e'⟩ <;> rw [e', e] <;> omega

/-- A block and its buddy share no cell. -/
theorem not_mem_buddy {x n d : Nat} (h : 2 ^ n ∣ x) (hd : d ∈ (⟨x, n⟩ : Block)) :
    d ∉ (⟨x ^^^ 2 ^ n, n⟩ : Block) := by
  have hp := Nat.two_pow_pos n
  simp only [mem_mk] at hd ⊢
  rcases buddy_cases h with ⟨_, e, _⟩ | ⟨hle, _, _, e, _⟩ <;> rw [e] <;> omega

/-- The buddy starts outside the block. -/
theorem buddy_start_not_mem {x n : Nat} (h : 2 ^ n ∣ x) : x ^^^ 2 ^ n ∉ (⟨x, n⟩ : Block) :=
  fun hm => not_mem_buddy h hm (start_mem ⟨x ^^^ 2 ^ n, n⟩)

/-- **A block larger than `2 ^ n` that starts, aligned, at the buddy's start holds the block
    itself.** -/
theorem mem_of_wide_buddy {x n m d : Nat} (h : 2 ^ n ∣ x) (hm : n < m)
    (ha : 2 ^ m ∣ x ^^^ 2 ^ n) (hd : d ∈ (⟨x, n⟩ : Block)) :
    d ∈ (⟨x ^^^ 2 ^ n, m⟩ : Block) := by
  have hdv : 2 ^ (n + 1) ∣ x ^^^ 2 ^ n := Nat.dvd_trans (Nat.pow_dvd_pow 2 hm) ha
  have hle : 2 ^ (n + 1) ≤ 2 ^ m := Nat.pow_le_pow_right (by decide) hm
  have hp := Nat.two_pow_pos n
  rw [pow_succ] at hle
  simp only [mem_mk] at hd ⊢
  rcases buddy_cases h with ⟨hx, e, _⟩ | ⟨hx, _, _, e, _⟩
  · -- the buddy above is no multiple of twice the size
    exfalso
    rw [e] at hdv
    obtain ⟨a, rfl⟩ := hx
    have hone : 2 ^ (n + 1) ∣ 2 ^ n := (Nat.dvd_add_right ⟨a, rfl⟩).mp hdv
    have := Nat.le_of_dvd hp hone
    rw [pow_succ] at this
    omega
  · rw [e]
    omega

/-! ## 2. Covering -/

/-- How many blocks of `m` hold the cell `d`. -/
def cover (m : Multiset Block) (d : Nat) : Nat := m.countP (d ∈ ·)

/-- The blocks are pairwise disjoint: no cell is held twice. -/
def Apart (m : Multiset Block) : Prop := ∀ d, cover m d ≤ 1

@[simp] theorem cover_zero (d : Nat) : cover 0 d = 0 := Multiset.countP_zero _

@[simp] theorem cover_cons (b : Block) (m : Multiset Block) (d : Nat) :
    cover (b ::ₘ m) d = cover m d + if d ∈ b then 1 else 0 := Multiset.countP_cons _ _ _

@[simp] theorem cover_add (m m' : Multiset Block) (d : Nat) :
    cover (m + m') d = cover m d + cover m' d := Multiset.countP_add _ _ _

theorem cover_pos {m : Multiset Block} {d : Nat} : 0 < cover m d ↔ ∃ b ∈ m, d ∈ b :=
  Multiset.countP_pos

@[simp] theorem cover_singleton (b : Block) (d : Nat) : cover {b} d = if d ∈ b then 1 else 0 := by
  rw [← Multiset.cons_zero, cover_cons, cover_zero, Nat.zero_add]

theorem cover_sum {ι : Type*} (s : Finset ι) (f : ι → Multiset Block) (d : Nat) :
    cover (∑ i ∈ s, f i) d = ∑ i ∈ s, cover (f i) d :=
  map_sum (Multiset.countPAddMonoidHom (d ∈ ·)) f s

/-! ## 3. Fitting and tiling -/

/-- The blocks of `m` are disjoint and lie in the block `b`. -/
def Fits (m : Multiset Block) (b : Block) : Prop := ∀ d, cover m d ≤ if d ∈ b then 1 else 0

/-- The blocks of `m` are disjoint and together are the block `b`. -/
def Tiles (m : Multiset Block) (b : Block) : Prop := ∀ d, cover m d = if d ∈ b then 1 else 0

theorem Tiles.apart {m : Multiset Block} {b : Block} (h : Tiles m b) : Apart m := by
  intro d
  rw [h d]
  split <;> omega

theorem Tiles.fits {m : Multiset Block} {b : Block} (h : Tiles m b) : Fits m b := fun d => (h d).le

theorem tiles_self (b : Block) : Tiles {b} b := fun d => cover_singleton b d

theorem fits_zero (b : Block) : Fits 0 b := fun d => by rw [cover_zero]; exact Nat.zero_le _

theorem not_tiles_zero (b : Block) : ¬ Tiles 0 b := by
  intro h
  have := h b.start
  rw [cover_zero, if_pos (start_mem b)] at this
  cases this

/-- The last cell of a block. -/
theorem last_mem (x n : Nat) : x + 2 ^ n - 1 ∈ (⟨x, n⟩ : Block) := by
  have := Nat.two_pow_pos n
  rw [mem_mk]
  omega

/-- What fits a block does not tile a wider one with the same start. -/
theorem not_tiles_wider {m : Multiset Block} {x n k : Nat} (h : Fits m ⟨x, n⟩) (hk : n < k) :
    ¬ Tiles m ⟨x, k⟩ := by
  intro ht
  have hlt : 2 ^ n < 2 ^ k := Nat.pow_lt_pow_right (by decide) hk
  have h1 := h (x + 2 ^ k - 1)
  rw [ht, if_pos (last_mem x k), if_neg (by rw [mem_mk]; omega)] at h1
  omega

theorem fits_singleton {x n k : Nat} (h : n ≤ k) : Fits {⟨x, n⟩} ⟨x, k⟩ := by
  intro d
  have hle : 2 ^ n ≤ 2 ^ k := Nat.pow_le_pow_right (by decide) h
  rw [cover_singleton]
  simp only [mem_mk]
  split <;> split <;> omega

theorem Fits.wider {m : Multiset Block} {x n k : Nat} (h : Fits m ⟨x, n⟩) (hk : n ≤ k) :
    Fits m ⟨x, k⟩ := by
  intro d
  have hle : 2 ^ n ≤ 2 ^ k := Nat.pow_le_pow_right (by decide) hk
  have hd := h d
  simp only [mem_mk] at hd ⊢
  split at hd <;> split <;> omega

section Merge

variable {x n : Nat} {m m' : Multiset Block}

/-- Fitting a block and fitting its buddy, two collections fit the pair. -/
theorem Fits.merge (hx : 2 ^ n ∣ x) (h : Fits m ⟨x, n⟩) (h' : Fits m' ⟨x ^^^ 2 ^ n, n⟩) :
    Fits (m' + m) ⟨(x ^^^ 2 ^ n) &&& x, n + 1⟩ := by
  intro d
  have h1 := h d
  have h2 := h' d
  have hnot : d ∈ (⟨x, n⟩ : Block) → d ∉ (⟨x ^^^ 2 ^ n, n⟩ : Block) := not_mem_buddy hx
  rw [cover_add]
  simp only [mem_pair_iff hx]
  split at h1 <;> split at h2 <;> split <;> first | omega | simp_all

/-- **Two collections tile the pair exactly when each tiles its half.** -/
theorem tiles_merge_iff (hx : 2 ^ n ∣ x) (h : Fits m ⟨x, n⟩) (h' : Fits m' ⟨x ^^^ 2 ^ n, n⟩) :
    Tiles (m' + m) ⟨(x ^^^ 2 ^ n) &&& x, n + 1⟩ ↔ Tiles m ⟨x, n⟩ ∧ Tiles m' ⟨x ^^^ 2 ^ n, n⟩ := by
  have hcell : ∀ d, (cover (m' + m) d =
      if d ∈ (⟨(x ^^^ 2 ^ n) &&& x, n + 1⟩ : Block) then 1 else 0) ↔
      (cover m d = if d ∈ (⟨x, n⟩ : Block) then 1 else 0) ∧
        cover m' d = if d ∈ (⟨x ^^^ 2 ^ n, n⟩ : Block) then 1 else 0 := by
    intro d
    have h1 := h d
    have h2 := h' d
    have hnot : d ∈ (⟨x, n⟩ : Block) → d ∉ (⟨x ^^^ 2 ^ n, n⟩ : Block) := not_mem_buddy hx
    rw [cover_add]
    simp only [mem_pair_iff hx]
    by_cases hd : d ∈ (⟨x, n⟩ : Block)
    · have hd' := hnot hd
      simp only [hd, hd', if_true, if_false, true_or] at h1 h2 ⊢
      omega
    · by_cases hd' : d ∈ (⟨x ^^^ 2 ^ n, n⟩ : Block) <;>
        simp only [hd, hd', if_true, if_false, or_true, or_false] at h1 h2 ⊢ <;> omega
  exact ⟨fun ht => ⟨fun d => ((hcell d).mp (ht d)).1, fun d => ((hcell d).mp (ht d)).2⟩,
    fun ht d => (hcell d).mpr ⟨ht.1 d, ht.2 d⟩⟩

end Merge

/-- **What an exchange does to a disjoint collection**: `free` gives up `gone` and takes `block` in,
    `still` stays out. Where `gone` and the block `given` fit the new block, the exchange adds
    exactly the cells of `given` if and only if they tile it. -/
theorem exchange_iff {free free' gone still : Multiset Block} {given block : Block}
    (hex : free' + gone = block ::ₘ free) (hfit : Fits (given ::ₘ gone) block)
    (hap : Apart (free + given ::ₘ still)) :
    (Apart free' ∧ (∀ d, 0 < cover free' d → cover still d = 0) ∧
        ∀ d, 0 < cover free' d ↔ 0 < cover free d ∨ d ∈ given) ↔
      Tiles (given ::ₘ gone) block := by
  have hsum : ∀ d, cover free' d + cover gone d = cover free d + if d ∈ block then 1 else 0 := by
    intro d
    rw [← cover_add, hex, cover_cons]
  constructor
  · rintro ⟨h1, -, h3⟩ d
    have hs := hsum d
    have hf := hfit d
    have ha := hap d
    have hiff := h3 d
    have hle := h1 d
    rw [cover_cons] at hf ⊢
    rw [cover_add, cover_cons] at ha
    by_cases hb : d ∈ block
    · simp only [hb, if_true] at hs hf ⊢
      by_cases hg : d ∈ given
      · simp only [hg, if_true] at hf ⊢
        omega
      · simp only [hg, if_false, or_false] at hf hiff ⊢
        omega
    · simp only [hb, if_false] at hf ⊢
      omega
  · intro ht
    have hcov : ∀ d, cover free' d = cover free d + if d ∈ given then 1 else 0 := by
      intro d
      have hs := hsum d
      have hd := ht d
      rw [cover_cons] at hd
      omega
    refine ⟨fun d => ?_, fun d hpos => ?_, fun d => ?_⟩
    · have ha := hap d
      rw [cover_add, cover_cons] at ha
      rw [hcov d]
      omega
    · have ha := hap d
      rw [cover_add, cover_cons] at ha
      rw [hcov d] at hpos
      omega
    · rw [hcov d]
      split
      · next h => exact ⟨fun _ => .inr h, fun _ => by omega⟩
      · next h => exact ⟨fun h' => .inl (by omega),
          fun h' => by rcases h' with h' | h' <;> [omega; exact absurd h' h]⟩

/-- **Halving leaves a tiling**: the lowest piece of log `a`, and the upper half of each size from
    there on, are the block of log `c`. -/
theorem tiles_halves (x s : Nat) {a c : Nat} (h : a ≤ c) :
    Tiles (⟨x, a + s⟩ ::ₘ ∑ k ∈ Finset.Ico a c, {⟨x + 2 ^ (k + s), k + s⟩}) ⟨x, c + s⟩ := by
  induction c, h using Nat.le_induction with
  | base => intro d; simp
  | succ c hc ih =>
      intro d
      have hd := ih d
      have hp := Nat.two_pow_pos (c + s)
      have he : 2 ^ (c + 1 + s) = 2 * 2 ^ (c + s) := by rw [← pow_succ']; congr 1; omega
      rw [Finset.sum_Ico_succ_top hc, ← Multiset.cons_add, cover_add, hd, cover_singleton]
      simp only [mem_mk, he]
      split <;> split <;> split <;> omega

/-! ## 4. Rows of equal blocks -/

/-- The starts of the `n` blocks of log `s` that end at `x`, the lowest first. -/
def rowBelow (x s : Nat) : Nat → List Nat
  | 0 => []
  | n + 1 => (x - (n + 1) * 2 ^ s) :: rowBelow x s n

section Row

variable {x s n : Nat}

@[simp] theorem length_rowBelow (x s n : Nat) : (rowBelow x s n).length = n := by
  induction n with
  | zero => rfl
  | succ n ih => rw [rowBelow, List.length_cons, ih]

theorem mem_rowBelow {y : Nat} : y ∈ rowBelow x s n ↔ ∃ j < n, y = x - (j + 1) * 2 ^ s := by
  induction n with
  | zero => simp [rowBelow]
  | succ n ih =>
      rw [rowBelow, List.mem_cons, ih]
      constructor
      · rintro (rfl | ⟨j, hj, rfl⟩)
        · exact ⟨n, by omega, rfl⟩
        · exact ⟨j, by omega, rfl⟩
      · intro h
        obtain ⟨j, hj, rfl⟩ := h
        rcases Nat.eq_or_lt_of_le (Nat.le_of_lt_succ hj) with rfl | hlt
        · exact .inl rfl
        · exact .inr ⟨j, hlt, rfl⟩

/-- The next start down lies below all the others. -/
theorem not_mem_rowBelow (h : (n + 1) * 2 ^ s ≤ x) : x - (n + 1) * 2 ^ s ∉ rowBelow x s n := by
  rw [mem_rowBelow]
  intro h
  obtain ⟨j, hj, e⟩ := h
  have hlt : (j + 1) * 2 ^ s < (n + 1) * 2 ^ s :=
    Nat.mul_lt_mul_of_pos_right (by omega) (Nat.two_pow_pos s)
  omega

/-- Counted from another origin, a row is a row. -/
theorem map_sub_rowBelow (b x s n : Nat) : (rowBelow x s n).map (· - b) = rowBelow (x - b) s n := by
  induction n with
  | zero => rfl
  | succ n ih => rw [rowBelow, List.map_cons, ih, rowBelow, Nat.sub_right_comm]

/-- **A row covers what lies between its ends, once.** -/
theorem cover_rowBelow (h : n * 2 ^ s ≤ x) (d : Nat) :
    cover ((rowBelow x s n : Multiset Nat).map fun y => ⟨y, s⟩) d =
      if x - n * 2 ^ s ≤ d ∧ d < x then 1 else 0 := by
  induction n with
  | zero => simp only [rowBelow, Nat.zero_mul, Nat.sub_zero]; exact (if_neg (by omega)).symm
  | succ n ih =>
      have hp := Nat.two_pow_pos s
      rw [Nat.succ_mul] at h
      rw [rowBelow, ← Multiset.cons_coe, Multiset.map_cons, cover_cons, ih (by omega), Nat.succ_mul]
      simp only [mem_mk]
      split <;> split <;> split <;> omega

/-- As many blocks as make the whole tile it. -/
theorem tiles_rowBelow_add {k : Nat} (y : Nat) (h : n * 2 ^ s = 2 ^ k) :
    Tiles ((rowBelow (y + 2 ^ k) s n : Multiset Nat).map fun y => ⟨y, s⟩) ⟨y, k⟩ := by
  intro d
  rw [cover_rowBelow (h.trans_le (Nat.le_add_left _ _)), h, Nat.add_sub_cancel]
  rfl

theorem tiles_rowBelow {k : Nat} (h : n * 2 ^ s = 2 ^ k) :
    Tiles ((rowBelow (2 ^ k) s n : Multiset Nat).map fun y => ⟨y, s⟩) ⟨0, k⟩ := by
  have ht := tiles_rowBelow_add 0 h
  rwa [Nat.zero_add] at ht

end Row

/-! ## 5. Volumes -/

/-- The cells of the blocks, one by one. -/
def volume (m : Multiset Block) : Nat := (m.map fun b => 2 ^ b.log).sum

@[simp] theorem volume_zero : volume 0 = 0 := rfl

@[simp] theorem volume_add (m m' : Multiset Block) : volume (m + m') = volume m + volume m' := by
  rw [volume, Multiset.map_add, Multiset.sum_add]
  rfl

@[simp] theorem volume_cons (b : Block) (m : Multiset Block) :
    volume (b ::ₘ m) = 2 ^ b.log + volume m := by
  rw [volume, Multiset.map_cons, Multiset.sum_cons]
  rfl

theorem volume_rowBelow (x s n : Nat) :
    volume ((rowBelow x s n : Multiset Nat).map fun y => ⟨y, s⟩) = n * 2 ^ s := by
  induction n with
  | zero => rw [Nat.zero_mul]; rfl
  | succ n ih =>
      rw [rowBelow, ← Multiset.cons_coe, Multiset.map_cons, volume_cons, ih, Nat.succ_mul, Nat.add_comm]

/-- The volume is the cover, summed over the cells. -/
theorem sum_cover {m : Multiset Block} {N : Nat} (h : ∀ b ∈ m, b.start + 2 ^ b.log ≤ N) :
    ∑ d ∈ Finset.range N, cover m d = volume m := by
  induction m using Multiset.induction_on with
  | empty => exact Finset.sum_eq_zero fun d _ => cover_zero d
  | cons b m ih =>
      have hb := h b (Multiset.mem_cons_self b m)
      have hcells : (Finset.range N).filter (· ∈ b) = Finset.Ico b.start (b.start + 2 ^ b.log) := by
        ext d
        rw [Finset.mem_filter, Finset.mem_range, Finset.mem_Ico]
        exact ⟨fun hd => hd.2, fun hd => ⟨Nat.lt_of_lt_of_le hd.2 hb, hd⟩⟩
      simp only [cover_cons]
      rw [Finset.sum_add_distrib, ih fun c hc => h c (Multiset.mem_cons_of_mem hc), ← Finset.card_filter,
        hcells, Nat.card_Ico, Nat.add_sub_cancel_left, volume_cons, Nat.add_comm]

/-- **What fits a block has at most its size.** -/
theorem Fits.volume_le {m : Multiset Block} {b : Block} (h : Fits m b) : volume m ≤ 2 ^ b.log := by
  have hin : ∀ c ∈ m, c.start + 2 ^ c.log ≤ b.start + 2 ^ b.log := by
    intro c hc
    have hlast := last_mem c.start c.log
    have hpos : 0 < cover m (c.start + 2 ^ c.log - 1) := cover_pos.mpr ⟨c, hc, hlast⟩
    have hd := h (c.start + 2 ^ c.log - 1)
    split at hd
    · next hb =>
        have := hb.2
        omega
    · omega
  have hself := @sum_cover {b} (b.start + 2 ^ b.log) fun c hc => by rw [Multiset.mem_singleton.mp hc]
  rw [← sum_cover hin]
  refine Nat.le_trans (Finset.sum_le_sum fun d _ => h d) ?_
  simp only [← cover_singleton]
  rw [hself]
  rfl

/-- Disjoint blocks inside a block fit it. -/
theorem fits_of_mem {m : Multiset Block} {b : Block} (hin : ∀ c ∈ m, ∀ d ∈ c, d ∈ b) (ha : Apart m) :
    Fits m b := by
  intro d
  split
  · exact ha d
  · next hd =>
      refine Nat.le_of_eq (Nat.eq_zero_of_not_pos fun hpos => hd ?_)
      obtain ⟨c, hc, hdc⟩ := cover_pos.mp hpos
      exact hin c hc d hdc

theorem Fits.mem {m : Multiset Block} {b c : Block} (h : Fits m b) (hc : c ∈ m) {d : Nat} (hd : d ∈ c) :
    d ∈ b := by
  have hpos : 0 < cover m d := cover_pos.mpr ⟨c, hc, hd⟩
  have hle := h d
  split at hle
  · assumption
  · omega

end DyadicBlocks
