/-
  File:      TensorAlloc/Base/Division.lean
  Subject:   A region divided among free blocks and live ones. Library: no allocator, no list, no
             program.

  * `Division.Step` -- a free block is cut and one piece handed out, or a live block comes back and
    is listed together with free ones it completes;
  * `Step.cover`, `cover_of_reach` -- neither moves a cell, however many there are;
  * `Whole` -- every cell below `n` in one block, free or live, and no block beyond.
-/
import Mathlib.Logic.Relation
import TensorAlloc.Base.DyadicBlocks

namespace DyadicBlocks

/-- The blocks of a region: those free and those handed out. -/
structure Division where
  free : Multiset Block
  live : Multiset Block

/-- One operation: `part` is cut out of `big`, or it comes back and makes `block` with those that
    were free beside it. -/
inductive Division.Step : Division → Division → Prop
  | take {rest parts live : Multiset Block} {big part : Block} (h : Tiles (part ::ₘ parts) big) :
      Step ⟨big ::ₘ rest, live⟩ ⟨parts + rest, part ::ₘ live⟩
  | give {rest gone live : Multiset Block} {block part : Block} (h : Tiles (part ::ₘ gone) block) :
      Step ⟨gone + rest, part ::ₘ live⟩ ⟨block ::ₘ rest, live⟩

/-- Any number of operations. -/
abbrev Division.Reach : Division → Division → Prop := Relation.ReflTransGen Division.Step

/-- Every cell below `n` is in one block, and no other cell is. -/
def Division.Whole (D : Division) (n : Nat) : Prop :=
  ∀ d, cover (D.free + D.live) d = if d < n then 1 else 0

section Runs

variable {D D' : Division} {n : Nat}

/-- **No operation moves a cell.** -/
theorem Division.Step.cover (h : D.Step D') (d : Nat) :
    cover (D'.free + D'.live) d = cover (D.free + D.live) d := by
  cases h with
  | take ht =>
      have hd := ht d
      simp only [cover_add, cover_cons] at hd ⊢
      omega
  | give ht =>
      have hd := ht d
      simp only [cover_add, cover_cons] at hd ⊢
      omega

theorem Division.Step.whole (h : D.Step D') (hW : D.Whole n) : D'.Whole n :=
  fun d => (h.cover d).trans (hW d)

/-- **However many operations, no cell moves.** -/
theorem Division.cover_of_reach (h : D.Reach D') (d : Nat) :
    DyadicBlocks.cover (D'.free + D'.live) d = DyadicBlocks.cover (D.free + D.live) d := by
  induction h with
  | refl => rfl
  | tail _ hstep ih => exact (hstep.cover d).trans ih

end Runs

theorem volume_sum {ι : Type*} (s : Finset ι) (f : ι → Multiset Block) :
    volume (∑ i ∈ s, f i) = ∑ i ∈ s, volume (f i) := by
  classical
  induction s using Finset.induction_on with
  | empty => rfl
  | insert i s hi ih => rw [Finset.sum_insert hi, Finset.sum_insert hi, volume_add, ih]

section Whole

variable {D : Division} {n : Nat} {b c : Block} {d : Nat}

theorem Division.Whole.apart (hW : D.Whole n) : Apart (D.free + D.live) := by
  intro d
  rw [hW d]
  split <;> omega

/-- The cells of a block are cells of the region. -/
theorem Division.Whole.lt (hW : D.Whole n) (hb : b ∈ D.free + D.live) (hd : d ∈ b) : d < n := by
  by_contra hn
  have hpos := cover_pos.mpr ⟨b, hb, hd⟩
  rw [hW d, if_neg hn] at hpos
  exact Nat.lt_irrefl 0 hpos

/-- **The blocks have the region's volume.** -/
theorem Division.Whole.volume (hW : D.Whole n) :
    DyadicBlocks.volume D.free + DyadicBlocks.volume D.live = n := by
  have hin : ∀ b ∈ D.free + D.live, b.start + 2 ^ b.log ≤ n := by
    intro b hb
    have hlast := hW.lt hb (last_mem b.start b.log)
    have := Nat.two_pow_pos b.log
    omega
  rw [← volume_add, ← sum_cover hin]
  calc ∑ d ∈ Finset.range n, cover (D.free + D.live) d
      = ∑ _d ∈ Finset.range n, 1 := by
        refine Finset.sum_congr rfl fun d hd => ?_
        rw [hW d, if_pos (Finset.mem_range.mp hd)]
    _ = n := (Finset.card_eq_sum_ones _).symm.trans (Finset.card_range n)

end Whole

section Apart

variable {m m' : Multiset Block} {b c : Block} {d : Nat}

/-- Of disjoint collections one at most holds a cell. -/
theorem Apart.not_both (h : Apart (m + m')) (hb : b ∈ m) (hd : d ∈ b) (hc : c ∈ m') : d ∉ c := by
  intro hdc
  have h1 := cover_pos.mpr ⟨b, hb, hd⟩
  have h2 := cover_pos.mpr ⟨c, hc, hdc⟩
  have hle := h d
  rw [cover_add] at hle
  omega

theorem Apart.of_le (h : Apart m') (hle : m ≤ m') : Apart m := fun d =>
  Nat.le_trans (Multiset.countP_le_of_le _ hle) (h d)

/-- Blocks that share no cell lie one before the other. -/
theorem before_or_after (h : ∀ d ∈ b, d ∉ c) :
    b.start + 2 ^ b.log ≤ c.start ∨ c.start + 2 ^ c.log ≤ b.start := by
  by_contra hover
  rw [not_or, Nat.not_le, Nat.not_le] at hover
  rcases Nat.le_total b.start c.start with hle | hle
  · exact h c.start ⟨hle, hover.1⟩ (start_mem c)
  · exact h b.start (start_mem b) ⟨hle, hover.2⟩

/-- **Disjoint blocks listed lie one before the other, each two of them.** -/
theorem Apart.pairwise {α : Type*} {f : α → Block} {l : List α}
    (h : Apart ((l : Multiset α).map f)) :
    l.Pairwise fun a a' => (f a).start + 2 ^ (f a).log ≤ (f a').start ∨
      (f a').start + 2 ^ (f a').log ≤ (f a).start := by
  induction l with
  | nil => exact .nil
  | cons a l ih =>
      rw [← Multiset.cons_coe, Multiset.map_cons] at h
      refine .cons (fun a' ha' => before_or_after fun d hd => ?_) (ih (h.of_le (Multiset.le_cons_self _ _)))
      rw [← Multiset.singleton_add] at h
      exact h.not_both (Multiset.mem_singleton_self _) hd
        (Multiset.mem_map_of_mem f (Multiset.mem_coe.mpr ha'))

end Apart

end DyadicBlocks
