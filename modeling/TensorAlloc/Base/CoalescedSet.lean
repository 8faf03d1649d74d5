/-
  File:      TensorAlloc/Base/CoalescedSet.lean
  Subject:   Sets of blocks without two buddies left apart, over takes and gives. Library: no
             allocator, no list, no program.

  * `Canonical` -- aligned, disjoint, coalesced, no block above the cap;
  * `Canonical.unique` -- such a set is told by the cells it holds, so that it does not matter how it
    came about;
  * `Canonical.take`, `Canonical.give` -- it stays one when a block is halved down and its first piece
    taken, and when a block gathers its buddies and is put in;
  * `take_step`, `Gathers.give_step` -- both are steps of a `Division`.
-/
import TensorAlloc.Base.BuddySet
import TensorAlloc.Base.Division

namespace DyadicBlocks

/-! ## 1. Aligned blocks -/

/-- The cells of an aligned block are those of one quotient. -/
theorem mem_iff_div {b : Block} (h : b.Aligned) {d : Nat} :
    d ∈ b ↔ d / 2 ^ b.log = b.start / 2 ^ b.log := by
  obtain ⟨q, hq⟩ := h
  have hp := Nat.two_pow_pos b.log
  have hdiv : b.start / 2 ^ b.log = q := by rw [hq, Nat.mul_div_cancel_left _ hp]
  rw [hdiv, Nat.div_eq_iff hp, show (d ∈ b ↔ b.start ≤ d ∧ d < b.start + 2 ^ b.log) from Iff.rfl, hq,
    Nat.mul_comm]
  omega

/-- Of two aligned blocks with a common cell the larger holds the smaller. -/
theorem mem_of_meet {b c : Block} (hb : b.Aligned) (hc : c.Aligned) (hle : b.log ≤ c.log) {d e : Nat}
    (hdb : d ∈ b) (hdc : d ∈ c) (he : e ∈ b) : e ∈ c := by
  obtain ⟨k, hk⟩ := Nat.exists_eq_add_of_le hle
  rw [mem_iff_div hb] at hdb he
  rw [mem_iff_div hc, hk, Nat.pow_add] at hdc ⊢
  rw [← Nat.div_div_eq_div_mul, he, ← hdb, Nat.div_div_eq_div_mul]
  exact hdc

/-- Aligned blocks of one size with a common cell are one. -/
theorem eq_of_meet {b c : Block} (hb : b.Aligned) (hc : c.Aligned) (he : b.log = c.log) {d : Nat}
    (hdb : d ∈ b) (hdc : d ∈ c) : b = c := by
  obtain ⟨x, n⟩ := b
  obtain ⟨y, m⟩ := c
  obtain rfl : n = m := he
  have h1 := mem_of_meet hb hc (Nat.le_refl n) hdb hdc (start_mem _)
  have h2 := mem_of_meet hc hb (Nat.le_refl n) hdc hdb (start_mem _)
  have hxy : x = y := Nat.le_antisymm h2.1 h1.1
  rw [hxy]

theorem Block.Aligned.buddy {b : Block} (h : b.Aligned) : b.buddy.Aligned := by
  obtain ⟨x, n⟩ := b
  show 2 ^ n ∣ x ^^^ 2 ^ n
  rcases buddy_cases h with ⟨-, e, -⟩ | ⟨-, -, -, e, -⟩ <;> rw [e]
  · exact Nat.dvd_add h (Nat.dvd_refl _)
  · exact Nat.dvd_sub h (Nat.dvd_refl _)

/-! ## 2. Canonical sets -/

/-- Aligned, disjoint and coalesced, no block above the cap. -/
structure Canonical (cap : Nat) (s : Finset Block) : Prop where
  aligned : ∀ b ∈ s, b.Aligned
  apart : Apart s.val
  coalesced : Coalesced cap s
  capped : ∀ b ∈ s, b.log ≤ cap

section Canonical

variable {cap : Nat} {s t : Finset Block} {b c : Block}

/-- Two blocks of a disjoint set with a common cell are one. -/
theorem Apart.eq_of_mem (h : Apart s.val) (hb : b ∈ s) (hc : c ∈ s) {d : Nat} (hdb : d ∈ b)
    (hdc : d ∈ c) : b = c := by
  by_contra hne
  have h1 := cover_erase hb d
  rw [if_pos hdb] at h1
  have h2 : 0 < cover (s.erase b).val d := cover_pos.mpr ⟨c, Finset.mem_erase.mpr ⟨Ne.symm hne, hc⟩, hdc⟩
  have := h d
  omega

/-- **A block whose cells are all in the set lies in one of its blocks**: the smallest of several in it
    would have its buddy beside it. -/
theorem Canonical.wide (h : Canonical cap s) (hb : b.Aligned) (hcap : b.log ≤ cap)
    (hcov : ∀ d ∈ b, 0 < cover s.val d) : ∃ c ∈ s, b.log ≤ c.log ∧ b.start ∈ c := by
  by_contra hno
  have hsmall : ∀ c ∈ s, (∃ d ∈ b, d ∈ c) → c.log < b.log := by
    intro c hc hd
    obtain ⟨d, hdb, hdc⟩ := hd
    by_contra hle
    exact hno ⟨c, hc, Nat.le_of_not_lt hle,
      mem_of_meet hb (h.aligned c hc) (Nat.le_of_not_lt hle) hdb hdc (start_mem b)⟩
  obtain ⟨c0, hc0, hd0⟩ := cover_pos.mp (hcov b.start (start_mem b))
  classical
  obtain ⟨c, hc, hmin⟩ := Finset.exists_min_image (s.filter fun c => ∃ d ∈ b, d ∈ c) Block.log
    ⟨c0, Finset.mem_filter.mpr ⟨hc0, b.start, start_mem b, hd0⟩⟩
  obtain ⟨hcs, d, hdb, hdc⟩ := Finset.mem_filter.mp hc
  have hlt := hsmall c hcs ⟨d, hdb, hdc⟩
  have hca := h.aligned c hcs
  -- the pair of `c` lies in `b`, and so does the buddy
  have hbuddy : c.buddy.start ∈ b :=
    mem_of_meet hca.pair hb hlt ((mem_pair hca).mpr (.inl hdc)) hdb
      ((mem_pair hca).mpr (.inr (start_mem c.buddy)))
  obtain ⟨e, hes, hde⟩ := cover_pos.mp (hcov _ hbuddy)
  have hle := hmin e (Finset.mem_filter.mpr ⟨hes, _, hbuddy, hde⟩)
  rcases Nat.eq_or_lt_of_le hle with heq | hgt
  · have hec : c.buddy = e := eq_of_meet hca.buddy (h.aligned e hes) heq (start_mem c.buddy) hde
    exact h.coalesced c hcs (by omega) (hec ▸ hes)
  · have hin : c.start ∈ e := mem_of_meet hca.pair (h.aligned e hes) hgt
      ((mem_pair hca).mpr (.inr (start_mem c.buddy))) hde ((mem_pair hca).mpr (.inl (start_mem c)))
    have := h.apart.eq_of_mem hcs hes (start_mem c) hin
    rw [this] at hgt
    exact Nat.lt_irrefl _ hgt

theorem Canonical.subset (h : Canonical cap s) (h' : Canonical cap t)
    (hc : ∀ d, cover s.val d = cover t.val d) : s ⊆ t := by
  intro b hb
  have hcover : ∀ {u v : Finset Block}, (∀ d, cover u.val d = cover v.val d) → ∀ {x : Block}, x ∈ u →
      ∀ d ∈ x, 0 < cover v.val d := fun huv x hx d hd => by
    rw [← huv]
    exact cover_pos.mpr ⟨x, hx, hd⟩
  obtain ⟨c, hct, hle, hin⟩ := h'.wide (h.aligned b hb) (h.capped b hb) (hcover hc hb)
  obtain ⟨e, hes, hle', hin'⟩ := h.wide (h'.aligned c hct) (h'.capped c hct)
    (hcover (fun d => (hc d).symm) hct)
  have hcell : b.start ∈ e := mem_of_meet (h'.aligned c hct) (h.aligned e hes) hle' (start_mem c) hin' hin
  obtain rfl := h.apart.eq_of_mem hb hes (start_mem b) hcell
  rwa [eq_of_meet (h.aligned b hb) (h'.aligned c hct) (Nat.le_antisymm hle hle') (start_mem b) hin]

/-- **The cells of a coalesced set tell the set.** -/
theorem Canonical.unique (h : Canonical cap s) (h' : Canonical cap t)
    (hc : ∀ d, cover s.val d = cover t.val d) : s = t :=
  Finset.Subset.antisymm (h.subset h' hc) (h'.subset h fun d => (hc d).symm)

end Canonical

/-! ## 3. Taking and giving -/

/-- The halves that are left when the block at `x` is halved from log `c` down to log `a`. -/
def halves (x a c : Nat) : Finset Block := (Finset.Ico a c).image fun k => ⟨x + 2 ^ k, k⟩

section Halves

variable {x a c : Nat} {b : Block}

theorem mem_halves : b ∈ halves x a c ↔ a ≤ b.log ∧ b.log < c ∧ b.start = x + 2 ^ b.log := by
  unfold halves
  rw [Finset.mem_image]
  constructor
  · rintro ⟨k, hk, rfl⟩
    exact ⟨(Finset.mem_Ico.mp hk).1, (Finset.mem_Ico.mp hk).2, rfl⟩
  · rintro ⟨h1, h2, h3⟩
    exact ⟨b.log, Finset.mem_Ico.mpr ⟨h1, h2⟩, by rw [← h3]⟩

theorem tiles_halved (x : Nat) (h : a ≤ c) : Tiles (⟨x, a⟩ ::ₘ (halves x a c).val) ⟨x, c⟩ := by
  have hval : (halves x a c).val = ∑ k ∈ Finset.Ico a c, {⟨x + 2 ^ (k + 0), k + 0⟩} := by
    unfold halves
    rw [Finset.image_val_of_injOn fun k _ k' _ e => (Block.mk.inj e).2]
    exact (Multiset.sum_map_singleton _).symm.trans (by rw [Multiset.map_map]; rfl)
  rw [hval]
  exact tiles_halves x 0 h

/-- A half is aligned, and its buddy starts where the block does. -/
theorem half_buddy (ha : 2 ^ c ∣ x) (hb : b ∈ halves x a c) : b.Aligned ∧ b.buddy = ⟨x, b.log⟩ := by
  obtain ⟨y, n⟩ := b
  obtain ⟨-, hlt, hy⟩ := mem_halves.mp hb
  dsimp only at hlt hy
  subst hy
  have hx : 2 ^ n ∣ x := (Nat.pow_dvd_pow 2 hlt.le).trans ha
  refine ⟨Nat.dvd_add hx (Nat.dvd_refl _), ?_⟩
  have hlow := (lower_buddy hlt ha).1
  show (⟨(x + 2 ^ n) ^^^ 2 ^ n, n⟩ : Block) = ⟨x, n⟩
  rw [← hlow, Nat.xor_assoc, Nat.xor_self, Nat.xor_zero]

end Halves

section Steps

variable {cap : Nat} {s s' : Finset Block} {b b' : Block} {x a c : Nat} {live : Multiset Block}

/-- The halves of a block of the set are apart from the rest of it. -/
theorem halves_disjoint (hap : Apart s.val) (hb : ⟨x, c⟩ ∈ s) (hac : a ≤ c) :
    Disjoint (s.erase ⟨x, c⟩) (halves x a c) := by
  rw [Finset.disjoint_left]
  intro e he hh
  have hcell : e.start ∈ (⟨x, c⟩ : Block) := by
    have ht := tiles_halved x hac e.start
    rw [cover_cons] at ht
    have hpos : 0 < cover (halves x a c).val e.start := cover_pos.mpr ⟨e, hh, start_mem e⟩
    by_contra hno
    rw [if_neg hno] at ht
    omega
  exact (Finset.mem_erase.mp he).1
    (hap.eq_of_mem (Finset.mem_of_mem_erase he) hb (start_mem e) hcell)

/-- **A take is a step.** -/
theorem take_step (hap : Apart s.val) (hb : ⟨x, c⟩ ∈ s) (hac : a ≤ c) :
    Division.Step ⟨s.val, live⟩ ⟨(s.erase ⟨x, c⟩ ∪ halves x a c).val, ⟨x, a⟩ ::ₘ live⟩ := by
  have hold : s.val = ⟨x, c⟩ ::ₘ (s.erase ⟨x, c⟩).val := by
    rw [← Finset.insert_val_of_notMem (Finset.notMem_erase _ _), Finset.insert_erase hb]
  have hnew : (s.erase ⟨x, c⟩ ∪ halves x a c).val = (halves x a c).val + (s.erase ⟨x, c⟩).val := by
    rw [← Finset.disjUnion_eq_union _ _ (halves_disjoint hap hb hac), Finset.disjUnion_val, add_comm]
  rw [hnew, hold]
  exact .take (tiles_halved x hac)

/-- **What is left of a canonical set is one.** -/
theorem Canonical.take (h : Canonical cap s) (hb : ⟨x, c⟩ ∈ s) (hac : a ≤ c) :
    Canonical cap (s.erase ⟨x, c⟩ ∪ halves x a c) := by
  have hx : 2 ^ c ∣ x := h.aligned _ hb
  -- a smaller block at the start of the one taken was not in the set
  have hfirst : ∀ e ∈ s.erase ⟨x, c⟩, e.start ≠ x := by
    rintro ⟨y, n⟩ he rfl
    exact (Finset.mem_erase.mp he).1 (h.apart.eq_of_mem (Finset.mem_of_mem_erase he) hb
      (start_mem ⟨y, n⟩) (start_mem ⟨y, c⟩))
  refine ⟨fun e he => ?_, fun d => ?_, fun e he hlt hbuddy => ?_, fun e he => ?_⟩
  · rcases Finset.mem_union.mp he with he | he
    · exact h.aligned e (Finset.mem_of_mem_erase he)
    · exact (half_buddy hx he).1
  · have hstep := (@take_step s x a c 0 h.apart hb hac).cover d
    dsimp only at hstep
    rw [add_zero, Multiset.cons_zero, cover_add] at hstep
    have := h.apart d
    omega
  · rcases Finset.mem_union.mp he with ho | hh <;> rcases Finset.mem_union.mp hbuddy with ho' | hh'
    · exact h.coalesced e (Finset.mem_of_mem_erase ho) hlt (Finset.mem_of_mem_erase ho')
    · refine hfirst e ho ?_
      have := (half_buddy hx hh').2
      rw [Block.buddy_buddy] at this
      rw [this]
    · exact hfirst _ ho' (by rw [(half_buddy hx hh).2])
    · have hstart := (mem_halves.mp hh').2.2
      rw [(half_buddy hx hh).2] at hstart
      have := Nat.two_pow_pos e.log
      exact absurd hstart (Nat.ne_of_lt (Nat.lt_add_of_pos_right this))
  · rcases Finset.mem_union.mp he with he | he
    · exact h.capped e (Finset.mem_of_mem_erase he)
    · exact Nat.le_of_lt (Nat.lt_of_lt_of_le (mem_halves.mp he).2.1 (h.capped _ hb))

/-- A block as large as the one gathered is not taken. -/
theorem Gathers.keeps (h : Gathers s b s' b') {e : Block} (he : e ∈ s) (hle : b'.log ≤ e.log) : e ∈ s' := by
  induction h with
  | refl => exact he
  | @merge s' b' _ _ ih =>
      have hlt : b'.log < e.log := hle
      refine Finset.mem_erase.mpr ⟨?_, ih (Nat.le_of_lt hlt)⟩
      rintro rfl
      exact Nat.lt_irrefl _ hlt

/-- **A give is a step.** -/
theorem Gathers.give_step (h : Gathers s b s' b') (ha : b.Aligned) (hnot : b' ∉ s') :
    Division.Step ⟨s.val, b ::ₘ live⟩ ⟨(insert b' s').val, live⟩ := by
  obtain ⟨gone, hgone⟩ := Multiset.le_iff_exists_add.mp (Finset.val_le_iff.mpr h.subset)
  have ht : Tiles (b ::ₘ gone) b' := fun d => by
    have hd := h.cover_eq ha d
    rw [hgone, cover_add] at hd
    rw [cover_cons]
    omega
  rw [Finset.insert_val_of_notMem hnot, hgone, add_comm]
  exact .give ht

theorem Canonical.give (h : Canonical cap s) (hG : Gathers s b s' b') (ha : b.Aligned)
    (hout : ∀ d ∈ b, cover s.val d = 0) (hnot : b' ∉ s') (hlast : b'.log < cap → b'.buddy ∉ s')
    (hle : b'.log ≤ cap) : Canonical cap (insert b' s') := by
  have hS := hG.settles ha h.aligned h.apart hout hnot hlast
  refine ⟨hS.aligned, hS.apart, hS.coalesced h.coalesced, fun e he => ?_⟩
  rcases Finset.mem_insert.mp he with rfl | he
  · exact hle
  · exact h.capped e (hG.subset he)

end Steps

end DyadicBlocks
