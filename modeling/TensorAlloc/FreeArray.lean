/-
  File:      TensorAlloc/FreeArray.lean
  Subject:   Freeing into a sparse group: the 512 descriptors of one array.

  * `freeArray` -- the free blocks of the array: a descriptor that is linked on the list of an order,
    and not present, heads one;
  * `SparseArray`, `Allocated` -- the array before the free, and the block that is freed;
  * `Gathering` -- the invariant of the inner loop: the block it holds was gathered, in the sense of
    `Gathers`, from the freed one, and the counts went down with the blocks;
  * **`free_coalesces`** -- as written the free does not return; with the list as the list it settles
    the array.
-/
import TensorAlloc.Base.BuddySet
import TensorAlloc.FreeSparse

namespace TensorAlloc

open DyadicBlocks

/-! ## 1. The array -/

/-- `BIT(MAX_ITEM_RANGE + 1)`. -/
def arraySize : Nat := 2 ^ (maxItemRange + 1)

@[simp] theorem arraySize_eq : arraySize = 2 ^ 9 := rfl

/-- The free blocks of the array at `base`, from its first descriptor. Irreducible, as `nodeCells`
    is. -/
@[irreducible] def freeArray (st : State) (group : Group) (base : Item) : Finset Block :=
  ((Finset.range arraySize ×ˢ Finset.range (maxItemOrder + 1)).filter fun c =>
    base + c.1 ∈ st.lists (.groupCell group .movable c.2) ∧ presentBit st (base + c.1) = 0).image
      fun c => ⟨c.1, c.2⟩

theorem mem_freeArray {st : State} {group : Group} {base : Item} {b : Block} :
    b ∈ freeArray st group base ↔ b.start < arraySize ∧ b.log ≤ maxItemOrder ∧
      base + b.start ∈ st.lists (.groupCell group .movable b.log) ∧
      presentBit st (base + b.start) = 0 := by
  obtain ⟨X, k⟩ := b
  unfold freeArray
  simp only [Finset.mem_image, Finset.mem_filter, Finset.mem_product, Finset.mem_range,
    Nat.lt_succ_iff]
  constructor
  · rintro ⟨⟨X', k'⟩, ⟨⟨h1, h2⟩, h3⟩, e⟩
    simp only [Block.mk.injEq] at e
    obtain ⟨rfl, rfl⟩ := e
    exact ⟨h1, h2, h3⟩
  · exact fun h => ⟨(X, k), ⟨⟨h.1, h.2.1⟩, h.2.2⟩, rfl⟩

/-- `freeidx` is 0 or 512. -/
def Whole (x : ItemStruct) : Prop :=
  getItemFreeidx x.flags = 0 ∨ getItemFreeidx x.flags = arraySize

theorem Whole.not_partly {x : ItemStruct} (h : Whole x) : partlyFree x = false := by
  unfold partlyFree
  rw [decide_eq_false_iff_not]
  rintro ⟨h1, h2⟩
  rcases h with e | e
  · omega
  · exact absurd h2 (Nat.not_lt.mpr e.ge)

/-- The head of a free block of `2 ^ k` descriptors. -/
structure FreeHead (x : ItemStruct) (k : Nat) : Prop where
  order : getItemOrder x.flags = k
  movable : itemStateToMigration (getItemState x.flags) = some .sparseMovable
  whole : Whole x

/-- A free head passes both tests of the merge. -/
theorem FreeHead.buddy {x : ItemStruct} {k : Nat} (h : FreeHead x k)
    (hp : field .present x.flags = 0) (ho : x.onList.isSome = true) :
    itemIsBuddy x k = true ∧ buddyIsValid .sparseMovable x = true := by
  constructor
  · simp only [itemIsBuddy, itemIsPresent_eq, hp, h.order]
    simp
  · simp only [buddyIsValid, h.movable, ho]
    simp

/-- What is linked in the array and not present heads a free block, on the list of its order. -/
structure Entries (st : State) (group : Group) (base : Item) : Prop where
  linked : st.Linked
  heads : ∀ X < arraySize, ∀ h, (st.items (base + X)).onList = some h → presentBit st (base + X) = 0 →
    ∃ k ≤ maxItemOrder, h = .groupCell group .movable k ∧ FreeHead (st.items (base + X)) k

/-- The array before the free. What is linked and present is a table. -/
structure SparseArray (st : State) (group : Group) (base : Item) : Prop
    extends Entries st group base where
  aligned : ∀ b ∈ freeArray st group base, b.Aligned
  apart : Apart (freeArray st group base).val

/-- The allocated block of order `order` at descriptor `X` of the array, whose indices count from a
    multiple of the array's size. -/
structure Allocated (st : State) (group : Group) (base : Item) (X order : Nat) : Prop where
  inArray : X < arraySize
  small : order < maxItemOrder
  aligned : 2 ^ order ∣ X
  apart : ∀ d ∈ (⟨X, order⟩ : Block), cover (freeArray st group base).val d = 0
  present : presentBit st (base + X) = 1
  unlinked : (st.items (base + X)).onList = none
  whole : Whole (st.items (base + X))
  below : st.tables.phyItemStruct (getItemNode (st.items (base + X)).flags) ≤ base
  origin : arraySize ∣ base - st.tables.phyItemStruct (getItemNode (st.items (base + X)).flags)

/-- The tables, linked and present, are as they were, and on the lists they were on. -/
structure TablesKept (st st' : State) : Prop where
  items : ∀ i, (st.items i).onList.isSome = true → presentBit st i ≠ 0 → st'.items i = st.items i
  lists : ∀ h, (st'.lists h).filter (fun i => decide (presentBit st' i ≠ 0)) =
    (st.lists h).filter fun i => decide (presentBit st i ≠ 0)

/-! ## 2. Indices within the array -/

section Index

variable {A Y k : Nat}

/-- The buddy and the pair, counted from a multiple of the array's size. -/
theorem shifted_buddy (hA : arraySize ∣ A) (hk : k ≤ maxItemOrder) (hY : 2 ^ k ∣ Y) :
    (A + Y) ^^^ 2 ^ k = A + (Y ^^^ 2 ^ k) ∧
      ((A + Y) ^^^ 2 ^ k) &&& (A + Y) = A + ((Y ^^^ 2 ^ k) &&& Y) := by
  rw [arraySize_eq] at hA
  rw [maxItemOrder_eq] at hk
  have h0 : 2 ^ k ∣ A := (Nat.pow_dvd_pow 2 (by omega)).trans hA
  have h1 : 2 ^ (k + 1) ∣ A := (Nat.pow_dvd_pow 2 (by omega)).trans hA
  rcases buddy_cases hY with ⟨hd, e, e'⟩ | ⟨hle, -, hno, e, e'⟩ <;>
    rcases buddy_cases (Nat.dvd_add h0 hY) with ⟨hd', f, f'⟩ | ⟨-, -, hno', f, f'⟩
  · exact ⟨by rw [e, f, Nat.add_assoc], by rw [e', f']⟩
  · exact absurd (Nat.dvd_add h1 hd) hno'
  · exact absurd ((Nat.dvd_add_right h1).mp hd') hno
  · exact ⟨by rw [e, f, Nat.add_sub_assoc hle], by rw [e', f', Nat.add_sub_assoc hle]⟩

theorem shift_array (base A x y : Nat) : base + x + (A + y) - (A + x) = base + y := by omega

theorem buddy_lt (hk : k ≤ maxItemOrder) (hY : Y < arraySize) : Y ^^^ 2 ^ k < arraySize := by
  rw [arraySize_eq] at hY ⊢
  rw [maxItemOrder_eq] at hk
  exact Nat.xor_lt_two_pow hY (Nat.pow_lt_pow_right (by decide) (by omega))

end Index

/-! ## 3. The merge -/

/-- What the loop does to the array: the block of `v`, at descriptor `Y`, was gathered from `given`. -/
structure Gathering (st0 : State) (group : Group) (base : Item) (A : Nat) (given : Block)
    (st : State) (Y : Nat) (v : MergeVars) : Prop where
  entries : Entries st group base
  run : Gathers (freeArray st0 group base) given (freeArray st group base) ⟨Y, v.order⟩
  item : v.item = base + Y
  inArray : Y < arraySize
  idx : v.idx = A + Y
  orderIndex : v.orderIndex = v.order
  le : v.order ≤ maxItemOrder
  unlinked : (st.items (base + Y)).onList = none
  whole : Whole (st.items (base + Y))
  cleared : v.order = maxItemOrder → presentBit st (base + Y) = 0
  counts : ∀ k, st.counts (.groupCell group .movable k) +
      BitVec.ofNat 64 (sizeCount (freeArray st0 group base) k) =
    st0.counts (.groupCell group .movable k) +
      BitVec.ofNat 64 (sizeCount (freeArray st group base) k)
  tables : ∀ i, (st0.items i).onList.isSome = true → presentBit st0 i ≠ 0 →
    st.items i = st0.items i
  present : ∀ h, ∀ i ∈ st.lists h, presentBit st i = presentBit st0 i
  rows : ∀ h, (st.lists h).filter (fun i => decide (presentBit st0 i ≠ 0)) =
    (st0.lists h).filter fun i => decide (presentBit st0 i ≠ 0)

section Merge

variable {st0 st st' : State} {group : Group} {base : Item} {A Y lvl : Nat} {given : Block}
  {v v' : MergeVars}

/-- An unlinked descriptor heads no free block. -/
theorem not_mem_freeArray (hE : Entries st group base) (hun : (st.items (base + Y)).onList = none)
    {k : Nat} : (⟨Y, k⟩ : Block) ∉ freeArray st group base := by
  intro h
  obtain ⟨-, -, hin, -⟩ := mem_freeArray.mp h
  have hon := (hE.linked.mem (base + Y) _).mpr hin
  rw [hun] at hon
  cases hon

/-- The set of free blocks is read from the lists and the present bits of what is linked. -/
theorem freeArray_congr (hl : st'.lists = st.lists)
    (hp : ∀ h, ∀ i ∈ st.lists h, presentBit st' i = presentBit st i) :
    freeArray st' group base = freeArray st group base := by
  ext b
  rw [mem_freeArray, mem_freeArray, hl]
  constructor
  · rintro ⟨h1, h2, h3, h4⟩
    exact ⟨h1, h2, h3, (hp _ _ h3).symm.trans h4⟩
  · rintro ⟨h1, h2, h3, h4⟩
    exact ⟨h1, h2, h3, (hp _ _ h3).trans h4⟩

/-- Writing the flags of an unlinked descriptor, its `freeidx` apart, changes none of it. -/
theorem Gathering.clear (h : Gathering st0 group base A given st Y v) :
    Gathering st0 group base A given (st.modFlags v.item clearItemPresent) Y v := by
  have hitems : ∀ i, i ≠ base + Y → (st.modFlags v.item clearItemPresent).items i = st.items i := by
    intro i hi
    rw [State.modFlags_items, h.item, if_neg hi]
  have hne : ∀ l, ∀ i ∈ st.lists l, i ≠ base + Y :=
    fun l i hi => h.entries.linked.ne_of_mem h.unlinked hi
  have hfree : freeArray (st.modFlags v.item clearItemPresent) group base =
      freeArray st group base :=
    freeArray_congr rfl fun l i hi => by
      unfold presentBit
      rw [hitems i (hne l i hi)]
  have hon : ((st.modFlags v.item clearItemPresent).items (base + Y)).onList = none := by
    rw [modFlags_onList]
    exact h.unlinked
  refine ⟨⟨h.entries.linked.modFlags _ _, fun X hX l hl hp => ?_⟩, ?_, h.item, h.inArray, h.idx,
    h.orderIndex, h.le, hon, ?_, fun _ => ?_, fun k => ?_, fun i hi hp => ?_, fun l i hi => ?_, h.rows⟩
  · have hXY : base + X ≠ base + Y := by
      intro e
      rw [e, hon] at hl
      cases hl
    unfold presentBit at hp
    rw [hitems _ hXY] at hl hp ⊢
    exact h.entries.heads X hX l hl hp
  · rw [hfree]
    exact h.run
  · have hw := h.whole
    unfold Whole at hw ⊢
    rw [h.item, State.modFlags_items, if_pos rfl]
    simpa using hw
  · unfold presentBit
    rw [h.item, State.modFlags_items, if_pos rfl]
    simp
  · rw [hfree]
    exact h.counts k
  · have hsame := h.tables i hi hp
    rw [hitems i ?_, hsame]
    intro e
    subst e
    rw [← hsame, h.unlinked] at hi
    cases hi
  · rw [← h.present l i hi]
    unfold presentBit
    rw [hitems i (hne l i hi)]

/-- What the loop reads and writes, by descriptor of the array. -/
theorem Gathering.page (h : Gathering st0 group base A given st Y v) (hA : arraySize ∣ A)
    (hgiven : given.Aligned) :
    v.item + nextBuddyIdx v.idx v.orderIndex - v.idx = base + (Y ^^^ 2 ^ v.order) ∧
      combinedItem v (nextBuddyIdx v.idx v.orderIndex) = base + ((Y ^^^ 2 ^ v.order) &&& Y) ∧
      nextBuddyIdx v.idx v.orderIndex &&& v.idx = A + ((Y ^^^ 2 ^ v.order) &&& Y) := by
  have hY : 2 ^ v.order ∣ Y := h.run.aligned hgiven
  obtain ⟨e, e'⟩ := shifted_buddy hA h.le hY
  unfold combinedItem nextBuddyIdx
  rw [h.item, h.idx, h.orderIndex, e', e]
  exact ⟨shift_array _ _ _ _, shift_array _ _ _ _, rfl⟩

/-- A free head that passes the test of the merge is a free block of the order. -/
theorem Entries.buddy (hE : Entries st group base) {P k : Nat} (hP : P < arraySize)
    (hb : itemIsBuddy (st.items (base + P)) k = true)
    (hv : buddyIsValid .sparseMovable (st.items (base + P)) = true) :
    (⟨P, k⟩ : Block) ∈ freeArray st group base ∧
      (st.items (base + P)).onList = some (.groupCell group .movable k) ∧ Whole (st.items (base + P)) := by
  obtain ⟨l, hl⟩ := Option.isSome_iff_exists.mp (Bool.and_eq_true_iff.mp hv).1
  simp only [itemIsBuddy, itemIsPresent_eq, Bool.and_eq_true, Bool.not_eq_true',
    decide_eq_false_iff_not, ne_eq, not_not, decide_eq_true_eq] at hb
  obtain ⟨j, hj, rfl, hhead⟩ := hE.heads P hP l hl hb.1
  obtain rfl : j = k := hhead.order.symm.trans hb.2.symm
  exact ⟨mem_freeArray.mpr ⟨hP, hj, (hE.linked.mem _ _).mp hl, hb.1⟩, hl, hhead.whole⟩

/-- What a merge does to the array: the free block of order `k` at `P` leaves its list, the block held
    is at `Y`. -/
structure BuddyTaken (st st' : State) (group : Group) (base : Item) (Y P k : Nat) : Prop where
  listed : (⟨P, k⟩ : Block) ∈ freeArray st group base
  onList : (st.items (base + P)).onList = some (.groupCell group .movable k)
  off : BuddyOff st st' (.groupCell group .movable k) (base + P) (base + Y)
  present : ∀ i, presentBit st' i = presentBit st i
  others : ∀ i, i ≠ base + P → i ≠ base + Y → st'.items i = st.items i
  counts : ∀ h, st'.counts h = st.counts h - if h = .groupCell group .movable k then 1 else 0

section BuddyTaken

variable {P k : Nat}

theorem BuddyTaken.freeArray (h : BuddyTaken st st' group base Y P k) (hE : Entries st group base) :
    freeArray st' group base = (freeArray st group base).erase ⟨P, k⟩ := by
  ext b
  rw [Finset.mem_erase, mem_freeArray, mem_freeArray, h.off.mem_lists hE.linked h.onList, h.present]
  constructor
  · rintro ⟨h1, h2, ⟨h3, h4⟩, h5⟩
    exact ⟨fun e => h4 (by rw [e]), h1, h2, h3, h5⟩
  · rintro ⟨h0, h1, h2, h3, h4⟩
    refine ⟨h1, h2, ⟨h3, fun e => h0 ?_⟩, h4⟩
    have hon := (hE.linked.mem _ _).mpr h3
    rw [e, h.onList, Option.some.injEq, ListHead.groupCell.injEq] at hon
    obtain ⟨X, j⟩ := b
    have hX : X = P := Nat.add_left_cancel e
    have hj : k = j := hon.2.2
    rw [hX, hj]

theorem BuddyTaken.entries (h : BuddyTaken st st' group base Y P k) (hE : Entries st group base)
    (hun : (st'.items (base + Y)).onList = none) : Entries st' group base where
  linked := h.off.linked
  heads X hX l hl hp := by
    have hX1 : base + X ≠ base + P := fun e => by
      rw [e, h.off.page] at hl
      cases hl
    have hX2 : base + X ≠ base + Y := fun e => by
      rw [e, hun] at hl
      cases hl
    rw [h.present] at hp
    rw [h.others _ hX1 hX2] at hl ⊢
    exact hE.heads X hX l hl hp

/-- The count of the order goes down with the block. -/
theorem BuddyTaken.counts_eq (h : BuddyTaken st st' group base Y P k) (hE : Entries st group base) {j : Nat}
    {c n : Word} (hc : st.counts (.groupCell group .movable j) + n =
      c + BitVec.ofNat 64 (sizeCount (TensorAlloc.freeArray st group base) j)) :
    st'.counts (.groupCell group .movable j) + n =
      c + BitVec.ofNat 64 (sizeCount (TensorAlloc.freeArray st' group base) j) := by
  have hN := sizeCount_erase h.listed j
  rw [h.counts, h.freeArray hE]
  by_cases hj : j = k
  · subst hj
    have hone : BitVec.ofNat 64 1 = 1 := rfl
    rw [if_pos rfl] at hN ⊢
    rw [← hN, BitVec.ofNat_add, hone] at hc
    rw [sub_add_eq_add_sub, hc, ← add_assoc, add_sub_cancel_right]
  · rw [if_neg fun e => hj e.symm, Nat.add_zero] at hN
    rw [if_neg (by simpa using hj), sub_zero, hN]
    exact hc

/-- The other entries of a list stay, in their order. -/
theorem BuddyTaken.rows (h : BuddyTaken st st' group base Y P k) (hE : Entries st group base)
    {p : Item → Bool} (hp : p (base + P) = false) (l : ListHead) :
    (st'.lists l).filter p = (st.lists l).filter p := by
  rw [h.off.lists]
  split
  · next e =>
      rw [e, (hE.linked.nodup _).erase_eq_filter, List.filter_filter]
      refine List.filter_congr fun i _ => ?_
      by_cases hi : i = base + P
      · simp [hi, hp]
      · simp [hi]
  · rfl

end BuddyTaken

/-- The pair starts at the block or at its buddy. -/
theorem pair_cases {k : Nat} (hY : 2 ^ k ∣ Y) :
    ((Y ^^^ 2 ^ k) &&& Y = Y ∨ (Y ^^^ 2 ^ k) &&& Y = Y ^^^ 2 ^ k) ∧ Y ^^^ 2 ^ k ≠ Y :=
  ⟨xor_land_cases Y k, fun e => buddy_start_not_mem hY (by rw [e]; exact start_mem ⟨Y, k⟩)⟩

theorem Gathering.taken (h : Gathering st0 group base A given st Y v) (hA : arraySize ∣ A)
    (hgiven : given.Aligned) (hb : itemIsBuddy (st.items (base + (Y ^^^ 2 ^ v.order))) v.order = true)
    (hv : buddyIsValid .sparseMovable (st.items (base + (Y ^^^ 2 ^ v.order))) = true)
    (hm : mergeBuddy st group .sparseMovable v (nextBuddyIdx v.idx v.orderIndex)
      (v.item + nextBuddyIdx v.idx v.orderIndex - v.idx) = some (st', v')) :
    BuddyTaken st st' group base Y (Y ^^^ 2 ^ v.order) v.order := by
  have hpage := (h.page hA hgiven).1
  obtain ⟨-, hdiff⟩ := pair_cases (h.run.aligned hgiven)
  obtain ⟨hfree, hl, -⟩ := h.entries.buddy (buddy_lt h.le h.inArray) hb hv
  have hne : base + (Y ^^^ 2 ^ v.order) ≠ v.item := by
    rw [h.item]
    exact fun e => hdiff (Nat.add_left_cancel e)
  have hothers := mergeBuddy_others hm
  rw [hpage] at hm hothers
  exact ⟨hfree, hl, h.item ▸ mergeBuddy_off h.entries.linked hl hne hm, mergeBuddy_present hm,
    fun i h1 h2 => hothers i h1 (by rw [h.item]; exact h2), mergeBuddy_counts hm⟩

/-- **One merge**: a free head of the order leaves its list, and the block is the pair. -/
theorem Gathering.merge (h : Gathering st0 group base A given st Y v) (hA : arraySize ∣ A)
    (hgiven : given.Aligned) (hlt : v.order < maxItemOrder) (hclear : presentBit st (base + Y) = 0)
    (hb : itemIsBuddy (st.items (base + (Y ^^^ 2 ^ v.order))) v.order = true)
    (hv : buddyIsValid .sparseMovable (st.items (base + (Y ^^^ 2 ^ v.order))) = true)
    (hm : mergeBuddy st group .sparseMovable v (nextBuddyIdx v.idx v.orderIndex)
      (v.item + nextBuddyIdx v.idx v.orderIndex - v.idx) = some (st', v')) :
    ∃ Y', Gathering st0 group base A given st' Y' v' ∧ v'.order = v.order + 1 := by
  obtain ⟨hpage, hcomb, hidx⟩ := h.page hA hgiven
  obtain ⟨hstart, hdiff⟩ := pair_cases (h.run.aligned hgiven)
  obtain ⟨hfree, -, hwhole⟩ := h.entries.buddy (buddy_lt h.le h.inArray) hb hv
  have habsent := (mem_freeArray.mp hfree).2.2.2
  have habsent0 := (mem_freeArray.mp (h.run.subset hfree)).2.2.2
  have hT := h.taken hA hgiven hb hv hm
  rw [hpage] at hm
  have hfreeidx := mergeBuddy_freeidx hm fun e => hdiff (Nat.add_left_cancel (e.trans h.item))
  have hun : (st'.items (base + Y)).onList = none := hT.off.head.trans h.unlinked
  obtain ⟨-, -, rfl, -⟩ := mergeBuddy_eq hm
  -- the head of the pair is the block's, or the buddy's
  have hhead : ((Y ^^^ 2 ^ v.order) &&& Y < arraySize ∧
      (st'.items (base + ((Y ^^^ 2 ^ v.order) &&& Y))).onList = none) ∧
      Whole (st'.items (base + ((Y ^^^ 2 ^ v.order) &&& Y))) ∧
      presentBit st (base + ((Y ^^^ 2 ^ v.order) &&& Y)) = 0 := by
    rw [hcomb, h.item] at hfreeidx
    rcases hstart with e | e <;> rw [e] at hfreeidx ⊢
    · exact ⟨⟨h.inArray, hun⟩, .inl (hfreeidx.2 rfl), hclear⟩
    · refine ⟨⟨buddy_lt h.le h.inArray, hT.off.page⟩, ?_, habsent⟩
      unfold Whole at hwhole ⊢
      rw [getItemFreeidx, hfreeidx.1 rfl]
      exact hwhole
  refine ⟨_, ⟨hT.entries h.entries hun, ?_, hcomb, hhead.1.1, hidx, ?_, hlt, hhead.1.2, hhead.2.1,
    fun _ => (hT.present _).trans hhead.2.2, fun j => hT.counts_eq h.entries (h.counts j),
    fun i hi hp => ?_, fun l i hi => ?_, fun l => ?_⟩, rfl⟩
  · rw [hT.freeArray h.entries]
    exact .merge h.run hfree
  · show v.orderIndex + 1 = v.order + 1
    rw [h.orderIndex]
  · have hsame := h.tables i hi hp
    have hin := hi
    rw [← hsame] at hin
    rw [hT.others i, hsame]
    · rintro rfl
      exact hp habsent0
    · rintro rfl
      rw [h.unlinked] at hin
      cases hin
  · have hold := (hT.off.mem_lists h.entries.linked hT.onList).mp hi
    exact (hT.present i).trans (h.present l i hold.1)
  · rw [hT.rows h.entries (decide_eq_false (not_not.mpr habsent0)), h.rows l]

theorem Gathering.setBuddy (h : Gathering st0 group base A given st Y v) (b : Option (Nat × Item)) :
    Gathering st0 group base A given st Y { v with buddy := b } :=
  ⟨h.entries, h.run, h.item, h.inArray, h.idx, h.orderIndex, h.le, h.unlinked, h.whole, h.cleared,
    h.counts, h.tables, h.present, h.rows⟩

/-- What the loop leaves: a block whose buddy is not free, below the cap of the level. -/
structure Collected (st0 : State) (group : Group) (base : Item) (A : Nat) (given : Block) (lvl : Nat)
    (st : State) (Y : Nat) (v : MergeVars) (exit : MergeExit) : Prop where
  gathering : Gathering st0 group base A given st Y v
  absent : presentBit st (base + Y) = 0
  last : v.order < sparseCap lvl → (⟨Y, v.order⟩ : Block).buddy ∉ freeArray st group base
  buddy : exit = .done → v.order < orderSub maxItemOrder 2 → v.buddy.isSome = true

/-- **Step: a round of the inner loop merges, or leaves.** -/
theorem Gathering.step {e : Option MergeExit} (h : Gathering st0 group base A given st Y v)
    (hA : arraySize ∣ A) (hgiven : given.Aligned)
    (hs : mergeStep group .sparseMovable maxItemOrder (decide ((lvl : Int) = 0)) st v =
      some (st', v', e)) :
    (e = none ∧ ∃ Y', Gathering st0 group base A given st' Y' v' ∧ v'.order = v.order + 1) ∨
      ∃ exit, e = some exit ∧ Collected st0 group base A given lvl st' Y v' exit := by
  have hcap : sparseCap lvl ≤ maxItemOrder := by
    unfold sparseCap
    split
    · exact Nat.sub_le _ _
    · exact Nat.le_refl _
  have hsub1 : orderSub maxItemOrder 1 = maxItemOrder - 1 := rfl
  have hsub2 : orderSub maxItemOrder 2 = maxItemOrder - 2 := rfl
  have hC := h.clear
  have habsent : presentBit (st.modFlags v.item clearItemPresent) (base + Y) = 0 := by
    unfold presentBit
    rw [h.item, State.modFlags_items, if_pos rfl]
    simp
  have hpage := (h.page hA hgiven).1
  rcases mergeStep_cases hs with ⟨h1, rfl, rfl, rfl⟩ | ⟨-, rfl, rfl, rfl, h1⟩ |
    ⟨-, -, rfl, rfl, rfl, h1⟩ | ⟨h1, -, -, rfl, -, hb, hv, hm⟩
  · -- the order has reached the last list
    have hle := h.le
    have h8 : v'.order = maxItemOrder := by
      simp only [maxItemOrder_eq] at h1 hsub1 hle ⊢
      omega
    refine .inr ⟨.done, rfl, h, h.cleared h8, fun hlt => ?_, fun _ hlt => ?_⟩
    · omega
    · rw [hsub2, maxItemOrder_eq] at hlt
      simp only [maxItemOrder_eq] at h8
      omega
  · refine .inr ⟨.direct, rfl, hC, habsent, fun hlt => ?_, fun hc => by cases hc⟩
    rcases h1 with h1 | ⟨htop, h1⟩ | h1
    · cases h1
    · -- one order early on level 0
      have h0 : lvl = 0 := by exact_mod_cast of_decide_eq_true htop
      have hcap0 : sparseCap lvl = maxItemOrder - 1 := if_pos h0
      omega
    · have hwhole := hC.whole.not_partly
      rw [← h.item, h1] at hwhole
      cases hwhole
  · refine .inr ⟨.done, rfl, hC.setBuddy _, habsent, fun _ hin => h1 ?_, fun _ _ => rfl⟩
    rw [hpage]
    obtain ⟨hlt, hk, hmem, hp⟩ := mem_freeArray.mp hin
    have hon := (hC.entries.linked.mem _ _).mpr hmem
    obtain ⟨k, -, hl, hhead⟩ := hC.entries.heads _ hlt _ hon hp
    obtain rfl : v.order = k := by
      rw [ListHead.groupCell.injEq] at hl
      exact hl.2.2
    exact hhead.buddy hp (by
      show ((_ : State).items (base + (⟨Y, v.order⟩ : Block).buddy.start)).onList.isSome = true
      rw [hon]
      rfl)
  · rw [hpage] at hb hv
    refine .inl ⟨rfl, hC.merge hA hgiven ?_ habsent hb hv hm⟩
    simp only [maxItemOrder_eq] at h1 hsub1 ⊢
    omega

/-- Run: the inner loop ends in a block gathered from the freed one. -/
theorem Gathering.loop {n : Nat} (h : Gathering st0 group base A given st Y v) (hA : arraySize ∣ A)
    (hgiven : given.Aligned) (hn : maxItemOrder < v.order + n) :
    ∃ st' Y' v' exit, mergeLoop group .sparseMovable maxItemOrder (decide ((lvl : Int) = 0)) n st v =
      some (st', v', exit) ∧ Collected st0 group base A given lvl st' Y' v' exit := by
  have hle := h.le
  obtain ⟨⟨st', v', exit⟩, hs⟩ := mergeLoop_total group .sparseMovable (decide ((lvl : Int) = 0))
    (show 1 ≤ maxItemOrder by decide) (Nat.le_succ _) st v hn (by omega)
  have hC : ∃ Y', Collected st0 group base A given lvl st' Y' v' exit := by
    refine mergeLoop_rule (fun s w => ∃ Y', Gathering st0 group base A given s Y' w)
      (fun s w exit => ∃ Y', Collected st0 group base A given lvl s Y' w exit)
      (fun ⟨Y, h⟩ hstep => ?_) (fun ⟨Y, h⟩ hstep => ?_) hs ⟨Y, h⟩
    · rcases h.step hA hgiven hstep with ⟨-, Y', h', -⟩ | ⟨_, he, -⟩
      · exact ⟨Y', h'⟩
      · cases he
    · rcases h.step hA hgiven hstep with ⟨he, -⟩ | ⟨_, he, h'⟩
      · cases he
      · cases he
        exact ⟨Y, h'⟩
  obtain ⟨Y', hC⟩ := hC
  exact ⟨st', Y', v', exit, hs, hC⟩

end Merge

/-! ## 4. The insertion -/

section Insert

variable {st0 st st' : State} {group : Group} {base : Item} {A Y lvl : Nat} {given : Block}
  {v : MergeVars} {exit : MergeExit} {tail : Bool}

/-- The block the loop left becomes a free block. -/
theorem Collected.freeArray (h : Collected st0 group base A given lvl st Y v exit)
    (hi : insertFreed .listFirst group .sparseMovable lvl tail st v = some st') :
    freeArray st' group base = insert ⟨Y, v.order⟩ (freeArray st group base) := by
  have hG := h.gathering
  obtain ⟨hitems, hsame⟩ := insertFreed_items hi
  have hlists := insertFreed_lists hi
  rw [hG.item] at hitems hsame hlists
  have hp : ∀ i, presentBit st' i = presentBit st i := by
    intro i
    unfold presentBit
    by_cases e : i = base + Y
    · rw [e, hsame]
    · rw [hitems i e]
  have hmem : ∀ l i, i ∈ st'.lists l ↔
      (l = .groupCell group .movable v.order ∧ i = base + Y) ∨ i ∈ st.lists l := by
    intro l i
    rw [(hlists l).mem_iff]
    split
    · next e => simp [e]
    · next e => simp [e]
  ext b
  rw [Finset.mem_insert, mem_freeArray, mem_freeArray, hmem, hp]
  constructor
  · rintro ⟨h1, h2, ⟨hl, e⟩ | h3, h4⟩
    · obtain ⟨X, k⟩ := b
      have hX : X = Y := Nat.add_left_cancel e
      have hk : k = v.order := (ListHead.groupCell.inj hl).2.2
      exact .inl (by rw [hX, hk])
    · exact .inr ⟨h1, h2, h3, h4⟩
  · rintro (rfl | ⟨h1, h2, h3, h4⟩)
    · exact ⟨hG.inArray, hG.le, .inl ⟨rfl, rfl⟩, h.absent⟩
    · exact ⟨h1, h2, .inr h3, h4⟩

/-- The counts went with the blocks. -/
theorem Collected.counts (h : Collected st0 group base A given lvl st Y v exit)
    (hi : insertFreed .listFirst group .sparseMovable lvl tail st v = some st') (k : Nat) :
    st'.counts (.groupCell group .movable k) +
        BitVec.ofNat 64 (sizeCount (TensorAlloc.freeArray st0 group base) k) =
      st0.counts (.groupCell group .movable k) +
        BitVec.ofNat 64 (sizeCount (TensorAlloc.freeArray st' group base) k) := by
  have hc := h.gathering.counts k
  have hnot := @not_mem_freeArray st group base Y h.gathering.entries h.gathering.unlinked v.order
  rw [insertFreed_counts hi, h.freeArray hi, sizeCount_insert hnot]
  by_cases hk : v.order = k
  · subst hk
    rw [if_pos rfl, if_pos rfl, BitVec.ofNat_add, add_right_comm, hc, add_assoc]
    rfl
  · rw [if_neg hk, if_neg (by simpa using Ne.symm hk), Nat.add_zero, add_zero]
    exact hc

theorem Collected.tables (h : Collected st0 group base A given lvl st Y v exit)
    (hi : insertFreed .listFirst group .sparseMovable lvl tail st v = some st') :
    TablesKept st0 st' := by
  have hG := h.gathering
  obtain ⟨hitems, hsame⟩ := insertFreed_items hi
  rw [hG.item] at hitems hsame
  have hne : ∀ l, ∀ i ∈ st.lists l, i ≠ base + Y :=
    fun l i hi => hG.entries.linked.ne_of_mem hG.unlinked hi
  constructor
  · intro i hon hp
    have he := hG.tables i hon hp
    rw [hitems i, he]
    rintro rfl
    rw [← he, hG.unlinked] at hon
    cases hon
  · intro l
    have hown : decide (presentBit st' (base + Y) ≠ 0) = false := by
      unfold presentBit
      rw [hsame]
      exact decide_eq_false (not_not.mpr h.absent)
    have hold : (st.lists l).filter (fun i => decide (presentBit st' i ≠ 0)) =
        (st0.lists l).filter fun i => decide (presentBit st0 i ≠ 0) := by
      rw [← hG.rows l]
      refine List.filter_congr fun i hi => ?_
      rw [← hG.present l i hi]
      unfold presentBit
      rw [hitems i (hne l i hi)]
    have hlists : st'.lists l = st.lists l ∨ st'.lists l = (base + Y) :: st.lists l ∨
        st'.lists l = st.lists l ++ [base + Y] := by
      rw [insertFreed_listFirst, Option.some.injEq] at hi
      subst hi
      rw [← hG.item]
      by_cases hl : l = .groupCell group .movable v.order
      · subst hl
        cases tail
        · exact .inr (.inl (by simp))
        · exact .inr (.inr (by simp))
      · cases tail
        · exact .inl (by simp [hl])
        · exact .inl (by simp [hl])
    rw [← hold]
    rcases hlists with e | e | e
    · rw [e]
    · rw [e, List.filter_cons, hown]
      rfl
    · rw [e, List.filter_append, List.filter_cons, hown]
      exact List.append_nil _

end Insert

/-! ## 5. The free -/

/-- What the free leaves of the array, of the counts and of the tables. -/
structure ArrayFreed (st : State) (group : Group) (base : Item) (lvl : Nat) (given : Block)
    (st' : State) : Prop where
  settled : Settled (sparseCap lvl) (freeArray st group base) given (freeArray st' group base)
  counts : ∀ k, st'.counts (.groupCell group .movable k) +
      BitVec.ofNat 64 (sizeCount (freeArray st group base) k) =
    st.counts (.groupCell group .movable k) +
      BitVec.ofNat 64 (sizeCount (freeArray st' group base) k)
  tables : TablesKept st st'

section Free

variable {st : State} {group : Group} {base : Item} {X order : Nat}

/-- What the loop starts from. -/
theorem Gathering.start (hE : Entries st group base) (hB : Allocated st group base X order) (A : Nat) :
    Gathering st group base A ⟨X, order⟩ st X ⟨base + X, A + X, order, order, none⟩ :=
  ⟨hE, .refl, rfl, hB.inArray, rfl, rfl, Nat.le_of_lt hB.small, hB.unlinked, hB.whole,
    fun e => absurd e hB.small.ne, fun _ => rfl, fun _ _ _ => rfl, fun _ _ _ => rfl, fun _ => rfl⟩

/-- **A sparse free coalesces**: as written it does not return; with the list as the list it always
    does, and settles the array. -/
theorem free_coalesces (hS : SparseArray st group base) (hB : Allocated st group base X order)
    (lvl : Nat) :
    freeGroupMigration .written st (base + X) group lvl order .sparseMovable = none ∧
      ∃ st' i, freeGroupMigration .listFirst st (base + X) group lvl order .sparseMovable =
        some (st', i) ∧ ArrayFreed st group base lvl ⟨X, order⟩ st' := by
  refine ⟨freeGroupMigration_written st (base + X) group lvl order _, ?_⟩
  obtain ⟨A, hA⟩ : ∃ A, A = base - st.tables.phyItemStruct (getItemNode (st.items (base + X)).flags) :=
    ⟨_, rfl⟩
  have hbelow := hB.below
  have hA9 : arraySize ∣ A := hA ▸ hB.origin
  obtain ⟨st1, Y, v, exit, hloop, hG⟩ := @Gathering.loop st st group base A X lvl ⟨X, order⟩ _ mergeBound
    (Gathering.start hS.toEntries hB A) hA9 hB.aligned (by show 8 < order + 65; omega)
  obtain ⟨tail, st', hins, hleave⟩ := leavePass_stays group .sparseMovable lvl maxItemOrder st1
    hG.buddy fun _ => .inr rfl
  have hidx : itemToRelIdx st (base + X) (getItemNode (st.items (base + X)).flags) = some (A + X) := by
    unfold itemToRelIdx
    rw [if_pos (Nat.le_add_right_of_le hbelow), Nat.sub_add_comm hbelow, hA]
  refine ⟨st', v.item, ?_, ?_, hG.counts hins, hG.tables hins⟩
  · unfold freeGroupMigration
    refine freeLoop_inserted ?_
    rw [if_pos rfl, freePass_of hidx (if_pos rfl) (if_pos rfl) hloop]
    exact hleave
  · rw [hG.freeArray hins]
    exact hG.gathering.run.settles hB.aligned hS.aligned hS.apart hB.apart
      (not_mem_freeArray hG.gathering.entries hG.gathering.unlinked) hG.last

end Free

/-! ## 6. One allocated descriptor -/

/-- An array of level 1: descriptor 0 is allocated, its buddy is free. -/
def halfFree : State :=
  (oneBlock (.groupCell (.vir 0 1) .movable 0) 1).modFlags 0 setItemPresent

theorem halfFree_mem {k : Nat} {i : Item} :
    i ∈ halfFree.lists (.groupCell (.vir 0 1) .movable k) ↔ k = 0 ∧ i = 1 := by
  show i ∈ (oneBlock (.groupCell (.vir 0 1) .movable 0) 1).lists _ ↔ _
  rw [oneBlock_lists]
  by_cases hk : k = 0
  · simp [hk]
  · simp [hk]

theorem halfFree_onList {i : Item} {h : ListHead} (ho : (halfFree.items i).onList = some h) :
    i = 1 ∧ h = .groupCell (.vir 0 1) .movable 0 := by
  by_cases hi : i = 1
  · subst hi
    exact ⟨rfl, (Option.some.inj ho).symm⟩
  · rw [halfFree, modFlags_onList] at ho
    simp [oneBlock, zeroed, hi] at ho

theorem halfFree_free : freeArray halfFree (.vir 0 1) 0 = {⟨1, 0⟩} := by
  ext b
  rw [mem_freeArray, Finset.mem_singleton, halfFree_mem, Nat.zero_add]
  constructor
  · rintro ⟨-, -, ⟨hk, hX⟩, -⟩
    obtain ⟨X, k⟩ := b
    dsimp only at hk hX
    rw [hk, hX]
  · rintro rfl
    exact ⟨by decide, by decide, ⟨rfl, rfl⟩, by decide +kernel⟩

theorem halfFree_array : SparseArray halfFree (.vir 0 1) 0 where
  linked := (oneBlock_linked _ _).modFlags 0 _
  heads X _ h ho _ := by
    obtain ⟨hX, hh⟩ := halfFree_onList ho
    refine ⟨0, Nat.zero_le _, hh, ?_⟩
    rw [hX]
    exact ⟨by decide +kernel, by decide +kernel, .inl (by decide +kernel)⟩
  aligned b hb := by
    rw [halfFree_free, Finset.mem_singleton] at hb
    rw [hb]
    exact ⟨1, rfl⟩
  apart := by
    rw [halfFree_free]
    exact (tiles_self ⟨1, 0⟩).apart

theorem halfFree_allocated : Allocated halfFree (.vir 0 1) 0 0 0 where
  inArray := by decide
  small := by decide
  aligned := ⟨0, rfl⟩
  apart d hd := by
    rw [halfFree_free]
    obtain rfl : d = 0 := Nat.lt_one_iff.mp hd.2
    rfl
  present := by decide +kernel
  unlinked := rfl
  whole := .inl (by decide +kernel)
  below := Nat.le_refl 0
  origin := ⟨0, rfl⟩

/-- The pair is whole again, on the list of order 1. -/
theorem halfFree_coalesces :
    freeGroupMigration .written halfFree (0 + 0) (.vir 0 1) 1 0 .sparseMovable = none ∧
      ∃ st' i, freeGroupMigration .listFirst halfFree (0 + 0) (.vir 0 1) 1 0 .sparseMovable =
        some (st', i) ∧ ArrayFreed halfFree (.vir 0 1) 0 1 ⟨0, 0⟩ st' :=
  free_coalesces halfFree_array halfFree_allocated 1

/-- The free that should make the pair whole writes through the links of the unlinked descriptor. -/
theorem halfFree_faults : SparseArray halfFree (.vir 0 1) 0 ∧ Allocated halfFree (.vir 0 1) 0 0 0 ∧
    (halfFree.items 0).onList = none ∧
    freeGroupMigration .written halfFree 0 (.vir 0 1) 1 0 .sparseMovable = none :=
  ⟨halfFree_array, halfFree_allocated, rfl, freeGroupMigration_written _ _ _ _ _ _⟩

end TensorAlloc
