/-
  File:      TensorAlloc/FreePhys.lean
  Subject:   What the rounds of `free_group_migration` do to the blocks of a physical node.

  * `Held` -- the invariant of all rounds: the blocks merged so far, with the block freed, lie
    disjoint in the region the function holds. A buddy is taken by its order alone, so what
    leaves the lists may be smaller than the half it is taken for (`Held.buddy_fits`: never larger);
  * `Merged` -- the invariant of the first round, which says what was merged: the buddies of
    `MergesAt`, and whether each was the half it was taken for (`RightAt`);
  * `freeLoop_oversized` -- a promotion lists the region as a block of at least twice the size;
  * `mergeLoop_first` -- where the first round leaves the inner loop.
-/
import TensorAlloc.Blocks
import TensorAlloc.Budget
import TensorAlloc.Free

namespace TensorAlloc

open DyadicBlocks

/-! ## 1. The node and the region held -/

/-- A physical node at a free: aligned free blocks, disjoint from each other, from the block `given`
    back and from those `still` allocated, and counts that follow the lists. -/
structure NodeState (st : State) (pid : Nat) (given : Block) (still : Multiset Block) : Prop where
  linked : st.Linked
  based : ∀ c ∈ nodeCells, ∀ i ∈ st.lists (nodeCell pid c), st.tables.phyItemStruct pid ≤ i
  counted : ∀ c ∈ nodeCells, (st.lists (nodeCell pid c)).length + 1 < 2 ^ 31 ∧
    st.counts (nodeCell pid c) = BitVec.ofNat 64 (st.lists (nodeCell pid c)).length
  aligned : ∀ blk ∈ freeBlocks st pid, blk.Aligned
  givenAligned : given.Aligned
  apart : Apart (freeBlocks st pid + given ::ₘ still)

/-- What every round keeps: `gone` has left the lists, and with the block `given` back fits the
    region from `v.idx`. -/
structure Held (st0 : State) (pid : Nat) (given : Block) (gone : Multiset Block) (st : State)
    (v : MergeVars) : Prop where
  linked : st.Linked
  nodes : st.nodes = st0.nodes
  tables : st.tables = st0.tables
  item : v.item = st0.tables.phyItemStruct pid + v.idx
  aligned : 2 ^ v.orderIndex ∣ v.idx
  blocks : freeBlocks st pid + gone = freeBlocks st0 pid
  fits : Fits (given ::ₘ gone) ⟨v.idx, v.orderIndex⟩

/-- The block a buddy is on the list it is found on. -/
def buddyBlock (st0 : State) (pid : Nat) (h : ListHead) (v : MergeVars) : Multiset Block :=
  blockOn (st0.tables.phyItemStruct pid) pid h
    (st0.tables.phyItemStruct pid + (v.idx ^^^ 2 ^ v.orderIndex))

theorem buddyBlock_eq (st0 : State) (pid : Nat) (h : ListHead) (v : MergeVars) :
    buddyBlock st0 pid h v = 0 ∨ ∃ lvl t k, h = .groupCell (.phy pid lvl) t k ∧ lvl < groupLvlNum ∧
      k ≤ maxItemOrder ∧ buddyBlock st0 pid h v =
        {⟨v.idx ^^^ 2 ^ v.orderIndex, k + functionItemLvl groupOrderNumShift lvl⟩} := by
  by_cases hc : ∃ c ∈ nodeCells, nodeCell pid c = h
  · obtain ⟨c, hc, rfl⟩ := hc
    refine .inr ⟨c.1, c.2.1, c.2.2, rfl, (mem_nodeCells.mp hc).1, (mem_nodeCells.mp hc).2, ?_⟩
    rw [buddyBlock, blockOn_nodeCell _ _ hc, blockAt, Nat.add_sub_cancel_left]
  · exact .inl (blockOn_other (fun c hc' e => hc ⟨c, hc', e⟩) _)

section Held

variable {st0 st : State} {pid : Nat} {given : Block} {still gone : Multiset Block} {v : MergeVars}

theorem Held.modFlags (h : Held st0 pid given gone st v) (i : Item) (f : Word → Word) :
    Held st0 pid given gone (st.modFlags i f) v :=
  { h with
    linked := h.linked.modFlags i f
    blocks := by rw [freeBlocks_congr (State.modFlags_lists st i f) rfl]; exact h.blocks }

/-- The region does not depend on the order or the buddy last looked at. -/
theorem Held.vars (h : Held st0 pid given gone st v) {v' : MergeVars} (hi : v'.item = v.item)
    (hx : v'.idx = v.idx) (ho : v'.orderIndex = v.orderIndex) : Held st0 pid given gone st v' :=
  { h with
    item := by rw [hi, hx]; exact h.item
    aligned := by rw [ho, hx]; exact h.aligned
    fits := by rw [ho, hx]; exact h.fits }

theorem Held.buddyPage (h : Held st0 pid given gone st v) :
    v.item + nextBuddyIdx v.idx v.orderIndex - v.idx =
      st0.tables.phyItemStruct pid + (v.idx ^^^ 2 ^ v.orderIndex) := by
  rw [h.item]
  exact shift_page _ _ _

/-- **A listed buddy is never larger than the half it is taken for**: a larger block there would
    hold the block given back. -/
theorem Held.buddy_fits (hN : NodeState st0 pid given still) (h : Held st0 pid given gone st v)
    {l : ListHead}
    (hl : (st.items (st0.tables.phyItemStruct pid + (v.idx ^^^ 2 ^ v.orderIndex))).onList = some l) :
    Fits (buddyBlock st0 pid l v) ⟨v.idx ^^^ 2 ^ v.orderIndex, v.orderIndex⟩ := by
  rcases buddyBlock_eq st0 pid l v with e | ⟨lvl, t, k, rfl, hlvl, hk, e⟩
  · rw [e]
    exact fits_zero _
  · rw [e]
    refine fits_singleton ?_
    by_contra hlt
    have hmem : (⟨v.idx ^^^ 2 ^ v.orderIndex, k + functionItemLvl groupOrderNumShift lvl⟩ : Block) ∈
        freeBlocks st0 pid := by
      have hc : (lvl, t, k) ∈ nodeCells := mem_nodeCells.mpr ⟨hlvl, hk⟩
      have hi : st0.tables.phyItemStruct pid + (v.idx ^^^ 2 ^ v.orderIndex) ∈
          st.lists (nodeCell pid (lvl, t, k)) := (h.linked.mem _ _).mp hl
      have := mem_freeBlocks hc hi
      rw [h.tables, blockAt, Nat.add_sub_cancel_left] at this
      rw [← h.blocks]
      exact Multiset.mem_add.mpr (.inl this)
    -- the first cell of the block given back lies in the region held, so in that wider block
    have hstart : given.start ∈ (⟨v.idx, v.orderIndex⟩ : Block) := by
      have hf := h.fits given.start
      rw [cover_cons, if_pos (start_mem given)] at hf
      by_contra hne
      rw [if_neg hne] at hf
      omega
    have ha : 2 ^ (k + functionItemLvl groupOrderNumShift lvl) ∣ v.idx ^^^ 2 ^ v.orderIndex :=
      hN.aligned _ hmem
    have hwide := mem_of_wide_buddy h.aligned (Nat.lt_of_not_le hlt) ha hstart
    have hap := hN.apart given.start
    rw [cover_add, cover_cons, if_pos (start_mem given)] at hap
    have hpos := cover_pos.mpr ⟨_, hmem, hwide⟩
    omega

/-- **One merge keeps the region**: it grows to the pair, by what the buddy was. -/
theorem Held.merge (hN : NodeState st0 pid given still) (h : Held st0 pid given gone st v)
    {group : Group} {mt : MigrationType} {st' : State} {v' : MergeVars}
    (hm : mergeBuddy st group mt v (nextBuddyIdx v.idx v.orderIndex)
      (v.item + nextBuddyIdx v.idx v.orderIndex - v.idx) = some (st', v')) :
    ∃ l, (st.items (st0.tables.phyItemStruct pid + (v.idx ^^^ 2 ^ v.orderIndex))).onList = some l ∧
      Held st0 pid given (buddyBlock st0 pid l v + gone) st' v' := by
  rw [h.buddyPage] at hm
  obtain ⟨st1, hd, rfl, rfl⟩ := mergeBuddy_eq hm
  obtain ⟨l, hl, hst⟩ := listDel_some hd
  have ht : st1.tables = st.tables ∧ st1.nodes = st.nodes := by
    rw [hst]
    exact ⟨rfl, rfl⟩
  refine ⟨l, hl, ?_, ?_, ?_, ?_, ?_, ?_, ?_⟩
  · exact (((h.linked.listDel hd).modFlags _ _).modFlags _ _).countDec _ |>.modFlags _ _
  · exact ht.2.trans h.nodes
  · exact ht.1.trans h.tables
  · show combinedItem v _ = _ + (nextBuddyIdx v.idx v.orderIndex &&& v.idx)
    unfold combinedItem
    rw [h.item]
    exact shift_page _ _ _
  · exact dvd_pair h.aligned
  · have hb : freeBlocks st pid = buddyBlock st0 pid l v + freeBlocks st1 pid := by
      rw [freeBlocks_listDel h.linked hl hd, h.tables]
      rfl
    show freeBlocks st1 pid + (buddyBlock st0 pid l v + gone) = _
    rw [← h.blocks, hb, add_left_comm, Multiset.add_assoc]
  · rw [← Multiset.add_cons]
    exact h.fits.merge h.aligned (h.buddy_fits hN hl)

end Held

/-! ## 2. One step and one run of the merge -/

/-- `max_order` on a level whose table entry is set: no order above 8 is reached. -/
def OrderCap (maxOrder : Nat) (top : Bool) : Prop :=
  1 ≤ maxOrder ∧ (maxOrder ≤ maxItemOrder ∨ (maxOrder = maxItemOrder + 1 ∧ top = true))

section Run

variable {st0 st : State} {pid : Nat} {given : Block} {still gone : Multiset Block} {v : MergeVars}
  {group : Group} {mt : MigrationType} {maxOrder : Nat} {top : Bool}

/-- Step: the region is kept, and order and `order_index` move together. -/
theorem mergeStep_held (hN : NodeState st0 pid given still) (hcap : OrderCap maxOrder top)
    (h : Held st0 pid given gone st v) (ho : v.order ≤ maxItemOrder) {st' : State} {v' : MergeVars}
    {e : Option MergeExit} (hs : mergeStep group mt maxOrder top st v = some (st', v', e)) :
    ∃ gone', Held st0 pid given gone' st' v' ∧ v'.order ≤ maxItemOrder ∧
      v'.orderIndex + v.order = v.orderIndex + v'.order := by
  have hsub : orderSub maxOrder 1 = maxOrder - 1 := by
    refine orderSub_eq hcap.1 ?_
    have := hcap.2
    simp only [maxItemOrder_eq] at this
    omega
  rcases mergeStep_cases hs with ⟨-, rfl, rfl, -⟩ | ⟨-, rfl, rfl, -⟩ | ⟨-, -, rfl, -, rfl, -⟩ |
    ⟨hle, -, htop, -, -, -, -, hm⟩
  · exact ⟨gone, h, ho, rfl⟩
  · exact ⟨gone, h.modFlags _ _, ho, rfl⟩
  · exact ⟨gone, (h.modFlags _ _).vars rfl rfl rfl, ho, rfl⟩
  · obtain ⟨l, -, hH⟩ := (h.modFlags v.item clearItemPresent).merge hN hm
    obtain ⟨-, -, rfl, -⟩ := mergeBuddy_eq hm
    have hpos := hcap.1
    refine ⟨_, hH, ?_, ?_⟩
    · show v.order + 1 ≤ maxItemOrder
      rw [hsub] at hle htop
      rcases hcap.2 with hc | ⟨hc, rfl⟩
      · omega
      · have : v.order ≠ maxOrder - 1 := fun e => htop ⟨rfl, e⟩
        omega
    · show v.orderIndex + 1 + v.order = v.orderIndex + (v.order + 1)
      omega

/-- Run: from any held region the loop leaves with one. -/
theorem mergeLoop_held (hN : NodeState st0 pid given still) (hcap : OrderCap maxOrder top) {n : Nat}
    (h : Held st0 pid given gone st v) (ho : v.order ≤ maxItemOrder) {st' : State} {v' : MergeVars}
    {e : MergeExit} (hs : mergeLoop group mt maxOrder top n st v = some (st', v', e)) :
    ∃ gone', Held st0 pid given gone' st' v' ∧ v'.order ≤ maxItemOrder ∧
      v'.orderIndex + v.order = v.orderIndex + v'.order := by
  refine mergeLoop_keeps (fun s w => ∃ gone', Held st0 pid given gone' s w ∧ w.order ≤ maxItemOrder ∧
    w.orderIndex + v.order = v.orderIndex + w.order) (fun hP hstep => ?_) hs ⟨gone, h, ho, rfl⟩
  obtain ⟨gone1, h1, ho1, he1⟩ := hP
  obtain ⟨gone2, h2, ho2, he2⟩ := mergeStep_held hN hcap h1 ho1 hstep
  exact ⟨gone2, h2, ho2, by omega⟩

end Run

/-! ## 3. Insertion, and the rounds after a promotion -/

section Rounds

variable {st0 st : State} {pid : Nat} {given : Block} {still gone : Multiset Block} {v : MergeVars}
  {mt : MigrationType}

/-- The block inserted is read by its order and level, whatever the region held. -/
theorem insertFreed_blocks (h : Held st0 pid given gone st v) {lvl : Nat} (hlvl : lvl < groupLvlNum)
    (ho : v.order ≤ maxItemOrder) {tail : Bool} {st' : State}
    (hs : insertFreed .listFirst (.phy pid lvl) mt lvl tail st v = some st') :
    freeBlocks st' pid + gone =
      ⟨v.idx, v.order + functionItemLvl groupOrderNumShift lvl⟩ ::ₘ freeBlocks st0 pid := by
  rw [insertFreed_listFirst, Option.some.injEq] at hs
  have hblock : blockOn (st.tables.phyItemStruct pid) pid (.groupCell (.phy pid lvl) mt v.order)
      v.item = {⟨v.idx, v.order + functionItemLvl groupOrderNumShift lvl⟩} := by
    have hc : (lvl, mt, v.order) ∈ nodeCells := mem_nodeCells.mpr ⟨hlvl, ho⟩
    have := blockOn_nodeCell (st.tables.phyItemStruct pid) pid hc v.item
    rw [h.tables, h.item, blockAt, Nat.add_sub_cancel_left] at this
    rw [h.tables, h.item]
    exact this
  have hfree : freeBlocks st' pid =
      {⟨v.idx, v.order + functionItemLvl groupOrderNumShift lvl⟩} + freeBlocks st pid := by
    rw [← hs, ← hblock]
    cases tail
    · exact freeBlocks_pushHead st pid _ _
    · exact freeBlocks_pushTail st pid _ _
  rw [hfree, Multiset.singleton_add, Multiset.cons_add, h.blocks]

/-- The block listed is larger than what was held: some cell of it is neither given back nor taken
    from a list. -/
def Oversized (st0 st' : State) (pid : Nat) (given : Block) : Prop :=
  ∃ gone block, freeBlocks st' pid + gone = block ::ₘ freeBlocks st0 pid ∧
    Fits (given ::ₘ gone) block ∧ ¬ Tiles (given ::ₘ gone) block

/-- The order cap of every level, from the node's own entries. -/
theorem orderCap_of {dim cur lvl : Nat} {maxOrder : Nat} {topLvl : Int}
    (hmt : mt ≠ .sparseMovable) (hcur : getCurrentNodeNum dim = some cur)
    (hpgo : 1 ≤ st.tables.phyGroupOrder cur ∧ st.tables.phyGroupOrder cur ≤ maxItemOrder + 1)
    (hm : maxOrderOf st dim lvl mt = some maxOrder) (ht : topLvlOf st dim mt = some topLvl) :
    OrderCap maxOrder (decide ((lvl : Int) = topLvl)) := by
  simp only [maxOrderOf, if_neg hmt, hcur, Option.map_some, Option.some.injEq] at hm
  simp only [topLvlOf, if_neg hmt, hcur, Option.map_some, Option.some.injEq] at ht
  subst ht
  split at hm
  · next h =>
      subst hm
      refine ⟨hpgo.1, ?_⟩
      rcases Nat.lt_or_ge maxItemOrder (st.tables.phyGroupOrder cur) with hlt | hge
      · exact .inr ⟨by omega, by simpa using h⟩
      · exact .inl hge
  · subst hm
    exact ⟨by decide, .inl (by decide)⟩

/-- Step: a round started on a held region ends with the region listed, or held at order 8 and
    above. -/
theorem freePass_held (hN : NodeState st0 pid given still) (hmt : mt ≠ .sparseMovable)
    {dim cur : Nat} (hcur : getCurrentNodeNum dim = some cur)
    (hpgo : 1 ≤ st0.tables.phyGroupOrder cur ∧ st0.tables.phyGroupOrder cur ≤ maxItemOrder + 1)
    {lvl : Nat} (hlvl : lvl < groupLvlNum) (h : Held st0 pid given gone st v)
    (ho : v.order ≤ maxItemOrder) {st' : State} {e : PassEnd}
    (hs : freePass .listFirst dim pid (.phy pid lvl) mt lvl st v.item v.order v.orderIndex v.buddy =
      some (st', e)) :
    ∃ gone' v', v'.order ≤ maxItemOrder ∧ v'.orderIndex + v.order = v.orderIndex + v'.order ∧
      Fits (given ::ₘ gone') ⟨v'.idx, v'.orderIndex⟩ ∧
      ((∃ i, e = .inserted i ∧ freeBlocks st' pid + gone' =
          ⟨v'.idx, v'.order + functionItemLvl groupOrderNumShift lvl⟩ ::ₘ freeBlocks st0 pid) ∨
        (e = .promoted v' ∧ v'.order = maxItemOrder ∧ Held st0 pid given gone' st' v')) := by
  obtain ⟨idx, maxOrder, topLvl, st1, v1, exit, h1, h2, h3, h4, h5⟩ := freePass_cases hs
  have hidx : idx = v.idx := by
    have := h.item
    rw [itemToRelIdx, h.tables] at h1
    split at h1
    · rw [Option.some.injEq] at h1
      rw [← h1, this]
      exact Nat.add_sub_cancel_left _ _
    · cases h1
  subst hidx
  have hcap := orderCap_of hmt hcur (by rw [h.tables]; exact hpgo) h2 h3
  obtain ⟨gone', hH, ho', he⟩ := mergeLoop_held hN hcap h ho h4
  refine ⟨gone', v1, ho', he, hH.fits, ?_⟩
  rcases leavePass_cases h5 with ⟨tail, hi, rfl⟩ | ⟨-, h8, rfl, rfl⟩
  · exact .inl ⟨_, rfl, insertFreed_blocks hH hlvl ho' hi⟩
  · exact .inr ⟨rfl, by omega, hH⟩

/-- A round that ends on a level whose unit is larger than what is held lists too much. -/
theorem freePass_oversized (hN : NodeState st0 pid given still) (hmt : mt ≠ .sparseMovable)
    {dim cur : Nat} (hcur : getCurrentNodeNum dim = some cur)
    (hpgo : 1 ≤ st0.tables.phyGroupOrder cur ∧ st0.tables.phyGroupOrder cur ≤ maxItemOrder + 1)
    {lvl : Nat} (hlvl : lvl < groupLvlNum) (h : Held st0 pid given gone st v)
    (ho : v.order ≤ maxItemOrder)
    (hbig : v.orderIndex < v.order + functionItemLvl groupOrderNumShift lvl) {st' : State} {i : Item}
    (hp : freePass .listFirst dim pid (.phy pid lvl) mt lvl st v.item v.order v.orderIndex v.buddy =
      some (st', .inserted i)) : Oversized st0 st' pid given := by
  obtain ⟨gone', v', _, he, hf, ⟨_, _, hb⟩ | ⟨hc, _⟩⟩ := freePass_held hN hmt hcur hpgo hlvl h ho hp
  · exact ⟨gone', _, hb, hf.wider (by omega), not_tiles_wider hf (by omega)⟩
  · cases hc

/-- **Run: after a promotion the free is never exact.** The order is counted from 0 again, on a
    level whose unit is twice what is held at least. -/
theorem freeLoop_oversized (hN : NodeState st0 pid given still) (hmt : mt ≠ .sparseMovable)
    {dim cur : Nat} (hcur : getCurrentNodeNum dim = some cur)
    (hpgo : 1 ≤ st0.tables.phyGroupOrder cur ∧ st0.tables.phyGroupOrder cur ≤ maxItemOrder + 1)
    {lvl : Nat} (hlvl : lvl < groupLvlNum) (h : Held st0 pid given gone st v)
    (ho : v.order ≤ maxItemOrder)
    (hbig : v.orderIndex < v.order + functionItemLvl groupOrderNumShift lvl) {st' : State}
    {i : Item}
    (hs : freeLoop .listFirst dim pid mt lvl (.phy pid lvl) st v.item v.order v.orderIndex v.buddy =
      some (st', i)) : Oversized st0 st' pid given := by
  induction lvl generalizing st v gone with
  | zero =>
      rcases freeLoop_cases hs with hp | ⟨_, _, _, hl, -⟩
      · exact freePass_oversized hN hmt hcur hpgo hlvl h ho hbig hp
      · cases hl
  | succ lvl ih =>
      rcases freeLoop_cases hs with hp | ⟨st1, v1, _, hl, hp, hs⟩
      · exact freePass_oversized hN hmt hcur hpgo hlvl h ho hbig hp
      · cases hl
        obtain ⟨gone', v', _, he, hf, ⟨_, hc, _⟩ | ⟨hc, h8, hH⟩⟩ :=
          freePass_held hN hmt hcur hpgo hlvl h ho hp
        · cases hc
        · cases hc
          have hu := functionItemLvl_eq (show lvl ≤ 3 by simp only [groupLvlNum_eq] at hlvl; omega)
          have hu' := functionItemLvl_eq (show lvl + 1 ≤ 3 by simp only [groupLvlNum_eq] at hlvl; omega)
          simp only [groupLvlNum_eq] at hlvl
          simp only [maxItemOrder_eq] at h8
          exact ih (by simp only [groupLvlNum_eq]; omega)
            (v := { v1 with order := 0 }) (hH.vars rfl rfl rfl) (Nat.zero_le _)
            (by show v1.orderIndex < 0 + _; omega) hs

end Rounds

/-! ## 4. The first round -/

/-- The first descriptor of the region held at order `j`, for a block freed at `x` on a level of unit
    `2 ^ s`. -/
def headAt (x s j : Nat) : Nat := x / 2 ^ (j + s) * 2 ^ (j + s)

/-- The buddy of that region. -/
def buddyAt (x s j : Nat) : Nat := headAt x s j ^^^ 2 ^ (j + s)

theorem headAt_succ (x s j : Nat) : buddyAt x s j &&& headAt x s j = headAt x s (j + 1) := by
  have := pair_start x (j + s)
  rw [show j + s + 1 = j + 1 + s by omega] at this
  exact this

theorem headAt_self {x s j : Nat} (h : 2 ^ (j + s) ∣ x) : headAt x s j = x := Nat.div_mul_cancel h

/-- The merge takes the buddy of order `j`, judged by the state before the free: the block is not of
    the top size, its head is not partly free, and the buddy's head is linked, not present, of this
    order and of the type. -/
structure MergesAt (st : State) (base x s : Nat) (mt : MigrationType) (maxOrder : Nat) (top : Prop)
    (j : Nat) : Prop where
  below : j < maxOrder
  type : mt ≠ .lrutype
  cap : ¬ (top ∧ j + 1 = maxOrder)
  whole : partlyFree (st.items (base + headAt x s j)) = false
  buddy : itemIsBuddy (st.items (base + buddyAt x s j)) j = true
  valid : buddyIsValid mt (st.items (base + buddyAt x s j)) = true

/-- The buddy of order `j` is what it is taken for: a block of this order on this level. -/
def RightAt (st : State) (pid lvl x j : Nat) : Prop :=
  ∃ t, (st.items (st.tables.phyItemStruct pid +
    buddyAt x (functionItemLvl groupOrderNumShift lvl) j)).onList =
      some (.groupCell (.phy pid lvl) t j)

/-- What the first round keeps: the region is the one `headAt` names, everything outside it is as
    before, and one count went down for every merge. -/
structure Merged (st0 : State) (pid lvl : Nat) (mt : MigrationType) (maxOrder : Nat) (top : Prop)
    (x ord0 : Nat) (st : State) (v : MergeVars) : Prop where
  idx : v.idx = headAt x (functionItemLvl groupOrderNumShift lvl) v.order
  orderIndex : v.orderIndex = v.order + functionItemLvl groupOrderNumShift lvl
  ge : ord0 ≤ v.order
  merges : ∀ j, ord0 ≤ j → j < v.order → MergesAt st0 (st0.tables.phyItemStruct pid) x
    (functionItemLvl groupOrderNumShift lvl) mt maxOrder top j
  outside : ∀ d, d ∉ (⟨v.idx, v.orderIndex⟩ : Block) →
    st.items (st0.tables.phyItemStruct pid + d) = st0.items (st0.tables.phyItemStruct pid + d)
  partly : partlyFree (st.items v.item) = partlyFree (st0.items v.item)
  counts : ∀ j, st.counts (.groupCell (.phy pid lvl) mt j) =
    st0.counts (.groupCell (.phy pid lvl) mt j) - if ord0 ≤ j ∧ j < v.order then 1 else 0
  countsOther : ∀ h, (∀ j, h ≠ .groupCell (.phy pid lvl) mt j) → st.counts h = st0.counts h

section First

variable {st0 st : State} {pid : Nat} {given : Block} {still gone : Multiset Block} {v : MergeVars}
  {mt : MigrationType} {lvl maxOrder x ord0 : Nat} {top : Bool}

/-- The buddy's head is as it was before the free. -/
theorem Merged.page (h : Held st0 pid given gone st v)
    (hM : Merged st0 pid lvl mt maxOrder (top = true) x ord0 st v) :
    v.item + nextBuddyIdx v.idx v.orderIndex - v.idx = st0.tables.phyItemStruct pid +
        buddyAt x (functionItemLvl groupOrderNumShift lvl) v.order ∧
      v.item + nextBuddyIdx v.idx v.orderIndex - v.idx ≠ v.item ∧
      st.items (v.item + nextBuddyIdx v.idx v.orderIndex - v.idx) =
        st0.items (v.item + nextBuddyIdx v.idx v.orderIndex - v.idx) := by
  have hnot := buddy_start_not_mem h.aligned
  rw [h.buddyPage]
  refine ⟨?_, fun e => ?_, hM.outside _ hnot⟩
  · rw [hM.idx, hM.orderIndex]
    rfl
  · rw [h.item] at e
    refine hnot ?_
    rw [Nat.add_left_cancel e]
    exact start_mem ⟨v.idx, v.orderIndex⟩

/-- Clearing the present flag of the held head touches nothing the invariant reads. -/
theorem Merged.clearPresent (h : Held st0 pid given gone st v)
    (hM : Merged st0 pid lvl mt maxOrder (top = true) x ord0 st v) :
    Merged st0 pid lvl mt maxOrder (top = true) x ord0 (st.modFlags v.item clearItemPresent) v :=
  { hM with
    outside := fun d hd => by
      rw [State.modFlags_items, if_neg]
      · exact hM.outside d hd
      · intro e
        rw [h.item] at e
        refine hd ?_
        rw [Nat.add_left_cancel e]
        exact start_mem ⟨v.idx, v.orderIndex⟩
    partly := by rw [partlyFree_clearPresent]; exact hM.partly }

/-- The region after the round's last write to a buddy or a head. -/
theorem Merged.vars (hM : Merged st0 pid lvl mt maxOrder (top = true) x ord0 st v) {v' : MergeVars}
    (hi : v'.item = v.item) (hx : v'.idx = v.idx) (ho : v'.order = v.order)
    (hoi : v'.orderIndex = v.orderIndex) :
    Merged st0 pid lvl mt maxOrder (top = true) x ord0 st v' where
  idx := by rw [hx, ho]; exact hM.idx
  orderIndex := by rw [hoi, ho]; exact hM.orderIndex
  ge := by rw [ho]; exact hM.ge
  merges := by rw [ho]; exact hM.merges
  outside := by rw [hx, hoi]; exact hM.outside
  partly := by rw [hi]; exact hM.partly
  counts := by rw [ho]; exact hM.counts
  countsOther := hM.countsOther

/-- **One merge keeps what the round says of itself.** -/
theorem Merged.merge (h : Held st0 pid given gone st v)
    (hM : Merged st0 pid lvl mt maxOrder (top = true) x ord0 st v)
    (hat : MergesAt st0 (st0.tables.phyItemStruct pid) x (functionItemLvl groupOrderNumShift lvl) mt
      maxOrder (top = true) v.order) {st' : State} {v' : MergeVars}
    (hm : mergeBuddy st (.phy pid lvl) mt v (nextBuddyIdx v.idx v.orderIndex)
      (v.item + nextBuddyIdx v.idx v.orderIndex - v.idx) = some (st', v')) :
    Merged st0 pid lvl mt maxOrder (top = true) x ord0 st' v' := by
  obtain ⟨hpage, hne, hpst⟩ := hM.page h
  have hcomb : combinedItem v (nextBuddyIdx v.idx v.orderIndex) = st0.tables.phyItemStruct pid +
      ((v.idx ^^^ 2 ^ v.orderIndex) &&& v.idx) := by
    unfold combinedItem
    rw [h.item]
    exact shift_page _ _ _
  have hbp := h.buddyPage
  have hpair := mem_pair_iff h.aligned
  have hmerged := hm
  obtain ⟨-, -, rfl, -⟩ := mergeBuddy_eq hm
  refine ⟨?_, ?_, Nat.le_succ_of_le hM.ge, fun j h1 h2 => ?_, fun d hd => ?_, ?_, fun j => ?_,
    fun l hl => ?_⟩
  · show nextBuddyIdx v.idx v.orderIndex &&& v.idx = headAt x _ (v.order + 1)
    rw [← headAt_succ, hM.idx, hM.orderIndex]
    rfl
  · show v.orderIndex + 1 = v.order + 1 + _
    have := hM.orderIndex
    omega
  · rcases Nat.eq_or_lt_of_le (Nat.le_of_lt_succ h2) with rfl | hlt
    · exact hat
    · exact hM.merges j h1 hlt
  · -- the pair holds the region, the buddy and the new head
    have hd' : d ∉ (⟨(v.idx ^^^ 2 ^ v.orderIndex) &&& v.idx, v.orderIndex + 1⟩ : Block) := hd
    have hnx : d ∉ (⟨v.idx, v.orderIndex⟩ : Block) := fun hin => hd' ((hpair d).mpr (.inl hin))
    rw [mergeBuddy_items hmerged]
    · exact hM.outside d hnx
    · rw [hbp]
      intro e
      rw [Nat.add_left_cancel e] at hd'
      exact hd' ((hpair _).mpr (.inr (start_mem ⟨v.idx ^^^ 2 ^ v.orderIndex, v.orderIndex⟩)))
    · rw [h.item]
      intro e
      rw [Nat.add_left_cancel e] at hnx
      exact hnx (start_mem ⟨v.idx, v.orderIndex⟩)
    · rw [hcomb]
      intro e
      rw [Nat.add_left_cancel e] at hd'
      exact hd' (start_mem ⟨(v.idx ^^^ 2 ^ v.orderIndex) &&& v.idx, v.orderIndex + 1⟩)
  · -- whichever half the new head is, it was not partly free before
    obtain ⟨f1, f2⟩ := mergeBuddy_freeidx hmerged hne
    show partlyFree (st'.items (combinedItem v (nextBuddyIdx v.idx v.orderIndex))) =
      partlyFree (st0.items (combinedItem v (nextBuddyIdx v.idx v.orderIndex)))
    rcases buddy_cases h.aligned with ⟨-, -, e⟩ | ⟨-, -, -, e, e'⟩
    · have hsame : combinedItem v (nextBuddyIdx v.idx v.orderIndex) = v.item := by
        rw [hcomb, e, h.item]
      have hwhole : partlyFree (st0.items v.item) = false := by
        have := hat.whole
        rw [← hM.idx, ← h.item] at this
        exact this
      rw [hsame] at f2 ⊢
      rw [hwhole]
      have hz := f2 rfl
      unfold partlyFree getItemFreeidx
      rw [hz]
      rfl
    · have hsame : combinedItem v (nextBuddyIdx v.idx v.orderIndex) =
          v.item + nextBuddyIdx v.idx v.orderIndex - v.idx := by
        rw [hcomb, hbp, e', e]
      refine partlyFree_congr ?_
      rw [f1 hsame, hsame, hpst]
  · show st'.counts _ = st0.counts _ - if ord0 ≤ j ∧ j < v.order + 1 then 1 else 0
    rw [mergeBuddy_counts hmerged, hM.counts]
    simp only [ListHead.groupCell.injEq, true_and]
    by_cases hj : j = v.order
    · subst hj
      have hge := hM.ge
      rw [if_neg (by omega), if_pos rfl, if_pos (by omega), sub_zero]
    · rw [if_neg hj, sub_zero]
      congr 2
      exact propext (by omega)
  · rw [mergeBuddy_counts hmerged, if_neg (hl v.order), sub_zero, hM.countsOther l hl]

/-- **The region is tiled after a merge exactly when it was before and the buddy was the half it
    was taken for.** -/
theorem tiles_merge_right (hN : NodeState st0 pid given still) (h : Held st0 pid given gone st v)
    (hM : Merged st0 pid lvl mt maxOrder (top = true) x ord0 st v) (hlvl : lvl < groupLvlNum)
    (ho : v.order ≤ maxItemOrder) {l : ListHead}
    (hl : (st.items (st0.tables.phyItemStruct pid + (v.idx ^^^ 2 ^ v.orderIndex))).onList = some l) :
    Tiles (given ::ₘ (buddyBlock st0 pid l v + gone))
        ⟨(v.idx ^^^ 2 ^ v.orderIndex) &&& v.idx, v.orderIndex + 1⟩ ↔
      Tiles (given ::ₘ gone) ⟨v.idx, v.orderIndex⟩ ∧ RightAt st0 pid lvl x v.order := by
  rw [← Multiset.add_cons, tiles_merge_iff h.aligned h.fits (h.buddy_fits hN hl)]
  refine and_congr_right fun _ => ?_
  have hold : RightAt st0 pid lvl x v.order ↔
      ∃ t, some l = some (ListHead.groupCell (.phy pid lvl) t v.order) := by
    obtain ⟨hpage, -, hpst⟩ := hM.page h
    unfold RightAt
    rw [← hl, ← h.buddyPage, hpst, hpage]
  rw [hold]
  have hu := functionItemLvl_eq (show lvl ≤ 3 by simp only [groupLvlNum_eq] at hlvl; omega)
  have hoi := hM.orderIndex
  rcases buddyBlock_eq st0 pid l v with e | ⟨lvl', t, k, rfl, hlvl', hk, e⟩
  · rw [e]
    refine iff_of_false (not_tiles_zero _) ?_
    intro h
    obtain ⟨t, ht⟩ := h
    have hc : (lvl, t, v.order) ∈ nodeCells := mem_nodeCells.mpr ⟨hlvl, ho⟩
    have hbl := blockOn_nodeCell (st0.tables.phyItemStruct pid) pid hc
      (st0.tables.phyItemStruct pid + (v.idx ^^^ 2 ^ v.orderIndex))
    rw [buddyBlock, Option.some.inj ht] at e
    exact Multiset.zero_ne_singleton _ (e.symm.trans hbl)
  · have hu' := functionItemLvl_eq (show lvl' ≤ 3 by simp only [groupLvlNum_eq] at hlvl'; omega)
    have hfit := h.buddy_fits hN hl
    rw [e] at hfit ⊢
    simp only [groupLvlNum_eq, maxItemOrder_eq] at hlvl hlvl' ho hk
    constructor
    · intro ht
      have heq : k + functionItemLvl groupOrderNumShift lvl' = v.orderIndex := by
        by_contra hne
        rcases Nat.lt_or_gt_of_ne hne with hlt | hgt
        · exact not_tiles_wider (tiles_self _).fits hlt ht
        · have h1 := hfit ((v.idx ^^^ 2 ^ v.orderIndex) +
            2 ^ (k + functionItemLvl groupOrderNumShift lvl') - 1)
          have hpow := Nat.pow_lt_pow_right (show 1 < 2 by decide) hgt
          rw [cover_singleton, if_pos (last_mem _ _), if_neg (by rw [mem_mk]; omega)] at h1
          omega
      have hlk : lvl' = lvl ∧ k = v.order := by omega
      obtain ⟨rfl, rfl⟩ := hlk
      exact ⟨t, rfl⟩
    · intro h
      obtain ⟨t', ht⟩ := h
      simp only [Option.some.injEq, ListHead.groupCell.injEq, Group.phy.injEq, true_and] at ht
      obtain ⟨rfl, -, rfl⟩ := ht
      rw [← hoi]
      exact tiles_self _

/-- Where the first round leaves the inner loop. -/
structure FirstExit (st0 : State) (pid lvl : Nat) (mt : MigrationType) (maxOrder : Nat) (top : Prop)
    (x ord0 : Nat) (given : Block) (gone : Multiset Block) (st : State) (v : MergeVars)
    (exit : MergeExit) : Prop where
  held : Held st0 pid given gone st v
  merged : Merged st0 pid lvl mt maxOrder top x ord0 st v
  order : v.order ≤ maxItemOrder
  stops : ¬ MergesAt st0 (st0.tables.phyItemStruct pid) x
    (functionItemLvl groupOrderNumShift lvl) mt
    maxOrder top v.order
  tiles : Tiles (given ::ₘ gone) ⟨v.idx, v.orderIndex⟩ ↔
    ∀ j, ord0 ≤ j → j < v.order → RightAt st0 pid lvl x j
  direct : exit = .direct → v.order < maxOrder
  done : exit = .done → maxOrder ≤ v.order ∨
    (v.buddy.isSome = true ∧ ¬ (top ∧ v.order + 1 = maxOrder))

/-- Step of the first round: it leaves where the state before says that nothing merges, and merges
    where it says so. -/
theorem mergeStep_first (hN : NodeState st0 pid given still) (hcap : OrderCap maxOrder top)
    (hlvl : lvl < groupLvlNum) (h : Held st0 pid given gone st v)
    (hM : Merged st0 pid lvl mt maxOrder (top = true) x ord0 st v) (ho : v.order ≤ maxItemOrder)
    {st' : State} {v' : MergeVars} {e : Option MergeExit}
    (hs : mergeStep (.phy pid lvl) mt maxOrder top st v = some (st', v', e)) :
    (∃ exit, e = some exit ∧ v'.order = v.order ∧ v'.idx = v.idx ∧ v'.orderIndex = v.orderIndex ∧
      Held st0 pid given gone st' v' ∧ Merged st0 pid lvl mt maxOrder (top = true) x ord0 st' v' ∧
      ¬ MergesAt st0 (st0.tables.phyItemStruct pid) x (functionItemLvl groupOrderNumShift lvl) mt
        maxOrder (top = true) v.order ∧ (exit = .direct → v.order < maxOrder) ∧
      (exit = .done → maxOrder ≤ v.order ∨
        (v'.buddy.isSome = true ∧ ¬ (top = true ∧ v.order + 1 = maxOrder)))) ∨
    (e = none ∧ v'.order = v.order + 1 ∧ v'.order ≤ maxItemOrder ∧
      Merged st0 pid lvl mt maxOrder (top = true) x ord0 st' v' ∧
      ∃ gone', Held st0 pid given gone' st' v' ∧ (Tiles (given ::ₘ gone') ⟨v'.idx, v'.orderIndex⟩ ↔
        Tiles (given ::ₘ gone) ⟨v.idx, v.orderIndex⟩ ∧ RightAt st0 pid lvl x v.order)) := by
  have hpos := hcap.1
  have hsub : orderSub maxOrder 1 = maxOrder - 1 := by
    refine orderSub_eq hpos ?_
    have := hcap.2
    simp only [maxItemOrder_eq] at this
    omega
  have h1 := h.modFlags v.item clearItemPresent
  have hM1 := hM.clearPresent h
  obtain ⟨hpage, -, hpst⟩ := hM1.page h1
  have hhead : v.item = st0.tables.phyItemStruct pid +
      headAt x (functionItemLvl groupOrderNumShift lvl) v.order := by rw [h.item, hM.idx]
  rcases mergeStep_cases hs with ⟨hlt, rfl, rfl, rfl⟩ | ⟨hle, rfl, rfl, rfl, hwhy⟩ |
    ⟨hle, hcapped, rfl, rfl, rfl, hwhy⟩ | ⟨hle, htype, htop, rfl, hwhole, hbuddy, hvalid, hm⟩
  · have hge : maxOrder ≤ v'.order := by omega
    exact .inl ⟨_, rfl, rfl, rfl, rfl, h, hM, fun hat => absurd hat.below (by omega),
      fun hc => (by cases hc), fun _ => .inl hge⟩
  · refine .inl ⟨_, rfl, rfl, rfl, rfl, h1, hM1, fun hat => ?_, fun _ => by omega,
      fun hc => by cases hc⟩
    rcases hwhy with e | ⟨e1, e2⟩ | e
    · exact hat.type e
    · exact hat.cap ⟨e1, by omega⟩
    · rw [hM1.partly, hhead, hat.whole] at e
      cases e
  · refine .inl ⟨_, rfl, rfl, rfl, rfl, h1.vars rfl rfl rfl, hM1.vars rfl rfl rfl rfl,
      fun hat => ?_,
      fun hc => (by cases hc), fun _ => .inr ⟨rfl, fun hc => hcapped ⟨hc.1, by omega⟩⟩⟩
    rw [hpst, hpage] at hwhy
    exact hwhy ⟨hat.buddy, hat.valid⟩
  · have hat : MergesAt st0 (st0.tables.phyItemStruct pid) x
        (functionItemLvl groupOrderNumShift lvl) mt maxOrder (top = true) v.order := by
      refine ⟨by omega, htype, fun hc => htop ⟨hc.1, by omega⟩, ?_, ?_, ?_⟩
      · rw [← hhead, ← hM1.partly]
        exact hwhole
      · rw [← hpage, ← hpst]
        exact hbuddy
      · rw [← hpage, ← hpst]
        exact hvalid
    have hM' := hM1.merge h1 hat hm
    obtain ⟨l, hl, hH⟩ := h1.merge hN hm
    have htiles := tiles_merge_right hN h1 hM1 hlvl ho hl
    obtain ⟨-, -, rfl, -⟩ := mergeBuddy_eq hm
    have hbound : v.order + 1 ≤ maxItemOrder := by
      rcases hcap.2 with hc | ⟨hc, htp⟩
      · have := hat.below
        omega
      · have : v.order + 1 ≠ maxOrder := fun e => hat.cap ⟨htp, e⟩
        have := hat.below
        omega
    exact .inr ⟨rfl, rfl, hbound, hM', _, hH, htiles⟩

/-- Run of the first round. -/
theorem mergeLoop_first (hN : NodeState st0 pid given still) (hcap : OrderCap maxOrder top)
    (hlvl : lvl < groupLvlNum) {n : Nat} (h : Held st0 pid given gone st v)
    (hM : Merged st0 pid lvl mt maxOrder (top = true) x ord0 st v) (ho : v.order ≤ maxItemOrder)
    (ht : Tiles (given ::ₘ gone) ⟨v.idx, v.orderIndex⟩ ↔
      ∀ j, ord0 ≤ j → j < v.order → RightAt st0 pid lvl x j)
    {st' : State} {v' : MergeVars} {exit : MergeExit}
    (hs : mergeLoop (.phy pid lvl) mt maxOrder top n st v = some (st', v', exit)) :
    ∃ gone', FirstExit st0 pid lvl mt maxOrder (top = true) x ord0 given gone' st' v' exit := by
  refine mergeLoop_rule
    (fun s w => ∃ gone, Held st0 pid given gone s w ∧
      Merged st0 pid lvl mt maxOrder (top = true) x ord0 s w ∧ w.order ≤ maxItemOrder ∧
      (Tiles (given ::ₘ gone) ⟨w.idx, w.orderIndex⟩ ↔
        ∀ j, ord0 ≤ j → j < w.order → RightAt st0 pid lvl x j))
    (fun s w exit => ∃ gone', FirstExit st0 pid lvl mt maxOrder (top = true) x ord0 given gone' s w exit)
    (fun hP hstep => ?_) (fun hP hstep => ?_) hs ⟨gone, h, hM, ho, ht⟩
  · obtain ⟨gone, h, hM, ho, ht⟩ := hP
    obtain ⟨exit, he, -⟩ | ⟨-, e1, hb, hM', gone', hH, hiff⟩ :=
      mergeStep_first hN hcap hlvl h hM ho hstep
    · cases he
    · refine ⟨gone', hH, hM', hb, ?_⟩
      rw [hiff, ht, e1]
      constructor
      · rintro ⟨h1, h2⟩ j hj1 hj2
        rcases Nat.eq_or_lt_of_le (Nat.le_of_lt_succ hj2) with rfl | hlt
        · exact h2
        · exact h1 j hj1 hlt
      · intro hall
        exact ⟨fun j hj1 hj2 => hall j hj1 (by omega), hall _ hM.ge (by omega)⟩
  · obtain ⟨gone, h, hM, ho, ht⟩ := hP
    obtain ⟨exit, he, e1, e2, e3, hH, hM', hstop, hdir, hdone⟩ | ⟨he, -⟩ :=
      mergeStep_first hN hcap hlvl h hM ho hstep
    · cases he
      refine ⟨gone, hH, hM', by rw [e1]; exact ho, by rw [e1]; exact hstop, ?_, ?_, ?_⟩
      · rw [e1, e2, e3]
        exact ht
      · rw [e1]
        exact hdir
      · rw [e1]
        exact hdone
    · cases he

end First

end TensorAlloc
