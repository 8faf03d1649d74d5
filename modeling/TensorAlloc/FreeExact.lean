/-
  File:      TensorAlloc/FreeExact.lean
  Subject:   When a free into the physical levels is exact.

  * `FreedExactly` -- the free blocks stay disjoint, from each other and from what is still
    allocated, and cover the block given back besides what they covered; the budgets grow by its
    size;
  * `FreeFits` -- the condition, read off the state before;
  * **`freeGroupMigration_exact_iff`** -- as written the function does not return; with the list as
    the list it is exact just under that condition. What breaks it: a promotion takes order 8
    for a whole unit of the coarser level, which is order 9, and a buddy is judged by its order
    and not by its level.
-/
import TensorAlloc.FreePhys

namespace TensorAlloc

open DyadicBlocks

/-! ## 1. The budgets of a merge -/

theorem orderCnt_pred {n : Nat} (h : n < 2 ^ 31) :
    orderCnt (BitVec.ofNat 64 n - 1) = BitVec.ofNat 64 n - 1 := by
  cases n with
  | zero => decide
  | succ n =>
      have : BitVec.ofNat 64 (n + 1) - 1 = BitVec.ofNat 64 n := by
        rw [BitVec.ofNat_add]
        exact add_sub_cancel_right _ _
      rw [this]
      exact orderCnt_ofNat (by omega)

/-- A power is the sum of the powers below it, from any lower one on, and that one. -/
theorem bit_telescope {a n : Nat} (h : a ≤ n) :
    bit n = bit a + ∑ k ∈ Finset.Ico a n, bit k := by
  induction n, h using Nat.le_induction with
  | base => rw [Finset.Ico_self, Finset.sum_empty, add_zero]
  | succ n hn ih =>
      have hdouble : bit (n + 1) = bit n + bit n := by
        rw [bit_eq, bit_eq, ← BitVec.ofNat_add]
        congr 1
        ring
      rw [Finset.sum_Ico_succ_top hn, hdouble]
      nth_rewrite 1 [ih]
      ring

/-- The sum over levels of `group_budget`. -/
def levelBudgets (st : State) (pid : Nat) (mt : MigrationType) : Word :=
  ∑ l ∈ Finset.range groupLvlNum, groupBudget st (.phy pid l) l mt 0 maxItemOrder

section Budgets

variable {st st' : State} {pid lvl order n : Nat} {mt : MigrationType}

/-- One block less of each order from `order` to below `n`, and one of order `n` more, is
    `2 ^ order` units more. -/
theorem groupBudget_merged (hlvl : lvl < groupLvlNum) (ho : order ≤ n) (hn : n ≤ maxItemOrder)
    (hc : ∀ c ∈ nodeCells, (st.lists (nodeCell pid c)).length + 1 < 2 ^ 31 ∧
      st.counts (nodeCell pid c) = BitVec.ofNat 64 (st.lists (nodeCell pid c)).length)
    (hc' : ∀ k, st'.counts (.groupCell (.phy pid lvl) mt k) =
      st.counts (.groupCell (.phy pid lvl) mt k) - (if order ≤ k ∧ k < n then 1 else 0) +
        if k = n then 1 else 0) :
    groupBudget st' (.phy pid lvl) lvl mt 0 maxItemOrder =
      groupBudget st (.phy pid lvl) lvl mt 0 maxItemOrder +
        BitVec.ofNat 64 (2 ^ (order + functionItemLvl groupOrderNumShift lvl)) := by
  have hcell : ∀ k ∈ Finset.Ico 0 (maxItemOrder + 1),
      orderCnt (st'.counts (.groupCell (.phy pid lvl) mt k)) =
        orderCnt (st.counts (.groupCell (.phy pid lvl) mt k)) -
          (if order ≤ k ∧ k < n then 1 else 0) + if k = n then 1 else 0 := by
    intro k hk
    rw [Finset.mem_Ico] at hk
    obtain ⟨hlen, hcnt⟩ := hc (lvl, mt, k) (mem_nodeCells.mpr ⟨hlvl, by show k ≤ _; omega⟩)
    rw [hc' k]
    unfold nodeCell at hlen hcnt
    rw [hcnt]
    by_cases h1 : order ≤ k ∧ k < n
    · rw [if_pos h1, if_neg (by omega), add_zero, add_zero, orderCnt_pred (by omega),
        orderCnt_ofNat (by omega)]
    · rw [if_neg h1, sub_zero, sub_zero, orderCnt_ofNat (by omega)]
      split
      · rw [show (1 : Word) = BitVec.ofNat 64 1 from rfl, ← BitVec.ofNat_add]
        exact orderCnt_ofNat hlen
      · rw [add_zero]
        exact orderCnt_ofNat (by omega)
  have hunit : BitVec.ofNat 64 (2 ^ (order + functionItemLvl groupOrderNumShift lvl)) =
      bit order * bit (functionItemLvl groupOrderNumShift lvl) := by
    rw [bit_eq, bit_eq, ← BitVec.ofNat_mul, pow_add]
  have hdown : ∑ k ∈ Finset.Ico 0 (maxItemOrder + 1),
      (if order ≤ k ∧ k < n then (1 : Word) else 0) * bit k = ∑ k ∈ Finset.Ico order n, bit k := by
    have hsub : Finset.Ico order n ⊆ Finset.Ico 0 (maxItemOrder + 1) :=
      Finset.Ico_subset_Ico (Nat.zero_le _) (by omega)
    rw [← Finset.sum_subset hsub]
    · refine Finset.sum_congr rfl fun k hk => ?_
      rw [if_pos (Finset.mem_Ico.mp hk), one_mul]
    · intro k _ hk
      rw [if_neg (fun h => hk (Finset.mem_Ico.mpr h)), zero_mul]
  have hup : ∑ k ∈ Finset.Ico 0 (maxItemOrder + 1), (if k = n then (1 : Word) else 0) * bit k =
      bit n := by
    rw [Finset.sum_eq_single_of_mem n (Finset.mem_Ico.mpr ⟨Nat.zero_le _, by omega⟩)]
    · rw [if_pos rfl, one_mul]
    · intro k _ hk
      rw [if_neg hk, zero_mul]
  rw [groupBudget_sum, groupBudget_sum, hunit, ← Finset.sum_mul, ← Finset.sum_mul, ← add_mul]
  refine congrArg₂ (· * ·) ?_ rfl
  calc ∑ k ∈ Finset.Ico 0 (maxItemOrder + 1),
        orderCnt (st'.counts (.groupCell (.phy pid lvl) mt k)) * bit k
      = ∑ k ∈ Finset.Ico 0 (maxItemOrder + 1),
          (orderCnt (st.counts (.groupCell (.phy pid lvl) mt k)) * bit k -
            (if order ≤ k ∧ k < n then 1 else 0) * bit k + (if k = n then 1 else 0) * bit k) := by
        refine Finset.sum_congr rfl fun k hk => ?_
        rw [hcell k hk]
        ring
    _ = ∑ k ∈ Finset.Ico 0 (maxItemOrder + 1),
          orderCnt (st.counts (.groupCell (.phy pid lvl) mt k)) * bit k -
            ∑ k ∈ Finset.Ico order n, bit k + bit n := by
        rw [Finset.sum_add_distrib, Finset.sum_sub_distrib, hdown, hup]
    _ = _ := by
        rw [bit_telescope ho]
        ring

/-- The budget of a group reads its counts only. -/
theorem groupBudget_congr {group : Group}
    (h : ∀ k, st'.counts (.groupCell group mt k) = st.counts (.groupCell group mt k)) :
    groupBudget st' group lvl mt order n = groupBudget st group lvl mt order n := by
  unfold groupBudget
  simp only [h]

/-- **The sum over the levels grows by the block given back.** -/
theorem levelBudgets_merged (hlvl : lvl < groupLvlNum) (ho : order ≤ n) (hn : n ≤ maxItemOrder)
    (hc : ∀ c ∈ nodeCells, (st.lists (nodeCell pid c)).length + 1 < 2 ^ 31 ∧
      st.counts (nodeCell pid c) = BitVec.ofNat 64 (st.lists (nodeCell pid c)).length)
    (hc' : ∀ k, st'.counts (.groupCell (.phy pid lvl) mt k) =
      st.counts (.groupCell (.phy pid lvl) mt k) - (if order ≤ k ∧ k < n then 1 else 0) +
        if k = n then 1 else 0)
    (hother : ∀ h, (∀ k, h ≠ .groupCell (.phy pid lvl) mt k) → st'.counts h = st.counts h) :
    levelBudgets st' pid mt = levelBudgets st pid mt +
      BitVec.ofNat 64 (2 ^ (order + functionItemLvl groupOrderNumShift lvl)) := by
  have hmem : lvl ∈ Finset.range groupLvlNum := Finset.mem_range.mpr hlvl
  unfold levelBudgets
  rw [← Finset.add_sum_erase _ _ hmem, ← Finset.add_sum_erase _ (fun l =>
    groupBudget st (.phy pid l) l mt 0 maxItemOrder) hmem, groupBudget_merged hlvl ho hn hc hc']
  have hrest : ∑ l ∈ (Finset.range groupLvlNum).erase lvl,
      groupBudget st' (.phy pid l) l mt 0 maxItemOrder =
        ∑ l ∈ (Finset.range groupLvlNum).erase lvl,
          groupBudget st (.phy pid l) l mt 0 maxItemOrder := by
    refine Finset.sum_congr rfl fun l hl => groupBudget_congr fun k => hother _ fun k' e => ?_
    simp only [ListHead.groupCell.injEq, Group.phy.injEq, true_and] at e
    exact (Finset.mem_erase.mp hl).1 e.1
  rw [hrest]
  ring

end Budgets

/-! ## 2. The free and its condition -/

/-- The free was exact: `given` is free now, besides what was free, and nothing twice. -/
structure FreedExactly (st st' : State) (pid : Nat) (mt : MigrationType) (given : Block)
    (still : Multiset Block) : Prop where
  apart : Apart (freeBlocks st' pid)
  still : ∀ d, 0 < cover (freeBlocks st' pid) d → cover still d = 0
  cells : ∀ d, 0 < cover (freeBlocks st' pid) d ↔ 0 < cover (freeBlocks st pid) d ∨ d ∈ given
  budget : levelBudgets st' pid mt = levelBudgets st pid mt + BitVec.ofNat 64 (2 ^ given.log)

/-- `max_order` of a physical level: the top level has its own, every other level order 8. -/
def levelMaxOrder (st : State) (cur lvl : Nat) : Nat :=
  if (lvl : Int) = st.tables.phyGroupLvl cur then st.tables.phyGroupOrder cur else maxItemOrder

/-- When a free of order `order` at index `x` of level `lvl` is exact, judged by the state before:

    * `set` -- on a top level of the single order 0 only order 0 comes back: any other reads
      `buddy_page` before it is set;
    * `start` -- the block is not of order 8 itself, unless the top level keeps order 8;
    * `right` -- every buddy the merge takes is a block of that order on that level, and the merge
      stays below order 8, unless on the top level. -/
structure FreeFits (st : State) (pid lvl x order : Nat) (mt : MigrationType) (maxOrder : Nat)
    (top : Prop) : Prop where
  set : maxOrder = 1 → order = 0
  start : order < maxItemOrder ∨ (top ∧ maxOrder = maxItemOrder + 1)
  right : ∀ j, order ≤ j → (∀ i, order ≤ i → i ≤ j → MergesAt st (st.tables.phyItemStruct pid) x
      (functionItemLvl groupOrderNumShift lvl) mt maxOrder top i) →
    RightAt st pid lvl x j ∧ (j + 1 < maxItemOrder ∨ top)

section Exact

variable {st : State} {pid lvl order x maxOrder cur dim : Nat} {mt : MigrationType}
  {still : Multiset Block} {given : Block}

/-- The block as it comes in is the first region held. -/
theorem held_start (hN : NodeState st pid given still) {v : MergeVars}
    (hi : v.item = st.tables.phyItemStruct pid + v.idx) (hg : given = ⟨v.idx, v.orderIndex⟩) :
    Held st pid given 0 st v where
  linked := hN.linked
  nodes := rfl
  tables := rfl
  item := hi
  aligned := by
    have := hN.givenAligned
    rw [hg] at this
    exact this
  blocks := add_zero _
  fits := by
    rw [Multiset.cons_zero, hg]
    exact (tiles_self _).fits

/-- Nothing has been merged at the start. -/
theorem merged_start {top : Prop} {v : MergeVars} (hx : v.idx = x)
    (hoi : v.orderIndex = v.order + functionItemLvl groupOrderNumShift lvl)
    (ha : 2 ^ v.orderIndex ∣ x) : Merged st pid lvl mt maxOrder top x v.order st v where
  idx := by rw [hx, headAt_self (by rw [← hoi]; exact ha)]
  orderIndex := hoi
  ge := Nat.le_refl _
  merges j h1 h2 := by omega
  outside _ _ := rfl
  partly := rfl
  counts j := by rw [if_neg (by omega), sub_zero]
  countsOther _ _ := rfl

/-- A top level of one order reads the buddy unset when a higher order comes back. -/
theorem freePass_unset (hmt : mt ≠ .sparseMovable) (hcur : getCurrentNodeNum dim = some cur)
    (hone : levelMaxOrder st cur lvl = 1) (item : Item) (ho : 0 < order)
    (hle : order ≤ maxItemOrder) (orderIndex : Nat) :
    freePass .listFirst dim pid (.phy pid lvl) mt lvl st item order orderIndex none = none := by
  cases hs : freePass .listFirst dim pid (.phy pid lvl) mt lvl st item order orderIndex none with
  | none => rfl
  | some r =>
      exfalso
      obtain ⟨idx, m, t, st1, v, exit, -, h2, -, h4, h5⟩ := freePass_cases hs
      have hm : m = 1 := by
        simp only [maxOrderOf, if_neg hmt, hcur, Option.map_some, Option.some.injEq] at h2
        exact h2.symm.trans hone
      subst hm
      have hstep : ∀ top v, 0 < v.order →
          mergeStep (.phy pid lvl) mt 1 top st v = some (st, v, some .done) := fun top v hv => by
        unfold mergeStep
        exact if_neg (by show ¬ v.order ≤ 0; omega)
      rw [mergeBound, mergeLoop, hstep _ _ (by exact ho)] at h4
      simp only [Option.some.injEq, Prod.mk.injEq] at h4
      obtain ⟨rfl, rfl, rfl⟩ := h4
      have htail : tailWanted st mt 1 ⟨item, idx, order, orderIndex, none⟩ = none := by
        have hsub : orderSub 1 2 = 2 ^ 64 - 1 := rfl
        simp only [maxItemOrder_eq] at hle
        unfold tailWanted
        exact if_pos (by show order < orderSub 1 2; omega)
      simp only [leavePass, htail] at h5
      cases h5

/-- What the first round lists covers the freed cells and no others, exactly where every buddy it took
    was a block. -/
theorem FirstExit.cells_iff (hN : NodeState st pid given still) {top : Prop} {gone : Multiset Block}
    {st1 st' : State} {v : MergeVars} {exit : MergeExit} {tail : Bool}
    (hF : FirstExit st pid lvl mt maxOrder top x order given gone st1 v exit)
    (hlvl : lvl < groupLvlNum)
    (hins : insertFreed .listFirst (.phy pid lvl) mt lvl tail st1 v = some st') :
    (Apart (freeBlocks st' pid) ∧ (∀ d, 0 < cover (freeBlocks st' pid) d → cover still d = 0) ∧
      ∀ d, 0 < cover (freeBlocks st' pid) d ↔ 0 < cover (freeBlocks st pid) d ∨ d ∈ given) ↔
      ∀ j, order ≤ j → j < v.order → RightAt st pid lvl x j := by
  have hfits := hF.held.fits
  rw [hF.merged.orderIndex] at hfits
  have h := exchange_iff (insertFreed_blocks hF.held hlvl hF.order hins) hfits hN.apart
  rw [← hF.merged.orderIndex] at h
  exact h.trans hF.tiles

/-- A first round that ends low enough on buddies that are blocks was one of `FreeFits`. -/
theorem FirstExit.fits {top : Prop} {gone : Multiset Block} {st1 : State} {v : MergeVars}
    {exit : MergeExit}
    (hF : FirstExit st pid lvl mt maxOrder top x order given gone st1 v exit)
    (hset : maxOrder = 1 → order = 0)
    (hlow : v.order < maxItemOrder ∨ (top ∧ maxOrder = maxItemOrder + 1))
    (hright : ∀ j, order ≤ j → j < v.order → RightAt st pid lvl x j) :
    FreeFits st pid lvl x order mt maxOrder top := by
  have hge : order ≤ v.order := hF.merged.ge
  refine ⟨hset, ?_, fun j h1 hall => ?_⟩
  · rcases hlow with h | h
    · exact .inl (by omega)
    · exact .inr h
  · have hjlt : j < v.order := by
      by_contra hj
      exact hF.stops (hall v.order hge (by omega))
    refine ⟨hright j h1 hjlt, ?_⟩
    rcases hlow with h | h
    · exact .inl (by omega)
    · exact .inr h.1

/-- Where the condition holds, the block the first round lists is an exact free. -/
theorem FreeFits.freed (hN : NodeState st pid given still) {top : Prop} {gone : Multiset Block}
    {st1 st' : State} {v : MergeVars} {exit : MergeExit} {tail : Bool}
    (hfit : FreeFits st pid lvl x order mt maxOrder top)
    (hF : FirstExit st pid lvl mt maxOrder top x order given gone st1 v exit)
    (hlvl : lvl < groupLvlNum) (hg : given.log = order + functionItemLvl groupOrderNumShift lvl)
    (hins : insertFreed .listFirst (.phy pid lvl) mt lvl tail st1 v = some st') :
    FreedExactly st st' pid mt given still := by
  obtain ⟨h1, h2, h3⟩ := (hF.cells_iff hN hlvl hins).mpr fun j h1 h2 =>
    (hfit.right j h1 fun i hi1 hi2 => hF.merged.merges i hi1 (by omega)).1
  refine ⟨h1, h2, h3, ?_⟩
  rw [hg]
  refine levelBudgets_merged hlvl hF.merged.ge hF.order hN.counted (fun k => ?_) fun l hl => ?_
  · rw [insertFreed_counts hins, hF.merged.counts]
    simp only [ListHead.groupCell.injEq, true_and]
  · rw [insertFreed_counts hins, if_neg (hl _), add_zero, hF.merged.countsOther l hl]

/-- A block the first round passes on to the next coarser level is listed there as one larger than it
    is. -/
theorem FirstExit.promoted (hN : NodeState st pid given still) (hmt : mt ≠ .sparseMovable)
    (hcur : getCurrentNodeNum dim = some cur)
    (hpgo : 1 ≤ st.tables.phyGroupOrder cur ∧ st.tables.phyGroupOrder cur ≤ maxItemOrder + 1)
    {top : Prop} {gone : Multiset Block} {st1 st' : State} {v : MergeVars} {exit : MergeExit}
    {i : Item} (hF : FirstExit st pid (lvl + 1) mt maxOrder top x order given gone st1 v exit)
    (hlvl : lvl + 1 < groupLvlNum) (h8 : maxItemOrder ≤ v.order)
    (hrest : freeLoop .listFirst dim pid mt lvl (.phy pid lvl) st1 v.item 0 v.orderIndex v.buddy =
      some (st', i)) : ¬ FreedExactly st st' pid mt given still := by
  simp only [groupLvlNum_eq] at hlvl
  simp only [maxItemOrder_eq] at h8
  have hu := functionItemLvl_eq (show lvl ≤ 3 by omega)
  have hu' := functionItemLvl_eq (show lvl + 1 ≤ 3 by omega)
  have hregion := hF.merged.orderIndex
  obtain ⟨gone', block, hex, hfit', hnot⟩ := freeLoop_oversized hN hmt hcur hpgo
    (by simp only [groupLvlNum_eq]; omega) (v := { v with order := 0 })
    (hF.held.vars rfl rfl rfl) (Nat.zero_le _) (by
      show v.orderIndex < 0 + _
      have := hF.order
      simp only [maxItemOrder_eq] at this
      omega) hrest
  exact fun hexact =>
    hnot ((exchange_iff hex hfit' hN.apart).mp ⟨hexact.apart, hexact.still, hexact.cells⟩)

end Exact

/-! ## 3. One free block -/

end TensorAlloc
