/-
  File:      TensorAlloc/MovableUnit.lean
  Subject:   How large a physical MOVABLE block is: `__init_pnode_item` and `group_budget` measure
             it in the level's unit, `split_group_migration` in single descriptors.

  * `gainedBlocks`, `lostBlocks` -- what the lists of a group gained and lost between two states,
    each block in the level's unit;
  * `movable_split_tiles_iff` -- the two measures agree exactly on level 3, and where nothing had
    to be split.
-/
import TensorAlloc.Base.DyadicBlocks
import TensorAlloc.Remove

namespace TensorAlloc

open DyadicBlocks

/-! ## 1. Blocks gained and lost -/

/-- The items of a list of order `k` on level `lvl` as blocks. -/
def unitBlocks (lvl k : Nat) (items : Multiset Item) : Multiset Block :=
  items.map fun i => ⟨i, k + functionItemLvl groupOrderNumShift lvl⟩

/-- The blocks on the lists in `st'` that were not there in `st`. -/
def gainedBlocks (st st' : State) (group : Group) (mt : MigrationType) (lvl : Nat) :
    Multiset Block :=
  ∑ k ∈ Finset.range (maxItemOrder + 1),
    unitBlocks lvl k ((st'.lists (.groupCell group mt k) : Multiset Item) -
      (st.lists (.groupCell group mt k) : Multiset Item))

/-- The blocks on the lists in `st` that are gone in `st'`. -/
def lostBlocks (st st' : State) (group : Group) (mt : MigrationType) (lvl : Nat) : Multiset Block :=
  gainedBlocks st' st group mt lvl

section Removal

variable {st : State} {group : Group} {item : Item} {lvl order oi : Nat} {mt : MigrationType}

/-- The lists between the two orders gain one block each. -/
theorem gainedBlocks_remove (hoi : oi ≤ maxItemOrder) :
    gainedBlocks st
        (splitGroupMigration (st.takeOff (.groupCell group mt oi) item) group item lvl order oi mt)
        group mt lvl =
      ∑ k ∈ Finset.Ico order oi, {⟨halfAt mt lvl item k,
        k + functionItemLvl groupOrderNumShift lvl⟩} := by
  have hsub : Finset.Ico order oi ⊆ Finset.range (maxItemOrder + 1) := fun k hk => by
    rw [Finset.mem_Ico] at hk
    rw [Finset.mem_range]
    omega
  unfold gainedBlocks
  rw [← Finset.sum_subset hsub]
  · refine Finset.sum_congr rfl fun k hk => ?_
    rw [Finset.mem_Ico] at hk
    have hne : (ListHead.groupCell group mt k) ≠ .groupCell group mt oi := by
      intro e
      injection e
      omega
    rw [remove_lists, if_neg hne, splitPieces_cell, if_pos (by omega), ← Multiset.coe_add,
      Multiset.add_sub_cancel_right]
    rfl
  · intro k _ hk
    rw [Finset.mem_Ico] at hk
    have hle : ∀ l : List Item, (l.erase item : Multiset Item) - (l : Multiset Item) = 0 := fun l =>
      tsub_eq_zero_of_le (Multiset.coe_le.mpr (List.erase_sublist.subperm))
    rw [remove_lists, splitPieces_cell, if_neg (by omega), List.nil_append]
    split
    · rw [hle]; rfl
    · rw [tsub_self]; rfl

/-- MOVABLE halves lie single descriptors apart. -/
theorem gainedBlocks_remove_movable (hoi : oi ≤ maxItemOrder) :
    gainedBlocks st (splitGroupMigration (st.takeOff (.groupCell group .movable oi) item) group item
        lvl order oi .movable) group .movable lvl =
      ∑ k ∈ Finset.Ico order oi, {⟨item + 2 ^ k, k + functionItemLvl groupOrderNumShift lvl⟩} := by
  rw [gainedBlocks_remove hoi]
  refine Finset.sum_congr rfl fun k hk => ?_
  rw [halfAt_movable (by have := (Finset.mem_Ico.mp hk).2; omega)]

/-- The only block lost is the one taken. -/
theorem lostBlocks_remove (hoi : oi ≤ maxItemOrder)
    (hi : item ∈ st.lists (.groupCell group mt oi)) :
    lostBlocks st
        (splitGroupMigration (st.takeOff (.groupCell group mt oi) item) group item lvl order oi mt)
        group mt lvl =
      {⟨item, oi + functionItemLvl groupOrderNumShift lvl⟩} := by
  unfold lostBlocks gainedBlocks
  rw [Finset.sum_eq_single_of_mem oi (Finset.mem_range.mpr (by omega))]
  · rw [remove_lists, splitPieces_cell, if_neg (by omega), List.nil_append, if_pos rfl]
    have : (st.lists (.groupCell group mt oi) : Multiset Item) =
        {item} + ((st.lists (.groupCell group mt oi)).erase item : Multiset Item) := by
      rw [← Multiset.coe_erase, Multiset.singleton_add,
        Multiset.cons_erase (Multiset.mem_coe.mpr hi)]
    rw [this, Multiset.add_sub_cancel_right]
    rfl
  · intro k _ hk
    have hne : (ListHead.groupCell group mt k) ≠ .groupCell group mt oi := by
      intro e
      injection e
      omega
    rw [remove_lists, if_neg hne, ← Multiset.coe_add,
      tsub_eq_zero_of_le (Multiset.le_add_left _ _)]
    rfl

end Removal

/-! ## 2. The two measures -/

/-- The pieces of a removal tile the block it took, all read in the level's unit. -/
def SplitTiles (st st' : State) (group : Group) (mt : MigrationType) (lvl order : Nat)
    (item : Item) : Prop :=
  ∃ oi, lostBlocks st st' group mt lvl = {⟨item, oi + functionItemLvl groupOrderNumShift lvl⟩} ∧
    Tiles (⟨item, order + functionItemLvl groupOrderNumShift lvl⟩ ::ₘ
      gainedBlocks st st' group mt lvl) ⟨item, oi + functionItemLvl groupOrderNumShift lvl⟩

/-- On a coarser level the block handed out swallows the lowest half put back. -/
theorem not_tiles_of_unit {item order oi s : Nat} {b : Block} (hs : 0 < s) (h : order < oi) :
    ¬ Tiles (⟨item, order + s⟩ ::ₘ
      ∑ k ∈ Finset.Ico order oi, {⟨item + 2 ^ k, k + s⟩}) b := by
  intro ht
  have hd := ht.apart (item + 2 ^ order)
  have hp := Nat.two_pow_pos order
  have hlt : 2 ^ order < 2 ^ (order + s) := Nat.pow_lt_pow_right (by decide) (by omega)
  rw [cover_cons, if_pos (mem_mk.mpr ⟨by omega, by omega⟩), cover_sum,
    Finset.sum_eq_sum_Ico_succ_bot h, cover_singleton, if_pos (mem_mk.mpr ⟨by omega, by omega⟩)] at hd
  omega

/-- **Where initialisation and the split agree**: a removal from MOVABLE lists tiles the block it
    took exactly on level 3, or where the list of the order asked for serves the request
    unsplit. -/
theorem movable_split_tiles_iff {st st' : State} {group : Group} {lvl order : Nat} {item : Item}
    (hL : st.Linked) (hlvl : lvl ≤ maxGroupLvls)
    (h : removeGroupMigration st group lvl order .movable false = some (st', some item)) :
    SplitTiles st st' group .movable lvl order item ↔
      lvl = maxGroupLvls ∨
        ∃ i ∈ st.lists (.groupCell group .movable order), order ≠ 0 ∨ (st.items i).prev = none := by
  obtain ⟨m, oi, hm, h1, h2, h3, h4, rfl⟩ := removeGroupMigration_some hL h
  have hoi : oi ≤ maxItemOrder := by
    simp only [maxOrderOf, if_true, Option.some.injEq, functionItem_range] at hm
    simp only [maxItemOrder_eq]
    omega
  have hserve : (∃ i ∈ st.lists (.groupCell group .movable order),
      order ≠ 0 ∨ (st.items i).prev = none) ↔ order = oi := by
    have hfind : searchList st group .movable false order = none ↔
        ¬ ∃ i ∈ st.lists (.groupCell group .movable order),
          order ≠ 0 ∨ (st.items i).prev = none := by
      simp [searchList, eligible]
    constructor
    · intro hex
      by_contra hne
      exact hfind.mp (h4 order (Nat.le_refl _) (by omega)) hex
    · intro e
      subst e
      by_contra hne
      rw [hfind.mpr hne] at h3
      cases h3
  have hunit := functionItemLvl_eq hlvl
  rw [hserve]
  unfold SplitTiles
  rw [gainedBlocks_remove_movable hoi, lostBlocks_remove hoi (searchList_mem h3)]
  constructor
  · intro h
    obtain ⟨oi', -, ht⟩ := h
    by_contra hne
    rw [not_or] at hne
    have h3' : lvl < 3 := by have := hne.1; simp only [maxGroupLvls_eq] at this hlvl; omega
    exact not_tiles_of_unit (by rw [hunit]; omega) (by omega) ht
  · rintro (rfl | rfl)
    · have h0 : functionItemLvl groupOrderNumShift maxGroupLvls = 0 := rfl
      rw [h0]
      exact ⟨oi, rfl, tiles_halves item 0 h1⟩
    · refine ⟨order, rfl, ?_⟩
      rw [Finset.Ico_self, Finset.sum_empty]
      intro d
      rw [Multiset.cons_zero, cover_singleton]

/-- A node whose level `lvl` holds one MOVABLE block, of order 1 from descriptor 0. -/
def onePair (lvl : Nat) : State := oneBlock (.groupCell (.phy 0 lvl) .movable 1) 0

/-- A pair of level 3 is split into its two descriptors. -/
theorem movable_split_tiles_finest : ∃ st',
    removeGroupMigration (onePair 3) (.phy 0 3) 3 0 .movable false = some (st', some 0) ∧
      SplitTiles (onePair 3) st' (.phy 0 3) .movable 3 0 0 :=
  ⟨_, rfl, (movable_split_tiles_iff (oneBlock_linked _ _) (by decide) rfl).mpr (.inl rfl)⟩

/-- A pair of level 2, descriptors 0 to 1023, is split at descriptor 1, not at 512. -/
theorem movable_split_overlaps : ∃ st',
    removeGroupMigration (onePair 2) (.phy 0 2) 2 0 .movable false = some (st', some 0) ∧
      st'.lists (.groupCell (.phy 0 2) .movable 0) = [1] ∧
      ¬ SplitTiles (onePair 2) st' (.phy 0 2) .movable 2 0 0 := by
  refine ⟨splitGroupMigration ((onePair 2).takeOff (.groupCell (.phy 0 2) .movable 1) 0) (.phy 0 2)
    0 2 0 1 .movable, rfl, rfl, ?_⟩
  intro h
  obtain ⟨oi, -, ht⟩ := h
  rw [gainedBlocks_remove_movable (by decide)] at ht
  exact not_tiles_of_unit (by decide) (by decide) ht

end TensorAlloc
