/-
  File:      TensorAlloc/Blocks.lean
  Subject:   The lists of a physical node as a collection of blocks.

  * `freeBlocks` -- a block of level `l` and order `o` is `2 ^ (o + FUNCTION_ITEM_LVL(12, l))`
    descriptors, counted from the node's first;
  * `blockOn` -- what one item on one list adds to it;
  * `freeBlocks_gain` -- one more item on a list is one more block.
-/
import Mathlib.Data.Finset.Prod
import TensorAlloc.Base.DyadicBlocks
import TensorAlloc.Ops

namespace TensorAlloc

open DyadicBlocks

/-- Level, type and order of the lists of a node. Irreducible: unfolding a sum over it would write
    out all of its terms. -/
@[irreducible] def nodeCells : Finset (Nat × MigrationType × Nat) :=
  Finset.range groupLvlNum ×ˢ Finset.univ ×ˢ Finset.range (maxItemOrder + 1)

def nodeCell (pid : Nat) (c : Nat × MigrationType × Nat) : ListHead :=
  .groupCell (.phy pid c.1) c.2.1 c.2.2

theorem mem_nodeCells {c : Nat × MigrationType × Nat} :
    c ∈ nodeCells ↔ c.1 < groupLvlNum ∧ c.2.2 ≤ maxItemOrder := by
  simp only [nodeCells, Finset.mem_product, Finset.mem_range, Finset.mem_univ, true_and]
  omega

theorem nodeCell_injective (pid : Nat) : Function.Injective (nodeCell pid) := by
  rintro ⟨l, t, k⟩ ⟨l', t', k'⟩ h
  simp only [nodeCell, ListHead.groupCell.injEq, Group.phy.injEq, true_and] at h
  obtain ⟨rfl, rfl, rfl⟩ := h
  rfl

/-- The block of an item of order `order` on level `lvl`; `base` is the node's first descriptor. -/
def blockAt (base lvl order : Nat) (i : Item) : Block :=
  ⟨i - base, order + functionItemLvl groupOrderNumShift lvl⟩

/-- The free blocks of the node, over its levels, types and orders. -/
def freeBlocks (st : State) (pid : Nat) : Multiset Block :=
  ∑ c ∈ nodeCells, (st.lists (nodeCell pid c) : Multiset Item).map
    (blockAt (st.tables.phyItemStruct pid) c.1 c.2.2)

/-- The block an item on the list `h` is, none off the node's lists. -/
def blockOn (base pid : Nat) (h : ListHead) (i : Item) : Multiset Block :=
  match h with
  | .groupCell (.phy nu lvl) _ order =>
      if nu = pid ∧ lvl < groupLvlNum ∧ order ≤ maxItemOrder then {blockAt base lvl order i} else 0
  | _ => 0

theorem blockOn_nodeCell (base pid : Nat) {c : Nat × MigrationType × Nat} (hc : c ∈ nodeCells)
    (i : Item) : blockOn base pid (nodeCell pid c) i = {blockAt base c.1 c.2.2 i} :=
  if_pos ⟨rfl, mem_nodeCells.mp hc⟩

theorem blockOn_other {base pid : Nat} {h : ListHead} (hh : ∀ c ∈ nodeCells, nodeCell pid c ≠ h)
    (i : Item) : blockOn base pid h i = 0 := by
  cases h with
  | groupCell g t k =>
      cases g with
      | phy nu lvl =>
          refine if_neg fun hc => hh (lvl, t, k) (mem_nodeCells.mpr hc.2) ?_
          rw [nodeCell, hc.1]
      | _ => rfl
  | _ => rfl

/-- The free blocks are read from the lists and the node's first descriptor. -/
theorem freeBlocks_congr {st st' : State} {pid : Nat} (hl : st'.lists = st.lists)
    (ht : st'.tables = st.tables) : freeBlocks st' pid = freeBlocks st pid := by
  unfold freeBlocks
  rw [hl, ht]

/-- **One more item on a list is one more block.** -/
theorem freeBlocks_gain (st st' : State) {pid : Nat} {h : ListHead} {i : Item}
    (ht : st'.tables = st.tables)
    (hh : (st'.lists h : Multiset Item) = i ::ₘ (st.lists h : Multiset Item))
    (ho : ∀ h', h' ≠ h → st'.lists h' = st.lists h') :
    freeBlocks st' pid = blockOn (st.tables.phyItemStruct pid) pid h i + freeBlocks st pid := by
  unfold freeBlocks
  rw [ht]
  by_cases hc : ∃ c ∈ nodeCells, nodeCell pid c = h
  · obtain ⟨c, hc, rfl⟩ := hc
    rw [← Finset.add_sum_erase _ _ hc, ← Finset.add_sum_erase nodeCells (fun c =>
      (st.lists (nodeCell pid c) : Multiset Item).map _) hc, hh, Multiset.map_cons,
      blockOn_nodeCell _ _ hc, Multiset.singleton_add, Multiset.cons_add]
    congr 2
    refine Finset.sum_congr rfl fun c' hc' => ?_
    rw [ho _ fun e => (Finset.mem_erase.mp hc').1 (nodeCell_injective pid e)]
  · rw [blockOn_other (fun c hc' e => hc ⟨c, hc', e⟩), Multiset.zero_add]
    refine Finset.sum_congr rfl fun c hc' => ?_
    rw [ho _ fun e => hc ⟨c, hc', e⟩]

/-- The block of an item on one of the node's lists is free. -/
theorem mem_freeBlocks {st : State} {pid : Nat} {c : Nat × MigrationType × Nat} {i : Item}
    (hc : c ∈ nodeCells) (hi : i ∈ st.lists (nodeCell pid c)) :
    blockAt (st.tables.phyItemStruct pid) c.1 c.2.2 i ∈ freeBlocks st pid := by
  unfold freeBlocks
  rw [Multiset.mem_sum]
  exact ⟨c, hc, Multiset.mem_map_of_mem _ (Multiset.mem_coe.mpr hi)⟩

/-- **Unlinking gives one block up.** -/
theorem freeBlocks_listDel {st st' : State} {pid : Nat} {h : ListHead} {i : Item} (hL : st.Linked)
    (ho : (st.items i).onList = some h) (hd : listDel st i = some st') :
    freeBlocks st pid = blockOn (st.tables.phyItemStruct pid) pid h i + freeBlocks st' pid := by
  rw [listDel_of ho, Option.some.injEq] at hd
  have ht : st'.tables = st.tables := by rw [← hd]; rfl
  rw [← ht]
  refine freeBlocks_gain st' st ht.symm ?_ fun h' hne => ?_ <;> rw [← hd]
  · rw [State.modItem_lists, State.setList_lists, if_pos rfl]
    exact (Multiset.cons_erase (Multiset.mem_coe.mpr ((hL.mem i h).mp ho))).symm
  · rw [State.modItem_lists, State.setList_lists, if_neg hne]

theorem freeBlocks_pushHead (st : State) (pid : Nat) (h : ListHead) (i : Item) :
    freeBlocks (st.pushHead h i) pid =
      blockOn (st.tables.phyItemStruct pid) pid h i + freeBlocks st pid := by
  refine freeBlocks_gain st _ rfl ?_ fun h' hne => ?_
  · rw [State.pushHead_lists, if_pos rfl]
    rfl
  · rw [State.pushHead_lists, if_neg hne]

theorem freeBlocks_pushTail (st : State) (pid : Nat) (h : ListHead) (i : Item) :
    freeBlocks (st.pushTail h i) pid =
      blockOn (st.tables.phyItemStruct pid) pid h i + freeBlocks st pid := by
  refine freeBlocks_gain st _ rfl ?_ fun h' hne => ?_
  · rw [State.pushTail_lists, if_pos rfl]
    exact Multiset.coe_eq_coe.mpr (List.perm_append_singleton i _)
  · rw [State.pushTail_lists, if_neg hne]

end TensorAlloc
