/-
  File:      TensorAlloc/Ops.lean
  Subject:   `tensor_ops.h` and the node numbers of `tensor_init.c`: conversions between ranges,
             indices and descriptors, buddies, and the bit searches of `types.h`.

  A `long` index is an `Int`; an address and the unsigned reading of an index are `Nat`s below
  `2 ^ 64`, with the wrap written out where a sum can reach it.
-/
import TensorAlloc.State

namespace TensorAlloc

/-! ## 1. Nodes -/

/-- `DIM_TIME`, `DIM_MEMORY`. -/
def dimTime : Nat := 0
def dimMemory : Nat := 1

/-- `get_current_node_num`; every other dimension falls off the end of the function. -/
def getCurrentNodeNum (dimType : Nat) : Option Nat :=
  if dimType = dimTime then some 0
  else if dimType = dimMemory then some nodeLvlNum
  else none

/-- `group->node`. -/
def State.nodeOf (st : State) (group : Group) : NodeStruct := st.nodes (st.tables.groupNode group)

/-! ## 2. Indices -/

def rangeToIdx (rangeBase : Nat) : Nat := rangeBase / 2 ^ groupOrderNumShift

/-- `idx_to_range`: the shift drops what leaves 64 bits. -/
def idxToRange (idx : Int) : Nat := (idx * 2 ^ groupOrderNumShift % 2 ^ 64).toNat

/-- `item_to_rel_idx`. The difference of a descriptor below the array is undefined. -/
def itemToRelIdx (st : State) (item : Item) (pnodeId : Nat) : Option Nat :=
  if st.tables.phyItemStruct pnodeId ≤ item then some (item - st.tables.phyItemStruct pnodeId)
  else none

/-- `item_to_idx`. -/
def itemToIdx (st : State) (item : Item) : Int :=
  let nodeId := getItemNode (st.items item).flags
  (item : Int) - st.tables.phyItemStruct nodeId + rangeToIdx (st.nodes (.phy nodeId)).offset

/-- `item_to_range`. -/
def itemToRange (st : State) (item : Item) : Nat := idxToRange (itemToIdx st item)

/-- `idx_to_rel_idx`: the first of the dimension's nodes whose window holds the index. -/
def idxToRelIdx (st : State) (idx dim : Nat) : Option (Nat × Nat) :=
  (List.range nodeLvlNum).findSome? fun i =>
    let pnode := st.nodes (.phy (i + dim * nodeLvlNum))
    if rangeToIdx pnode.offset ≤ idx ∧ idx < rangeToIdx ((pnode.offset + pnode.size) % 2 ^ 64) then
      some (i + dim * nodeLvlNum, idx - rangeToIdx pnode.offset)
    else none

/-- `range_to_item`: `idx_to_item` of the range's index; NULL where no window holds it. -/
def rangeToItem (st : State) (rangeBase dim : Nat) : Option Item :=
  (idxToRelIdx st (rangeToIdx rangeBase) dim).map fun r => st.tables.phyItemStruct r.1 + r.2

/-! ## 3. Buddies -/

/-- `next_buddy_idx`. -/
def nextBuddyIdx (itemIdx order : Nat) : Nat := itemIdx ^^^ 2 ^ order

/-- `item_is_buddy`: not present, and of the order asked for. -/
def itemIsBuddy (buddy : ItemStruct) (order : Nat) : Bool :=
  !itemIsPresent buddy.flags && decide (order = getItemOrder buddy.flags)

/-- `buddy_is_valid`: linked into some list, and of a state of the migration type. -/
def buddyIsValid (migrationType : MigrationType) (buddyPage : ItemStruct) : Bool :=
  buddyPage.onList.isSome &&
    decide (itemStateToMigration (getItemState buddyPage.flags) = some migrationType)

/-! ## 4. Sizes -/

/-- `fls`: one above the highest set bit, 0 for 0. -/
def fls (x : Nat) : Nat := if x = 0 then 0 else Nat.log2 x + 1

/-- `item_to_orders`: the highest set bit, cleared in the count. -/
def itemToOrders (nrItems : Nat) : Nat × Nat :=
  let x := fls nrItems
  if x = 0 then (0, nrItems)
  else (x - 1, if nrItems.testBit (x - 1) then nrItems - 2 ^ (x - 1) else nrItems)

/-- `item_to_order`: the least order that holds the count, which is then taken as served. -/
def itemToOrder (nrItems : Nat) : Nat × Nat :=
  if nrItems = 0 then (0, nrItems)
  else
    let maxOrder := fls nrItems
    let order := maxOrder - 1
    if maxOrder = 64 then (order, 0)
    else if 2 ^ order < nrItems then (maxOrder, 0)
    else (order, 0)

/-- `nitems_to_lvl` with `align` false: the coarsest level above the last whose unit fits, -1
    where none does. -/
def nitemsToLvl (nitems : Nat) : Int :=
  match (List.range maxGroupLvls).find?
      (fun level => nitems / 2 ^ functionItemLvl groupOrderNumShift level ≠ 0) with
  | some level => level
  | none => -1

end TensorAlloc
