/-
  File:      TensorAlloc/Remove.lean
  Subject:   Taking a block off the lists (`remove_group_migration` with its split) and the
             budgets counted from the lists.

  * `removeGroupMigration` -- the search is read as a `list_for_each_entry_list` loop. `none` is
    undefined behaviour, `some (st, none)` the NULL return;
  * `splitLoop` -- the halves put back, from the largest down. Their distance is an `int`: a half of
    `2 ^ 31` descriptors or more does not go where the block ends (`halfAt_eq_31`, `halfAt_eq_32`);
  * `groupBudget` -- in the 64-bit arithmetic of the source, where the count of a list first
    passes through an `int`.
-/
import Mathlib.Data.BitVec
import TensorAlloc.Ops

namespace TensorAlloc

/-! ## 1. Splitting -/

/-- A 64-bit value in an `int`. -/
def intOf (x : Word) : Int := (x.setWidth 32).toInt

/-- `&item[size]`. Before descriptor 0 there is none: the address is that of the index `2 ^ 64` further. -/
def itemAt (item : Item) (size : Int) : Item :=
  if 0 ≤ item + size then (item + size).toNat else (2 ^ 64 + (item + size)).toNat

theorem itemAt_of_nonneg {item : Item} {size : Int} (h : 0 ≤ item + size) :
    itemAt item size = (item + size).toNat := if_pos h

/-- `split2_group_migration`. -/
def split2GroupMigration (st : State) (group : Group) (item : Item) (size : Int) (orderMax : Nat)
    (migrationType : MigrationType) (lvl : Nat) : State :=
  let nodeId := (st.nodeOf group).nodeId
  let present := itemAt item size
  let temp := ListHead.groupCell group migrationType orderMax
  ((st.pushHead temp present).modFlags present fun flags =>
    setItemSection (setItemNode (clearItemState (setItemOrder (clearItemPresent flags) orderMax))
      nodeId) lvl).countInc temp

/-- The unit the split measures a block of a type in: one descriptor for `MIGRATION_SPARSE_MOVABLE`
    (and so for `MIGRATION_MOVABLE`), the level's unit for the others. -/
def splitShift (migrationType : MigrationType) (lvl : Nat) : Nat :=
  if migrationType = .sparseMovable then 0 else functionItemLvl groupOrderNumShift lvl

/-- `int size` of the half of order `order_max`. -/
def splitSize (migrationType : MigrationType) (lvl orderMax : Nat) : Int :=
  intOf (bit (orderMax + splitShift migrationType lvl))

/-- The loop of `split_group_migration`, from `order_min + n` down to `order_min`. -/
def splitLoop (group : Group) (item : Item) (lvl orderMin : Nat) (migrationType : MigrationType) :
    Nat → State → State
  | 0, st => st
  | n + 1, st =>
      splitLoop group item lvl orderMin migrationType n
        (split2GroupMigration st group item (splitSize migrationType lvl (orderMin + n))
          (orderMin + n) migrationType lvl)

/-- `split_group_migration`. -/
def splitGroupMigration (st : State) (group : Group) (item : Item) (lvl orderMin orderMax : Nat)
    (migrationType : MigrationType) : State :=
  let dim := (st.nodeOf group).dim
  let nodeId := (st.nodeOf group).nodeId
  (splitLoop group item lvl orderMin migrationType (orderMax - orderMin) st).modFlags item
    fun flags =>
      setItemDim (setItemFreeidx (setItemSection (setItemNode (setItemOrder (setItemPresent flags)
        orderMin) nodeId) lvl) (2 ^ functionItem groupOrderNumShift)) dim

/-! ## 2. Removing -/

/-- `max_order`: 8 for a sparse group; else the top level's own order, 8 on every other level. -/
def maxOrderOf (st : State) (dim lvl : Nat) (migrationType : MigrationType) : Option Nat :=
  if migrationType = .sparseMovable then some (functionItem groupRangeNumShift - 1)
  else (getCurrentNodeNum dim).map fun cur =>
    if (lvl : Int) = st.tables.phyGroupLvl cur then st.tables.phyGroupOrder cur
    else functionItem groupOrderNumShift - 1

/-- The filter on one item: at order 0 of a sparse group a table (an item with a parent) is
    passed over. -/
def eligible (st : State) (migrationType : MigrationType) (orderIndex : Nat) (item : Item) : Bool :=
  decide (migrationType ≠ .sparseMovable) || decide (orderIndex ≠ 0) || (st.items item).prev.isNone

/-- The search on the list of one order. -/
def searchList (st : State) (group : Group) (migrationType : MigrationType) (isTable : Bool)
    (orderIndex : Nat) : Option Item :=
  if migrationType = .sparseMovable ∧ isTable = true ∧ orderIndex = 0 then none
  else (st.lists (.groupCell group migrationType orderIndex)).find?
    (eligible st migrationType orderIndex)

/-- The search over `n` orders from `order_index` up. -/
def searchOrders (st : State) (group : Group) (migrationType : MigrationType) (isTable : Bool) :
    Nat → Nat → Option (Nat × Item)
  | 0, _ => none
  | n + 1, orderIndex =>
      match searchList st group migrationType isTable orderIndex with
      | some item => some (orderIndex, item)
      | none => searchOrders st group migrationType isTable n (orderIndex + 1)

/-- `remove_group_migration`. -/
def removeGroupMigration (st : State) (group : Group) (lvl order : Nat)
    (migrationType : MigrationType) (isTable : Bool) : Option (State × Option Item) := do
  let maxOrder ← maxOrderOf st (st.nodeOf group).dim lvl migrationType
  match searchOrders st group migrationType isTable (maxOrder - order) order with
  | none => pure (st, none)
  | some (orderIndex, item) =>
      -- only a block at a multiple of the level's unit may leave a physical list
      if migrationType ≠ .sparseMovable ∧
          itemToIdx st item % 2 ^ functionItemLvl groupOrderNumShift lvl ≠ 0 then
        pure (st, none)
      else
        let st' ← listDel st item
        let st' := st'.countDec (.groupCell group migrationType orderIndex)
        pure (splitGroupMigration st' group item lvl order orderIndex migrationType, some item)

/-! ## 3. Budgets -/

/-- `int order_cnt`: the 64-bit count cut to 32 bits and extended again. -/
def orderCnt (count : Word) : Word := (count.setWidth 32).signExtend 64

/-- `group_budget`. -/
def groupBudget (st : State) (group : Group) (lvl : Nat) (migrationType : MigrationType)
    (order orderEnd : Nat) : Word :=
  ((List.range' order (orderEnd + 1 - order)).map fun index =>
    orderCnt (st.counts (.groupCell group migrationType index)) * bit index *
      bit (functionItemLvl groupOrderNumShift lvl)).sum

/-- `node_budget_lvl`, of the node `nu`. -/
def nodeBudgetLvl (st : State) (nu : Nat) (migrationType : MigrationType) (lvl : Nat) : Word :=
  groupBudget st (.phy nu lvl) lvl migrationType 0 maxItemOrder

/-! ## 4. What a split does -/

/-- Where a split puts the half of order `k` of the block at `item`. -/
def halfAt (mt : MigrationType) (lvl : Nat) (item : Item) (k : Nat) : Item :=
  itemAt item (splitSize mt lvl k)

@[simp] theorem itemAt_splitSize (mt : MigrationType) (lvl : Nat) (item : Item) (k : Nat) :
    itemAt item (splitSize mt lvl k) = halfAt mt lvl item k := rfl

theorem intOf_bit_of_lt {n : Nat} (h : n < 31) : intOf (bit n) = 2 ^ n := by
  have hlt : 2 ^ n < 2 ^ 31 := Nat.pow_lt_pow_right (by decide) h
  unfold intOf
  rw [BitVec.toInt_eq_toNat_cond, BitVec.toNat_setWidth, toNat_bit (by omega),
    Nat.mod_eq_of_lt (by omega), if_pos (by omega)]
  exact Int.natCast_pow 2 n

theorem intOf_bit_31 : intOf (bit 31) = -2147483648 := by decide

theorem intOf_bit_of_le {n : Nat} (h : 32 ≤ n) : intOf (bit n) = 0 := by
  have hz : (bit n).setWidth 32 = 0#32 := by
    apply BitVec.eq_of_getLsbD_eq
    intro i hi
    have hin : i < n := by omega
    simp [bit, hin]
  unfold intOf
  rw [hz]
  rfl

section Halves

variable {mt : MigrationType} {lvl k : Nat}

/-- Below `2 ^ 31` descriptors the half starts where the block ends. -/
theorem halfAt_of_lt (h : k + splitShift mt lvl < 31) (item : Item) :
    halfAt mt lvl item k = item + 2 ^ (k + splitShift mt lvl) := by
  have hcast : (item : Int) + 2 ^ (k + splitShift mt lvl) = (item + 2 ^ (k + splitShift mt lvl) : Nat) := by
    push_cast
    rfl
  unfold halfAt splitSize
  rw [intOf_bit_of_lt h, itemAt_of_nonneg (hcast ▸ Int.natCast_nonneg _), hcast, Int.toNat_natCast]

/-- At `2 ^ 31` it lies as far before the block. -/
theorem halfAt_eq_31 (h : k + splitShift mt lvl = 31) {item : Nat} (hi : 2 ^ 31 ≤ item) :
    halfAt mt lvl item k = item - 2 ^ 31 := by
  unfold halfAt splitSize
  rw [h, intOf_bit_31, itemAt_of_nonneg (by omega)]
  show ((item : Int) + -2147483648).toNat = item - 2 ^ 31
  omega

/-- With fewer before the block it is none of the array. -/
theorem halfAt_before (h : k + splitShift mt lvl = 31) {item : Nat} (hi : item < 2 ^ 31) :
    halfAt mt lvl item k = 2 ^ 64 - 2 ^ 31 + item := by
  unfold halfAt itemAt splitSize
  rw [h, intOf_bit_31, if_neg (by omega)]
  show (2 ^ 64 + ((item : Int) + -2147483648)).toNat = 2 ^ 64 - 2 ^ 31 + item
  omega

/-- It is not where the block ends. -/
theorem halfAt_31_ne (h : k + splitShift mt lvl = 31) (item : Nat) {n : Nat} (hn : n ≤ 31) :
    halfAt mt lvl item k ≠ item + 2 ^ n := by
  have hpow : 2 ^ n ≤ 2147483648 := Nat.pow_le_pow_right (Nat.zero_lt_two) hn
  have hpos := Nat.two_pow_pos n
  rcases Nat.lt_or_ge item (2 ^ 31) with hi | hi
  · rw [halfAt_before h hi]
    show 2 ^ 64 - 2 ^ 31 + item ≠ item + 2 ^ n
    omega
  · rw [halfAt_eq_31 h hi]
    show item - 2 ^ 31 ≠ item + 2 ^ n
    omega

/-- Above it is the block itself. -/
theorem halfAt_eq_32 (h : 32 ≤ k + splitShift mt lvl) (item : Item) :
    halfAt mt lvl item k = item := by
  unfold halfAt splitSize
  rw [intOf_bit_of_le h, itemAt_of_nonneg (by omega), Int.add_zero, Int.toNat_natCast]

/-- Halves off the block are at different descriptors. -/
theorem halfAt_inj {k' : Nat} {item : Item} (hk : halfAt mt lvl item k ≠ item)
    (hk' : halfAt mt lvl item k' ≠ item) (e : halfAt mt lvl item k = halfAt mt lvl item k') :
    k = k' := by
  have hle : ∀ {j : Nat}, halfAt mt lvl item j ≠ item →
      j + splitShift mt lvl < 31 ∨ j + splitShift mt lvl = 31 := by
    intro j hj
    by_contra hc
    rw [not_or] at hc
    exact hj (halfAt_eq_32 (by omega) item)
  rcases hle hk with h | h <;> rcases hle hk' with h' | h'
  · rw [halfAt_of_lt h, halfAt_of_lt h'] at e
    exact Nat.add_right_cancel (Nat.pow_right_injective (Nat.le_refl 2) (Nat.add_left_cancel e))
  · rw [halfAt_of_lt h] at e
    exact absurd e.symm (halfAt_31_ne h' item (Nat.le_of_lt h))
  · rw [halfAt_of_lt h'] at e
    exact absurd e (halfAt_31_ne h item (Nat.le_of_lt h'))
  · omega

/-- No MOVABLE block is that large: its unit is one descriptor. -/
theorem halfAt_movable (hk : k ≤ maxItemOrder) (item : Item) :
    halfAt .movable lvl item k = item + 2 ^ k := by
  rw [maxItemOrder_eq] at hk
  exact halfAt_of_lt (by show k + 0 < 31; omega) item

end Halves

/-- The item as `split2_group_migration` leaves it on the list of order `k`. -/
def putBack (group : Group) (migrationType : MigrationType) (nodeId lvl k : Nat) (x : ItemStruct) :
    ItemStruct :=
  { x with
    onList := some (.groupCell group migrationType k)
    flags := setItemSection (setItemNode (clearItemState (setItemOrder
      (clearItemPresent x.flags) k)) nodeId) lvl }

/-- What the loop puts on each list: one half an order. -/
def splitPieces (group : Group) (item : Item) (lvl orderMin : Nat) (migrationType : MigrationType)
    (n : Nat) : ListHead → List Item
  | .groupCell g t k =>
      if g = group ∧ t = migrationType ∧ orderMin ≤ k ∧ k < orderMin + n then
        [halfAt migrationType lvl item k]
      else []
  | _ => []

section Split

variable (group : Group) (item : Item) (lvl orderMin : Nat) (mt : MigrationType)

theorem splitPieces_cell (n k : Nat) :
    splitPieces group item lvl orderMin mt n (.groupCell group mt k) =
      if orderMin ≤ k ∧ k < orderMin + n then [halfAt mt lvl item k] else [] := by
  simp [splitPieces]

/-- One more order on top. -/
theorem splitPieces_succ (n : Nat) (h : ListHead) :
    splitPieces group item lvl orderMin mt (n + 1) h =
      splitPieces group item lvl orderMin mt n h ++
        if h = .groupCell group mt (orderMin + n) then [halfAt mt lvl item (orderMin + n)]
        else [] := by
  cases h with
  | groupCell g t k =>
      simp only [splitPieces, ListHead.groupCell.injEq]
      by_cases hg : g = group ∧ t = mt
      · obtain ⟨rfl, rfl⟩ := hg
        by_cases hk : k = orderMin + n
        · subst hk; simp
        · have : orderMin ≤ k ∧ k < orderMin + (n + 1) ↔ orderMin ≤ k ∧ k < orderMin + n := by omega
          simp [hk, this]
      · have h1 : ¬ (g = group ∧ t = mt ∧ orderMin ≤ k ∧ k < orderMin + (n + 1)) :=
          fun h => hg ⟨h.1, h.2.1⟩
        have h2 : ¬ (g = group ∧ t = mt ∧ orderMin ≤ k ∧ k < orderMin + n) :=
          fun h => hg ⟨h.1, h.2.1⟩
        have h3 : ¬ (g = group ∧ t = mt ∧ k = orderMin + n) := fun h => hg ⟨h.1, h.2.1⟩
        rw [if_neg h1, if_neg h2, if_neg h3, List.append_nil]
  | _ => simp [splitPieces]

@[simp] theorem split2_tables (st : State) (size : Int) (k : Nat) :
    (split2GroupMigration st group item size k mt lvl).tables = st.tables := rfl

@[simp] theorem split2_nodes (st : State) (size : Int) (k : Nat) :
    (split2GroupMigration st group item size k mt lvl).nodes = st.nodes := rfl

theorem split2_lists (st : State) (size : Int) (k : Nat) (h : ListHead) :
    (split2GroupMigration st group item size k mt lvl).lists h =
      (if h = .groupCell group mt k then [itemAt item size] else []) ++ st.lists h := by
  simp only [split2GroupMigration, State.countInc_lists, State.modFlags_lists, State.pushHead_lists]
  split
  · next e => rw [e]; rfl
  · rfl

theorem split2_counts (st : State) (size : Int) (k : Nat) (h : ListHead) :
    (split2GroupMigration st group item size k mt lvl).counts h =
      st.counts h +
        BitVec.ofNat 64 (if h = .groupCell group mt k then [itemAt item size] else []).length := by
  simp only [split2GroupMigration, State.countInc_counts, State.modFlags_counts,
    State.pushHead_counts]
  split
  · next e => rw [e]; rfl
  · simp

theorem split2_items (st : State) (size : Int) (k : Nat) (j : Item) :
    (split2GroupMigration st group item size k mt lvl).items j =
      if j = itemAt item size then putBack group mt (st.nodeOf group).nodeId lvl k (st.items j)
      else st.items j := by
  simp only [split2GroupMigration, State.countInc_items, State.modFlags_items, State.pushHead_items]
  by_cases hj : j = itemAt item size
  · subst hj
    simp only [if_pos]
    rfl
  · simp only [if_neg hj]

@[simp] theorem splitLoop_tables (n : Nat) (st : State) :
    (splitLoop group item lvl orderMin mt n st).tables = st.tables := by
  induction n generalizing st with
  | zero => rfl
  | succ n ih => rw [splitLoop, ih, split2_tables]

@[simp] theorem splitLoop_nodes (n : Nat) (st : State) :
    (splitLoop group item lvl orderMin mt n st).nodes = st.nodes := by
  induction n generalizing st with
  | zero => rfl
  | succ n ih => rw [splitLoop, ih, split2_nodes]

/-- **The lists after the loop.** -/
theorem splitLoop_lists (n : Nat) (st : State) (h : ListHead) :
    (splitLoop group item lvl orderMin mt n st).lists h =
      splitPieces group item lvl orderMin mt n h ++ st.lists h := by
  induction n generalizing st with
  | zero =>
      have : splitPieces group item lvl orderMin mt 0 h = [] := by
        cases h <;> simp only [splitPieces]
        rw [if_neg (by omega)]
      rw [splitLoop, this, List.nil_append]
  | succ n ih => rw [splitLoop, ih, split2_lists, splitPieces_succ, List.append_assoc, itemAt_splitSize]

/-- **The counts after the loop**: one more for each item the list gained. -/
theorem splitLoop_counts (n : Nat) (st : State) (h : ListHead) :
    (splitLoop group item lvl orderMin mt n st).counts h =
      st.counts h + BitVec.ofNat 64 (splitPieces group item lvl orderMin mt n h).length := by
  induction n generalizing st with
  | zero =>
      have : splitPieces group item lvl orderMin mt 0 h = [] := by
        cases h <;> simp only [splitPieces]
        rw [if_neg (by omega)]
      rw [splitLoop, this]
      simp
  | succ n ih =>
      rw [splitLoop, ih, split2_counts, splitPieces_succ, List.length_append, BitVec.add_assoc,
        ← BitVec.ofNat_add, Nat.add_comm, itemAt_splitSize]

/-- Only the halves are written. -/
theorem splitLoop_items_other {n : Nat} {st : State} {j : Item}
    (hj : ∀ k < n, j ≠ halfAt mt lvl item (orderMin + k)) :
    (splitLoop group item lvl orderMin mt n st).items j = st.items j := by
  induction n generalizing st with
  | zero => rfl
  | succ n ih =>
      rw [splitLoop, ih fun k hk => hj k (by omega), split2_items]
      exact if_neg (hj n (by omega))

/-- **The half of order `order_min + k`**, at a descriptor of its own. -/
theorem splitLoop_items_at {n k : Nat} (hk : k < n)
    (hne : ∀ k' < n, k' ≠ k →
      halfAt mt lvl item (orderMin + k') ≠ halfAt mt lvl item (orderMin + k)) (st : State) :
    (splitLoop group item lvl orderMin mt n st).items (halfAt mt lvl item (orderMin + k)) =
      putBack group mt (st.nodeOf group).nodeId lvl (orderMin + k)
        (st.items (halfAt mt lvl item (orderMin + k))) := by
  induction n generalizing st with
  | zero => omega
  | succ n ih =>
      rw [splitLoop]
      by_cases hkn : k = n
      · subst hkn
        rw [splitLoop_items_other, split2_items]
        · exact if_pos rfl
        · exact fun k' hk' e => hne k' (by omega) (by omega) e.symm
      · rw [ih (by omega) fun k' hk' => hne k' (by omega), split2_items, if_neg]
        · rfl
        · exact fun e => hne n (by omega) (fun e' => hkn e'.symm) e.symm

end Split

/-! ## 5. What a removal does -/

/-- `item` off its list `h`, the count of the list one less. -/
def State.takeOff (st : State) (h : ListHead) (item : Item) : State :=
  ((st.setList h ((st.lists h).erase item)).modItem item fun x => { x with onList := none }).countDec h

theorem searchList_mem {st : State} {group : Group} {mt : MigrationType} {isTable : Bool}
    {k : Nat} {item : Item} (h : searchList st group mt isTable k = some item) :
    item ∈ st.lists (.groupCell group mt k) := by
  unfold searchList at h
  split at h
  · cases h
  · exact List.mem_of_find?_eq_some h

/-- The search stops at the least order of the range that has an eligible item. -/
theorem searchOrders_eq_some {st : State} {group : Group} {mt : MigrationType} {isTable : Bool}
    {n order oi : Nat} {item : Item} :
    searchOrders st group mt isTable n order = some (oi, item) ↔
      order ≤ oi ∧ oi < order + n ∧ searchList st group mt isTable oi = some item ∧
        ∀ k, order ≤ k → k < oi → searchList st group mt isTable k = none := by
  induction n generalizing order with
  | zero => simp only [searchOrders]; constructor
            · intro h; cases h
            · intro h; omega
  | succ n ih =>
      rw [searchOrders]
      cases hs : searchList st group mt isTable order with
      | some found =>
          simp only [Option.some.injEq, Prod.mk.injEq]
          constructor
          · intro h
            obtain ⟨rfl, rfl⟩ := h
            exact ⟨Nat.le_refl _, by omega, hs, fun k h1 h2 => by omega⟩
          · intro h
            obtain ⟨h1, -, h3, h4⟩ := h
            rcases Nat.eq_or_lt_of_le h1 with rfl | hlt
            · rw [hs] at h3
              exact ⟨rfl, Option.some.inj h3⟩
            · have := h4 order (Nat.le_refl _) hlt
              rw [hs] at this
              cases this
      | none =>
          simp only [ih]
          constructor
          · intro h
            obtain ⟨h1, h2, h3, h4⟩ := h
            refine ⟨by omega, by omega, h3, fun k hk1 hk2 => ?_⟩
            rcases Nat.eq_or_lt_of_le hk1 with rfl | hlt
            · exact hs
            · exact h4 k hlt hk2
          · intro h
            obtain ⟨h1, h2, h3, h4⟩ := h
            have hne : order ≠ oi := by
              intro e
              subst e
              rw [hs] at h3
              cases h3
            exact ⟨by omega, by omega, h3, fun k hk1 hk2 => h4 k (by omega) hk2⟩

theorem searchOrders_eq_none {st : State} {group : Group} {mt : MigrationType} {isTable : Bool}
    {n order : Nat} :
    searchOrders st group mt isTable n order = none ↔
      ∀ k, order ≤ k → k < order + n → searchList st group mt isTable k = none := by
  induction n generalizing order with
  | zero => exact ⟨fun _ k h1 h2 => by omega, fun _ => rfl⟩
  | succ n ih =>
      rw [searchOrders]
      cases hs : searchList st group mt isTable order with
      | some found =>
          simp only [reduceCtorEq, false_iff]
          intro h
          rw [h order (Nat.le_refl _) (by omega)] at hs
          cases hs
      | none =>
          simp only [ih]
          constructor
          · intro h k hk1 hk2
            rcases Nat.eq_or_lt_of_le hk1 with rfl | hlt
            · exact hs
            · exact h k hlt (by omega)
          · intro h k hk1 hk2
            exact h k (by omega) (by omega)

section Removal

variable {st st' : State} {group : Group} {lvl order : Nat} {mt : MigrationType} {isTable : Bool}

/-- **A removal, read back**: it writes nothing, or it takes the item that the search finds off its
    list and puts the halves it does not need back. -/
theorem removeGroupMigration_cases {found : Option Item}
    (h : removeGroupMigration st group lvl order mt isTable = some (st', found)) :
    (st' = st ∧ found = none) ∨
    ∃ m oi item st1, maxOrderOf st (st.nodeOf group).dim lvl mt = some m ∧
      searchOrders st group mt isTable (m - order) order = some (oi, item) ∧
      ¬ (mt ≠ .sparseMovable ∧ itemToIdx st item % 2 ^ functionItemLvl groupOrderNumShift lvl ≠ 0) ∧
      listDel st item = some st1 ∧ found = some item ∧
      st' = splitGroupMigration (st1.countDec (.groupCell group mt oi)) group item lvl order oi mt := by
  unfold removeGroupMigration at h
  simp only [Option.bind_eq_bind, Option.bind_eq_some_iff] at h
  obtain ⟨m, hm, h⟩ := h
  split at h
  · cases h
    exact .inl ⟨rfl, rfl⟩
  · next oi item hs =>
      split at h
      · cases h
        exact .inl ⟨rfl, rfl⟩
      · next hgate =>
          obtain ⟨st1, hd, h⟩ := Option.bind_eq_some_iff.mp h
          cases h
          exact .inr ⟨m, oi, item, st1, hm, hs, hgate, hd, rfl, rfl⟩

/-- A removal that finds nothing writes nothing. -/
theorem removeGroupMigration_none
    (h : removeGroupMigration st group lvl order mt isTable = some (st', none)) : st' = st := by
  obtain ⟨rfl, -⟩ | ⟨_, _, _, _, -, -, -, -, hfound, -⟩ := removeGroupMigration_cases h
  · rfl
  · cases hfound

/-- **What a successful removal does**: the first eligible item of the least order that has one
    leaves its list, and its upper halves go back. -/
theorem removeGroupMigration_some {item : Item} (hL : st.Linked)
    (h : removeGroupMigration st group lvl order mt isTable = some (st', some item)) :
    ∃ m oi, maxOrderOf st (st.nodeOf group).dim lvl mt = some m ∧ order ≤ oi ∧ oi < m ∧
      searchList st group mt isTable oi = some item ∧
      (∀ k, order ≤ k → k < oi → searchList st group mt isTable k = none) ∧
      st' = splitGroupMigration (st.takeOff (.groupCell group mt oi) item) group item lvl order oi
        mt := by
  obtain ⟨-, hfound⟩ | ⟨m, oi, i, st1, hm, hs, -, hd, hfound, rfl⟩ := removeGroupMigration_cases h
  · cases hfound
  · obtain rfl := Option.some.inj hfound
    obtain ⟨h1, h2, h3, h4⟩ := searchOrders_eq_some.mp hs
    rw [listDel_of ((hL.mem item _).mpr (searchList_mem h3)), Option.some.injEq] at hd
    exact ⟨m, oi, hm, h1, by omega, h3, h4, by rw [← hd]; rfl⟩

end Removal

/-- The list `h` after the removal of `item` from order `oi`. -/
theorem remove_lists {st : State} {group : Group} {item : Item} {lvl order oi : Nat}
    {mt : MigrationType} (h : ListHead) :
    (splitGroupMigration (st.takeOff (.groupCell group mt oi) item) group item lvl order oi mt).lists h =
      splitPieces group item lvl order mt (oi - order) h ++
        if h = .groupCell group mt oi then (st.lists h).erase item else st.lists h := by
  simp only [splitGroupMigration, State.modFlags_lists, splitLoop_lists, State.takeOff,
    State.countDec_lists, State.modItem_lists, State.setList_lists]
  congr 1
  split
  · next e => rw [e]
  · rfl

/-- The block and its halves are all that is written. -/
theorem remove_items_other {st : State} {group : Group} {item : Item} {lvl order oi : Nat}
    {mt : MigrationType} {i : Item} (h1 : i ≠ item)
    (h2 : ∀ k, order ≤ k → k < oi → i ≠ halfAt mt lvl item k) :
    (splitGroupMigration (st.takeOff (.groupCell group mt oi) item) group item lvl order oi
      mt).items i = st.items i := by
  rw [splitGroupMigration, State.modFlags_items, if_neg h1,
    splitLoop_items_other _ _ _ _ _ fun k hk => h2 (order + k) (by omega) (by omega)]
  simp only [State.takeOff, State.countDec_items, State.modItem_items, State.setList_items,
    if_neg h1]

end TensorAlloc
