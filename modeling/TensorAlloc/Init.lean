/-
  File:      TensorAlloc/Init.lean
  Subject:   `tensor_init.c`: setting up a physical node and carving it into blocks
             (`_init_pnode`), and what the carving leaves on the lists.

  * `initPnode` -- the four steps for a physical node. The descriptors `__init_linear_space` hands
    out are a parameter; no reserved range is configured, and the build is not `DOWN_GROW`;
  * `BootReading` -- two things stand between the carving and its lists: the arguments of its
    insertions and the links of the heads;
  * `carveLevels` -- the loop over the levels, with its two `continue`s and its `break`, over
    `carveOrders` and `carveBlocks`;
  * `initPnode_carves` -- with either left as it is the first insertion does not return. With both
    put right the blocks are ONE row on one level: what is left is a power of two, so one order
    takes all of it.
-/
import TensorAlloc.Blocks
import TensorAlloc.Budget

namespace TensorAlloc

open DyadicBlocks

/-! ## 1. Heads, items, nodes -/

/-- `init_list_node` and a zero count, for every head of a kind. No item is listed there from now on;
    what the links of the head itself are is `BootReading.heads`. -/
def State.resetLists (st : State) (p : ListHead → Bool) : State :=
  { st with
    lists := fun h => if p h then [] else st.lists h
    counts := fun h => if p h then 0#64 else st.counts h }

/-- `__init_free_group_list`: the orders below `MAX_IDX_NUM`, the last one is left out. -/
def initFreeGroupList (st : State) (group : Group) : State :=
  st.resetLists fun
    | .groupCell g _ order => decide (g = group ∧ order < maxIdxNum)
    | _ => false

/-- `__init_free_node_list`. -/
def initFreeNodeList (st : State) (node : NodeRef) : State :=
  st.resetLists fun
    | .lruCacheCell n cpu => decide (n = node ∧ cpu < nodeLvlNum)
    | _ => false

/-- `init_item`: the node, the flags, and the two words of the links. `slice_ref` lies past them. -/
def initItem (st : State) (item : Item) : State :=
  st.modItem item fun x =>
    { x with
      flags := 0#64, onList := none, compoundNode := none, compoundHead := false
      next := none, prev := none, sliceHead := none, sliceStat := .empty }

def State.setTables (st : State) (f : Tables → Tables) : State := { st with tables := f st.tables }

/-- `__init_node` of the physical node `nu`. -/
def initNode (st : State) (nu offset size : Nat) : State :=
  let st := initFreeNodeList st (.phy nu)
  { st with
    nodes := Function.update st.nodes (.phy nu)
      { st.nodes (.phy nu) with
        nodeId := nu, offset := offset, size := size, status := .idle
        sequeueStreamId := BitVec.ofNat 64 (nodeReservedRangeSize / fixedItemSize)
        nrFreeitems := BitVec.ofNat 64 (size / fixedItemSize) } }

/-- `__init_item_pernode`, with the descriptors from `itemPtr` on. -/
def initItemPernode (st : State) (nu size : Nat) (itemPtr : Item) : Option State :=
  if size = 0 then some st
  else
    let pnItem := 2 ^ (fls size - 1 - groupOrderNumShift)
    let st := st.setTables fun t =>
      { t with
        phyItemStruct := Function.update t.phyItemStruct nu
          (if t.phyItemStruct nu = 0 then itemPtr else t.phyItemStruct nu)
        phyItemStructEnd := Function.update t.phyItemStructEnd nu (itemPtr + pnItem) }
    (itemToRelIdx st itemPtr nu).map fun index =>
      (List.range' index pnItem).foldl
        (fun st index => initItem st (st.tables.phyItemStruct nu + index)) st

/-- `__init_group_pernode` of the physical node `nu`. -/
def initGroupPernode (st : State) (nu size : Nat) : State :=
  let st := st.setTables fun t =>
    { t with phyGroupLvl := Function.update t.phyGroupLvl nu (nitemsToLvl (size / fixedItemSize)) }
  let st := (List.range groupLvlNum).foldl
    (fun st lvl => initFreeGroupList (st.setTables fun t =>
      { t with groupNode := Function.update t.groupNode (.phy nu lvl) (.phy nu) }) (.phy nu lvl)) st
  { st with
    nodes := Function.update st.nodes (.phy nu)
      { st.nodes (.phy nu) with group := some (.phy nu) } }

/-! ## 2. Carving -/

/-- The links of a head that was set up: NULL, as `init_list_node` leaves them, or the head itself. -/
inductive HeadLinks where
  | null | linked
  deriving DecidableEq, Repr

/-- How setting a node up is read: the arguments of its insertions, and the heads they insert at. -/
structure BootReading where
  call : Reading
  heads : HeadLinks
  deriving DecidableEq, Repr

/-- As the code stands. -/
def BootReading.written : BootReading := ⟨.written, .null⟩

/-- The list is passed as the list, and its head is linked to itself. -/
def BootReading.repaired : BootReading := ⟨.listFirst, .linked⟩

/-- `list_add_tail` into a list that was set up. Where its head has NULL links the first insertion
    writes through one of them (`listAddTail_nullHead`, `TensorAlloc/Links.lean`). -/
def bootAddTail (r : BootReading) (cell : ListHead) (item : Item) (st : State) : Option State :=
  if r.heads = .null ∧ st.lists cell = [] then none
  else listAddTail r.call (.item item) (.head cell) st

/-- `reserved_idx_start`, `reserved_idx_end` without `RESERVED_MEMBASE`. -/
def reservedIdxStart : Int := -1
def reservedIdxEnd : Int := reservedIdxStart

/-- The loop over the `n` blocks below `item_start`, the lowest first. -/
def carveBlocks (r : BootReading) (nu lvl orderIndex : Nat) (itemStart : Item) :
    Nat → State → Option State
  | 0, st => some st
  | n + 1, st => do
      let size := 2 ^ functionItemLvl groupOrderNumShift lvl * 2 ^ orderIndex
      let item := itemStart - (n + 1) * size
      let st := st.modFlags item fun flags => setItemNode (setItemOrder flags orderIndex) nu
      let idx := itemToIdx st item
      let cell := ListHead.groupCell (.phy nu lvl)
        (if reservedIdxStart ≤ idx ∧ idx < reservedIdxEnd then .unmovable else .movable) orderIndex
      let st ← bootAddTail r cell item st
      carveBlocks r nu lvl orderIndex itemStart n (st.countInc cell)

/-- The variables of `__init_pnode_item`: the globals, `rel_pa_offset`, `item_start`. -/
structure CarveVars where
  st : State
  relPaOffset : Nat
  itemStart : Item

/-- One turn of the loop over the orders. `item_start` becomes the block put last, the highest. -/
def carveOrder (r : BootReading) (nu lvl orderIndex : Nat) (c : CarveVars) : Option CarveVars :=
  let size := 2 ^ functionItemLvl groupOrderNumShift lvl * 2 ^ orderIndex
  let maxBlockFree := c.relPaOffset / size
  if maxBlockFree = 0 then some c
  else
    let st := c.st.setTables fun t =>
      if (lvl : Int) = t.phyGroupLvl nu ∧ t.phyGroupOrder nu = 0 then
        { t with phyGroupOrder :=
            Function.update t.phyGroupOrder nu (min (orderIndex + 1) groupOrderNumShift) }
      else t
    (carveBlocks r nu lvl orderIndex c.itemStart maxBlockFree st).map fun st =>
      ⟨st, c.relPaOffset - maxBlockFree * size, c.itemStart - size⟩

/-- The loop over the orders, from `n - 1` down. -/
def carveOrders (r : BootReading) (nu lvl : Nat) : Nat → CarveVars → Option CarveVars
  | 0, c => some c
  | n + 1, c => do carveOrders r nu lvl n (← carveOrder r nu lvl n c)

/-- `phy_group_lvl[pid]++`. -/
def bumpGroupLvl (nu : Nat) (t : Tables) : Tables :=
  { t with phyGroupLvl := Function.update t.phyGroupLvl nu (t.phyGroupLvl nu + 1) }

/-- The loop over `n` levels from `lvl`. -/
def carveLevels (r : BootReading) (nu : Nat) : Nat → Nat → CarveVars → Option CarveVars
  | 0, _, c => some c
  | n + 1, lvl, c =>
      let blockSize := 2 ^ functionItemLvl groupOrderNumShift lvl
      if c.relPaOffset < blockSize then carveLevels r nu n (lvl + 1) c
      else if rangeToIdx (c.st.nodes (.phy nu)).offset % blockSize ≠ 0 then
        carveLevels r nu n (lvl + 1) { c with st := c.st.setTables (bumpGroupLvl nu) }
      else do
        let c ← carveOrders r nu lvl (maxItemOrder + 1) c
        if c.relPaOffset = 0 then pure c else carveLevels r nu n (lvl + 1) c

/-- `__init_pnode_item`. From level -1 (`nitems_to_lvl` found none) the 32-bit `block_size` is 0:
    the alignment test passes index 0 only, which then divides by zero. -/
def initPnodeItem (r : BootReading) (st : State) (nu baseSize : Nat) : Option State :=
  let lvl := st.tables.phyGroupLvl nu
  let rel := baseSize / fixedItemSize
  let itemStart := st.tables.phyItemStructEnd nu
  if lvl < 0 then
    if rangeToIdx (st.nodes (.phy nu)).offset = 0 then none
    else (carveLevels r nu groupLvlNum 0
      ⟨st.setTables (bumpGroupLvl nu), rel, itemStart⟩).map CarveVars.st
  else
    (carveLevels r nu (groupLvlNum - lvl.toNat) lvl.toNat ⟨st, rel, itemStart⟩).map CarveVars.st

/-- `_init_pnode`. -/
def initPnode (r : BootReading) (st : State) (nu offset size : Nat) (itemPtr : Item) :
    Option State := do
  let st := initNode st nu offset size
  let st ← initItemPernode st nu size itemPtr
  initPnodeItem r (initGroupPernode st nu size) nu size

/-! ## 3. Where the loops stop -/

section Loops

variable {r : BootReading} {nu lvl k : Nat} {c : CarveVars}

/-- The size of a block of order `o` on level `lvl`. -/
theorem block_size (lvl o : Nat) :
    2 ^ functionItemLvl groupOrderNumShift lvl * 2 ^ o =
      2 ^ (o + functionItemLvl groupOrderNumShift lvl) := by
  rw [Nat.pow_add, Nat.mul_comm]

/-- An order too large for what is left is passed over. -/
theorem carveOrder_skip {o : Nat}
    (h : c.relPaOffset < 2 ^ (o + functionItemLvl groupOrderNumShift lvl)) :
    carveOrder r nu lvl o c = some c := by
  unfold carveOrder
  rw [block_size]
  exact if_pos (Nat.div_eq_of_lt h)

theorem carveOrders_done {n : Nat} (h : c.relPaOffset = 0) : carveOrders r nu lvl n c = some c := by
  induction n with
  | zero => rfl
  | succ n ih =>
      rw [carveOrders, carveOrder_skip (by rw [h]; exact Nat.two_pow_pos _)]
      exact ih

/-- An order that divides what is left takes all of it. -/
theorem carveOrder_rest {o : Nat} {c' : CarveVars}
    (hd : 2 ^ (o + functionItemLvl groupOrderNumShift lvl) ∣ c.relPaOffset)
    (h : carveOrder r nu lvl o c = some c') : c'.relPaOffset = 0 := by
  unfold carveOrder at h
  rw [block_size] at h
  by_cases hz : c.relPaOffset / 2 ^ (o + functionItemLvl groupOrderNumShift lvl) = 0
  · simp only [hz, if_true, Option.some.injEq] at h
    rw [← h, ← Nat.div_mul_cancel hd, hz, Nat.zero_mul]
  · simp only [hz, if_false, Option.map_eq_some_iff] at h
    obtain ⟨st, -, rfl⟩ := h
    show c.relPaOffset - _ = 0
    rw [Nat.div_mul_cancel hd, Nat.sub_self]

/-- **One order takes all**: the first that divides what is left, those above being too large. -/
theorem carveOrders_one {o n : Nat} (ho : o < n)
    (hd : 2 ^ (o + functionItemLvl groupOrderNumShift lvl) ∣ c.relPaOffset)
    (hz : ∀ j, o < j → j < n → c.relPaOffset < 2 ^ (j + functionItemLvl groupOrderNumShift lvl)) :
    carveOrders r nu lvl n c = carveOrder r nu lvl o c := by
  induction n with
  | zero => omega
  | succ n ih =>
      rw [carveOrders]
      rcases Nat.eq_or_lt_of_le (Nat.le_of_lt_succ ho) with rfl | hlt
      · cases hc : carveOrder r nu lvl o c with
        | none => rfl
        | some c' => exact carveOrders_done (carveOrder_rest hd hc)
      · rw [carveOrder_skip (hz n hlt (Nat.lt_succ_self n))]
        exact ih hlt fun j h1 h2 => hz j h1 (by omega)

/-- The order that takes `2 ^ k` descriptors on a level. -/
def carvedOrder (k lvl : Nat) : Nat :=
  min maxItemOrder (k - functionItemLvl groupOrderNumShift lvl)

theorem carvedOrder_le_max (k lvl : Nat) : carvedOrder k lvl ≤ maxItemOrder := Nat.min_le_left _ _

theorem carvedOrder_le {k lvl : Nat} (h : functionItemLvl groupOrderNumShift lvl ≤ k) :
    carvedOrder k lvl + functionItemLvl groupOrderNumShift lvl ≤ k := by
  unfold carvedOrder
  omega

theorem carveOrders_pow (hk : functionItemLvl groupOrderNumShift lvl ≤ k)
    (hc : c.relPaOffset = 2 ^ k) :
    carveOrders r nu lvl (maxItemOrder + 1) c = carveOrder r nu lvl (carvedOrder k lvl) c := by
  refine carveOrders_one (Nat.lt_succ_of_le (carvedOrder_le_max k lvl)) ?_ fun j h1 h2 => ?_
  · rw [hc]
    exact Nat.pow_dvd_pow 2 (carvedOrder_le hk)
  · rw [hc]
    unfold carvedOrder at h1
    exact Nat.pow_lt_pow_right (by decide) (by omega)

/-- The globals with the top level of the node at `l`. -/
def topAt (nu l : Nat) (st : State) : State :=
  st.setTables fun t => { t with phyGroupLvl := Function.update t.phyGroupLvl nu l }

theorem topAt_self {st : State} {l : Nat} (h : st.tables.phyGroupLvl nu = l) :
    topAt nu l st = st := by
  unfold topAt State.setTables
  dsimp only
  rw [← h, Function.update_eq_self]

theorem topAt_bump {st : State} {l : Nat} :
    topAt nu l (st.setTables (bumpGroupLvl nu)) = topAt nu l st := by
  unfold topAt State.setTables bumpGroupLvl
  simp only [Function.update_idem]

/-- A level further down has the smaller unit. -/
theorem unit_le (h : lvl + 1 < groupLvlNum) :
    functionItemLvl groupOrderNumShift (lvl + 1) ≤ functionItemLvl groupOrderNumShift lvl := by
  rw [groupLvlNum_eq] at h
  rw [functionItemLvl_eq (by omega), functionItemLvl_eq (by omega)]
  omega

/-- An aligned level whose unit is not too large takes all. -/
theorem carveLevels_takes {n : Nat} (hk : functionItemLvl groupOrderNumShift lvl ≤ k)
    (hc : c.relPaOffset = 2 ^ k)
    (ha : rangeToIdx (c.st.nodes (.phy nu)).offset % 2 ^ functionItemLvl groupOrderNumShift lvl = 0) :
    carveLevels r nu (n + 1) lvl c = carveOrder r nu lvl (carvedOrder k lvl) c := by
  have hle : ¬ c.relPaOffset < 2 ^ functionItemLvl groupOrderNumShift lvl := by
    rw [hc]
    exact Nat.not_lt.mpr (Nat.pow_le_pow_right (by decide) hk)
  rw [carveLevels, if_neg hle, if_neg (not_not.mpr ha), carveOrders_pow hk hc]
  cases ho : carveOrder r nu lvl (carvedOrder k lvl) c with
  | none => rfl
  | some c' =>
      have hrest := carveOrder_rest (by rw [hc]; exact Nat.pow_dvd_pow 2 (carvedOrder_le hk)) ho
      show (if c'.relPaOffset = 0 then some c' else _) = some c'
      rw [if_pos hrest]

/-- **The loop over the levels stops at the first aligned one**, which is then the top level: the
    levels before it are passed over, and it leaves nothing to the levels after it. -/
theorem carveLevels_first {n : Nat} (hn : lvl + n = groupLvlNum) (hl : lvl < groupLvlNum)
    (hk : functionItemLvl groupOrderNumShift lvl ≤ k) (hc : c.relPaOffset = 2 ^ k)
    (htop : c.st.tables.phyGroupLvl nu = lvl) :
    ∃ l, lvl ≤ l ∧ l < groupLvlNum ∧
      rangeToIdx (c.st.nodes (.phy nu)).offset % 2 ^ functionItemLvl groupOrderNumShift l = 0 ∧
      carveLevels r nu n lvl c =
        carveOrder r nu l (carvedOrder k l) { c with st := topAt nu l c.st } := by
  induction n generalizing lvl c with
  | zero => omega
  | succ n ih =>
      by_cases ha : rangeToIdx (c.st.nodes (.phy nu)).offset %
          2 ^ functionItemLvl groupOrderNumShift lvl = 0
      · refine ⟨lvl, Nat.le_refl _, hl, ha, ?_⟩
        rw [carveLevels_takes hk hc ha, topAt_self htop]
      · have hle : ¬ c.relPaOffset < 2 ^ functionItemLvl groupOrderNumShift lvl := by
          rw [hc]
          exact Nat.not_lt.mpr (Nat.pow_le_pow_right (by decide) hk)
        rw [carveLevels, if_neg hle, if_pos ha]
        have hlast : lvl ≠ 3 := by
          intro e
          subst e
          exact ha (Nat.mod_one _)
        simp only [groupLvlNum_eq] at hn hl
        have hmono := @unit_le lvl (by rw [groupLvlNum_eq]; omega)
        obtain ⟨l, h1, h2, h3, h4⟩ := @ih (lvl + 1)
          { c with st := c.st.setTables (bumpGroupLvl nu) }
          (by rw [groupLvlNum_eq]; omega) (by rw [groupLvlNum_eq]; omega)
          (Nat.le_trans hmono hk) hc
          (by
            show Function.update c.st.tables.phyGroupLvl nu _ nu = _
            rw [Function.update_self, htop]
            rfl)
        refine ⟨l, by omega, h2, h3, ?_⟩
        rw [h4]
        dsimp only
        rw [topAt_bump]

end Loops

/-! ## 4. What the insertions leave -/

/-- `st'` is `st` with the items of `row`, unlinked before, at the end of the list `cell`, marked
    as the node's. -/
structure RowAdded (st st' : State) (nu : Nat) (cell : ListHead) (row : List Item) : Prop where
  linked : st'.Linked
  lists : ∀ h, st'.lists h = st.lists h ++ if h = cell then row else []
  counts : ∀ h, st'.counts h =
    st.counts h + BitVec.ofNat 64 (if h = cell then row else []).length
  node : ∀ i ∈ row, getItemNode (st'.items i).flags = nu % 2 ^ ItemField.node.offset
  others : ∀ i, i ∉ row → st'.items i = st.items i
  tables : st'.tables = st.tables
  nodes : st'.nodes = st.nodes

theorem bootAddTail_repaired (cell : ListHead) (item : Item) (st : State) :
    bootAddTail .repaired cell item st = some (st.pushTail cell item) :=
  if_neg fun h => by cases h.1

/-- **With anything left as it is** the first insertion does not return. -/
theorem bootAddTail_faults {r : BootReading} (hr : r ≠ .repaired) {cell : ListHead} {item : Item}
    {st : State} (h : st.lists cell = []) : bootAddTail r cell item st = none := by
  obtain ⟨call, heads⟩ := r
  unfold bootAddTail
  cases heads with
  | null => exact if_pos ⟨rfl, h⟩
  | linked =>
      cases call with
      | written => rfl
      | listFirst => exact absurd rfl hr

/-- With the arguments as they are no insertion returns. -/
theorem bootAddTail_swapped {r : BootReading} (hr : r.call = .written) (cell : ListHead) (item : Item)
    (st : State) : bootAddTail r cell item st = none := by
  unfold bootAddTail
  rw [hr]
  exact ite_self _

/-- An index is never in the empty reserved range. -/
theorem not_reserved (idx : Int) : ¬ (reservedIdxStart ≤ idx ∧ idx < reservedIdxEnd) := by
  unfold reservedIdxEnd
  omega

/-- One block. -/
theorem carveBlocks_succ (nu lvl o : Nat) (itemStart : Item) (n : Nat) (st : State) :
    carveBlocks .repaired nu lvl o itemStart (n + 1) st =
      carveBlocks .repaired nu lvl o itemStart n
        (((st.modFlags (itemStart - (n + 1) * 2 ^ (o + functionItemLvl groupOrderNumShift lvl))
          fun flags => setItemNode (setItemOrder flags o) nu).pushTail
            (.groupCell (.phy nu lvl) .movable o)
            (itemStart - (n + 1) * 2 ^ (o + functionItemLvl groupOrderNumShift lvl))).countInc
              (.groupCell (.phy nu lvl) .movable o)) := by
  rw [carveBlocks, block_size]
  simp only [if_neg (not_reserved _), bootAddTail_repaired]
  rfl

/-- **The row of blocks goes to the MOVABLE list.** -/
theorem carveBlocks_repaired (nu lvl o : Nat) {n : Nat} {itemStart : Item} {st : State}
    (hL : st.Linked)
    (hx : n * 2 ^ (o + functionItemLvl groupOrderNumShift lvl) ≤ itemStart)
    (hu : ∀ i ∈ rowBelow itemStart (o + functionItemLvl groupOrderNumShift lvl) n,
      (st.items i).onList = none) :
    ∃ st', carveBlocks .repaired nu lvl o itemStart n st = some st' ∧
      RowAdded st st' nu (.groupCell (.phy nu lvl) .movable o)
        (rowBelow itemStart (o + functionItemLvl groupOrderNumShift lvl) n) := by
  induction n generalizing st with
  | zero =>
      refine ⟨st, rfl, hL, fun h => ?_, fun h => ?_, fun i hi => absurd hi List.not_mem_nil,
        fun i _ => rfl, rfl, rfl⟩
      · simp [rowBelow]
      · simp [rowBelow]
  | succ n ih =>
      have hx' : n * 2 ^ (o + functionItemLvl groupOrderNumShift lvl) ≤ itemStart :=
        Nat.le_trans (Nat.mul_le_mul_right _ (Nat.le_succ n)) hx
      have hnew := not_mem_rowBelow hx
      rw [rowBelow] at hu ⊢
      rw [carveBlocks_succ]
      generalize hi : itemStart - (n + 1) * 2 ^ (o + functionItemLvl groupOrderNumShift lvl) = i
        at hu hnew ⊢
      generalize hcell : ListHead.groupCell (.phy nu lvl) .movable o = cell at ih ⊢
      generalize hst1 : ((st.modFlags i fun flags => setItemNode (setItemOrder flags o) nu).pushTail
        cell i).countInc cell = st1
      have hL1 : st1.Linked := by
        rw [← hst1]
        refine ((hL.modFlags i _).pushTail ?_ cell).countInc cell
        rw [State.modFlags_items, if_pos rfl]
        exact hu i List.mem_cons_self
      have hitems1 : ∀ j, j ≠ i → st1.items j = st.items j := by
        intro j hj
        rw [← hst1, State.countInc_items, State.pushTail_items, if_neg hj, State.modFlags_items,
          if_neg hj]
      obtain ⟨st', hrun, hR⟩ := ih hL1 hx' fun j hj => by
        rw [hitems1 j fun e => hnew (e ▸ hj)]
        exact hu j (List.mem_cons_of_mem _ hj)
      refine ⟨st', ?_, hR.linked, fun h => ?_, fun h => ?_, fun j hj => ?_, fun j hj => ?_, ?_, ?_⟩
      · exact hrun
      · rw [hR.lists, ← hst1]
        simp only [State.countInc_lists, State.pushTail_lists, State.modFlags_lists]
        split
        · next e => rw [e, List.append_assoc, List.singleton_append]
        · rfl
      · rw [hR.counts, ← hst1]
        simp only [State.countInc_counts, State.pushTail_counts, State.modFlags_counts]
        split
        · next e =>
            rw [e, List.length_cons, BitVec.ofNat_add, BitVec.add_assoc,
              BitVec.add_comm (1 : Word)]
            rfl
        · rfl
      · rcases List.mem_cons.mp hj with rfl | hj
        · rw [hR.others j hnew, ← hst1]
          simp [State.pushTail_items]
        · exact hR.node j hj
      · rw [List.mem_cons, not_or] at hj
        rw [hR.others j hj.2, hitems1 j hj.1]
      · rw [hR.tables, ← hst1]
        rfl
      · rw [hR.nodes, ← hst1]
        rfl

/-- Where the insertion does not return, the first block is not put on its list. -/
theorem carveOrder_faults {r : BootReading} {nu lvl o : Nat} {c : CarveVars}
    (hc : 2 ^ (o + functionItemLvl groupOrderNumShift lvl) ≤ c.relPaOffset)
    (hf : ∀ st item, st.lists (.groupCell (.phy nu lvl) .movable o) =
        c.st.lists (.groupCell (.phy nu lvl) .movable o) →
      bootAddTail r (.groupCell (.phy nu lvl) .movable o) item st = none) :
    carveOrder r nu lvl o c = none := by
  have hpos := Nat.div_pos hc (Nat.two_pow_pos _)
  unfold carveOrder
  dsimp only
  rw [block_size, if_neg hpos.ne', Option.map_eq_none_iff]
  obtain ⟨m, hm⟩ := Nat.exists_eq_add_of_lt hpos
  rw [hm, Nat.zero_add, carveBlocks]
  simp only [if_neg (not_reserved _)]
  rw [hf]
  · rfl
  · rfl

/-! ## 5. The node before the carving -/

/-- Nothing listed, no count, every item zero. -/
structure Blank (st : State) : Prop where
  items : st.items = zeroed.items
  lists : st.lists = zeroed.lists
  counts : st.counts = zeroed.counts

theorem Blank.linked {st : State} (h : Blank st) : st.Linked :=
  zeroed_linked.congr h.lists fun i => by rw [h.items]

theorem Blank.resetLists {st : State} (h : Blank st) (p : ListHead → Bool) :
    Blank (st.resetLists p) where
  items := h.items
  lists := by
    funext k
    show (if p k then [] else st.lists k) = _
    rw [h.lists]
    exact ite_self _
  counts := by
    funext k
    show (if p k then 0#64 else st.counts k) = _
    rw [h.counts]
    exact ite_self _

theorem Blank.initItem {st : State} (h : Blank st) (i : Item) : Blank (initItem st i) where
  items := by
    unfold TensorAlloc.initItem State.modItem
    dsimp only
    rw [h.items]
    exact Function.update_eq_self i zeroed.items
  lists := h.lists
  counts := h.counts

theorem Blank.setTables {st : State} (h : Blank st) (f : Tables → Tables) :
    Blank (st.setTables f) :=
  ⟨h.items, h.lists, h.counts⟩

theorem Blank.setNode {st : State} (h : Blank st) (node : NodeRef) (x : NodeStruct) :
    Blank { st with nodes := Function.update st.nodes node x } :=
  ⟨h.items, h.lists, h.counts⟩

theorem Blank.initNode {st : State} (h : Blank st) (nu offset size : Nat) :
    Blank (initNode st nu offset size) :=
  ⟨h.items, (h.resetLists _).lists, (h.resetLists _).counts⟩

theorem initNode_nodes (st : State) (nu offset size : Nat) :
    (initNode st nu offset size).nodes = Function.update st.nodes (.phy nu)
      { st.nodes (.phy nu) with
        nodeId := nu, offset := offset, size := size, status := .idle
        sequeueStreamId := BitVec.ofNat 64 (nodeReservedRangeSize / fixedItemSize)
        nrFreeitems := BitVec.ofNat 64 (size / fixedItemSize) } := rfl

/-- The groups are the node's own. -/
theorem initGroupPernode_nodes (st : State) (nu size : Nat) :
    (initGroupPernode st nu size).nodes = Function.update st.nodes (.phy nu)
      { st.nodes (.phy nu) with group := some (.phy nu) } := rfl

theorem initItems_nodes (st : State) (l : List Nat) (base : State → Nat) :
    (l.foldl (fun st i => initItem st (base st + i)) st).nodes = st.nodes := by
  induction l generalizing st with
  | nil => rfl
  | cons i l ih => rw [List.foldl_cons, ih]; rfl

theorem initItems_lists (st : State) (l : List Nat) (base : State → Nat) :
    (l.foldl (fun st i => initItem st (base st + i)) st).lists = st.lists := by
  induction l generalizing st with
  | nil => rfl
  | cons i l ih => rw [List.foldl_cons, ih]; rfl

theorem initItems_tables (st : State) (l : List Nat) (base : State → Nat) :
    (l.foldl (fun st i => initItem st (base st + i)) st).tables = st.tables := by
  induction l generalizing st with
  | nil => rfl
  | cons i l ih => rw [List.foldl_cons, ih]; rfl

theorem Blank.initItems {st : State} (h : Blank st) (l : List Nat) (base : State → Nat) :
    Blank (l.foldl (fun st i => TensorAlloc.initItem st (base st + i)) st) := by
  induction l generalizing st with
  | nil => exact h
  | cons i l ih => exact ih (h.initItem _)

theorem Blank.initGroupPernode {st : State} (h : Blank st) (nu size : Nat) :
    Blank (initGroupPernode st nu size) := by
  have hreset : ∀ st lvl, Blank st → Blank (initFreeGroupList (st.setTables fun t =>
      { t with groupNode := Function.update t.groupNode (.phy nu lvl) (.phy nu) })
      (.phy nu lvl)) := fun st lvl h => (h.setTables _).resetLists _
  refine Blank.setNode ?_ (.phy nu) _
  exact hreset _ 3 (hreset _ 2 (hreset _ 1 (hreset _ 0 (h.setTables _))))

/-- A physical node of `2 ^ k` descriptors from `itemPtr`, set up and not yet carved. -/
structure SetUp (st : State) (nu offset k : Nat) (itemPtr : Item) : Prop where
  blank : Blank st
  first : st.tables.phyItemStruct nu = itemPtr
  last : st.tables.phyItemStructEnd nu = itemPtr + 2 ^ k
  top : st.tables.phyGroupLvl nu = nitemsToLvl (2 ^ k)
  order : st.tables.phyGroupOrder nu = 0
  offset : (st.nodes (.phy nu)).offset = offset
  nrFreeitems : (st.nodes (.phy nu)).nrFreeitems = BitVec.ofNat 64 (2 ^ k)

theorem fls_two_pow (n : Nat) : fls (2 ^ n) = n + 1 := by
  unfold fls
  rw [if_neg (Nat.two_pow_pos n).ne', Nat.log2_two_pow]

theorem size_items (k : Nat) : 2 ^ (12 + k) / fixedItemSize = 2 ^ k := by
  rw [Nat.pow_add]
  exact Nat.mul_div_cancel_left _ (by decide)

/-- **From zeroed globals the node is set up.** -/
theorem initPnode_setUp (r : BootReading) (nu offset k : Nat) (itemPtr : Item) :
    ∃ st, SetUp st nu offset k itemPtr ∧
      initPnode r zeroed nu offset (2 ^ (12 + k)) itemPtr =
        initPnodeItem r st nu (2 ^ (12 + k)) := by
  have hshift : fls (2 ^ (12 + k)) - 1 - groupOrderNumShift = k := by
    rw [fls_two_pow]
    show 12 + k + 1 - 1 - 12 = k
    omega
  have hblank : Blank (initNode zeroed nu offset (2 ^ (12 + k))) :=
    Blank.initNode ⟨rfl, rfl, rfl⟩ nu offset _
  unfold initPnode initItemPernode
  dsimp only
  rw [if_neg (Nat.two_pow_pos _).ne', hshift]
  generalize hst1 : State.setTables (initNode zeroed nu offset (2 ^ (12 + k))) _ = st1
  have hfirst : st1.tables.phyItemStruct nu = itemPtr := by
    rw [← hst1]
    exact Function.update_self _ _ _
  have hidx : itemToRelIdx st1 itemPtr nu = some 0 := by
    unfold itemToRelIdx
    rw [hfirst, if_pos (Nat.le_refl _), Nat.sub_self]
  rw [hidx, Option.map_some, Option.bind_eq_bind, Option.bind_some]
  generalize hst2 : List.foldl _ st1 (List.range' 0 (2 ^ k)) = st2
  have htables : st2.tables = st1.tables := by
    rw [← hst2]
    exact initItems_tables _ _ _
  have hnodes : st2.nodes = st1.nodes := by
    rw [← hst2]
    exact initItems_nodes _ _ _
  have hblank2 : Blank st2 := by
    rw [← hst2, ← hst1]
    exact (hblank.setTables _).initItems _ _
  refine ⟨initGroupPernode st2 nu (2 ^ (12 + k)), ⟨?_, ?_, ?_, ?_, ?_, ?_, ?_⟩, rfl⟩
  · exact hblank2.initGroupPernode nu _
  · show st2.tables.phyItemStruct nu = itemPtr
    rw [htables, hfirst]
  · show st2.tables.phyItemStructEnd nu = itemPtr + 2 ^ k
    rw [htables, ← hst1]
    exact Function.update_self _ _ _
  · show Function.update st2.tables.phyGroupLvl nu _ nu = _
    rw [Function.update_self, size_items]
  · show st2.tables.phyGroupOrder nu = 0
    rw [htables, ← hst1]
    rfl
  · rw [initGroupPernode_nodes, Function.update_self]
    show (st2.nodes (.phy nu)).offset = offset
    rw [hnodes, ← hst1]
    show ((initNode zeroed nu offset _).nodes (.phy nu)).offset = offset
    rw [initNode_nodes, Function.update_self]
  · rw [initGroupPernode_nodes, Function.update_self]
    show (st2.nodes (.phy nu)).nrFreeitems = _
    rw [hnodes, ← hst1]
    show ((initNode zeroed nu offset _).nodes (.phy nu)).nrFreeitems = _
    rw [initNode_nodes, Function.update_self]
    dsimp only
    rw [size_items]

/-! ## 6. The carved node -/

/-- The level the carving starts from. -/
theorem nitemsToLvl_pow {k : Nat} (hk : 9 ≤ k) :
    ∃ lvl : Nat, nitemsToLvl (2 ^ k) = lvl ∧ lvl < groupLvlNum ∧
      functionItemLvl groupOrderNumShift lvl ≤ k := by
  have hfit : ∀ lvl, 2 ^ k / 2 ^ functionItemLvl groupOrderNumShift lvl ≠ 0 ↔
      functionItemLvl groupOrderNumShift lvl ≤ k := by
    intro lvl
    rw [Nat.div_ne_zero_iff]
    exact ⟨fun h => (Nat.pow_le_pow_iff_right (by decide)).mp h.2,
      fun h => ⟨(Nat.two_pow_pos _).ne', Nat.pow_le_pow_right (by decide) h⟩⟩
  unfold nitemsToLvl
  cases hf : (List.range maxGroupLvls).find?
      (fun level => decide (2 ^ k / 2 ^ functionItemLvl groupOrderNumShift level ≠ 0)) with
  | none =>
      rw [List.find?_eq_none] at hf
      have h2 := hf 2 (by decide)
      rw [decide_eq_true_eq, hfit] at h2
      exact absurd hk h2
  | some lvl =>
      have hp := List.find?_some hf
      have hm := List.mem_of_find?_eq_some hf
      rw [decide_eq_true_eq, hfit] at hp
      rw [List.mem_range, maxGroupLvls_eq] at hm
      exact ⟨lvl, rfl, by rw [groupLvlNum_eq]; omega, hp⟩

/-- A node whose `2 ^ k` descriptors from `itemPtr` are tiled by blocks on its MOVABLE lists. -/
structure Carved (st : State) (nu k : Nat) (itemPtr : Item) : Prop where
  linked : st.Linked
  counted : ∀ lvl, Counted st (.phy nu lvl) .movable
  first : st.tables.phyItemStruct nu = itemPtr
  movable : ∀ lvl t o, t ≠ .movable → st.lists (.groupCell (.phy nu lvl) t o) = []
  tiles : Tiles (freeBlocks st nu) ⟨0, k⟩
  start : ∀ lvl o, ∀ i ∈ st.lists (.groupCell (.phy nu lvl) .movable o), itemPtr ≤ i
  aligned : ∀ lvl o, ∀ i ∈ st.lists (.groupCell (.phy nu lvl) .movable o),
    itemToIdx st i % 2 ^ functionItemLvl groupOrderNumShift lvl = 0
  orders : ∀ lvl o, st.lists (.groupCell (.phy nu lvl) .movable o) ≠ [] →
    lvl < groupLvlNum ∧ o ≤ maxItemOrder ∧
      ((lvl : Int) = st.tables.phyGroupLvl nu → o < st.tables.phyGroupOrder nu)
  budget : (∑ lvl ∈ Finset.range groupLvlNum, nodeBudgetLvl st nu .movable lvl) =
    BitVec.ofNat 64 (2 ^ (12 + k) / fixedItemSize)
  nrFreeitems : (st.nodes (.phy nu)).nrFreeitems = BitVec.ofNat 64 (2 ^ (12 + k) / fixedItemSize)

section Carved

variable {st st' : State} {nu offset k l o n : Nat} {itemPtr : Item}

/-- The tables with the top level of the node and its order set. -/
def carvedTables (nu l o : Nat) (t : Tables) : Tables :=
  { t with
    phyGroupLvl := Function.update t.phyGroupLvl nu l
    phyGroupOrder := Function.update t.phyGroupOrder nu (o + 1) }

/-- One row of blocks that make the whole node, on an aligned level. -/
structure OneRow (st st' : State) (nu k l o n : Nat) (itemPtr : Item) : Prop where
  setUp : ∃ offset, SetUp st nu offset k itemPtr ∧
    rangeToIdx offset % 2 ^ functionItemLvl groupOrderNumShift l = 0
  row : RowAdded (st.setTables (carvedTables nu l o)) st' nu (.groupCell (.phy nu l) .movable o)
    (rowBelow (itemPtr + 2 ^ k) (o + functionItemLvl groupOrderNumShift l) n)
  node : nu < 2 ^ ItemField.node.offset
  level : l < groupLvlNum
  order : o ≤ maxItemOrder
  whole : n * 2 ^ (o + functionItemLvl groupOrderNumShift l) = 2 ^ k
  small : k < 31

theorem OneRow.lists (h : OneRow st st' nu k l o n itemPtr) (c : ListHead) :
    st'.lists c = if c = .groupCell (.phy nu l) .movable o then
      rowBelow (itemPtr + 2 ^ k) (o + functionItemLvl groupOrderNumShift l) n else [] := by
  obtain ⟨_, hS, -⟩ := h.setUp
  rw [h.row.lists]
  show st.lists c ++ _ = _
  rw [hS.blank.lists]
  exact List.nil_append _

theorem OneRow.counts (h : OneRow st st' nu k l o n itemPtr) (c : ListHead) :
    st'.counts c = BitVec.ofNat 64 (st'.lists c).length := by
  obtain ⟨_, hS, -⟩ := h.setUp
  rw [h.row.counts, h.lists]
  show st.counts c + _ = _
  rw [hS.blank.counts]
  exact BitVec.zero_add _

theorem OneRow.length_le (h : OneRow st st' nu k l o n itemPtr) : n ≤ 2 ^ k :=
  h.whole ▸ Nat.le_mul_of_pos_right n (Nat.two_pow_pos _)

theorem OneRow.counted (h : OneRow st st' nu k l o n itemPtr) (lvl : Nat) (t : MigrationType) :
    Counted st' (.phy nu lvl) t := by
  intro j _
  refine ⟨?_, h.counts _⟩
  have hn := h.length_le
  have hpow : 2 ^ k ≤ 2 ^ 30 := Nat.pow_le_pow_right (by decide) (Nat.le_of_lt_succ h.small)
  rw [h.lists]
  split
  · rw [length_rowBelow]
    omega
  · exact Nat.two_pow_pos 31

theorem OneRow.first (h : OneRow st st' nu k l o n itemPtr) :
    st'.tables.phyItemStruct nu = itemPtr := by
  obtain ⟨_, hS, -⟩ := h.setUp
  rw [h.row.tables]
  exact hS.first

/-- The one row, read as blocks counted from the node's first descriptor, tiles the node. -/
theorem OneRow.tiles (h : OneRow st st' nu k l o n itemPtr) : Tiles (freeBlocks st' nu) ⟨0, k⟩ := by
  have hcell : freeBlocks st' nu = (rowBelow (2 ^ k) (o + functionItemLvl groupOrderNumShift l) n :
      Multiset Nat).map fun y => ⟨y, o + functionItemLvl groupOrderNumShift l⟩ := by
    unfold freeBlocks
    rw [h.first, Finset.sum_eq_single_of_mem (l, .movable, o)
      (mem_nodeCells.mpr ⟨h.level, h.order⟩)]
    · show Multiset.map _ (st'.lists (.groupCell (.phy nu l) .movable o) : Multiset Item) = _
      rw [h.lists, if_pos rfl]
      have hrow := map_sub_rowBelow itemPtr (itemPtr + 2 ^ k)
        (o + functionItemLvl groupOrderNumShift l) n
      rw [Nat.add_sub_cancel_left] at hrow
      rw [← hrow, Multiset.map_coe, Multiset.map_coe, List.map_map]
      rfl
    · intro c _ hne
      have hoff : nodeCell nu c ≠ .groupCell (.phy nu l) .movable o :=
        fun e => hne (nodeCell_injective nu e)
      rw [h.lists, if_neg hoff]
      rfl
  rw [hcell]
  exact tiles_rowBelow h.whole

/-- A block of the row starts at or above the node's first descriptor, at a multiple of its size. -/
theorem OneRow.mem (h : OneRow st st' nu k l o n itemPtr) {i : Item}
    (hi : i ∈ rowBelow (itemPtr + 2 ^ k) (o + functionItemLvl groupOrderNumShift l) n) :
    ∃ q, i = itemPtr + q * 2 ^ (o + functionItemLvl groupOrderNumShift l) := by
  obtain ⟨j, hj, rfl⟩ := mem_rowBelow.mp hi
  refine ⟨n - (j + 1), ?_⟩
  rw [← h.whole, Nat.sub_mul]
  exact Nat.add_sub_assoc (Nat.mul_le_mul_right _ hj) itemPtr

theorem OneRow.aligned (h : OneRow st st' nu k l o n itemPtr) {i : Item}
    (hi : i ∈ rowBelow (itemPtr + 2 ^ k) (o + functionItemLvl groupOrderNumShift l) n) :
    itemToIdx st' i % 2 ^ functionItemLvl groupOrderNumShift l = 0 := by
  obtain ⟨offset, hS, ha⟩ := h.setUp
  have hnode : getItemNode (st'.items i).flags = nu := by
    rw [h.row.node i hi, Nat.mod_eq_of_lt h.node]
  have hoff : (st'.nodes (.phy nu)).offset = offset := by
    rw [h.row.nodes]
    exact hS.offset
  obtain ⟨q, rfl⟩ := h.mem hi
  unfold itemToIdx
  dsimp only
  rw [hnode, h.first, hoff, Nat.pow_add, Nat.cast_add, add_sub_cancel_left]
  obtain ⟨p, hp⟩ := Nat.dvd_of_mod_eq_zero ha
  rw [hp]
  refine Int.emod_eq_zero_of_dvd ⟨q * 2 ^ o + p, ?_⟩
  push_cast
  ring

/-- The whole budget lies on the level of the row. -/
theorem OneRow.budget (h : OneRow st st' nu k l o n itemPtr) :
    (∑ lvl ∈ Finset.range groupLvlNum, nodeBudgetLvl st' nu .movable lvl) =
    BitVec.ofNat 64 (2 ^ k) := by
  have hlvl : ∀ lvl, nodeBudgetLvl st' nu .movable lvl =
      BitVec.ofNat 64 (listed st' (.phy nu lvl) lvl .movable 0) :=
    fun lvl => groupBudget_eq (h.counted lvl .movable) lvl 0
  rw [Finset.sum_eq_single_of_mem l (Finset.mem_range.mpr h.level)]
  · rw [hlvl, ← h.whole]
    unfold listed
    rw [Finset.sum_eq_single_of_mem o (Finset.mem_Ico.mpr
      ⟨Nat.zero_le o, Nat.lt_succ_of_le h.order⟩)]
    · rw [h.lists, if_pos rfl, length_rowBelow]
    · intro j _ hne
      rw [h.lists, if_neg (by simpa using hne), List.length_nil, Nat.zero_mul]
  · intro lvl _ hne
    rw [hlvl, (listed_eq_zero st' _ lvl _ 0).mpr fun j _ _ => by
      rw [h.lists, if_neg (by simpa using fun e => absurd e hne)]]
    rfl

/-- **One row on one level is a carved node.** -/
theorem OneRow.carved (h : OneRow st st' nu k l o n itemPtr) : Carved st' nu k itemPtr := by
  have hcell : ∀ lvl j, st'.lists (.groupCell (.phy nu lvl) .movable j) ≠ [] → lvl = l ∧ j = o := by
    intro lvl j hne
    rw [h.lists] at hne
    split at hne
    · next e =>
        injection e with e _ ho
        injection e with _ hl
        exact ⟨hl, ho⟩
    · exact absurd rfl hne
  have hrow : ∀ lvl j, ∀ i ∈ st'.lists (.groupCell (.phy nu lvl) .movable j), lvl = l ∧
      i ∈ rowBelow (itemPtr + 2 ^ k) (o + functionItemLvl groupOrderNumShift l) n := by
    intro lvl j i hi
    obtain ⟨rfl, rfl⟩ := hcell lvl j (List.ne_nil_of_mem hi)
    rw [h.lists, if_pos rfl] at hi
    exact ⟨rfl, hi⟩
  refine ⟨h.row.linked, fun lvl => h.counted lvl _, h.first, fun lvl t j ht => ?_, h.tiles,
    fun lvl j i hi => ?_, fun lvl j i hi => ?_, fun lvl j hne => ?_, ?_, ?_⟩
  · rw [h.lists, if_neg]
    intro e
    injection e with _ e _
    exact ht e
  · obtain ⟨q, rfl⟩ := h.mem (hrow lvl j i hi).2
    exact Nat.le_add_right _ _
  · obtain ⟨rfl, hi⟩ := hrow lvl j i hi
    exact h.aligned hi
  · obtain ⟨rfl, rfl⟩ := hcell lvl j hne
    refine ⟨h.level, h.order, fun _ => ?_⟩
    rw [h.row.tables]
    show j < Function.update st.tables.phyGroupOrder nu (j + 1) nu
    rw [Function.update_self]
    exact Nat.lt_succ_self j
  · rw [size_items]
    exact h.budget
  · obtain ⟨_, hS, -⟩ := h.setUp
    rw [size_items, h.row.nodes]
    exact hS.nrFreeitems

end Carved

/-- Both readings come to one turn of the loop over the orders, on an aligned level. -/
theorem initPnode_run (r : BootReading) (nu offset : Nat) {k : Nat} (itemPtr : Item) (hk : 9 ≤ k) :
    ∃ st l, SetUp st nu offset k itemPtr ∧ l < groupLvlNum ∧
      functionItemLvl groupOrderNumShift l ≤ k ∧
      rangeToIdx offset % 2 ^ functionItemLvl groupOrderNumShift l = 0 ∧
      initPnode r zeroed nu offset (2 ^ (12 + k)) itemPtr =
        (carveOrder r nu l (carvedOrder k l)
          ⟨topAt nu l st, 2 ^ k, itemPtr + 2 ^ k⟩).map CarveVars.st := by
  obtain ⟨lvl, hlvl, hl, hu⟩ := nitemsToLvl_pow hk
  obtain ⟨st, hS, hrun⟩ := initPnode_setUp r nu offset k itemPtr
  have htop : st.tables.phyGroupLvl nu = lvl := by rw [hS.top, hlvl]
  obtain ⟨l, h1, h2, h3, h4⟩ := carveLevels_first (r := r) (k := k)
    (c := ⟨st, 2 ^ k, itemPtr + 2 ^ k⟩) (n := groupLvlNum - lvl) (by omega) hl hu rfl htop
  rw [hS.offset] at h3
  refine ⟨st, l, hS, h2, ?_, h3, ?_⟩
  · rw [groupLvlNum_eq] at hl h2
    rw [functionItemLvl_eq (by omega)] at hu ⊢
    omega
  · rw [hrun]
    unfold initPnodeItem
    dsimp only
    rw [htop, size_items, hS.last, if_neg (by omega), Int.toNat_natCast, h4]

/-- The first insertion does not return, unless both are put right. -/
theorem initPnode_faults {r : BootReading} (hr : r ≠ .repaired) (nu offset : Nat) {k : Nat}
    (itemPtr : Item) (hk : 9 ≤ k) : initPnode r zeroed nu offset (2 ^ (12 + k)) itemPtr = none := by
  obtain ⟨st, l, hS, -, hu, -, hrun⟩ := initPnode_run r nu offset itemPtr hk
  rw [hrun, carveOrder_faults (Nat.pow_le_pow_right (by decide) (carvedOrder_le hu)) fun _ _ h =>
    bootAddTail_faults hr (h.trans (congrFun hS.blank.lists _))]
  rfl

/-- One order of one level takes the node. -/
theorem initPnode_repaired {nu k : Nat} (offset : Nat) (itemPtr : Item)
    (hnu : nu < 2 ^ ItemField.node.offset) (hk : 9 ≤ k) (hk' : k ≤ 30) :
    ∃ st, initPnode .repaired zeroed nu offset (2 ^ (12 + k)) itemPtr = some st ∧
      Carved st nu k itemPtr := by
  obtain ⟨st, l, hS, h2, hu, h3, hrun⟩ := initPnode_run .repaired nu offset itemPtr hk
  have hle := carvedOrder_le hu
  have hwhole : 2 ^ (k - (carvedOrder k l + functionItemLvl groupOrderNumShift l)) *
      2 ^ (carvedOrder k l + functionItemLvl groupOrderNumShift l) = 2 ^ k := by
    rw [← Nat.pow_add, Nat.sub_add_cancel hle]
  have hfit : 2 ^ (k - (carvedOrder k l + functionItemLvl groupOrderNumShift l)) *
      2 ^ (carvedOrder k l + functionItemLvl groupOrderNumShift l) ≤ itemPtr + 2 ^ k :=
    hwhole ▸ Nat.le_add_left (2 ^ k) itemPtr
  -- the first block sets the order of the top level
  have htables : (topAt nu l st).setTables (fun t =>
      if (l : Int) = t.phyGroupLvl nu ∧ t.phyGroupOrder nu = 0 then
        { t with phyGroupOrder :=
            Function.update t.phyGroupOrder nu (min (carvedOrder k l + 1) groupOrderNumShift) }
      else t) = st.setTables (carvedTables nu l (carvedOrder k l)) := by
    have hmin : min (carvedOrder k l + 1) groupOrderNumShift = carvedOrder k l + 1 :=
      Nat.min_eq_left (Nat.succ_le_succ (Nat.le_trans (carvedOrder_le_max k l) (by decide)))
    unfold topAt State.setTables carvedTables
    dsimp only
    rw [if_pos ⟨by rw [Function.update_self], hS.order⟩, hmin]
  obtain ⟨st', hblocks, hR⟩ := carveBlocks_repaired nu l (carvedOrder k l)
    (hS.blank.setTables (carvedTables nu l (carvedOrder k l))).linked
    hfit
    (fun i _ => by
      show (st.items i).onList = none
      rw [hS.blank.items]
      rfl)
  refine ⟨st', ?_, OneRow.carved ⟨⟨offset, hS, h3⟩, hR, hnu, h2, carvedOrder_le_max k l, hwhole,
    Nat.lt_succ_of_le hk'⟩⟩
  rw [hrun]
  unfold carveOrder
  dsimp only
  rw [block_size, Nat.pow_div hle (by decide), if_neg (Nat.two_pow_pos _).ne', htables, hblocks]
  rfl

/-- **Carving a node tiles it**, whatever its offset, where the list is passed as the list and its head
    is linked to itself. With either left as it is the first block is never listed. -/
theorem initPnode_carves (nu offset k : Nat) (itemPtr : Item) (hnu : nu < 2 ^ ItemField.node.offset)
    (hk : 9 ≤ k) (hk' : k ≤ 30) :
    (∀ r, r ≠ .repaired → initPnode r zeroed nu offset (2 ^ (12 + k)) itemPtr = none) ∧
      ∃ st, initPnode .repaired zeroed nu offset (2 ^ (12 + k)) itemPtr = some st ∧
        Carved st nu k itemPtr :=
  ⟨fun _ hr => initPnode_faults hr nu offset itemPtr hk, initPnode_repaired offset itemPtr hnu hk hk'⟩

/-- 512 descriptors from index 1: only the finest level is aligned. -/
theorem initPnode_carves_odd :
    (∀ r, r ≠ .repaired → initPnode r zeroed 16 4096 (2 ^ 21) 0 = none) ∧
      ∃ st, initPnode .repaired zeroed 16 4096 (2 ^ 21) 0 = some st ∧ Carved st 16 9 0 :=
  initPnode_carves 16 4096 9 0 (by decide) (by decide) (by decide)

/-- 512 descriptors of the memory node at its default base: no state is reached. -/
theorem initPnode_lists_nothing :
    ¬ ∃ st, initPnode .written zeroed 16 0x80000000 (2 ^ 21) 0 = some st ∧ Carved st 16 9 0 := by
  intro h
  obtain ⟨st, h, -⟩ := h
  have hnone : initPnode .written zeroed 16 0x80000000 (2 ^ 21) 0 = none :=
    @initPnode_faults .written (by decide) 16 0x80000000 9 0 (Nat.le_refl 9)
  rw [hnone] at h
  cases h

end TensorAlloc
