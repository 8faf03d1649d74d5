/-
  File:      TensorAlloc/Borrow.lean
  Subject:   A block of one level made from the blocks of another: cut out of a coarser one
             (`forward_remove_group_migration`) or assembled from smaller ones
             (`enqueue_group_migration`).

  * `forwardRemove_borrows_never` -- the first never succeeds: the halves of the unit it cuts are of
    order 11, and the lists end with order 8;
  * `enqueueLoop` -- the second moves whole lists only (`cellLoop_moves`), and reads on in the units of
    the order before where a list is empty (`enqueueLoop_run`);
  * `enqueueGroupMigration_exact_iff` -- so it is exact just where full lists add up to the request.
-/
import TensorAlloc.Dispatch
import TensorAlloc.FreeExact

namespace TensorAlloc

/-! ## 1. Cutting a coarser block -/

/-- **Borrowing is exact**: a block of the level and order asked for, and the budgets of the levels hold
    just that much less. -/
def BorrowExact (st : State) (lvl : Nat) (mt : MigrationType) (order dim : Nat) : Prop :=
  ∃ cur st' item, getCurrentNodeNum dim = some cur ∧
    forwardRemoveGroupMigration st lvl mt order dim = some (st', some item) ∧
    getItemSection (st'.items item).flags = lvl ∧ getItemOrder (st'.items item).flags = order ∧
    levelBudgets st' cur mt + bit (order + functionItemLvl groupOrderNumShift lvl) =
      levelBudgets st cur mt

/-- **Nothing is ever borrowed**: where the level asked for has no budget no block is returned, and where
    a coarser level has one the call writes past the lists. -/
theorem forwardRemove_borrows_never {st : State} {lvl order dim cur : Nat} {mt : MigrationType}
    (hcur : getCurrentNodeNum dim = some cur)
    (hown : groupBudget st (.phy cur lvl) lvl mt order maxItemOrder = 0) :
    ¬ BorrowExact st lvl mt order dim ∧
    ∀ L : Nat, st.tables.phyGroupLvl cur ≤ L → L < lvl →
      groupBudget st (.phy cur L) L mt 0 maxItemOrder ≠ 0 →
      (∀ l, L < l → l < lvl → groupBudget st (.phy cur l) l mt 0 maxItemOrder = 0) →
        forwardRemoveGroupMigration st lvl mt order dim = none := by
  constructor
  · intro h
    obtain ⟨cur', st', item, -, hrun, -⟩ := h
    unfold forwardRemoveGroupMigration at hrun
    simp only [hcur, Option.bind_eq_bind, Option.bind_some, Option.bind_eq_some_iff] at hrun
    obtain ⟨last, hlast, hrun⟩ := hrun
    split at hrun
    · simp at hrun
    · next hle =>
        have hle' := Int.not_lt.mp hle
        have htop : st.tables.phyGroupLvl cur ≤ lvl := Int.le_trans hle' (forwardGroupBudget_le hlast)
        obtain ⟨st1, hb, -⟩ := Option.bind_eq_some_iff.mp hrun
        cases hn : lvl - last.toNat with
        | zero => exact (forwardGroupBudget_own htop).mp ⟨last, hlast, hle', hn⟩ hown
        | succ n =>
            rw [hn, borrowLevels_faults] at hb
            cases hb
  · intro L htop hlt hfound hbetween
    unfold forwardRemoveGroupMigration
    rw [hcur, Option.bind_eq_bind, Option.bind_some,
      forwardGroupBudget_coarser htop hfound hlt hown hbetween, Option.bind_eq_bind, Option.bind_some,
      if_neg (Int.not_lt.mpr htop), Int.toNat_natCast]
    obtain ⟨n, hn⟩ := Nat.exists_eq_succ_of_ne_zero (Nat.sub_ne_zero_of_lt hlt)
    rw [hn, borrowLevels_faults]
    rfl

/-- Node 0 with one unit of level 2 free, of its top order there, and nothing on level 3. -/
def coarseBlock : State :=
  { oneBlock (.groupCell (.phy 0 2) .reclaimable 0) 0 with
    tables := { zeroed.tables with phyGroupLvl := fun _ => 2, phyGroupOrder := fun _ => 1 } }

theorem coarseBlock_budgets :
    groupBudget coarseBlock (.phy 0 3) 3 .reclaimable 0 maxItemOrder = 0 ∧
      groupBudget coarseBlock (.phy 0 2) 2 .reclaimable 0 maxItemOrder = 512 := by
  decide +kernel

/-- A descriptor of level 3 is not cut out of it: the call runs past the lists. -/
theorem coarseBlock_faults :
    forwardRemoveGroupMigration coarseBlock 3 .reclaimable 0 dimTime = none :=
  (forwardRemove_borrows_never rfl coarseBlock_budgets.1).2 2 (by decide) (by decide)
    (by rw [coarseBlock_budgets.2]; decide) fun l h1 h2 => by omega

/-- So the unit of level 2 serves no request of level 3. -/
theorem coarseBlock_not_borrowed :
    groupBudget coarseBlock (.phy 0 3) 3 .reclaimable 0 maxItemOrder = 0 ∧
      groupBudget coarseBlock (.phy 0 2) 2 .reclaimable 0 maxItemOrder = 512 ∧
      coarseBlock.lists (.groupCell (.phy 0 2) .reclaimable 0) = [0] ∧
      ¬ BorrowExact coarseBlock 3 .reclaimable 0 dimTime := by
  refine ⟨coarseBlock_budgets.1, coarseBlock_budgets.2, rfl, fun h => ?_⟩
  obtain ⟨cur, st', item, -, hrun, -⟩ := h
  have hnone : forwardRemoveGroupMigration coarseBlock 3 .reclaimable 0 dimTime = none := rfl
  rw [hnone] at hrun
  cases hrun

/-! ## 2. Assembling smaller blocks -/

/-- `free_count -= n`. -/
def State.countSub (st : State) (h : ListHead) (n : Word) : State :=
  { st with counts := Function.update st.counts h (st.counts h - n) }

/-- `list_remove_head` of the item at the head: its two links are zeroed, `compound_node` is the
    first of them. -/
def listRemoveHead (st : State) (item : Item) : Option State :=
  (listDel st item).map fun st => st.modItem item fun x => { x with compoundNode := none }

/-- `list_next_entry`: NULL after the last item, and for an item whose links are NULL. -/
def listNextEntry (st : State) (cell : ListHead) (item : Item) : Option Item :=
  if (st.items item).onList = none then none
  else ((st.lists cell).dropWhile (· ≠ item)).tail.head?

/-- `find_index_item`. -/
def findIndexItem (st : State) (cell : ListHead) (index : Int) : Option Item :=
  if index < 0 then none else (st.lists cell)[index.toNat]?

/-- The loop of `cell_to_compound`, over at most `n` items. The split item is looked for behind the item
    just taken off the list. -/
def cellLoop (fuel : Nat) (cell : ListHead) (split : Option Item) (head : Item) :
    Nat → State → Option State
  | 0, st => some st
  | n + 1, st =>
      match st.lists cell with
      | [] => some st
      | temp :: _ => do
          let st ← listRemoveHead st temp
          let next := listNextEntry st cell temp
          let st ← compoundAppend fuel st temp head
          if split.isSome ∧ next = split then pure st else cellLoop fuel cell split head n st

/-- `cell_to_compound`: until the list is empty. -/
def cellToCompound (fuel : Nat) (st : State) (cell : ListHead) (split : Option Item) (head : Item) :
    Option State :=
  cellLoop fuel cell split head (st.lists cell).length st

/-- One round of `enqueue_group_migration`: the head, and what remains where it goes on. -/
def enqueueStep (fuel : Nat) (group : Group) (mt : MigrationType) (orderIndex : Nat)
    (remainCount : Word) (head : Option Item) (st : State) :
    Option (State × Option Item × Option Word) :=
  let temp := ListHead.groupCell group mt orderIndex
  let tempCount := st.counts temp
  match st.lists temp with
  | [] => some (st, head, some remainCount)
  | item :: _ => do
      let head := head.getD item
      if tempCount < remainCount then
        let st ← cellToCompound fuel st temp none head
        pure (st.countSub temp tempCount, some head, some ((remainCount - tempCount) * 2))
      else
        let splitPage := findIndexItem st temp (intOf remainCount)
        let st ← cellToCompound fuel st temp splitPage head
        pure (st.countSub temp remainCount, some head, none)

/-- The loop from `order_index` down. It has no lower bound: the order below 0 is undefined. -/
def enqueueLoop (fuel : Nat) (group : Group) (mt : MigrationType) :
    Nat → Word → Option Item → State → Option (State × Option Item)
  | 0, remainCount, head, st =>
      (enqueueStep fuel group mt 0 remainCount head st).bind fun
        | (st, head, none) => some (st, head)
        | (_, _, some _) => none
  | k + 1, remainCount, head, st =>
      (enqueueStep fuel group mt (k + 1) remainCount head st).bind fun
        | (st, head, none) => some (st, head)
        | (st, head, some remainCount) => enqueueLoop fuel group mt k remainCount head st

/-- `enqueue_group_migration`: the globals, `*item_pptr` and what is returned. `2 * norder` is an
    `int`. -/
def enqueueGroupMigration (fuel : Nat) (st : State) (group : Group) (itemPptr : Option Item)
    (order norder : Nat) (mt : MigrationType) : Option (State × Option Item × Nat) :=
  if order = 0 ∨ 2 ^ 31 ≤ 2 * norder then none
  else (enqueueLoop fuel group mt (order - 1) (BitVec.ofNat 64 (2 * norder)) itemPptr st).map
    fun (st, head) => (st, head, 0)

/-- `backward_group_budget`, over the `n` levels from `index` on. The counts of a type end with
    `MAX_IDX_NUM`: a read past them is undefined. -/
def backwardGroupBudget (st : State) (cur : Nat) (mt : MigrationType) :
    Nat → Nat → Nat → Int → Option Nat
  | 0, index, _, _ => some index
  | n + 1, index, orderIndex, nitemNeed =>
      if maxIdxNum + 1 < orderIndex then none
      else
        let orderNitem :=
          if orderIndex = 0 then 0
          else intOf (groupBudget st (.phy cur index) index mt 0 (orderIndex - 1))
        if nitemNeed ≤ orderNitem then some index
        else
          backwardGroupBudget st cur mt n (index + 1) groupOrderNumShift
            ((nitemNeed - orderNitem) * 2 ^ functionItem groupOrderNumShift)

/-- The loop of `backward_remove_group_migration`, over `n` levels from `index` on: the item so far,
    `order_index` and `norder`. -/
def backwardLevels (fuel cur : Nat) (mt : MigrationType) :
    Nat → Nat → State → Option Item → Nat → Nat → Option (State × Option Item × Nat × Nat)
  | 0, _, st, item, orderIndex, norder => some (st, item, orderIndex, norder)
  | n + 1, index, st, item, orderIndex, norder => do
      let (st, item, norder) ← enqueueGroupMigration fuel st (.phy cur index) item orderIndex norder mt
      backwardLevels fuel cur mt n (index + 1) st item groupOrderNumShift norder

/-- `backward_remove_group_migration`. -/
def backwardRemoveGroupMigration (fuel : Nat) (st : State) (index : Nat) (mt : MigrationType)
    (order dim : Nat) : Option (State × Option Item) := do
  let cur ← getCurrentNodeNum dim
  let last ← backwardGroupBudget st cur mt (groupLvlNum - index) index order (intOf (bit order))
  if last = groupLvlNum then pure (st, none)
  else
    let (st, item, orderIndex, norder) ← backwardLevels fuel cur mt (last - index) index st none order 1
    let (st, item, _) ← enqueueGroupMigration fuel st (.phy cur last) item orderIndex norder mt
    pure (st, item)

/-! ## 3. One list onto the chain -/

/-- The chain from `head`: its flag is set, and its blocks are on no list. -/
structure Chained (st : State) (head : Item) (l : List Item) : Prop where
  chain : Chain st (head :: l)
  flag : compoundItem st head = true
  off : ∀ i ∈ head :: l, (st.items i).onList = none

section Cell

variable {st st' : State} {cell : ListHead} {split : Option Item} {head item : Item} {fuel : Nat}
  {l rest : List Item}

theorem listRemoveHead_of (hL : st.Linked) (hl : st.lists cell = item :: rest) :
    ∃ st1, listRemoveHead st item = some st1 ∧ st1.Linked ∧ st1.counts = st.counts ∧
      (∀ h, st1.lists h = if h = cell then rest else st.lists h) ∧
      (∀ j, j ≠ item → st1.items j = st.items j) ∧
      st1.items item = { st.items item with onList := none, compoundNode := none } := by
  have ho : (st.items item).onList = some cell :=
    (hL.mem item cell).mpr (by rw [hl]; exact List.mem_cons_self)
  have hdel := listDel_of ho
  refine ⟨((st.setList cell ((st.lists cell).erase item)).modItem item fun x =>
    { x with onList := none }).modItem item fun x => { x with compoundNode := none }, ?_, ?_, rfl,
    fun h => ?_, fun j hj => ?_, ?_⟩
  · rw [listRemoveHead, hdel]
    rfl
  · refine (hL.listDel hdel).congr rfl fun j => ?_
    exact State.modItem_keeps _ j ItemStruct.onList rfl
  · simp only [State.modItem_lists, State.setList_lists, hl, List.erase_cons_head]
  · simp [hj]
  · simp

/-- What `compound_append` leaves alone. -/
theorem compoundAppend_frame (h : compoundAppend fuel st item head = some st') :
    st'.lists = st.lists ∧ st'.counts = st.counts ∧
      ∀ j, (st'.items j).onList = (st.items j).onList := by
  unfold compoundAppend at h
  split at h
  · cases h
    exact ⟨rfl, rfl, fun j => State.modItem_keeps _ j ItemStruct.onList rfl⟩
  · obtain ⟨t, -, rfl⟩ := Option.map_eq_some_iff.mp h
    exact ⟨rfl, rfl, fun j => State.modItem_keeps _ j ItemStruct.onList rfl⟩

/-- The split item is never met: the links it is looked for in have just been cut. -/
theorem listNextEntry_off (ho : (st.items item).onList = none) : listNextEntry st cell item = none :=
  if_pos ho

/-- One turn of the loop. -/
theorem cellLoop_cons (hL : st.Linked) (hl : st.lists cell = item :: rest) (n : Nat) :
    ∃ st1, listRemoveHead st item = some st1 ∧ cellLoop fuel cell split head (n + 1) st =
      (compoundAppend fuel st1 item head).bind fun st => cellLoop fuel cell split head n st := by
  obtain ⟨st1, h1, -, -, -, -, hitem⟩ := listRemoveHead_of hL hl
  have hnext : listNextEntry st1 cell item = none := listNextEntry_off (by rw [hitem])
  refine ⟨st1, h1, ?_⟩
  rw [cellLoop]
  simp only [hl, h1, hnext, Option.bind_eq_bind, Option.bind_some]
  congr 1
  funext st2
  refine if_neg fun h => ?_
  rw [← h.2] at h
  cases h.1

/-- **A list is moved as a whole**, wherever the split is to be. -/
theorem cellLoop_moves {n : Nat} (hL : st.Linked) (hn : (st.lists cell).length ≤ n)
    (h : cellLoop fuel cell split head n st = some st') :
    st'.Linked ∧ st'.counts = st.counts ∧
      ∀ h, st'.lists h = if h = cell then [] else st.lists h := by
  induction n generalizing st with
  | zero =>
      obtain rfl : st = st' := Option.some.inj h
      refine ⟨hL, rfl, fun h => ?_⟩
      split
      · next e =>
          rw [e]
          exact List.eq_nil_of_length_eq_zero (Nat.le_zero.mp hn)
      · rfl
  | succ n ih =>
      cases hl : st.lists cell with
      | nil =>
          rw [cellLoop] at h
          simp only [hl, Option.some.injEq] at h
          subst h
          refine ⟨hL, rfl, fun h => ?_⟩
          split
          · next e => rw [e, hl]
          · rfl
      | cons item rest =>
          obtain ⟨st1, h1, hloop⟩ := @cellLoop_cons st cell split head item fuel rest hL hl n
          obtain ⟨st1', h1', hL1, hc1, hl1, -, -⟩ := listRemoveHead_of hL hl
          rw [h1, Option.some.injEq] at h1'
          subst h1'
          rw [hloop, Option.bind_eq_some_iff] at h
          obtain ⟨st2, happ, h⟩ := h
          obtain ⟨e1, e2, e3⟩ := compoundAppend_frame happ
          have hlen : (st2.lists cell).length ≤ n := by
            rw [e1, hl1, if_pos rfl]
            rw [hl, List.length_cons] at hn
            exact Nat.le_of_succ_le_succ hn
          obtain ⟨hL', hc', hl'⟩ := ih (hL1.congr e1 e3) hlen h
          refine ⟨hL', by rw [hc', e2, hc1], fun h => ?_⟩
          rw [hl', e1, hl1]
          split <;> rfl

/-- **It ends on the chain**, in order. -/
theorem cellLoop_chain {n : Nat} (hL : st.Linked) (hC : Chained st head l)
    (hf : l.length + (st.lists cell).length < fuel) (hn : (st.lists cell).length ≤ n) :
    ∃ st', cellLoop fuel cell split head n st = some st' ∧ Chained st' head (l ++ st.lists cell) := by
  induction n generalizing st l with
  | zero =>
      have hnil : st.lists cell = [] := List.eq_nil_of_length_eq_zero (Nat.le_zero.mp hn)
      exact ⟨st, rfl, by rw [hnil, List.append_nil]; exact hC⟩
  | succ n ih =>
      cases hl : st.lists cell with
      | nil =>
          refine ⟨st, ?_, by rw [List.append_nil]; exact hC⟩
          rw [cellLoop]
          simp only [hl]
      | cons item rest =>
          obtain ⟨st1, h1, hloop⟩ := @cellLoop_cons st cell split head item fuel rest hL hl n
          obtain ⟨st1', h1', hL1, -, hl1, hother, hitem⟩ := listRemoveHead_of hL hl
          rw [h1, Option.some.injEq] at h1'
          subst h1'
          have ho := (hL.mem item cell).mpr (by rw [hl]; exact List.mem_cons_self)
          have hni : item ∉ head :: l := fun hm => by
            rw [hC.off item hm] at ho
            cases ho
          have hsame : ∀ j ∈ head :: l, st1.items j = st.items j := fun j hj =>
            hother j fun e => hni (e ▸ hj)
          have hflag : compoundItem st1 head = true := by
            unfold compoundItem
            rw [hsame head List.mem_cons_self]
            exact hC.flag
          rw [hl, List.length_cons] at hf hn
          obtain ⟨st2, happ, hch, hflag2⟩ := compoundAppend_chain
            (hC.chain.congr fun j hj => by rw [hsame j hj]) hflag hni (by rw [hitem])
            (show l.length < fuel by omega)
          obtain ⟨e1, -, e3⟩ := compoundAppend_frame happ
          have hC2 : Chained st2 head (l ++ [item]) := by
            refine ⟨hch, hflag2, fun j hj => ?_⟩
            rw [e3]
            rcases List.mem_append.mp (show j ∈ head :: l ++ [item] from hj) with hj | hj
            · rw [hsame j hj]
              exact hC.off j hj
            · rw [List.mem_singleton.mp hj, hitem]
          have hl2 : st2.lists cell = rest := by rw [e1, hl1, if_pos rfl]
          obtain ⟨st', hrun, hC'⟩ := ih (hL1.congr e1 e3) hC2
            (by rw [hl2, List.length_append, List.length_singleton]; omega) (by rw [hl2]; omega)
          refine ⟨st', ?_, ?_⟩
          · rw [hloop, happ]
            exact hrun
          · rw [hl2, List.append_assoc] at hC'
            exact hC'

/-- A head that is the first item of the list itself, its flag not yet set, becomes the chain. -/
theorem cellToCompound_fresh (hL : st.Linked) (hl : st.lists cell = item :: rest)
    (hflag : compoundItem st item = false) (hf : rest.length < fuel) :
    ∃ st', cellToCompound fuel st cell split item = some st' ∧ Chained st' item rest := by
  obtain ⟨st1, h1, hloop⟩ := @cellLoop_cons st cell split item item fuel rest hL hl rest.length
  obtain ⟨st1', h1', hL1, -, hl1, -, hitem⟩ := listRemoveHead_of hL hl
  rw [h1, Option.some.injEq] at h1'
  subst h1'
  have happ : compoundAppend fuel st1 item item =
      some (st1.modItem item fun x => { x with compoundHead := true }) := by
    refine if_pos ?_
    unfold compoundItem
    rw [hitem]
    exact hflag
  obtain ⟨e1, -, e3⟩ := compoundAppend_frame happ
  set st2 := st1.modItem item fun x => { x with compoundHead := true } with hst2
  have hC2 : Chained st2 item [] := by
    refine ⟨⟨?_, trivial⟩, ?_, fun j hj => ?_⟩
    · rw [hst2, State.modItem_items, if_pos rfl, hitem]
      rfl
    · unfold compoundItem
      rw [hst2, State.modItem_items, if_pos rfl]
    · rw [e3, List.mem_singleton.mp hj, hitem]
  have hl2 : st2.lists cell = rest := by rw [e1, hl1, if_pos rfl]
  obtain ⟨st', hrun, hC'⟩ := @cellLoop_chain st2 cell split item fuel [] rest.length (hL1.congr e1 e3) hC2
    (by rw [hl2, List.length_nil]; omega) (by rw [hl2])
  refine ⟨st', ?_, by rw [hl2] at hC'; exact hC'⟩
  unfold cellToCompound
  rw [hl, List.length_cons, hloop, happ]
  exact hrun

/-- The head is its own successor: the walk along the chain never ends. -/
structure Knotted (st : State) (head : Item) : Prop where
  flag : compoundItem st head = true
  next : (st.items head).compoundNode = some head
  off : (st.items head).onList = none

theorem Knotted.append (h : Knotted st head) : compoundAppend fuel st item head = none := by
  have hwalk : ∀ n, lastCompound st n head = none := by
    intro n
    induction n with
    | zero => rfl
    | succ n ih =>
        rw [lastCompound, h.next]
        exact ih
  unfold compoundAppend
  rw [if_neg (by rw [h.flag]; decide), hwalk]
  rfl

/-- No further list is moved to it. -/
theorem Knotted.stuck (h : Knotted st head) (hL : st.Linked) (hl : st.lists cell = item :: rest) :
    cellToCompound fuel st cell split head = none := by
  obtain ⟨st1, h1, hloop⟩ := @cellLoop_cons st cell split head item fuel rest hL hl rest.length
  obtain ⟨st1', h1', -, -, -, hother, -⟩ := listRemoveHead_of hL hl
  rw [h1, Option.some.injEq] at h1'
  subst h1'
  have hne : head ≠ item := fun e => by
    have := (hL.mem item cell).mpr (by rw [hl]; exact List.mem_cons_self)
    rw [← e, h.off] at this
    cases this
  have h1 : Knotted st1 head := by
    have hsame := hother head hne
    exact ⟨by unfold compoundItem; rw [hsame]; exact h.flag, by rw [hsame]; exact h.next,
      by rw [hsame]; exact h.off⟩
  unfold cellToCompound
  rw [hl, List.length_cons, hloop, h1.append]
  rfl

/-- A first item whose flag is still set is tied to itself. -/
theorem cellToCompound_knots (hL : st.Linked) (hl : st.lists cell = item :: rest)
    (hflag : compoundItem st item = true) (h : cellToCompound fuel st cell split item = some st') :
    Knotted st' item := by
  obtain ⟨st1, h1, hloop⟩ := @cellLoop_cons st cell split item item fuel rest hL hl rest.length
  obtain ⟨st1', h1', hL1, -, hl1, -, hitem⟩ := listRemoveHead_of hL hl
  rw [h1, Option.some.injEq] at h1'
  subst h1'
  unfold cellToCompound at h
  rw [hl, List.length_cons, hloop, Option.bind_eq_some_iff] at h
  obtain ⟨st2, happ, h⟩ := h
  obtain ⟨e1, -, e3⟩ := compoundAppend_frame happ
  have hflag1 : compoundItem st1 item = true := by
    unfold compoundItem
    rw [hitem]
    exact hflag
  have hK : Knotted st2 item := by
    unfold compoundAppend at happ
    rw [if_neg (by rw [hflag1]; decide)] at happ
    obtain ⟨t, ht, rfl⟩ := Option.map_eq_some_iff.mp happ
    obtain rfl : item = t := by
      cases fuel with
      | zero => cases ht
      | succ n =>
          rw [lastCompound, hitem] at ht
          exact Option.some.inj ht
    refine ⟨?_, ?_, ?_⟩
    · unfold compoundItem at hflag1 ⊢
      rw [State.modItem_items, if_pos rfl]
      exact hflag1
    · rw [State.modItem_items, if_pos rfl]
    · rw [e3, hitem]
  cases hr : rest with
  | nil =>
      rw [hr, List.length_nil, cellLoop, Option.some.injEq] at h
      rw [← h]
      exact hK
  | cons j rest' =>
      have hl2 : st2.lists cell = j :: rest' := by rw [e1, hl1, if_pos rfl, hr]
      have hnone := @Knotted.stuck st2 cell split item j fuel rest' hK (hL1.congr e1 e3) hl2
      unfold cellToCompound at hnone
      rw [hl2, ← hr, h] at hnone
      cases hnone

end Cell

/-! ## 4. The lists in turn -/

section Loop

variable {st st' : State} {group : Group} {mt : MigrationType} {k rn fuel : Nat} {head head' : Option Item}
  {item : Item} {l rest : List Item}

/-- Blocks on the list of order `k`. -/
def cellLength (st : State) (group : Group) (mt : MigrationType) (k : Nat) : Nat :=
  (st.lists (.groupCell group mt k)).length

/-- A round on a list that has items: fewer than remain, or enough. -/
theorem enqueueStep_cons (hl : st.lists (.groupCell group mt k) = item :: rest)
    (hc : (st.counts (.groupCell group mt k)).toNat = cellLength st group mt k) (hr : rn < 2 ^ 64) :
    ∃ split, enqueueStep fuel group mt k (BitVec.ofNat 64 rn) head st =
      (cellToCompound fuel st (.groupCell group mt k) split (head.getD item)).map fun st1 =>
        if cellLength st group mt k < rn then
          (st1.countSub (.groupCell group mt k) (st.counts (.groupCell group mt k)),
            some (head.getD item), some (BitVec.ofNat 64 ((rn - cellLength st group mt k) * 2)))
        else (st1.countSub (.groupCell group mt k) (BitVec.ofNat 64 rn), some (head.getD item), none) := by
  have hrn : (BitVec.ofNat 64 rn).toNat = rn := by
    rw [BitVec.toNat_ofNat]
    exact Nat.mod_eq_of_lt hr
  have hlt : st.counts (.groupCell group mt k) < BitVec.ofNat 64 rn ↔ cellLength st group mt k < rn := by
    rw [BitVec.lt_def, hc, hrn]
  unfold enqueueStep
  simp only [hl]
  by_cases h : cellLength st group mt k < rn
  · have hmore : (BitVec.ofNat 64 rn - st.counts (.groupCell group mt k)) * 2 =
        BitVec.ofNat 64 ((rn - cellLength st group mt k) * 2) := by
      have hcount : st.counts (.groupCell group mt k) = BitVec.ofNat 64 (cellLength st group mt k) := by
        rw [← hc, BitVec.ofNat_toNat, BitVec.setWidth_eq]
      rw [hcount, BitVec.ofNat_mul, BitVec.ofNat_sub_ofNat_of_le _ _ (by omega) (by omega)]
      rfl
    refine ⟨none, ?_⟩
    simp only [if_pos (hlt.mpr h), if_pos h, hmore]
    cases cellToCompound fuel st (.groupCell group mt k) none (head.getD item) <;> rfl
  · refine ⟨findIndexItem st (.groupCell group mt k) (intOf (BitVec.ofNat 64 rn)), ?_⟩
    simp only [if_neg (fun hc => h (hlt.mp hc)), if_neg h]
    cases cellToCompound fuel st (.groupCell group mt k) _ (head.getD item) <;> rfl

/-- A round on an empty list does nothing, and leaves the count in the units of the order before. -/
theorem enqueueStep_nil (hl : st.lists (.groupCell group mt k) = []) (r : Word) :
    enqueueStep fuel group mt k r head st = some (st, head, some r) := by
  unfold enqueueStep
  simp only [hl]

/-- What a round that has items leaves of the lists and counts. -/
theorem cellToCompound_moves {split : Option Item} {h : Item} (n : Word) (hL : st.Linked)
    (hrun : cellToCompound fuel st (.groupCell group mt k) split h = some st') :
    (st'.countSub (.groupCell group mt k) n).Linked ∧
    (∀ l, (st'.countSub (.groupCell group mt k) n).lists l =
      if l = .groupCell group mt k then [] else st.lists l) ∧
    ∀ l, (st'.countSub (.groupCell group mt k) n).counts l =
      if l = .groupCell group mt k then st.counts (.groupCell group mt k) - n else st.counts l := by
  obtain ⟨hL', hcounts, hlists⟩ := cellLoop_moves hL (Nat.le_refl _) hrun
  refine ⟨hL'.congr rfl fun _ => rfl, hlists, fun l => ?_⟩
  rw [← hcounts]
  simp [State.countSub, Function.update_apply]

theorem cell_ne {i : Nat} (h : i ≠ k) :
    ListHead.groupCell group mt i ≠ .groupCell group mt k := by
  intro e
  injection e with _ _ e
  exact h e

/-- The list of order `i` counts what it links. -/
def CountedCell (st : State) (group : Group) (mt : MigrationType) (i : Nat) : Prop :=
  (st.counts (.groupCell group mt i)).toNat = cellLength st group mt i

/-- **What a round does**: nothing on an empty list, else the list is emptied, and there is more to do
    exactly if it had fewer blocks than remain. -/
theorem enqueueStep_cases {more : Option Word} (hL : st.Linked) (hc : CountedCell st group mt k)
    (hr : rn < 2 ^ 64)
    (h : enqueueStep fuel group mt k (BitVec.ofNat 64 rn) head st = some (st', head', more)) :
    (st.lists (.groupCell group mt k) = [] ∧ st' = st ∧ more = some (BitVec.ofNat 64 rn)) ∨
    (st.lists (.groupCell group mt k) ≠ [] ∧ st'.Linked ∧
      (∀ c, st'.lists c = if c = .groupCell group mt k then [] else st.lists c) ∧
      (∀ c, c ≠ .groupCell group mt k → st'.counts c = st.counts c) ∧
      (cellLength st group mt k < rn ∧
          more = some (BitVec.ofNat 64 ((rn - cellLength st group mt k) * 2)) ∨
        rn ≤ cellLength st group mt k ∧ more = none ∧ st'.counts (.groupCell group mt k) =
          st.counts (.groupCell group mt k) - BitVec.ofNat 64 rn)) := by
  cases hl : st.lists (.groupCell group mt k) with
  | nil =>
      rw [enqueueStep_nil hl, Option.some.injEq, Prod.mk.injEq, Prod.mk.injEq] at h
      exact .inl ⟨rfl, h.1.symm, h.2.2.symm⟩
  | cons item rest =>
      obtain ⟨split, hstep⟩ := @enqueueStep_cons st group mt k rn fuel head item rest hl hc hr
      rw [hstep] at h
      obtain ⟨st1, hrun, h⟩ := Option.map_eq_some_iff.mp h
      refine .inr ⟨List.cons_ne_nil _ _, ?_⟩
      by_cases hlt : cellLength st group mt k < rn
      · obtain ⟨hL1, hlists, hcounts⟩ :=
          cellToCompound_moves (st.counts (.groupCell group mt k)) hL hrun
        rw [if_pos hlt, Prod.mk.injEq, Prod.mk.injEq] at h
        obtain ⟨rfl, -, rfl⟩ := h
        exact ⟨hL1, hlists, fun c hne => by rw [hcounts, if_neg hne], .inl ⟨hlt, rfl⟩⟩
      · obtain ⟨hL1, hlists, hcounts⟩ := cellToCompound_moves (BitVec.ofNat 64 rn) hL hrun
        rw [if_neg hlt, Prod.mk.injEq, Prod.mk.injEq] at h
        obtain ⟨rfl, -, rfl⟩ := h
        exact ⟨hL1, hlists, fun c hne => by rw [hcounts, if_neg hne],
          .inr ⟨Nat.not_lt.mp hlt, rfl, by rw [hcounts, if_pos rfl]⟩⟩

/-- The loop ends with a round that has nothing more to do. -/
theorem enqueueLoop_done {r : Word}
    (h : enqueueStep fuel group mt k r head st = some (st', head', none)) :
    enqueueLoop fuel group mt k r head st = some (st', head') := by
  cases k <;> rw [enqueueLoop, h] <;> rfl

/-- What a run for `rn` blocks of order `k` comes to: it ends at an order `j` whose list has the `rj` blocks
    still asked for, or more, and every list from there on is emptied. In base items that is what was
    asked for only if no list on the way was empty. -/
structure RunEnds (st st' : State) (group : Group) (mt : MigrationType) (k rn j rj : Nat) : Prop where
  le : j ≤ k
  pos : 1 ≤ rj
  enough : rj ≤ cellLength st group mt j
  emptied : ∀ i, j ≤ i → i ≤ k → st'.lists (.groupCell group mt i) = []
  kept : ∀ i, i < j ∨ k < i → st'.lists (.groupCell group mt i) = st.lists (.groupCell group mt i)
  count : st'.counts (.groupCell group mt j) =
    st.counts (.groupCell group mt j) - BitVec.ofNat 64 rj
  most : rj * 2 ^ j + ∑ i ∈ Finset.Ico (j + 1) (k + 1), cellLength st group mt i * 2 ^ i ≤ rn * 2 ^ k
  full : rj * 2 ^ j + ∑ i ∈ Finset.Ico (j + 1) (k + 1), cellLength st group mt i * 2 ^ i = rn * 2 ^ k →
    ∀ i, j < i → i ≤ k → st.lists (.groupCell group mt i) ≠ []

/-- It ends in this round. -/
theorem runEnds_last (hpos : 1 ≤ rn) (hle : rn ≤ cellLength st group mt k)
    (hlists : ∀ c, st'.lists c = if c = .groupCell group mt k then [] else st.lists c)
    (hcount : st'.counts (.groupCell group mt k) =
      st.counts (.groupCell group mt k) - BitVec.ofNat 64 rn) :
    RunEnds st st' group mt k rn k rn := by
  refine ⟨Nat.le_refl k, hpos, hle, fun i h1 h2 => ?_, fun i hi => ?_, hcount, by simp,
    fun _ i h1 h2 => by omega⟩
  · rw [hlists, if_pos (by rw [Nat.le_antisymm h2 h1])]
  · rw [hlists, if_neg (cell_ne (by omega))]

theorem sum_lengths_succ {j : Nat} (hj : j ≤ k) :
    ∑ i ∈ Finset.Ico (j + 1) (k + 1 + 1), cellLength st group mt i * 2 ^ i =
      ∑ i ∈ Finset.Ico (j + 1) (k + 1), cellLength st group mt i * 2 ^ i +
        cellLength st group mt (k + 1) * 2 ^ (k + 1) :=
  Finset.sum_Ico_succ_top (Nat.succ_le_succ hj) _

/-- An empty list is passed over, but what remains is then read in blocks of half the size. -/
theorem RunEnds.skipped {j rj : Nat} (h : RunEnds st st' group mt k rn j rj) (hpos : 1 ≤ rn)
    (hl : st.lists (.groupCell group mt (k + 1)) = []) :
    RunEnds st st' group mt (k + 1) rn j rj := by
  have hle := h.le
  have hmost := h.most
  have hlen : cellLength st group mt (k + 1) = 0 := by
    unfold cellLength
    rw [hl]
    rfl
  have hhalf : rn * 2 ^ (k + 1) = rn * 2 ^ k + rn * 2 ^ k := by
    rw [pow_succ, Nat.mul_two, Nat.mul_add]
  have hless : 0 < rn * 2 ^ k := Nat.mul_pos hpos (Nat.two_pow_pos k)
  refine ⟨by omega, h.pos, h.enough, fun i h1 h2 => ?_, fun i hi => h.kept i (by omega), h.count, ?_,
    fun he => ?_⟩
  · rcases Nat.eq_or_lt_of_le h2 with rfl | hlt
    · rw [h.kept _ (by omega), hl]
    · exact h.emptied i h1 (by omega)
  · rw [sum_lengths_succ hle, hlen]
    omega
  · rw [sum_lengths_succ hle, hlen] at he
    omega

/-- A list of fewer blocks than remain is emptied, and the rest doubled. -/
theorem RunEnds.emptied_more {st1 : State} {j rj : Nat}
    (h : RunEnds st1 st' group mt k ((rn - cellLength st group mt (k + 1)) * 2) j rj)
    (hne : st.lists (.groupCell group mt (k + 1)) ≠ []) (hlt : cellLength st group mt (k + 1) < rn)
    (hlists : ∀ c, st1.lists c = if c = .groupCell group mt (k + 1) then [] else st.lists c)
    (hcounts : ∀ c, c ≠ .groupCell group mt (k + 1) → st1.counts c = st.counts c) :
    RunEnds st st' group mt (k + 1) rn j rj := by
  have hle := h.le
  have hmost := h.most
  have hsame : ∀ i ≤ k, st1.lists (.groupCell group mt i) = st.lists (.groupCell group mt i) :=
    fun i hi => by rw [hlists, if_neg (cell_ne (by omega))]
  have hlen : ∀ i ≤ k, cellLength st1 group mt i = cellLength st group mt i := fun i hi => by
    unfold cellLength
    rw [hsame i hi]
  have hsum : ∑ i ∈ Finset.Ico (j + 1) (k + 1), cellLength st1 group mt i * 2 ^ i =
      ∑ i ∈ Finset.Ico (j + 1) (k + 1), cellLength st group mt i * 2 ^ i :=
    Finset.sum_congr rfl fun i hi => by rw [hlen i (by have := (Finset.mem_Ico.mp hi).2; omega)]
  have hrest : (rn - cellLength st group mt (k + 1)) * 2 * 2 ^ k +
      cellLength st group mt (k + 1) * 2 ^ (k + 1) = rn * 2 ^ (k + 1) := by
    rw [Nat.mul_assoc, ← pow_succ', ← Nat.add_mul, Nat.sub_add_cancel (Nat.le_of_lt hlt)]
  rw [hsum] at hmost
  refine ⟨by omega, h.pos, by rw [← hlen j hle]; exact h.enough, fun i h1 h2 => ?_, fun i hi => ?_, ?_,
    ?_, fun he i h1 h2 => ?_⟩
  · rcases Nat.eq_or_lt_of_le h2 with rfl | hlt'
    · rw [h.kept _ (by omega), hlists, if_pos rfl]
    · exact h.emptied i h1 (by omega)
  · rw [h.kept i (by omega), hlists, if_neg (cell_ne (by omega))]
  · rw [h.count, hcounts _ (cell_ne (by omega))]
  · rw [sum_lengths_succ hle]
    omega
  · rw [sum_lengths_succ hle] at he
    rcases Nat.eq_or_lt_of_le h2 with rfl | hlt'
    · exact hne
    · rw [← hsame i (by omega)]
      exact h.full (by rw [hsum]; omega) i h1 (by omega)

/-- **Every run that returns ends so.** -/
theorem enqueueLoop_run (hL : st.Linked) (hc : ∀ i ≤ k, CountedCell st group mt i)
    (hb : rn * 2 ^ k < 2 ^ 64) (hpos : 1 ≤ rn)
    (h : enqueueLoop fuel group mt k (BitVec.ofNat 64 rn) head st = some (st', head')) :
    ∃ j rj, RunEnds st st' group mt k rn j rj := by
  have hrn : ∀ n, rn * 2 ^ n < 2 ^ 64 → rn < 2 ^ 64 := fun n h =>
    Nat.lt_of_le_of_lt (Nat.le_mul_of_pos_right rn (Nat.two_pow_pos n)) h
  induction k generalizing st rn head with
  | zero =>
      rw [enqueueLoop] at h
      obtain ⟨⟨st1, head1, more⟩, hstep, h⟩ := Option.bind_eq_some_iff.mp h
      rcases enqueueStep_cases hL (hc 0 (Nat.le_refl 0)) (hrn 0 hb) hstep with
        ⟨-, -, rfl⟩ | ⟨-, -, hlists, -, ⟨-, rfl⟩ | ⟨hle, rfl, hcount⟩⟩
      · cases h
      · cases h
      · rw [Option.some.injEq, Prod.mk.injEq] at h
        obtain ⟨rfl, -⟩ := h
        exact ⟨0, rn, runEnds_last hpos hle hlists hcount⟩
  | succ k ih =>
      rw [enqueueLoop] at h
      obtain ⟨⟨st1, head1, more⟩, hstep, h⟩ := Option.bind_eq_some_iff.mp h
      have hpow : rn * 2 ^ (k + 1) = rn * 2 * 2 ^ k := by rw [pow_succ']; ring
      rcases enqueueStep_cases hL (hc (k + 1) (Nat.le_refl _)) (hrn _ hb) hstep with
        ⟨hl, rfl, rfl⟩ | ⟨hne, hL1, hlists, hcounts, ⟨hlt, rfl⟩ | ⟨hle, rfl, hcount⟩⟩
      · have hb' : rn * 2 ^ k < 2 ^ 64 := Nat.lt_of_le_of_lt
          (Nat.mul_le_mul_left rn (Nat.pow_le_pow_right (by decide) (Nat.le_succ k))) hb
        obtain ⟨j, rj, hE⟩ := ih hL (fun i hi => hc i (by omega)) hb' hpos h hrn
        exact ⟨j, rj, hE.skipped hpos hl⟩
      · have hb' : (rn - cellLength st group mt (k + 1)) * 2 * 2 ^ k < 2 ^ 64 := by
          refine Nat.lt_of_le_of_lt ?_ hb
          rw [hpow]
          exact Nat.mul_le_mul_right _ (Nat.mul_le_mul_right _ (Nat.sub_le _ _))
        have hc' : ∀ i ≤ k, CountedCell st1 group mt i := fun i hi => by
          unfold CountedCell cellLength
          rw [hlists, if_neg (cell_ne (by omega)), hcounts _ (cell_ne (by omega))]
          exact hc i (by omega)
        obtain ⟨j, rj, hE⟩ := ih hL1 hc' hb' (by omega) h fun n hn =>
          Nat.lt_of_le_of_lt (Nat.le_mul_of_pos_right _ (Nat.two_pow_pos n)) hn
        exact ⟨j, rj, hE.emptied_more hne hlt hlists hcounts⟩
      · rw [Option.some.injEq, Prod.mk.injEq] at h
        obtain ⟨rfl, -⟩ := h
        exact ⟨k + 1, rn, runEnds_last hpos hle hlists hcount⟩

/-- The head the run starts with: a chain, or none, and then the first item of the list has no flag. -/
def Ready (st : State) (group : Group) (mt : MigrationType) (k : Nat) (l : List Item) :
    Option Item → Prop
  | some head => Chained st head l
  | none => l = [] ∧ ∀ i, (st.lists (.groupCell group mt k)).head? = some i → compoundItem st i = false

/-- A list moved to it is on the chain. -/
theorem cellToCompound_ready (split : Option Item) (hL : st.Linked)
    (hl : st.lists (.groupCell group mt k) = item :: rest) (hR : Ready st group mt k l head)
    (hf : l.length + cellLength st group mt k < fuel) :
    ∃ st1 l1, cellToCompound fuel st (.groupCell group mt k) split (head.getD item) = some st1 ∧
      Chained st1 (head.getD item) l1 ∧ (∀ x ∈ item :: rest, x ∈ head.getD item :: l1) ∧
      (∀ x ∈ l, x ∈ l1) ∧ l1.length ≤ l.length + cellLength st group mt k := by
  unfold cellLength at hf ⊢
  cases head with
  | none =>
      obtain ⟨rfl, hflag⟩ := hR
      rw [hl] at hflag hf ⊢
      obtain ⟨st1, hrun, hC⟩ := @cellToCompound_fresh st (.groupCell group mt k) split item fuel rest hL hl
        (hflag item rfl) (by simp only [List.length_cons] at hf; omega)
      exact ⟨st1, rest, hrun, hC, fun x hx => hx, fun x hx => absurd hx List.not_mem_nil, by simp⟩
  | some head =>
      obtain ⟨st1, hrun, hC⟩ := @cellLoop_chain st (.groupCell group mt k) split head fuel l
        (st.lists (.groupCell group mt k)).length hL hR hf (Nat.le_refl _)
      refine ⟨st1, _, hrun, hC, fun x hx => ?_, fun x hx => List.mem_append_left _ hx,
        Nat.le_of_eq (List.length_append)⟩
      exact List.mem_cons_of_mem _ (List.mem_append_right _ (hl ▸ hx))

/-- What a run over full lists leaves: all of them on the chain, from the order `j` on. -/
structure Gathered (st st' : State) (group : Group) (mt : MigrationType) (j k : Nat) (h : Item)
    (l : List Item) : Prop where
  chained : Chained st' h l
  moved : ∀ i, j ≤ i → i ≤ k → ∀ x ∈ st.lists (.groupCell group mt i), x ∈ h :: l
  emptied : ∀ i, j ≤ i → i ≤ k → st'.lists (.groupCell group mt i) = [] ∧
    st'.counts (.groupCell group mt i) = 0
  others : ∀ c, (∀ i, j ≤ i → i ≤ k → c ≠ .groupCell group mt i) →
    st'.lists c = st.lists c ∧ st'.counts c = st.counts c

/-- A round on a list of no more blocks than remain. -/
theorem enqueueStep_gathers (hL : st.Linked) (hc : CountedCell st group mt k) (hr : rn < 2 ^ 64)
    (hne : st.lists (.groupCell group mt k) ≠ []) (hle : cellLength st group mt k ≤ rn)
    (hR : Ready st group mt k l head) (hf : l.length + cellLength st group mt k < fuel) :
    ∃ st1 h l1, enqueueStep fuel group mt k (BitVec.ofNat 64 rn) head st =
        some (st1, some h, if cellLength st group mt k < rn then
          some (BitVec.ofNat 64 ((rn - cellLength st group mt k) * 2)) else none) ∧
      st1.Linked ∧ Gathered st st1 group mt k k h l1 ∧ (∀ x ∈ l, x ∈ l1) ∧
      l1.length ≤ l.length + cellLength st group mt k ∧ ∀ h0, head = some h0 → h0 = h := by
  obtain ⟨item, rest, hl⟩ := List.exists_cons_of_ne_nil hne
  obtain ⟨split, hstep⟩ := @enqueueStep_cons st group mt k rn fuel head item rest hl hc hr
  obtain ⟨st1, l1, hrun, hC, hmoved, hold, hlen⟩ := cellToCompound_ready split hL hl hR hf
  have hcount : st.counts (.groupCell group mt k) = BitVec.ofNat 64 (cellLength st group mt k) := by
    rw [← hc, BitVec.ofNat_toNat, BitVec.setWidth_eq]
  -- either way the count is lowered by the length of the list
  set n := if cellLength st group mt k < rn then st.counts (.groupCell group mt k)
    else BitVec.ofNat 64 rn with hn
  have hncount : st.counts (.groupCell group mt k) - n = 0 := by
    rw [hn]
    split
    · exact BitVec.sub_self _
    · next hge =>
        rw [hcount, Nat.le_antisymm hle (Nat.not_lt.mp hge)]
        exact BitVec.sub_self _
  obtain ⟨hL1, hlists, hcounts⟩ := cellToCompound_moves n hL hrun
  refine ⟨st1.countSub (.groupCell group mt k) n, head.getD item, l1, ?_, hL1,
    ⟨⟨hC.chain.congr fun _ _ => rfl, hC.flag, hC.off⟩, fun i h1 h2 x hx => ?_, fun i h1 h2 => ?_, fun c hne => ?_⟩, hold, hlen,
    fun h0 e => by rw [e]; rfl⟩
  · rw [hstep, hrun, hn]
    simp only [Option.map_some]
    split <;> rfl
  · rw [Nat.le_antisymm h2 h1, hl] at hx
    exact hmoved x hx
  · rw [Nat.le_antisymm h2 h1, hlists, hcounts, if_pos rfl, if_pos rfl]
    exact ⟨rfl, hncount⟩
  · have hne' := hne k (Nat.le_refl k) (Nat.le_refl k)
    rw [hlists, hcounts, if_neg hne', if_neg hne']
    exact ⟨rfl, rfl⟩

/-- A round and the run after it. -/
theorem Gathered.trans {st1 : State} {j : Nat} {h : Item} {l1 l' : List Item}
    (h1 : Gathered st st1 group mt (k + 1) (k + 1) h l1) (h2 : Gathered st1 st' group mt j k h l')
    (hold : ∀ x ∈ l1, x ∈ l') (hj : j ≤ k) : Gathered st st' group mt j (k + 1) h l' where
  chained := h2.chained
  moved i hi1 hi2 x hx := by
    rcases Nat.eq_or_lt_of_le hi2 with rfl | hlt
    · rcases List.mem_cons.mp (h1.moved (k + 1) (Nat.le_refl _) (Nat.le_refl _) x hx) with rfl | hm
      · exact List.mem_cons_self
      · exact List.mem_cons_of_mem _ (hold x hm)
    · refine h2.moved i hi1 (by omega) x ?_
      rw [(h1.others _ fun i' a b => cell_ne (by omega)).1]
      exact hx
  emptied i hi1 hi2 := by
    rcases Nat.eq_or_lt_of_le hi2 with rfl | hlt
    · rw [(h2.others _ fun i' a b => cell_ne (by omega)).1,
        (h2.others _ fun i' a b => cell_ne (by omega)).2]
      exact h1.emptied _ (Nat.le_refl _) (Nat.le_refl _)
    · exact h2.emptied i hi1 (by omega)
  others c hne := by
    obtain ⟨e1, e2⟩ := h2.others c fun i a b => hne i a (by omega)
    obtain ⟨e3, e4⟩ := h1.others c fun i a b => hne i (by omega) b
    exact ⟨e1.trans e3, e2.trans e4⟩

/-- A round leaves the lists below its own alone. -/
theorem Gathered.below {st1 : State} {h : Item} {l1 : List Item}
    (hG : Gathered st st1 group mt (k + 1) (k + 1) h l1) {i : Nat} (hi : i ≤ k) :
    st1.lists (.groupCell group mt i) = st.lists (.groupCell group mt i) ∧
      st1.counts (.groupCell group mt i) = st.counts (.groupCell group mt i) ∧
      cellLength st1 group mt i = cellLength st group mt i := by
  obtain ⟨e1, e2⟩ := hG.others (.groupCell group mt i) fun i' a b => cell_ne (by omega)
  refine ⟨e1, e2, ?_⟩
  unfold cellLength
  rw [e1]

/-- A list is not enough where a lower one, not empty, is part of what is asked for. -/
theorem cellLength_lt {j : Nat} (hlt : j < k + 1) (hne : st.lists (.groupCell group mt j) ≠ [])
    (hsum : ∑ i ∈ Finset.Ico j (k + 1), cellLength st group mt i * 2 ^ i +
      cellLength st group mt (k + 1) * 2 ^ (k + 1) = rn * 2 ^ (k + 1)) :
    cellLength st group mt (k + 1) < rn := by
  have hjpos : 0 < cellLength st group mt j * 2 ^ j :=
    Nat.mul_pos (List.length_pos_of_ne_nil hne) (Nat.two_pow_pos j)
  have hmem : j ∈ Finset.Ico j (k + 1) := Finset.mem_Ico.mpr ⟨Nat.le_refl j, hlt⟩
  have hone := Finset.single_le_sum (f := fun i => cellLength st group mt i * 2 ^ i)
    (fun _ _ => Nat.zero_le _) hmem
  refine Nat.lt_of_mul_lt_mul_right (a := 2 ^ (k + 1)) ?_
  omega

/-- **Full lists that add up to what is asked for are gathered.** -/
theorem enqueueLoop_gathers {j : Nat} (hj : j ≤ k) (hL : st.Linked)
    (hc : ∀ i ≤ k, CountedCell st group mt i) (hb : rn * 2 ^ k < 2 ^ 64)
    (hfull : ∀ i, j ≤ i → i ≤ k → st.lists (.groupCell group mt i) ≠ [])
    (hsum : ∑ i ∈ Finset.Ico j (k + 1), cellLength st group mt i * 2 ^ i = rn * 2 ^ k)
    (hR : Ready st group mt k l head)
    (hf : l.length + ∑ i ∈ Finset.Ico j (k + 1), cellLength st group mt i < fuel) :
    ∃ st' h l', enqueueLoop fuel group mt k (BitVec.ofNat 64 rn) head st = some (st', some h) ∧
      Gathered st st' group mt j k h l' ∧ (∀ x ∈ l, x ∈ l') ∧ ∀ h0, head = some h0 → h0 = h := by
  induction k generalizing st rn head l with
  | zero =>
      obtain rfl : j = 0 := Nat.le_zero.mp hj
      rw [Finset.sum_Ico_succ_top (Nat.le_refl 0), Finset.Ico_self, Finset.sum_empty, Nat.zero_add]
        at hsum hf
      have hlen : cellLength st group mt 0 = rn := Nat.eq_of_mul_eq_mul_right (Nat.two_pow_pos 0) hsum
      obtain ⟨st1, h, l1, hstep, -, hG, hold, -, hhead⟩ := @enqueueStep_gathers st group mt 0 rn fuel head l
        hL (hc 0 (Nat.le_refl 0)) (by omega) (hfull 0 (Nat.le_refl 0) (Nat.le_refl 0)) (Nat.le_of_eq hlen)
        hR hf
      rw [if_neg (by omega)] at hstep
      exact ⟨st1, h, l1, enqueueLoop_done hstep, hG, hold, hhead⟩
  | succ k ih =>
      have hpow : rn * 2 ^ (k + 1) = rn * 2 * 2 ^ k := by rw [pow_succ']; ring
      rw [Finset.sum_Ico_succ_top hj] at hsum hf
      have hpos := Nat.two_pow_pos (k + 1)
      have hrn : rn < 2 ^ 64 := Nat.lt_of_le_of_lt (Nat.le_mul_of_pos_right rn hpos) hb
      have hle : cellLength st group mt (k + 1) ≤ rn := by
        refine Nat.le_of_mul_le_mul_right ?_ hpos
        omega
      obtain ⟨st1, h, l1, hstep, hL1, hG, hold, hlen, hhead⟩ := @enqueueStep_gathers st group mt (k + 1)
        rn fuel head l hL (hc (k + 1) (Nat.le_refl _)) hrn (hfull _ hj (Nat.le_refl _)) hle hR (by omega)
      rcases Nat.eq_or_lt_of_le hj with rfl | hlt
      · rw [Finset.Ico_self, Finset.sum_empty, Nat.zero_add] at hsum
        rw [if_neg (by rw [Nat.eq_of_mul_eq_mul_right hpos hsum]; exact Nat.lt_irrefl _)] at hstep
        exact ⟨st1, h, l1, enqueueLoop_done hstep, hG, hold, hhead⟩
      · have hj' : j ≤ k := Nat.le_of_lt_succ hlt
        have hless := cellLength_lt hlt (hfull j (Nat.le_refl j) hj) hsum
        rw [if_pos hless] at hstep
        have hsums : ∀ f : Nat → Nat → Nat,
            ∑ i ∈ Finset.Ico j (k + 1), f i (cellLength st1 group mt i) =
              ∑ i ∈ Finset.Ico j (k + 1), f i (cellLength st group mt i) := fun f =>
          Finset.sum_congr rfl fun i hi => by
            rw [(hG.below (Nat.le_of_lt_succ (Finset.mem_Ico.mp hi).2)).2.2]
        have hrest : (rn - cellLength st group mt (k + 1)) * 2 * 2 ^ k +
            cellLength st group mt (k + 1) * 2 ^ (k + 1) = rn * 2 ^ (k + 1) := by
          rw [Nat.mul_assoc, ← pow_succ', ← Nat.add_mul, Nat.sub_add_cancel hle]
        obtain ⟨st', h', l', hrun, hG', hold', hhead'⟩ := @ih st1
          ((rn - cellLength st group mt (k + 1)) * 2) (some h) l1 hj' hL1 (fun i hi => by
            unfold CountedCell
            rw [(hG.below hi).2.2, (hG.below hi).2.1]
            exact hc i (by omega)) (by omega) (fun i h1 h2 => by
            rw [(hG.below h2).1]
            exact hfull i h1 (by omega)) (by
            rw [hsums fun i n => n * 2 ^ i]
            omega) hG.chained (by
            rw [hsums fun _ n => n]
            omega)
        obtain rfl := hhead' h rfl
        refine ⟨st', h, l', ?_, hG.trans hG' hold' hj', fun x hx => hold' x (hold x hx), hhead⟩
        rw [enqueueLoop, hstep]
        exact hrun

/-- With a knotted head the loop never ends. -/
theorem Knotted.loop {h : Item} (hK : Knotted st h) (hL : st.Linked) (r : Word) :
    enqueueLoop fuel group mt k r (some h) st = none := by
  have hstep : ∀ k r, st.lists (.groupCell group mt k) ≠ [] →
      enqueueStep fuel group mt k r (some h) st = none := by
    intro k r hne
    obtain ⟨item, rest, hl⟩ := List.exists_cons_of_ne_nil hne
    unfold enqueueStep
    simp only [hl, Option.getD_some, hK.stuck hL hl, Option.bind_eq_bind, Option.bind_none, ite_self]
  induction k generalizing r with
  | zero =>
      rw [enqueueLoop]
      by_cases hl : st.lists (.groupCell group mt 0) = []
      · rw [enqueueStep_nil hl]
        rfl
      · rw [hstep 0 r hl]
        rfl
  | succ k ih =>
      rw [enqueueLoop]
      by_cases hl : st.lists (.groupCell group mt (k + 1)) = []
      · rw [enqueueStep_nil hl]
        exact ih r
      · rw [hstep (k + 1) r hl]
        rfl

/-- No chain starts at a knotted head. -/
theorem Knotted.not_chain {h : Item} (hK : Knotted st h) (l : List Item) : ¬ Chain st (h :: l) := by
  intro hC
  have hhead : l.head? = some h := hC.1.symm.trans hK.next
  have hnd := hC.nodup
  exact (List.nodup_cons.mp hnd).1 (List.mem_of_mem_head? hhead)

/-- A run that starts with the first item, its flag still set, ends in a knot or not at all. -/
theorem enqueueLoop_knots {r : Word} (hL : st.Linked)
    (hl : st.lists (.groupCell group mt k) = item :: rest) (hflag : compoundItem st item = true)
    (h : enqueueLoop fuel group mt k r none st = some (st', head')) :
    ∃ i, head' = some i ∧ Knotted st' i := by
  have hstep : ∀ {st1 head1 more}, enqueueStep fuel group mt k r none st = some (st1, head1, more) →
      head1 = some item ∧ Knotted st1 item ∧ st1.Linked := by
    intro st1 head1 more hs
    unfold enqueueStep at hs
    simp only [hl, Option.getD_none] at hs
    have hend : ∀ {split n st2}, cellToCompound fuel st (.groupCell group mt k) split item = some st2 →
        Knotted (st2.countSub (.groupCell group mt k) n) item ∧
          (st2.countSub (.groupCell group mt k) n).Linked := fun {split n st2} hrun =>
      have hK := cellToCompound_knots hL hl hflag hrun
      ⟨⟨hK.flag, hK.next, hK.off⟩, (cellToCompound_moves n hL hrun).1⟩
    split at hs
    all_goals
      simp only [Option.bind_eq_bind, Option.bind_eq_some_iff, Option.pure_def, Option.some.injEq,
        Prod.mk.injEq] at hs
      obtain ⟨st2, hrun, rfl, rfl, -⟩ := hs
      exact ⟨rfl, hend hrun⟩
  cases k with
  | zero =>
      rw [enqueueLoop] at h
      obtain ⟨⟨st1, head1, more⟩, hs, h⟩ := Option.bind_eq_some_iff.mp h
      obtain ⟨rfl, hK, -⟩ := hstep hs
      cases more with
      | some r' => cases h
      | none =>
          rw [Option.some.injEq, Prod.mk.injEq] at h
          obtain ⟨rfl, rfl⟩ := h
          exact ⟨item, rfl, hK⟩
  | succ k =>
      rw [enqueueLoop] at h
      obtain ⟨⟨st1, head1, more⟩, hs, h⟩ := Option.bind_eq_some_iff.mp h
      obtain ⟨rfl, hK, hL1⟩ := hstep hs
      cases more with
      | some r' =>
          have hnone := @Knotted.loop st1 group mt k fuel item hK hL1 r'
          simp only [hnone] at h
          cases h
      | none =>
          rw [Option.some.injEq, Prod.mk.injEq] at h
          obtain ⟨rfl, rfl⟩ := h
          exact ⟨item, rfl, hK⟩

end Loop

/-! ## 5. What is asked for -/

/-- **The call is exact**: it returns; `moved k` are the items unlinked from the list of order `k`, as many
    as its count falls by, all on the chain of `*item_pptr`; and with what is returned as missing they
    are what was asked for. -/
def EnqueueExact (st : State) (group : Group) (head : Option Item) (order norder : Nat)
    (mt : MigrationType) : Prop :=
  ∃ fuel st' h ret, ∃ moved : Nat → List Item,
    enqueueGroupMigration fuel st group head order norder mt = some (st', some h, ret) ∧
    (∀ k < order, (st.lists (.groupCell group mt k)).Perm (moved k ++ st'.lists (.groupCell group mt k)) ∧
      (st'.counts (.groupCell group mt k)).toNat + (moved k).length =
        (st.counts (.groupCell group mt k)).toNat) ∧
    (∃ l, Chained st' h l ∧ ∀ k < order, ∀ i ∈ moved k, i ∈ h :: l) ∧
    ∑ k ∈ Finset.range order, (moved k).length * 2 ^ k + ret = norder * 2 ^ order

/-- The lists from some order on are full, and are what is asked for. -/
def EnoughBelow (st : State) (group : Group) (mt : MigrationType) (order norder : Nat) : Prop :=
  ∃ j < order, (∀ k, j ≤ k → k < order → st.lists (.groupCell group mt k) ≠ []) ∧
    ∑ k ∈ Finset.Ico j order, cellLength st group mt k * 2 ^ k = norder * 2 ^ order

section Exact

variable {st : State} {group : Group} {mt : MigrationType} {head : Option Item} {order norder : Nat}

/-- Terms that are 0 below `j`. -/
theorem sum_range_of_zero {f : Nat → Nat} {j n : Nat} (hj : j ≤ n) (h : ∀ i, i < j → f i = 0) :
    ∑ i ∈ Finset.range n, f i = ∑ i ∈ Finset.Ico j n, f i := by
  rw [Finset.range_eq_Ico, ← Finset.sum_Ico_consecutive f (Nat.zero_le j) hj,
    Finset.sum_eq_zero fun i hi => h i (Finset.mem_Ico.mp hi).2, Nat.zero_add]

theorem enqueueExact_of_enough (hL : st.Linked) (hc : ∀ k < order, CountedCell st group mt k)
    (hb : norder * 2 ^ order < 2 ^ 64) (hhead : ∀ h, head = some h → ∃ l, Chained st h l)
    (hint : 2 * norder < 2 ^ 31) (hE : EnoughBelow st group mt order norder)
    (hfirst : head = none → ∀ i, (st.lists (.groupCell group mt (order - 1))).head? = some i →
      compoundItem st i = false) : EnqueueExact st group head order norder mt := by
  obtain ⟨j, hj, hfull, hsum⟩ := hE
  obtain ⟨k, rfl⟩ := Nat.exists_eq_succ_of_ne_zero (Nat.ne_zero_of_lt hj)
  have hN : 2 * norder * 2 ^ k = norder * 2 ^ (k + 1) := by rw [pow_succ]; ring
  obtain ⟨l, hR⟩ : ∃ l, Ready st group mt k l head := by
    cases head with
    | none => exact ⟨[], rfl, hfirst rfl⟩
    | some h => exact hhead h rfl
  obtain ⟨st', h, l', hrun, hG, -, -⟩ := @enqueueLoop_gathers st group mt k (2 * norder)
    (l.length + ∑ i ∈ Finset.Ico j (k + 1), cellLength st group mt i + 1) head l j
    (Nat.le_of_lt_succ hj) hL (fun i hi => hc i (Nat.lt_succ_of_le hi)) (by rw [hN]; exact hb)
    (fun i h1 h2 => hfull i h1 (Nat.lt_succ_of_le h2)) (by rw [hN]; exact hsum) hR
    (Nat.lt_succ_self _)
  generalize l.length + ∑ i ∈ Finset.Ico j (k + 1), cellLength st group mt i + 1 = fuel at hrun
  refine ⟨fuel, st', h, 0, fun i => if j ≤ i then st.lists (.groupCell group mt i) else [], ?_,
    fun i hi => ?_, ⟨l', hG.chained, fun i hi x hx => ?_⟩, ?_⟩
  · unfold enqueueGroupMigration
    rw [if_neg (by omega), Nat.succ_sub_one, hrun]
    rfl
  · by_cases hji : j ≤ i
    · obtain ⟨e1, e2⟩ := hG.emptied i hji (Nat.le_of_lt_succ hi)
      simp only [if_pos hji]
      rw [e1, e2, List.append_nil]
      exact ⟨List.Perm.refl _, by rw [hc i hi]; exact Nat.zero_add _⟩
    · obtain ⟨e1, e2⟩ := hG.others (.groupCell group mt i) fun i' h1 h2 => cell_ne (by omega)
      simp only [if_neg hji]
      rw [e1, e2]
      exact ⟨List.Perm.refl _, rfl⟩
  · by_cases hji : j ≤ i
    · simp only [if_pos hji] at hx
      exact hG.moved i hji (Nat.le_of_lt_succ hi) x hx
    · simp only [if_neg hji] at hx
      cases hx
  · rw [← hsum, Nat.add_zero, sum_range_of_zero (Nat.le_of_lt hj) fun i hi => by
      simp only [if_neg (Nat.not_le.mpr hi), List.length_nil, Nat.zero_mul]]
    refine Finset.sum_congr rfl fun i hi => ?_
    simp only [if_pos (Finset.mem_Ico.mp hi).1]
    rfl

/-- What left the lists in a run: all of them from the last order on, nothing below. The count of the
    last list fell by `rj`, so that was all of it. -/
theorem RunEnds.lengths {st' : State} {k rn j rj : Nat} (hE : RunEnds st st' group mt k rn j rj)
    (hc : ∀ i < k + 1, CountedCell st group mt i) {moved : Nat → List Item}
    (hmoved : ∀ i < k + 1, (st.lists (.groupCell group mt i)).Perm
        (moved i ++ st'.lists (.groupCell group mt i)) ∧
      (st'.counts (.groupCell group mt i)).toNat + (moved i).length =
        (st.counts (.groupCell group mt i)).toNat) :
    (∀ i, j ≤ i → i ≤ k → (moved i).length = cellLength st group mt i) ∧
      (∀ i, i < j → (moved i).length = 0) ∧ rj = cellLength st group mt j := by
  have hjk := hE.le
  have hall : ∀ i, j ≤ i → i ≤ k → (moved i).length = cellLength st group mt i := by
    intro i h1 h2
    have hp := (hmoved i (Nat.lt_succ_of_le h2)).1.length_eq
    rw [hE.emptied i h1 h2, List.append_nil] at hp
    exact hp.symm
  refine ⟨hall, fun i hi => ?_, ?_⟩
  · have hp := (hmoved i (by omega)).1.length_eq
    rw [hE.kept i (.inl hi), List.length_append] at hp
    omega
  · have hcount := (hmoved j (Nat.lt_succ_of_le hjk)).2
    have hlen := hc j (Nat.lt_succ_of_le hjk)
    have hlt := (st.counts (.groupCell group mt j)).isLt
    have hle := hE.enough
    unfold CountedCell at hlen
    rw [hE.count, hall j (Nat.le_refl j) hjk, BitVec.toNat_sub_of_le, BitVec.toNat_ofNat,
      Nat.mod_eq_of_lt (by omega)] at hcount
    · omega
    · rw [BitVec.le_def, BitVec.toNat_ofNat, Nat.mod_eq_of_lt (by omega)]
      omega

theorem enough_of_enqueueExact (hL : st.Linked) (hc : ∀ k < order, CountedCell st group mt k)
    (hb : norder * 2 ^ order < 2 ^ 64) (hpos : 1 ≤ norder)
    (h : EnqueueExact st group head order norder mt) :
    2 * norder < 2 ^ 31 ∧ EnoughBelow st group mt order norder ∧
      (head = none → ∀ i, (st.lists (.groupCell group mt (order - 1))).head? = some i →
        compoundItem st i = false) := by
  obtain ⟨fuel, st', hd, ret, moved, hrun, hmoved, ⟨l, hC, -⟩, htotal⟩ := h
  unfold enqueueGroupMigration at hrun
  split at hrun
  · cases hrun
  · next hguard =>
      obtain ⟨⟨st2, head2⟩, hloop, he⟩ := Option.map_eq_some_iff.mp hrun
      simp only [Prod.mk.injEq] at he
      obtain ⟨rfl, rfl, rfl⟩ := he
      obtain ⟨k, rfl⟩ := Nat.exists_eq_succ_of_ne_zero (show order ≠ 0 by omega)
      rw [Nat.succ_sub_one] at hloop
      have hN : 2 * norder * 2 ^ k = norder * 2 ^ (k + 1) := by rw [pow_succ]; ring
      obtain ⟨j, rj, hE⟩ := enqueueLoop_run hL (fun i hi => hc i (Nat.lt_succ_of_le hi))
        (by rw [hN]; exact hb) (by omega) hloop
      have hjk := hE.le
      obtain ⟨hall, hnone, hrj⟩ := hE.lengths hc hmoved
      have hsum : ∑ i ∈ Finset.Ico j (k + 1), cellLength st group mt i * 2 ^ i =
          norder * 2 ^ (k + 1) := by
        rw [← htotal, Nat.add_zero, sum_range_of_zero (Nat.le_succ_of_le hjk) fun i hi => by
          rw [hnone i hi, Nat.zero_mul]]
        refine Finset.sum_congr rfl fun i hi => ?_
        rw [hall i (Finset.mem_Ico.mp hi).1 (Nat.le_of_lt_succ (Finset.mem_Ico.mp hi).2)]
      have hfull := hE.full (by
        rw [hN, ← hsum, Finset.sum_eq_sum_Ico_succ_bot (Nat.lt_succ_of_le hjk), hrj])
      refine ⟨by omega, ⟨j, Nat.lt_succ_of_le hjk, fun i h1 h2 => ?_, hsum⟩, fun hn i hi => ?_⟩
      · rcases Nat.eq_or_lt_of_le h1 with rfl | hlt
        · intro hnil
          have := hE.pos
          unfold cellLength at hrj
          rw [hnil, List.length_nil] at hrj
          omega
        · exact hfull i hlt (Nat.le_of_lt_succ h2)
      · subst hn
        rw [Nat.succ_sub_one] at hi
        obtain ⟨rest, hl⟩ := List.head?_eq_some_iff.mp hi
        cases hflag : compoundItem st i with
        | false => rfl
        | true =>
            obtain ⟨i', hi', hK⟩ := enqueueLoop_knots hL hl hflag hloop
            cases hi'
            exact absurd hC.chain (hK.not_chain l)

end Exact

/-- **When a block is assembled exactly**: the lists below the order asked for are, from some order on, all
    in use and together just what is asked for, their sum fits an `int`, and the first block taken is no
    compound head already. -/
theorem enqueueGroupMigration_exact_iff {st : State} {group : Group} {mt : MigrationType}
    {head : Option Item} {order norder : Nat} (hL : st.Linked)
    (hc : ∀ k < order, CountedCell st group mt k) (horder : 1 ≤ order ∧ order ≤ maxItemOrder + 1)
    (hpos : 1 ≤ norder) (hint : norder < 2 ^ 31)
    (hhead : ∀ h, head = some h → ∃ l, Chained st h l) :
    EnqueueExact st group head order norder mt ↔
      2 * norder < 2 ^ 31 ∧ EnoughBelow st group mt order norder ∧
        (head = none → ∀ i, (st.lists (.groupCell group mt (order - 1))).head? = some i →
          compoundItem st i = false) := by
  have hb : norder * 2 ^ order < 2 ^ 64 := by
    rw [maxItemOrder_eq] at horder
    calc norder * 2 ^ order ≤ norder * 2 ^ 9 :=
          Nat.mul_le_mul_left _ (Nat.pow_le_pow_right (by decide) horder.2)
      _ < 2 ^ 64 := by omega
  exact ⟨enough_of_enqueueExact hL hc hb hpos,
    fun h => enqueueExact_of_enough hL hc hb hhead h.1 h.2.1 h.2.2⟩

/-- `n` free descriptors of level 3 on node 0, nothing else. -/
def freeUnits : Nat → State
  | 0 => zeroed
  | n + 1 => ((freeUnits n).pushTail (.groupCell (.phy 0 3) .reclaimable 0) n).countInc
      (.groupCell (.phy 0 3) .reclaimable 0)

theorem freeUnits_items (n : Nat) : ∀ i, n ≤ i → (freeUnits n).items i = zeroed.items i := by
  induction n with
  | zero => exact fun _ _ => rfl
  | succ n ih =>
      intro i hi
      rw [← ih i (by omega)]
      show Function.update _ n _ i = _
      rw [Function.update_of_ne (Nat.ne_of_gt (Nat.lt_of_succ_le hi))]
      rfl

theorem freeUnits_linked (n : Nat) : (freeUnits n).Linked := by
  induction n with
  | zero => exact zeroed_linked
  | succ n ih => exact (ih.pushTail (by rw [freeUnits_items n n (Nat.le_refl n)]; rfl) _).countInc _

/-- Two of them make one block of order 1. -/
theorem freeUnits_assembled :
    EnqueueExact (freeUnits 2) (.phy 0 3) none 1 1 .reclaimable := by
  refine (enqueueGroupMigration_exact_iff (freeUnits_linked 2) (fun k hk => ?_) (by decide) (by decide)
    (by decide) fun _ h => by cases h).mpr ⟨by decide, ⟨0, by decide, fun k _ hk => ?_, rfl⟩,
    fun _ i hi => ?_⟩
  · obtain rfl : k = 0 := by omega
    rfl
  · obtain rfl : k = 0 := by omega
    exact List.cons_ne_nil _ _
  · obtain rfl : 0 = i := Option.some.inj hi
    rfl

/-- Of three, all three leave the list, and the count falls by two. -/
theorem freeUnits_overdrawn :
    (freeUnits 3).Linked ∧ CountedCell (freeUnits 3) (.phy 0 3) .reclaimable 0 ∧
      (∃ st' ret, enqueueGroupMigration 4 (freeUnits 3) (.phy 0 3) none 1 1 .reclaimable =
          some (st', some 0, ret) ∧
        st'.lists (.groupCell (.phy 0 3) .reclaimable 0) = [] ∧
        st'.counts (.groupCell (.phy 0 3) .reclaimable 0) = 1) ∧
      ¬ EnqueueExact (freeUnits 3) (.phy 0 3) none 1 1 .reclaimable := by
  refine ⟨freeUnits_linked 3, rfl, ⟨_, _, rfl, by decide, by decide⟩, fun h => ?_⟩
  obtain ⟨-, ⟨j, hj, -, hsum⟩, -⟩ := enough_of_enqueueExact (freeUnits_linked 3) (fun k hk => by
    obtain rfl : k = 0 := by omega
    rfl) (by decide) (Nat.le_refl 1) h
  obtain rfl : j = 0 := by omega
  exact absurd hsum (by decide)

end TensorAlloc
