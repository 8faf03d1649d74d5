/-
  File:      TensorAlloc/Free.lean
  Subject:   Putting a block back: `free_group_migration`.

  * `mergeStep`, `mergeLoop` -- the inner `while`, its body and its run;
  * `freePass` -- one round of the outer `while`: merge, then insert or go to the next coarser
    level;
  * `freeLoop` -- the rounds: `old_lvl != lvl` holds again exactly after a promotion.

  `max_order` is unsigned, so `max_order - 1` and `max_order - 2` wrap. `order_index` is set once and
  only counted up: a promotion resets `order` and leaves it.
-/
import TensorAlloc.Remove

namespace TensorAlloc

/-! ## 1. The merge -/

/-- `max_order - k`, in 64 bits. -/
def orderSub (maxOrder k : Nat) : Nat := (maxOrder + 2 ^ 64 - k) % 2 ^ 64

theorem orderSub_eq {maxOrder k : Nat} (h : k ≤ maxOrder) (hm : maxOrder < 2 ^ 64) :
    orderSub maxOrder k = maxOrder - k := by
  unfold orderSub
  omega

/-- The variables of the function that change. `buddy` holds `buddy_idx` and `buddy_page`, `none`
    before their first assignment. -/
structure MergeVars where
  item : Item
  idx : Nat
  order : Nat
  orderIndex : Nat
  buddy : Option (Nat × Item)
  deriving DecidableEq, Repr

/-- Where the inner loop leaves to. -/
inductive MergeExit where
  | direct | done
  deriving DecidableEq, Repr

/-- `get_item_freeidx(item) > 0 && get_item_freeidx(item) < BIT(MAX_ITEM_RANGE + 1)`. -/
def partlyFree (x : ItemStruct) : Bool :=
  decide (0 < getItemFreeidx x.flags ∧ getItemFreeidx x.flags < 2 ^ (maxItemRange + 1))

/-- The first descriptor of the pair of `v`'s block and the buddy at `buddyIdx`. -/
def combinedItem (v : MergeVars) (buddyIdx : Nat) : Item := v.item + (buddyIdx &&& v.idx) - v.idx

/-- The two blocks become one: the buddy leaves its list, the fields of both heads are cleared, and
    the head of the pair takes the next order. -/
def mergeBuddy (st : State) (group : Group) (mt : MigrationType) (v : MergeVars)
    (buddyIdx : Nat) (buddyPage : Item) : Option (State × MergeVars) := do
  let st ← listDel st buddyPage
  let st := st.modFlags buddyPage fun flags => clearItemNode (clearItemOrder flags)
  let st := st.modFlags v.item fun flags => clearItemFreeidx (clearItemDim (clearItemState
    (clearItemOrder (clearItemNode (clearItemSection flags)))))
  let st := st.countDec (.groupCell group mt v.order)
  let item := combinedItem v buddyIdx
  pure (st.modFlags item fun flags => setItemOrder flags (v.order + 1),
    { item := item, idx := buddyIdx &&& v.idx, order := v.order + 1,
      orderIndex := v.orderIndex + 1, buddy := some (buddyIdx, buddyPage) })

/-- One round of the inner loop; the exit is `none` where it goes on. -/
def mergeStep (group : Group) (mt : MigrationType) (maxOrder : Nat) (top : Bool) (st : State)
    (v : MergeVars) : Option (State × MergeVars × Option MergeExit) :=
  if v.order ≤ orderSub maxOrder 1 then
    let st := st.modFlags v.item clearItemPresent
    if mt = .lrutype ∨ (top = true ∧ v.order = orderSub maxOrder 1) then
      some (st, v, some .direct)
    else if partlyFree (st.items v.item) then some (st, v, some .direct)
    else
      let buddyIdx := nextBuddyIdx v.idx v.orderIndex
      let buddyPage := v.item + buddyIdx - v.idx
      if !itemIsBuddy (st.items buddyPage) v.order || !buddyIsValid mt (st.items buddyPage) then
        some (st, { v with buddy := some (buddyIdx, buddyPage) }, some .done)
      else (mergeBuddy st group mt v buddyIdx buddyPage).map fun r => (r.1, r.2, none)
  else some (st, v, some .done)

/-- The inner loop. The bound stands for the shift of `next_buddy_idx`: the 65th merge would shift
    by 64. -/
def mergeLoop (group : Group) (mt : MigrationType) (maxOrder : Nat) (top : Bool) :
    Nat → State → MergeVars → Option (State × MergeVars × MergeExit)
  | 0, _, _ => none
  | n + 1, st, v =>
      match mergeStep group mt maxOrder top st v with
      | none => none
      | some (st, v, some exit) => some (st, v, exit)
      | some (st, v, none) => mergeLoop group mt maxOrder top n st v

def mergeBound : Nat := bitsPerLong + 1

/-! ## 2. Insertion -/

/-- Whether the block goes to the tail of its list: its pair's buddy is free one order up. `none`: the
    buddy is read before it was ever set. -/
def tailWanted (st : State) (mt : MigrationType) (maxOrder : Nat) (v : MergeVars) : Option Bool :=
  if v.order < orderSub maxOrder 2 then
    match v.buddy with
    | none => none
    | some (buddyIdx, buddyPage) =>
        if buddyIsValid mt (st.items buddyPage) then
          let combinedIdx := buddyIdx &&& v.idx
          let higherIdx := nextBuddyIdx combinedIdx (v.orderIndex + 1)
          let higherBuddy := combinedItem v buddyIdx + higherIdx - combinedIdx
          some (itemIsBuddy (st.items higherBuddy) (v.order + 1))
        else some false
  else some false

/-- The insertion and what follows it: `list_add_tail(&item->node, temp)` or
    `list_add_head(&item->node, temp)`, the order, the level and the count. -/
def insertFreed (r : Reading) (group : Group) (mt : MigrationType) (lvl : Nat) (tail : Bool)
    (st : State) (v : MergeVars) : Option State := do
  let temp := ListHead.groupCell group mt v.order
  let st ← if tail then listAddTail r (.item v.item) (.head temp) st
    else listAddHead r (.item v.item) (.head temp) st
  pure ((st.modFlags v.item fun flags =>
    setItemSection (setItemOrder flags v.order) lvl).countInc temp)

/-- `phy_group_lvl` of the node, level 0 for a sparse group: where merging stops one order
    early. -/
def topLvlOf (st : State) (dim : Nat) (mt : MigrationType) : Option Int :=
  if mt = .sparseMovable then some 0
  else (getCurrentNodeNum dim).map fun cur => st.tables.phyGroupLvl cur

/-! ## 3. The rounds -/

/-- How a round ends. -/
inductive PassEnd where
  | inserted (item : Item)
  | promoted (v : MergeVars)

/-- From the exit of the inner loop to the end of the round. -/
def leavePass (r : Reading) (group : Group) (mt : MigrationType) (lvl maxOrder : Nat) (st : State)
    (v : MergeVars) : MergeExit → Option (State × PassEnd)
  | .direct => (insertFreed r group mt lvl false st v).map fun st => (st, .inserted v.item)
  | .done => do
      let tail ← tailWanted st mt maxOrder v
      if tail = false ∧ functionItem groupOrderNumShift - 1 ≤ v.order ∧ mt ≠ .sparseMovable then
        pure (st, .promoted v)
      else (insertFreed r group mt lvl tail st v).map fun st => (st, .inserted v.item)

/-- One round of the outer loop. -/
def freePass (r : Reading) (dim pid : Nat) (group : Group) (mt : MigrationType) (lvl : Nat)
    (st : State) (item : Item) (order orderIndex : Nat) (buddy : Option (Nat × Item)) :
    Option (State × PassEnd) := do
  let idx ← itemToRelIdx st item pid
  let maxOrder ← maxOrderOf st dim lvl mt
  let topLvl ← topLvlOf st dim mt
  let (st, v, exit) ← mergeLoop group mt maxOrder (decide ((lvl : Int) = topLvl)) mergeBound st
    { item := item, idx := idx, order := order, orderIndex := orderIndex, buddy := buddy }
  leavePass r group mt lvl maxOrder st v exit

/-- The outer loop. Above level 0 there is no group: `get_group_lvl(-1, pid)`. -/
def freeLoop (r : Reading) (dim pid : Nat) (mt : MigrationType) :
    Nat → Group → State → Item → Nat → Nat → Option (Nat × Item) → Option (State × Item)
  | 0, group, st, item, order, orderIndex, buddy =>
      match freePass r dim pid group mt 0 st item order orderIndex buddy with
      | some (st, .inserted item) => some (st, item)
      | _ => none
  | lvl + 1, group, st, item, order, orderIndex, buddy =>
      match freePass r dim pid group mt (lvl + 1) st item order orderIndex buddy with
      | some (st, .inserted item) => some (st, item)
      | some (st, .promoted v) =>
          freeLoop r dim pid mt lvl (.phy pid lvl) st v.item 0 v.orderIndex v.buddy
      | none => none

/-- `free_group_migration`. -/
def freeGroupMigration (r : Reading) (st : State) (item : Item) (group : Group) (lvl order : Nat)
    (mt : MigrationType) : Option (State × Item) :=
  let pid := getItemNode (st.items item).flags
  let dim := (st.nodeOf group).dim
  let orderIndex :=
    if mt = .sparseMovable then order else order + functionItemLvl groupOrderNumShift lvl
  freeLoop r dim pid mt lvl group st item order orderIndex none

/-! ## 4. What a merge does -/

theorem shift_page (base x y : Nat) : base + x + y - x = base + y := by omega

theorem partlyFree_congr {x y : ItemStruct}
    (h : field .freeidx x.flags = field .freeidx y.flags) : partlyFree x = partlyFree y := by
  unfold partlyFree getItemFreeidx
  rw [decide_eq_decide, h]

theorem partlyFree_clearPresent (st : State) (i : Item) :
    partlyFree ((st.modFlags i clearItemPresent).items i) = partlyFree (st.items i) := by
  refine partlyFree_congr ?_
  simp

/-- The lower of two buddies is one of them. -/
theorem xor_land_cases (x k : Nat) :
    (x ^^^ 2 ^ k) &&& x = x ∨ (x ^^^ 2 ^ k) &&& x = x ^^^ 2 ^ k := by
  cases hb : x.testBit k with
  | false =>
      refine .inl (Nat.eq_of_testBit_eq fun i => ?_)
      rw [Nat.testBit_and, Nat.testBit_xor, Nat.testBit_two_pow]
      by_cases hi : k = i
      · subst hi
        simp [hb]
      · simp [hi]
  | true =>
      refine .inr (Nat.eq_of_testBit_eq fun i => ?_)
      rw [Nat.testBit_and, Nat.testBit_xor, Nat.testBit_two_pow]
      by_cases hi : k = i
      · subst hi
        simp [hb]
      · simp [hi]

/-- The head of a pair is the block itself or the buddy. -/
theorem combinedItem_cases (v : MergeVars) (k : Nat) :
    combinedItem v (nextBuddyIdx v.idx k) = v.item ∨
      combinedItem v (nextBuddyIdx v.idx k) = v.item + nextBuddyIdx v.idx k - v.idx := by
  unfold combinedItem nextBuddyIdx
  rcases xor_land_cases v.idx k with e | e
  · rw [e]
    exact .inl (Nat.add_sub_cancel _ _)
  · rw [e]
    exact .inr rfl

section Merge

variable {group : Group} {mt : MigrationType} {st st' : State} {v v' : MergeVars} {y : Nat}
  {page : Item}

/-- What one merge leaves. -/
theorem mergeBuddy_eq (hm : mergeBuddy st group mt v y page = some (st', v')) :
    ∃ st1, listDel st page = some st1 ∧
      v' = ⟨combinedItem v y, y &&& v.idx, v.order + 1, v.orderIndex + 1, some (y, page)⟩ ∧
      st' = ((((st1.modFlags page fun flags => clearItemNode (clearItemOrder flags)).modFlags v.item
        fun flags => clearItemFreeidx (clearItemDim (clearItemState (clearItemOrder (clearItemNode
          (clearItemSection flags)))))).countDec (.groupCell group mt v.order)).modFlags
            (combinedItem v y) fun flags => setItemOrder flags (v.order + 1)) := by
  unfold mergeBuddy at hm
  cases hd : listDel st page with
  | none => simp [hd] at hm
  | some st1 =>
      simp only [hd, Option.bind_eq_bind, Option.bind_some, Option.pure_def, Option.some.injEq,
        Prod.mk.injEq] at hm
      exact ⟨st1, rfl, hm.2.symm, hm.1.symm⟩

/-- The items a merge writes are the two heads. -/
theorem mergeBuddy_items
    (hm : mergeBuddy st group mt v y page = some (st', v')) {i : Item} (h1 : i ≠ page)
    (h2 : i ≠ v.item) (h3 : i ≠ combinedItem v y) : st'.items i = st.items i := by
  obtain ⟨st1, hd, -, rfl⟩ := mergeBuddy_eq hm
  obtain ⟨l, hl, rfl⟩ := listDel_some hd
  simp only [State.modFlags_items, State.countDec_items, State.modItem_items,
    State.setList_items, if_neg h1, if_neg h2, if_neg h3]

/-- The head of the pair is the buddy, its freeidx as it was, or the old head, its freeidx
    cleared. -/
theorem mergeBuddy_freeidx
    (hm : mergeBuddy st group mt v y page = some (st', v')) (hne : page ≠ v.item) :
    (combinedItem v y = page → field .freeidx (st'.items (combinedItem v y)).flags =
        field .freeidx (st.items page).flags) ∧
      (combinedItem v y = v.item → field .freeidx (st'.items (combinedItem v y)).flags = 0) := by
  obtain ⟨st1, hd, -, rfl⟩ := mergeBuddy_eq hm
  obtain ⟨l, hl, rfl⟩ := listDel_some hd
  constructor <;> intro e <;> rw [e]
  · simp [hne]
  · simp [Ne.symm hne]

/-- A merge touches no present flag. -/
theorem mergeBuddy_present (hm : mergeBuddy st group mt v y page = some (st', v')) (i : Item) :
    field .present (st'.items i).flags = field .present (st.items i).flags := by
  obtain ⟨st1, hd, -, rfl⟩ := mergeBuddy_eq hm
  have hflags : field .present (st1.items i).flags = field .present (st.items i).flags := by
    obtain ⟨hother, -, hpage, -⟩ := listDel_items hd
    by_cases hi : i = page
    · rw [hi, hpage]
    · rw [hother i hi]
  simp only [State.modFlags_items, State.countDec_items]
  rw [← hflags]
  split <;> split <;> split <;> simp_all

/-- The count of the order merged goes down by one. -/
theorem mergeBuddy_counts
    (hm : mergeBuddy st group mt v y page = some (st', v')) (h : ListHead) :
    st'.counts h = st.counts h - if h = .groupCell group mt v.order then 1 else 0 := by
  obtain ⟨st1, hd, -, rfl⟩ := mergeBuddy_eq hm
  have hc : st1.counts = st.counts := by
    obtain ⟨l, -, rfl⟩ := listDel_some hd
    rfl
  simp only [State.modFlags_counts, State.countDec_counts, hc]
  split
  · next e => rw [e]
  · exact (sub_zero _).symm

/-- The buddy leaves the list it is on, whichever that is. -/
theorem mergeBuddy_lists (hm : mergeBuddy st group mt v y page = some (st', v')) :
    ∃ l, (st.items page).onList = some l ∧
      ∀ h, st'.lists h = if h = l then (st.lists l).erase page else st.lists h := by
  obtain ⟨st1, hd, -, rfl⟩ := mergeBuddy_eq hm
  obtain ⟨l, hl, rfl⟩ := listDel_some hd
  refine ⟨l, hl, fun h => ?_⟩
  simp only [State.modFlags_lists, State.countDec_lists, State.modItem_lists,
    State.setList_lists]

/-- The pair's head being one of the two, nothing else is written. -/
theorem mergeBuddy_others {k : Nat} (hm : mergeBuddy st group mt v (nextBuddyIdx v.idx k)
      (v.item + nextBuddyIdx v.idx k - v.idx) = some (st', v')) (j : Item)
    (h1 : j ≠ v.item + nextBuddyIdx v.idx k - v.idx) (h2 : j ≠ v.item) :
    st'.items j = st.items j := by
  refine mergeBuddy_items hm h1 h2 ?_
  rcases combinedItem_cases v k with e | e <;> rw [e] <;> assumption

/-- What a merge does to the links: the buddy leaves its list. -/
structure BuddyOff (st st' : State) (l : ListHead) (page item : Item) : Prop where
  linked : st'.Linked
  nodes : st'.nodes = st.nodes
  tables : st'.tables = st.tables
  lists : ∀ h, st'.lists h = if h = l then (st.lists l).erase page else st.lists h
  prev : ∀ j, (st'.items j).prev = (st.items j).prev
  page : (st'.items page).onList = none
  head : (st'.items item).onList = (st.items item).onList

theorem mergeBuddy_off {l : ListHead} (hL : st.Linked)
    (hpon : (st.items page).onList = some l) (hne : page ≠ v.item)
    (hm : mergeBuddy st group mt v y page = some (st', v')) : BuddyOff st st' l page v.item := by
  have hlists : ∀ h, st'.lists h = if h = l then (st.lists l).erase page else st.lists h := by
    obtain ⟨l', hl, hls⟩ := mergeBuddy_lists hm
    rw [hpon, Option.some.injEq] at hl
    subst hl
    exact hls
  obtain ⟨st1, hd, -, hst⟩ := mergeBuddy_eq hm
  have hlinked := hL.listDel hd
  rw [listDel_of hpon, Option.some.injEq] at hd
  refine ⟨?_, ?_, ?_, hlists, fun j => ?_, ?_, ?_⟩
  · rw [hst]
    exact (((hlinked.modFlags _ _).modFlags _ _).countDec _).modFlags _ _
  · rw [hst, State.modFlags_nodes, State.countDec_nodes, State.modFlags_nodes, State.modFlags_nodes,
      ← hd]
    rfl
  · rw [hst, State.modFlags_tables, State.countDec_tables, State.modFlags_tables,
      State.modFlags_tables, ← hd]
    rfl
  · rw [hst, modFlags_prev, State.countDec_items, modFlags_prev, modFlags_prev, ← hd]
    exact State.modItem_keeps _ j ItemStruct.prev rfl
  · rw [hst, modFlags_onList, State.countDec_items, modFlags_onList, modFlags_onList, ← hd,
      State.modItem_items, if_pos rfl]
  · rw [hst, modFlags_onList, State.countDec_items, modFlags_onList, modFlags_onList, ← hd,
      State.modItem_items, if_neg (Ne.symm hne)]
    rfl

theorem BuddyOff.mem_lists {l k : ListHead} {item i : Item} (h : BuddyOff st st' l page item)
    (hL : st.Linked) (hpon : (st.items page).onList = some l) :
    i ∈ st'.lists k ↔ i ∈ st.lists k ∧ i ≠ page := by
  rw [h.lists]
  split
  · next e => rw [e, (hL.nodup l).mem_erase_iff, and_comm]
  · next e =>
      refine ⟨fun hi => ⟨hi, fun hip => e ?_⟩, fun hi => hi.1⟩
      have hon := (hL.mem i k).mpr hi
      rw [hip, hpon] at hon
      exact (Option.some.inj hon).symm

end Merge

/-- The four ways through the body of the inner loop. -/
theorem mergeStep_cases {group : Group} {mt : MigrationType} {maxOrder : Nat} {top : Bool}
    {st st' : State} {v v' : MergeVars} {e : Option MergeExit}
    (h : mergeStep group mt maxOrder top st v = some (st', v', e)) :
    (orderSub maxOrder 1 < v.order ∧ st' = st ∧ v' = v ∧ e = some .done) ∨
    (v.order ≤ orderSub maxOrder 1 ∧ st' = st.modFlags v.item clearItemPresent ∧ v' = v ∧
      e = some .direct ∧ (mt = .lrutype ∨ (top = true ∧ v.order = orderSub maxOrder 1) ∨
        partlyFree (st'.items v.item) = true)) ∨
    (v.order ≤ orderSub maxOrder 1 ∧ ¬ (top = true ∧ v.order = orderSub maxOrder 1) ∧
      st' = st.modFlags v.item clearItemPresent ∧ e = some .done ∧
      v' = { v with buddy := some (nextBuddyIdx v.idx v.orderIndex,
        v.item + nextBuddyIdx v.idx v.orderIndex - v.idx) } ∧
      ¬ (itemIsBuddy (st'.items (v.item + nextBuddyIdx v.idx v.orderIndex - v.idx)) v.order = true ∧
        buddyIsValid mt (st'.items (v.item + nextBuddyIdx v.idx v.orderIndex - v.idx)) = true)) ∨
    (v.order ≤ orderSub maxOrder 1 ∧ mt ≠ .lrutype ∧
      ¬ (top = true ∧ v.order = orderSub maxOrder 1) ∧ e = none ∧
      partlyFree ((st.modFlags v.item clearItemPresent).items v.item) = false ∧
      itemIsBuddy ((st.modFlags v.item clearItemPresent).items
        (v.item + nextBuddyIdx v.idx v.orderIndex - v.idx)) v.order = true ∧
      buddyIsValid mt ((st.modFlags v.item clearItemPresent).items
        (v.item + nextBuddyIdx v.idx v.orderIndex - v.idx)) = true ∧
      mergeBuddy (st.modFlags v.item clearItemPresent) group mt v (nextBuddyIdx v.idx v.orderIndex)
        (v.item + nextBuddyIdx v.idx v.orderIndex - v.idx) = some (st', v')) := by
  unfold mergeStep at h
  split at h
  · next hle =>
      dsimp only at h
      split at h
      · next hd =>
          simp only [Option.some.injEq, Prod.mk.injEq] at h
          obtain ⟨rfl, rfl, rfl⟩ := h
          exact .inr (.inl ⟨hle, rfl, rfl, rfl, hd.elim .inl fun x => .inr (.inl x)⟩)
      · next hd =>
          rw [not_or] at hd
          split at h
          · next hp =>
              simp only [Option.some.injEq, Prod.mk.injEq] at h
              obtain ⟨rfl, rfl, rfl⟩ := h
              exact .inr (.inl ⟨hle, rfl, rfl, rfl, .inr (.inr hp)⟩)
          · next hp =>
              split at h
              · next hb =>
                  simp only [Option.some.injEq, Prod.mk.injEq] at h
                  obtain ⟨rfl, rfl, rfl⟩ := h
                  refine .inr (.inr (.inl ⟨hle, hd.2, rfl, rfl, rfl, fun hboth => ?_⟩))
                  rw [hboth.1, hboth.2] at hb
                  cases hb
              · next hb =>
                  simp only [Bool.or_eq_true, Bool.not_eq_true', not_or, Bool.not_eq_false] at hb
                  obtain ⟨r, hr, h⟩ := Option.map_eq_some_iff.mp h
                  simp only [Prod.mk.injEq] at h
                  obtain ⟨rfl, rfl, rfl⟩ := h
                  exact .inr (.inr (.inr ⟨hle, hd.1, hd.2, rfl, by simpa using hp, hb.1, hb.2, hr⟩))
  · next hle =>
      simp only [Option.some.injEq, Prod.mk.injEq] at h
      obtain ⟨rfl, rfl, rfl⟩ := h
      exact .inl ⟨Nat.lt_of_not_le hle, rfl, rfl, rfl⟩

/-- The body never faults: a buddy is taken off a list only when it is on one. -/
theorem mergeStep_total (group : Group) (mt : MigrationType) (maxOrder : Nat) (top : Bool)
    (st : State) (v : MergeVars) : ∃ r, mergeStep group mt maxOrder top st v = some r := by
  unfold mergeStep
  split
  · dsimp only
    split
    · exact ⟨_, rfl⟩
    · split
      · exact ⟨_, rfl⟩
      · split
        · exact ⟨_, rfl⟩
        · next hb =>
            simp only [Bool.or_eq_true, Bool.not_eq_true', not_or, Bool.not_eq_false] at hb
            have hsome := hb.2
            simp only [buddyIsValid, Bool.and_eq_true] at hsome
            obtain ⟨l, hl⟩ := Option.isSome_iff_exists.mp hsome.1
            unfold mergeBuddy
            rw [listDel_of hl]
            exact ⟨_, rfl⟩
  · exact ⟨_, rfl⟩

/-- **The rule of the inner loop**: what every round that goes on keeps holds where the loop leaves, and
    gives what the last round makes of it. -/
theorem mergeLoop_rule {group : Group} {mt : MigrationType} {maxOrder : Nat} {top : Bool}
    (P : State → MergeVars → Prop) (Q : State → MergeVars → MergeExit → Prop)
    (hgo : ∀ {st v st' v'}, P st v →
      mergeStep group mt maxOrder top st v = some (st', v', none) → P st' v')
    (hexit : ∀ {st v st' v' exit}, P st v →
      mergeStep group mt maxOrder top st v = some (st', v', some exit) → Q st' v' exit)
    {n : Nat} {st st' : State} {v v' : MergeVars} {exit : MergeExit}
    (h : mergeLoop group mt maxOrder top n st v = some (st', v', exit)) (hP : P st v) :
    Q st' v' exit := by
  induction n generalizing st v with
  | zero => cases h
  | succ n ih =>
      rw [mergeLoop] at h
      split at h
      · cases h
      · next hs =>
          simp only [Option.some.injEq, Prod.mk.injEq] at h
          obtain ⟨rfl, rfl, rfl⟩ := h
          exact hexit hP hs
      · next hs => exact ih h (hgo hP hs)

/-- What every round keeps the loop keeps. -/
theorem mergeLoop_keeps {group : Group} {mt : MigrationType} {maxOrder : Nat} {top : Bool}
    (P : State → MergeVars → Prop)
    (hstep : ∀ {st v st' v' e}, P st v →
      mergeStep group mt maxOrder top st v = some (st', v', e) → P st' v')
    {n : Nat} {st st' : State} {v v' : MergeVars} {exit : MergeExit}
    (h : mergeLoop group mt maxOrder top n st v = some (st', v', exit)) (hP : P st v) : P st' v' :=
  mergeLoop_rule P (fun st v _ => P st v) hstep hstep h hP

/-- The inner loop ends: every round that goes on is one order up, below `max_order`. -/
theorem mergeLoop_total (group : Group) (mt : MigrationType) {maxOrder : Nat} (top : Bool)
    (hpos : 1 ≤ maxOrder) (hmax : maxOrder ≤ maxItemOrder + 1) {n : Nat} (st : State)
    (v : MergeVars)
    (hn : maxOrder < v.order + n) (hn' : 0 < n) :
    ∃ r, mergeLoop group mt maxOrder top n st v = some r := by
  induction n generalizing st v with
  | zero => omega
  | succ n ih =>
      obtain ⟨⟨st1, v1, e⟩, hr⟩ := mergeStep_total group mt maxOrder top st v
      rw [mergeLoop, hr]
      cases e with
      | some exit => exact ⟨_, rfl⟩
      | none =>
          have hsub : orderSub maxOrder 1 = maxOrder - 1 :=
            orderSub_eq hpos (by simp only [maxItemOrder_eq] at hmax; omega)
          rcases mergeStep_cases hr with ⟨-, -, -, he⟩ | ⟨-, -, -, he, -⟩ | ⟨-, -, -, he, -⟩ |
            ⟨hle, -, -, -, -, -, -, hm⟩
          · cases he
          · cases he
          · cases he
          · obtain ⟨-, -, rfl, -⟩ := mergeBuddy_eq hm
            exact ih _ _ (by show maxOrder < v.order + 1 + n; omega) (by omega)

/-! ## 5. What a round does -/

/-- The insertion with the list as the list. -/
theorem insertFreed_listFirst (group : Group) (mt : MigrationType) (lvl : Nat) (tail : Bool)
    (st : State) (v : MergeVars) :
    insertFreed .listFirst group mt lvl tail st v =
      some ((((if tail then st.pushTail (.groupCell group mt v.order) v.item
        else st.pushHead (.groupCell group mt v.order) v.item)).modFlags v.item fun flags =>
          setItemSection (setItemOrder flags v.order) lvl).countInc (.groupCell group mt v.order)) := by
  cases tail <;> rfl

/-- How a round leaves: by an insertion, or by a promotion from order 8 up. -/
theorem leavePass_cases {r : Reading} {group : Group} {mt : MigrationType} {lvl maxOrder : Nat}
    {st st' : State} {v : MergeVars} {exit : MergeExit} {e : PassEnd}
    (h : leavePass r group mt lvl maxOrder st v exit = some (st', e)) :
    (∃ tail, insertFreed r group mt lvl tail st v = some st' ∧ e = .inserted v.item) ∨
      (exit = .done ∧ maxItemOrder ≤ v.order ∧ st' = st ∧ e = .promoted v) := by
  cases exit with
  | direct =>
      obtain ⟨s, hs, h⟩ := Option.map_eq_some_iff.mp h
      simp only [Prod.mk.injEq] at h
      exact .inl ⟨false, by rw [hs, h.1], h.2.symm⟩
  | done =>
      simp only [leavePass, Option.bind_eq_bind, Option.bind_eq_some_iff] at h
      obtain ⟨tail, -, h⟩ := h
      split at h
      · next hp =>
          simp only [Option.pure_def, Option.some.injEq, Prod.mk.injEq] at h
          exact .inr ⟨rfl, hp.2.1, h.1.symm, h.2.symm⟩
      · obtain ⟨s, hs, h⟩ := Option.map_eq_some_iff.mp h
        simp only [Prod.mk.injEq] at h
        exact .inl ⟨tail, by rw [hs, h.1], h.2.symm⟩

/-- The tail is asked for where the buddy was set, or not read. -/
theorem tailWanted_total (st : State) (mt : MigrationType) {maxOrder : Nat} {v : MergeVars}
    (h : v.order < orderSub maxOrder 2 → v.buddy.isSome = true) :
    ∃ tail, tailWanted st mt maxOrder v = some tail := by
  unfold tailWanted
  split
  · next hlt =>
      obtain ⟨b, hb⟩ := Option.isSome_iff_exists.mp (h hlt)
      rw [hb]
      dsimp only
      split <;> exact ⟨_, rfl⟩
  · exact ⟨false, rfl⟩

/-- **A block that is not promoted is inserted.** -/
theorem leavePass_stays (group : Group) (mt : MigrationType) (lvl maxOrder : Nat) (st : State)
    {v : MergeVars} {exit : MergeExit}
    (hset : exit = .done → v.order < orderSub maxOrder 2 → v.buddy.isSome = true)
    (hstay : exit = .done → v.order < maxItemOrder ∨ mt = .sparseMovable) :
    ∃ tail st', insertFreed .listFirst group mt lvl tail st v = some st' ∧
      leavePass .listFirst group mt lvl maxOrder st v exit = some (st', .inserted v.item) := by
  cases exit with
  | direct =>
      refine ⟨false, _, insertFreed_listFirst group mt lvl false st v, ?_⟩
      rw [leavePass, insertFreed_listFirst, Option.map_some]
  | done =>
      obtain ⟨tail, htail⟩ := tailWanted_total st mt (hset rfl)
      have hnot : ¬ (tail = false ∧ functionItem groupOrderNumShift - 1 ≤ v.order ∧
          mt ≠ .sparseMovable) := by
        intro h
        obtain ⟨-, h8, hne⟩ := h
        rcases hstay rfl with hlt | he
        · exact absurd hlt (Nat.not_lt.mpr h8)
        · exact hne he
      refine ⟨tail, _, insertFreed_listFirst group mt lvl tail st v, ?_⟩
      simp only [leavePass, htail, Option.bind_eq_bind, Option.bind_some, if_neg hnot,
        insertFreed_listFirst, Option.map_some]

/-- The parts of a round. -/
theorem freePass_cases {r : Reading} {dim pid : Nat} {group : Group} {mt : MigrationType}
    {lvl : Nat} {st st' : State} {item : Item} {order orderIndex : Nat}
    {buddy : Option (Nat × Item)} {e : PassEnd}
    (h : freePass r dim pid group mt lvl st item order orderIndex buddy = some (st', e)) :
    ∃ idx maxOrder topLvl st1 v exit, itemToRelIdx st item pid = some idx ∧
      maxOrderOf st dim lvl mt = some maxOrder ∧ topLvlOf st dim mt = some topLvl ∧
      mergeLoop group mt maxOrder (decide ((lvl : Int) = topLvl)) mergeBound st
        ⟨item, idx, order, orderIndex, buddy⟩ = some (st1, v, exit) ∧
      leavePass r group mt lvl maxOrder st1 v exit = some (st', e) := by
  simp only [freePass, Option.bind_eq_bind, Option.bind_eq_some_iff] at h
  obtain ⟨idx, h1, maxOrder, h2, topLvl, h3, ⟨st1, v, exit⟩, h4, h5⟩ := h
  exact ⟨idx, maxOrder, topLvl, st1, v, exit, h1, h2, h3, h4, h5⟩

/-- A round, from the run of its inner loop. -/
theorem freePass_of {r : Reading} {dim pid : Nat} {group : Group} {mt : MigrationType} {lvl : Nat}
    {st st1 : State} {item : Item} {idx order orderIndex maxOrder : Nat} {topLvl : Int}
    {buddy : Option (Nat × Item)} {v : MergeVars} {exit : MergeExit}
    (h1 : itemToRelIdx st item pid = some idx) (h2 : maxOrderOf st dim lvl mt = some maxOrder)
    (h3 : topLvlOf st dim mt = some topLvl)
    (h4 : mergeLoop group mt maxOrder (decide ((lvl : Int) = topLvl)) mergeBound st
      ⟨item, idx, order, orderIndex, buddy⟩ = some (st1, v, exit)) :
    freePass r dim pid group mt lvl st item order orderIndex buddy =
      leavePass r group mt lvl maxOrder st1 v exit := by
  simp only [freePass, h1, h2, h3, h4, Option.bind_eq_bind, Option.bind_some]

section Round

variable {mt : MigrationType} {lvl order dim pid : Nat} {st : State}

/-- The run ends with the first round, or goes on one level up. -/
theorem freeLoop_cases {r : Reading} {group : Group} {item i : Item} {orderIndex : Nat}
    {buddy : Option (Nat × Item)} {st' : State}
    (h : freeLoop r dim pid mt lvl group st item order orderIndex buddy = some (st', i)) :
    freePass r dim pid group mt lvl st item order orderIndex buddy = some (st', .inserted i) ∨
      ∃ st1 v1 lvl', lvl = lvl' + 1 ∧
        freePass r dim pid group mt lvl st item order orderIndex buddy = some (st1, .promoted v1) ∧
        freeLoop r dim pid mt lvl' (.phy pid lvl') st1 v1.item 0 v1.orderIndex v1.buddy =
          some (st', i) := by
  cases lvl with
  | zero =>
      rw [freeLoop] at h
      split at h
      · next hp =>
          simp only [Option.some.injEq, Prod.mk.injEq] at h
          obtain ⟨rfl, rfl⟩ := h
          exact .inl hp
      · cases h
  | succ lvl =>
      rw [freeLoop] at h
      split at h
      · next hp =>
          simp only [Option.some.injEq, Prod.mk.injEq] at h
          obtain ⟨rfl, rfl⟩ := h
          exact .inl hp
      · next hp => exact .inr ⟨_, _, lvl, rfl, hp, h⟩
      · cases h

theorem freeLoop_inserted {r : Reading} {group : Group} {item i : Item} {orderIndex : Nat}
    {buddy : Option (Nat × Item)} {st' : State}
    (h : freePass r dim pid group mt lvl st item order orderIndex buddy = some (st', .inserted i)) :
    freeLoop r dim pid mt lvl group st item order orderIndex buddy = some (st', i) := by
  cases lvl <;> rw [freeLoop, h]

/-- The list gains the block, at one end or the other. -/
theorem insertFreed_lists {group : Group} {tail : Bool} {st1 st' : State} {v : MergeVars}
    (h : insertFreed .listFirst group mt lvl tail st1 v = some st') (l : ListHead) :
    (st'.lists l).Perm
      (if l = .groupCell group mt v.order then v.item :: st1.lists l else st1.lists l) := by
  rw [insertFreed_listFirst, Option.some.injEq] at h
  subst h
  cases tail
  · simp only [State.countInc_lists, State.modFlags_lists, Bool.false_eq_true, if_false,
      State.pushHead_lists]
    split
    · next e => rw [e]
    · exact List.Perm.refl _
  · simp only [State.countInc_lists, State.modFlags_lists, if_true, State.pushTail_lists]
    split
    · next e => rw [e]; exact List.perm_append_singleton _ _
    · exact List.Perm.refl _

/-- The block as the insertion leaves it. -/
theorem insertFreed_head {group : Group} {tail : Bool} {st1 st' : State} {v : MergeVars}
    (h : insertFreed .listFirst group mt lvl tail st1 v = some st') :
    st'.items v.item =
      { st1.items v.item with
        onList := some (.groupCell group mt v.order)
        flags := setItemSection (setItemOrder (st1.items v.item).flags v.order) lvl } := by
  rw [insertFreed_listFirst, Option.some.injEq] at h
  subst h
  cases tail <;> simp

/-- The insertion writes the block's head only, and not its present flag. -/
theorem insertFreed_items {group : Group} {tail : Bool} {st1 st' : State} {v : MergeVars}
    (h : insertFreed .listFirst group mt lvl tail st1 v = some st') :
    (∀ i, i ≠ v.item → st'.items i = st1.items i) ∧
      field .present (st'.items v.item).flags = field .present (st1.items v.item).flags := by
  refine ⟨fun i hi => ?_, by simp [insertFreed_head h]⟩
  rw [insertFreed_listFirst, Option.some.injEq] at h
  subst h
  cases tail <;> simp [hi]

/-- The insertion leaves the links of the tree alone. -/
theorem insertFreed_prev {group : Group} {tail : Bool} {st1 st' : State} {v : MergeVars}
    (h : insertFreed .listFirst group mt lvl tail st1 v = some st') (j : Item) :
    (st'.items j).prev = (st1.items j).prev := by
  by_cases hj : j = v.item
  · rw [hj, insertFreed_head h]
  · rw [(insertFreed_items h).1 j hj]

/-- The count of the order listed goes up by one. -/
theorem insertFreed_counts {group : Group} {tail : Bool} {st1 st' : State} {v : MergeVars}
    (h : insertFreed .listFirst group mt lvl tail st1 v = some st') (l : ListHead) :
    st'.counts l = st1.counts l + if l = .groupCell group mt v.order then 1 else 0 := by
  rw [insertFreed_listFirst, Option.some.injEq] at h
  have hc : (if tail then st1.pushTail (.groupCell group mt v.order) v.item
      else st1.pushHead (.groupCell group mt v.order) v.item).counts = st1.counts := by
    cases tail <;> rfl
  rw [← h, State.countInc_counts, State.modFlags_counts, hc]
  split
  · next e => rw [e]
  · exact (add_zero _).symm

end Round

/-! ## 6. The insertion as written -/

/-- As written the insertion passes the item where the list belongs, and does not return. -/
theorem insertFreed_written (group : Group) (mt : MigrationType) (lvl : Nat) (tail : Bool)
    (st : State) (v : MergeVars) : insertFreed .written group mt lvl tail st v = none := by
  cases tail <;> rfl

theorem freePass_written {dim pid : Nat} {group : Group} {mt : MigrationType} {lvl : Nat}
    {st : State} {item : Item} {order orderIndex : Nat} {buddy : Option (Nat × Item)}
    {st' : State} {e : PassEnd}
    (h : freePass .written dim pid group mt lvl st item order orderIndex buddy = some (st', e)) :
    ∃ v, e = .promoted v := by
  obtain ⟨_, _, _, _, v, _, -, -, -, -, h⟩ := freePass_cases h
  rcases leavePass_cases h with ⟨tail, hi, -⟩ | ⟨-, -, -, he⟩
  · rw [insertFreed_written] at hi
    cases hi
  · exact ⟨v, he⟩

/-- **As written the function never returns**: every round that does not promote ends in the
    insertion. -/
theorem freeGroupMigration_written (st : State) (item : Item) (group : Group) (lvl order : Nat)
    (mt : MigrationType) : freeGroupMigration .written st item group lvl order mt = none := by
  unfold freeGroupMigration
  generalize (if mt = .sparseMovable then order
    else order + functionItemLvl groupOrderNumShift lvl) = orderIndex
  generalize (none : Option (Nat × Item)) = buddy
  generalize (st.nodeOf group).dim = dim
  generalize getItemNode (st.items item).flags = pid
  induction lvl generalizing group st item order orderIndex buddy with
  | zero =>
      rw [freeLoop]
      split
      · next h => obtain ⟨v, hv⟩ := freePass_written h; cases hv
      · rfl
  | succ lvl ih =>
      rw [freeLoop]
      split
      · next h => obtain ⟨v, hv⟩ := freePass_written h; cases hv
      · exact ih _ _ _ _ _ _
      · rfl

end TensorAlloc
