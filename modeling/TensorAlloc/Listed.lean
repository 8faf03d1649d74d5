/-
  File:      TensorAlloc/Listed.lean
  Subject:   How many base items the lists of a class hold, and how a removal and a free change that.

  * `listedItems` -- a block of order `o` on level `l` is `2 ^ (o + FUNCTION_ITEM_LVL(12, l))` items,
    by the list it is on; a table on a list of a sparse group is none;
  * `TakenOff` -- what a removal leaves: the class holds that much less, and nothing outside the block
    taken is touched;
  * `Absorbed` -- what a merge has done after `n` buddies; it takes exactly those that the state before
    lets it take (`mergeLoop_absorbed`);
  * `BuddiesListed`, `PutBack` -- a free whose buddies are where their order says gives back just what
    the block is.
-/
import Mathlib.Algebra.Order.BigOperators.Group.Finset
import TensorAlloc.FreeExact
import TensorAlloc.FreeTotal
import TensorAlloc.Split

namespace TensorAlloc

/-! ## 1. The items on the lists of a class -/

/-- Level and order of the lists of a class. Irreducible, as `nodeCells` is. -/
@[irreducible] def classCells : Finset (Nat × Nat) :=
  Finset.range groupLvlNum ×ˢ Finset.range (maxItemOrder + 1)

theorem mem_classCells {c : Nat × Nat} :
    c ∈ classCells ↔ c.1 < groupLvlNum ∧ c.2 ≤ maxItemOrder := by
  simp only [classCells, Finset.mem_product, Finset.mem_range]
  omega

/-- Base items of a block of order `order` on level `lvl`. -/
def unitItems (lvl order : Nat) : Nat := 2 ^ (order + functionItemLvl groupOrderNumShift lvl)

theorem unitItems_succ (lvl order : Nat) :
    unitItems lvl (order + 1) = unitItems lvl order + unitItems lvl order := by
  unfold unitItems
  rw [show order + 1 + functionItemLvl groupOrderNumShift lvl =
    order + functionItemLvl groupOrderNumShift lvl + 1 by omega, pow_succ]
  omega

/-- Base items on one list. -/
def cellItems (st : State) (nu : Nat) (mt : MigrationType) (c : Nat × Nat) : Nat :=
  (st.lists (.groupCell (.phy nu c.1) mt c.2)).countP (eligible st mt c.2) * unitItems c.1 c.2

/-- Base items on the lists of a class of the node `nu`. -/
def listedItems (st : State) (nu : Nat) (mt : MigrationType) : Nat :=
  ∑ c ∈ classCells, cellItems st nu mt c

section Cells

variable {st st' : State} {nu lvl k n : Nat} {mt : MigrationType} {c : Nat × Nat}

/-- A list is counted by its items and their parents. -/
theorem cellItems_congr
    (hl : st'.lists (.groupCell (.phy nu c.1) mt c.2) = st.lists (.groupCell (.phy nu c.1) mt c.2))
    (hp : ∀ j ∈ st.lists (.groupCell (.phy nu c.1) mt c.2), (st'.items j).prev = (st.items j).prev) :
    cellItems st' nu mt c = cellItems st nu mt c := by
  unfold cellItems
  rw [hl]
  congr 1
  refine List.countP_congr fun j hj => ?_
  unfold eligible
  rw [hp j hj]

theorem listedItems_congr
    (hl : ∀ c ∈ classCells, st'.lists (.groupCell (.phy nu c.1) mt c.2) =
      st.lists (.groupCell (.phy nu c.1) mt c.2))
    (hp : ∀ c ∈ classCells, ∀ j ∈ st.lists (.groupCell (.phy nu c.1) mt c.2),
      (st'.items j).prev = (st.items j).prev) :
    listedItems st' nu mt = listedItems st nu mt :=
  Finset.sum_congr rfl fun c hc => cellItems_congr (hl c hc) (hp c hc)

/-- **One list makes the difference.** -/
theorem listedItems_change (hc : c ∈ classCells)
    (ho : ∀ c' ∈ classCells, c' ≠ c → cellItems st' nu mt c' = cellItems st nu mt c') :
    listedItems st' nu mt + cellItems st nu mt c = listedItems st nu mt + cellItems st' nu mt c := by
  have hrest : ∑ c' ∈ classCells.erase c, cellItems st' nu mt c' =
      ∑ c' ∈ classCells.erase c, cellItems st nu mt c' :=
    Finset.sum_congr rfl fun c' hc' => ho c' (Finset.mem_of_mem_erase hc') (Finset.ne_of_mem_erase hc')
  unfold listedItems
  rw [← Finset.add_sum_erase _ _ hc, ← Finset.add_sum_erase _ (cellItems st nu mt) hc, hrest]
  omega

/-- Lists that lose items hold no more. -/
theorem listedItems_le (hl : ∀ c ∈ classCells,
      (st'.lists (.groupCell (.phy nu c.1) mt c.2)).Sublist (st.lists (.groupCell (.phy nu c.1) mt c.2)))
    (hp : ∀ c ∈ classCells, ∀ j ∈ st.lists (.groupCell (.phy nu c.1) mt c.2),
      (st'.items j).prev = (st.items j).prev) :
    listedItems st' nu mt ≤ listedItems st nu mt := by
  refine Finset.sum_le_sum fun c hc => Nat.mul_le_mul_right _ ?_
  refine Nat.le_trans (Nat.le_of_eq (List.countP_congr fun j hj => ?_)) ((hl c hc).countP_le)
  unfold eligible
  rw [hp c hc j ((hl c hc).subset hj)]

/-- A list that gains one item gains a block at most. -/
theorem listedItems_push (hlvl : lvl < groupLvlNum) (hk : k ≤ maxItemOrder) {i : Item}
    (hself : (st'.lists (.groupCell (.phy nu lvl) mt k)).Perm
      (i :: st.lists (.groupCell (.phy nu lvl) mt k)))
    (hl : ∀ h, h ≠ .groupCell (.phy nu lvl) mt k → st'.lists h = st.lists h)
    (hp : ∀ j, (st'.items j).prev = (st.items j).prev) :
    listedItems st' nu mt ≤ listedItems st nu mt + unitItems lvl k ∧
      (mt ≠ .sparseMovable → listedItems st' nu mt = listedItems st nu mt + unitItems lvl k) := by
  have hc : (lvl, k) ∈ classCells := mem_classCells.mpr ⟨hlvl, hk⟩
  have hchange := @listedItems_change st st' nu mt (lvl, k) hc
    fun c' _ hne => cellItems_congr (hl _ fun e => hne (by
      simp only [ListHead.groupCell.injEq, Group.phy.injEq, true_and] at e
      exact Prod.ext e.1 e.2)) fun j _ => hp j
  have helig : eligible st' mt k = eligible st mt k := by
    funext j
    unfold eligible
    rw [hp]
  have hcell : cellItems st' nu mt (lvl, k) = cellItems st nu mt (lvl, k) +
      (if eligible st mt k i then 1 else 0) * unitItems lvl k := by
    show (st'.lists (.groupCell (.phy nu lvl) mt k)).countP (eligible st' mt k) * _ = _
    rw [hself.countP_eq, helig, List.countP_cons, Nat.add_mul]
    rfl
  constructor
  · split at hcell <;> omega
  · intro hmt
    have : eligible st mt k i = true := by
      unfold eligible
      rw [decide_eq_true hmt]
      rfl
    rw [this, if_pos rfl] at hcell
    omega

/-- A list that loses a block. -/
theorem listedItems_erase (hlvl : lvl < groupLvlNum) (hk : k ≤ maxItemOrder) {i : Item}
    (hi : i ∈ st.lists (.groupCell (.phy nu lvl) mt k)) (he : eligible st mt k i = true)
    (hl : ∀ h, st'.lists h = if h = .groupCell (.phy nu lvl) mt k then
      (st.lists (.groupCell (.phy nu lvl) mt k)).erase i else st.lists h)
    (hp : ∀ j, (st'.items j).prev = (st.items j).prev) :
    listedItems st' nu mt + unitItems lvl k = listedItems st nu mt := by
  have hc : (lvl, k) ∈ classCells := mem_classCells.mpr ⟨hlvl, hk⟩
  have hchange := @listedItems_change st st' nu mt (lvl, k) hc
    fun c' _ hne => cellItems_congr (by
      rw [hl, if_neg]
      intro e
      simp only [ListHead.groupCell.injEq, Group.phy.injEq, true_and] at e
      exact hne (Prod.ext e.1 e.2)) fun j _ => hp j
  have helig : eligible st' mt k = eligible st mt k := by
    funext j
    unfold eligible
    rw [hp]
  have hcell : cellItems st' nu mt (lvl, k) + unitItems lvl k = cellItems st nu mt (lvl, k) := by
    show (st'.lists (.groupCell (.phy nu lvl) mt k)).countP (eligible st' mt k) * _ + _ =
      (st.lists (.groupCell (.phy nu lvl) mt k)).countP (eligible st mt k) * _
    rw [hl, if_pos rfl, helig, (List.perm_cons_erase hi).countP_eq, List.countP_cons, if_pos he,
      Nat.add_mul, Nat.one_mul]
  omega

end Cells

/-! ## 2. What a removal takes -/

/-- The first eligible item of the least order that has one, which a removal looks at. -/
structure Finds (st : State) (nu lvl order : Nat) (mt : MigrationType) (oi : Nat) (item : Item) :
    Prop where
  ge : order ≤ oi
  found : searchList st (.phy nu lvl) mt false oi = some item
  first : ∀ k, order ≤ k → k < oi → searchList st (.phy nu lvl) mt false k = none

/-- What a removal of a block of order `oi` for a request of order `order` leaves. -/
structure TakenOff (st st' : State) (nu lvl order : Nat) (mt : MigrationType) (oi : Nat)
    (item : Item) : Prop where
  linked : st'.Linked
  nodes : st'.nodes = st.nodes
  tables : st'.tables = st.tables
  lists : ∀ h, (∀ k, h ≠ .groupCell (.phy nu lvl) mt k) → st'.lists h = st.lists h
  prev : ∀ j, (st'.items j).prev = (st.items j).prev
  before : (st.items item).onList = some (.groupCell (.phy nu lvl) mt oi)
  off : (st'.items item).onList = none
  orderSet : getItemOrder (st'.items item).flags = order
  levelSet : getItemSection (st'.items item).flags = lvl
  nodeSet : getItemNode (st'.items item).flags = nu
  others : ∀ j, j ≠ item → (∀ k, order ≤ k → k < oi → j ≠ halfAt mt lvl item k) →
    st'.items j = st.items j
  listed : listedItems st' nu mt + unitItems lvl order ≤ listedItems st nu mt

section Removal

variable {st st' : State} {nu lvl order : Nat} {mt : MigrationType} {item : Item}

theorem split2_prev (st : State) (group : Group) (item : Item) (size : Int) (k : Nat) (mt : MigrationType)
    (lvl : Nat) (j : Item) :
    ((split2GroupMigration st group item size k mt lvl).items j).prev = (st.items j).prev := by
  rw [split2_items]
  split <;> rfl

theorem splitLoop_prev (group : Group) (item : Item) (lvl orderMin : Nat) (mt : MigrationType)
    (n : Nat) (st : State) (j : Item) :
    ((splitLoop group item lvl orderMin mt n st).items j).prev = (st.items j).prev := by
  induction n generalizing st with
  | zero => rfl
  | succ n ih => rw [splitLoop, ih, split2_prev]

/-- **The halves put back are at most the block less the part kept.** -/
theorem splitLoop_listed (mt : MigrationType) (hlvl : lvl < groupLvlNum) {orderMin n : Nat}
    (hn : orderMin + n ≤ maxItemOrder + 1) (item : Item) (st : State) :
    listedItems (splitLoop (.phy nu lvl) item lvl orderMin mt n st) nu mt + unitItems lvl orderMin ≤
      listedItems st nu mt + unitItems lvl (orderMin + n) := by
  induction n generalizing st with
  | zero => exact Nat.le_refl _
  | succ n ih =>
      rw [splitLoop]
      have hloop := ih (by omega) (split2GroupMigration st (.phy nu lvl) item
        (splitSize mt lvl (orderMin + n)) (orderMin + n) mt lvl)
      have hpush : listedItems (split2GroupMigration st (.phy nu lvl) item
          (splitSize mt lvl (orderMin + n)) (orderMin + n) mt lvl) nu mt ≤
            listedItems st nu mt + unitItems lvl (orderMin + n) := by
        refine (listedItems_push hlvl (by omega) (i := halfAt mt lvl item (orderMin + n))
          ?_ (fun h hne => ?_) fun j => split2_prev ..).1
        · rw [split2_lists, if_pos rfl]
          exact List.Perm.refl _
        · rw [split2_lists, if_neg hne]
          rfl
      have := unitItems_succ lvl (orderMin + n)
      rw [← Nat.add_assoc]
      omega

theorem takeOff_items_other (st : State) (h : ListHead) {item j : Item} (hj : j ≠ item) :
    (st.takeOff h item).items j = st.items j := by
  simp only [State.takeOff, State.countDec_items, State.modItem_items, State.setList_items, if_neg hj]

theorem takeOff_prev (st : State) (h : ListHead) (item j : Item) :
    ((st.takeOff h item).items j).prev = (st.items j).prev := by
  by_cases hj : j = item
  · subst hj
    simp [State.takeOff]
  · rw [takeOff_items_other st h hj]

/-- What the block handed out is marked with. -/
theorem splitGroup_marks (st : State) {order : Nat} (hlvl : lvl < groupLvlNum)
    (ho : order ≤ maxItemOrder) (hnode : (st.nodeOf (.phy nu lvl)).nodeId = nu)
    (hnu : nu < 2 ^ ItemField.node.offset) (item : Item) (oi : Nat) :
    ∀ x, x = ((splitGroupMigration st (.phy nu lvl) item lvl order oi mt).items item).flags →
      getItemOrder x = order ∧ getItemSection x = lvl ∧ getItemNode x = nu := by
  intro x hx
  unfold splitGroupMigration at hx
  rw [State.modFlags_items, if_pos rfl, hnode] at hx
  simp only [groupLvlNum_eq] at hlvl
  simp only [maxItemOrder_eq] at ho
  subst hx
  refine ⟨?_, ?_, ?_⟩
  · simp [Nat.mod_eq_of_lt (show order < 2 ^ ItemField.order.offset by
      show order < 16
      omega)]
  · simp [Nat.mod_eq_of_lt (show lvl < 2 ^ ItemField.section_.offset by
      show lvl < 32
      omega)]
  · simp [Nat.mod_eq_of_lt hnu]

theorem splitGroup_prev (st : State) (group : Group) (item : Item) (lvl order oi : Nat)
    (mt : MigrationType) (j : Item) :
    ((splitGroupMigration st group item lvl order oi mt).items j).prev = (st.items j).prev := by
  unfold splitGroupMigration
  rw [modFlags_prev, splitLoop_prev]

/-- The split of a block of order `oi` puts back at most what the request does not keep. -/
theorem splitGroup_listed (nu : Nat) (mt : MigrationType) (hlvl : lvl < groupLvlNum) {order oi : Nat}
    (hge : order ≤ oi) (hoi : oi ≤ maxItemOrder) (item : Item) (st : State) :
    listedItems (splitGroupMigration st (.phy nu lvl) item lvl order oi mt) nu mt +
        unitItems lvl order ≤
      listedItems st nu mt + unitItems lvl oi := by
  obtain ⟨n, rfl⟩ := Nat.exists_eq_add_of_le hge
  have hloop := @splitLoop_listed nu lvl mt hlvl order n (Nat.le_succ_of_le hoi) item st
  -- the marks of the block are all that the lists do not see
  have hsame : listedItems (splitGroupMigration st (.phy nu lvl) item lvl order (order + n) mt) nu mt =
      listedItems (splitLoop (.phy nu lvl) item lvl order mt n st) nu mt := by
    refine listedItems_congr (fun c _ => ?_) fun c _ j _ => ?_
    · unfold splitGroupMigration
      rw [Nat.add_sub_cancel_left]
      rfl
    · rw [splitGroup_prev, splitLoop_prev]
  rwa [hsame]

/-- The links after a split: the halves join their lists, the block's own place is the same. -/
theorem splitGroup_linked (group : Group) {order oi : Nat} (hge : order ≤ oi) (hL : st.Linked)
    (hne : ∀ k, order ≤ k → k < oi → halfAt mt lvl item k ≠ item)
    (hfree : ∀ k, order ≤ k → k < oi → (st.items (halfAt mt lvl item k)).onList = none) :
    (splitGroupMigration st group item lvl order oi mt).Linked ∧
      ((splitGroupMigration st group item lvl order oi mt).items item).onList =
        (st.items item).onList := by
  obtain ⟨n, rfl⟩ := Nat.exists_eq_add_of_le hge
  have hne' : ∀ k < n, halfAt mt lvl item (order + k) ≠ item := fun k hk =>
    hne _ (Nat.le_add_right _ _) (Nat.add_lt_add_left hk _)
  unfold splitGroupMigration
  rw [Nat.add_sub_cancel_left]
  constructor
  · refine (splitLoop_linked _ _ _ _ _ hL hne' fun k hk => ?_).modFlags _ _
    exact hfree _ (Nat.le_add_right _ _) (Nat.add_lt_add_left hk _)
  · rw [State.modFlags_items, if_pos rfl]
    dsimp only
    rw [splitLoop_items_other _ _ _ _ _ fun k hk => Ne.symm (hne' k hk)]

/-- **What a removal takes**, where the halves it puts back are on no list. -/
theorem removeGroupMigration_takes (hL : st.Linked) (hlvl : lvl < groupLvlNum)
    (hnode : (st.nodeOf (.phy nu lvl)).nodeId = nu) (hnu : nu < 2 ^ ItemField.node.offset)
    (hcap : ∀ m, maxOrderOf st (st.nodeOf (.phy nu lvl)).dim lvl mt = some m →
      m ≤ maxItemOrder + 1)
    (h : removeGroupMigration st (.phy nu lvl) lvl order mt false = some (st', some item)) :
    ∃ m oi, maxOrderOf st (st.nodeOf (.phy nu lvl)).dim lvl mt = some m ∧ oi < m ∧
      Finds st nu lvl order mt oi item ∧
      ((∀ k, order ≤ k → k < oi → (st.items (halfAt mt lvl item k)).onList = none) →
        TakenOff st st' nu lvl order mt oi item) := by
  obtain ⟨m, oi, hm, hge, hlt, hs, hfirst, rfl⟩ := removeGroupMigration_some hL h
  have hmem := searchList_mem hs
  have ho := (hL.mem item _).mpr hmem
  have helig : eligible st mt oi item = true := by
    unfold searchList at hs
    split at hs
    · cases hs
    · exact List.find?_some hs
  refine ⟨m, oi, hm, hlt, ⟨hge, hs, hfirst⟩, fun hfree => ?_⟩
  have hoi : oi ≤ maxItemOrder := Nat.le_of_lt_succ (Nat.lt_of_lt_of_le hlt (hcap m hm))
  set off := st.takeOff (.groupCell (.phy nu lvl) mt oi) item with hoff
  -- the halves go back to the lists the block was taken from
  have hlists := fun l => @remove_lists st (.phy nu lvl) item lvl order oi mt l
  rw [← hoff] at hlists
  -- the block is listed, so no half falls on it
  have hne : ∀ k, order ≤ k → k < oi → halfAt mt lvl item k ≠ item := by
    intro k hk hk' e
    have := hfree k hk hk'
    rw [e, ho] at this
    cases this
  obtain ⟨hlinked, hself⟩ := splitGroup_linked (.phy nu lvl) hge
    (show off.Linked from (hL.listDel (listDel_of ho)).countDec _) hne
    fun k hk hk' => by
      rw [hoff, takeOff_items_other _ _ (hne k hk hk')]
      exact hfree k hk hk'
  have htaken : listedItems off nu mt + unitItems lvl oi = listedItems st nu mt := by
    refine listedItems_erase hlvl hoi hmem helig (fun l => ?_) fun j => takeOff_prev ..
    simp only [hoff, State.takeOff, State.countDec_lists, State.modItem_lists, State.setList_lists]
  have hback := splitGroup_listed nu mt hlvl hge hoi item off
  obtain ⟨m1, m2, m3⟩ := @splitGroup_marks nu lvl mt off order hlvl (Nat.le_trans hge hoi) hnode hnu
    item oi _ rfl
  refine ⟨hlinked, ?_, ?_, fun l hl => ?_, fun j => ?_, ho, ?_, m1, m2, m3, fun j hj hhalf => ?_, ?_⟩
  · unfold splitGroupMigration
    rw [State.modFlags_nodes, splitLoop_nodes]
    rfl
  · unfold splitGroupMigration
    rw [State.modFlags_tables, splitLoop_tables]
    rfl
  · rw [hlists, if_neg (hl _)]
    cases l with
    | groupCell g t k =>
        rw [splitPieces, if_neg]
        · rfl
        · intro hc
          obtain ⟨rfl, rfl, -, -⟩ := hc
          exact hl k rfl
    | _ => rfl
  · rw [splitGroup_prev]
    exact takeOff_prev ..
  · rw [hself, hoff]
    simp [State.takeOff]
  · exact remove_items_other hj hhalf
  · omega

end Removal

/-! ## 3. How far a merge gets -/

/-- The index of the region held after `n` merges, for a block at `x` whose buddy is `2 ^ a` away. -/
def mergedIdx (x a : Nat) : Nat → Nat
  | 0 => x
  | n + 1 => nextBuddyIdx (mergedIdx x a n) (a + n) &&& mergedIdx x a n

/-- The index of its buddy then. -/
def mergedBuddy (x a n : Nat) : Nat := nextBuddyIdx (mergedIdx x a n) (a + n)

/-- The merge takes its `n`-th buddy, judged by the state before the free. -/
structure TakesBuddy (st : State) (base x a : Nat) (mt : MigrationType) (maxOrder : Nat) (top : Prop)
    (order n : Nat) : Prop where
  below : order + n ≤ orderSub maxOrder 1
  type : mt ≠ .lrutype
  cap : ¬ (top ∧ order + n = orderSub maxOrder 1)
  whole : partlyFree (st.items (base + mergedIdx x a n)) = false
  buddy : itemIsBuddy (st.items (base + mergedBuddy x a n)) (order + n) = true
  valid : buddyIsValid mt (st.items (base + mergedBuddy x a n)) = true

/-- The merge has taken `n` buddies: it holds the region they make, and has not touched the buddy
    ahead. -/
structure Absorbed (st0 : State) (base : Item) (x a order n : Nat) (st : State) (v : MergeVars) :
    Prop where
  item : v.item = base + mergedIdx x a n
  idx : v.idx = mergedIdx x a n
  ord : v.order = order + n
  orderIndex : v.orderIndex = a + n
  above : ∀ d b, a + n ≤ b → d.testBit b ≠ x.testBit b → st.items (base + d) = st0.items (base + d)
  partly : partlyFree (st.items v.item) = partlyFree (st0.items v.item)

section Region

variable {st0 st st' : State} {base : Item} {x a order n maxOrder : Nat} {group : Group}
  {mt : MigrationType} {top : Bool} {v v' : MergeVars}

/-- The region keeps the bits of the block from its own size on. -/
theorem testBit_mergedIdx {b : Nat} (hb : a + n ≤ b) :
    (mergedIdx x a n).testBit b = x.testBit b := by
  induction n with
  | zero => rfl
  | succ n ih =>
      have hne : a + n ≠ b := by omega
      rw [mergedIdx, nextBuddyIdx, Nat.testBit_and, Nat.testBit_xor, Nat.testBit_two_pow,
        decide_eq_false hne, ih (by omega), Bool.xor_false, Bool.and_self]

/-- The buddy differs in the lowest of them. -/
theorem testBit_mergedBuddy : (mergedBuddy x a n).testBit (a + n) ≠ x.testBit (a + n) := by
  rw [mergedBuddy, nextBuddyIdx, Nat.testBit_xor, Nat.testBit_two_pow,
    testBit_mergedIdx (Nat.le_refl _)]
  simp

theorem testBit_mergedBuddy_above {b : Nat} (hb : a + n < b) :
    (mergedBuddy x a n).testBit b = x.testBit b := by
  rw [mergedBuddy, nextBuddyIdx, Nat.testBit_xor, Nat.testBit_two_pow,
    decide_eq_false (Nat.ne_of_lt hb), Bool.xor_false, testBit_mergedIdx (Nat.le_of_lt hb)]

theorem mergedBuddy_ne : mergedBuddy x a n ≠ mergedIdx x a n := by
  intro e
  refine @testBit_mergedBuddy x a n ?_
  rw [e, testBit_mergedIdx (Nat.le_refl _)]

theorem Absorbed.page (h : Absorbed st0 base x a order n st v) :
    v.item + nextBuddyIdx v.idx v.orderIndex - v.idx = base + mergedBuddy x a n ∧
      st.items (base + mergedBuddy x a n) = st0.items (base + mergedBuddy x a n) ∧
      base + mergedBuddy x a n ≠ v.item := by
  refine ⟨?_, h.above _ _ (Nat.le_refl _) testBit_mergedBuddy, fun e => ?_⟩
  · rw [h.item, h.idx, h.orderIndex]
    exact shift_page _ _ _
  · rw [h.item] at e
    exact mergedBuddy_ne (Nat.add_left_cancel e)

theorem Absorbed.clearPresent (h : Absorbed st0 base x a order n st v) :
    Absorbed st0 base x a order n (st.modFlags v.item clearItemPresent) v := by
  refine { h with above := fun d b hb hd => ?_, partly := ?_ }
  · rw [State.modFlags_items, if_neg, h.above d b hb hd]
    rw [h.item]
    intro e
    refine hd ?_
    rw [Nat.add_left_cancel e, testBit_mergedIdx hb]
  · rw [partlyFree_clearPresent]
    exact h.partly

/-- **One merge.** -/
theorem Absorbed.merge (h : Absorbed st0 base x a order n st v)
    (hwhole : partlyFree (st0.items v.item) = false)
    (hm : mergeBuddy st group mt v (nextBuddyIdx v.idx v.orderIndex)
      (v.item + nextBuddyIdx v.idx v.orderIndex - v.idx) = some (st', v')) :
    Absorbed st0 base x a order (n + 1) st' v' := by
  obtain ⟨hpage, hsame, hne⟩ := h.page
  have hcomb : combinedItem v (nextBuddyIdx v.idx v.orderIndex) = base + mergedIdx x a (n + 1) := by
    unfold combinedItem
    rw [h.item, h.idx, h.orderIndex]
    exact shift_page _ _ _
  have hcases := combinedItem_cases v v.orderIndex
  have hfree := mergeBuddy_freeidx hm (by rw [hpage]; exact hne)
  have hitems := mergeBuddy_others hm
  obtain ⟨-, -, hv, -⟩ := mergeBuddy_eq hm
  have hhead : combinedItem v (nextBuddyIdx v.idx v.orderIndex) = v'.item := by rw [hv]
  refine ⟨hhead ▸ hcomb, ?_, ?_, ?_, fun d b hb hd => ?_, ?_⟩
  · rw [hv]
    show nextBuddyIdx v.idx v.orderIndex &&& v.idx = _
    rw [h.idx, h.orderIndex]
    rfl
  · rw [hv, ← Nat.add_assoc, ← h.ord]
  · rw [hv, ← Nat.add_assoc, ← h.orderIndex]
  · -- what differs in a higher bit is neither half of the pair
    rw [hitems, h.above d b (by omega) hd]
    · rw [hpage]
      intro e
      refine hd ?_
      rw [Nat.add_left_cancel e, testBit_mergedBuddy_above (by omega)]
    · rw [h.item]
      intro e
      refine hd ?_
      rw [Nat.add_left_cancel e, testBit_mergedIdx (by omega)]
  · rw [hhead] at hfree hcases
    rcases hcases with e | e
    · -- the head stays: it was whole, and its freeidx is cleared
      have hz := hfree.2 e
      rw [e] at hz ⊢
      rw [hwhole]
      unfold partlyFree getItemFreeidx
      rw [hz]
      rfl
    · have hf := hfree.1 e
      rw [e] at hf ⊢
      rw [partlyFree_congr hf, hpage, hsame]

/-- Step: a round takes the buddy, or leaves where it may not. -/
theorem Absorbed.step (h : Absorbed st0 base x a order n st v) {e : Option MergeExit}
    (hs : mergeStep group mt maxOrder top st v = some (st', v', e)) :
    (∃ exit, e = some exit ∧ Absorbed st0 base x a order n st' v' ∧
      ¬ TakesBuddy st0 base x a mt maxOrder (top = true) order n) ∨
    (e = none ∧ Absorbed st0 base x a order (n + 1) st' v' ∧
      TakesBuddy st0 base x a mt maxOrder (top = true) order n) := by
  have hord := h.ord
  have hc := h.clearPresent
  obtain ⟨hpage, hsame, -⟩ := hc.page
  rcases mergeStep_cases hs with ⟨hlt, rfl, rfl, rfl⟩ | ⟨hle, rfl, rfl, rfl, hd⟩ |
    ⟨-, -, rfl, rfl, rfl, hb⟩ | ⟨hle, htype, hcap, rfl, hwhole, hbuddy, hvalid, hm⟩
  · refine .inl ⟨_, rfl, h, fun ht => ?_⟩
    have := ht.below
    omega
  · refine .inl ⟨_, rfl, hc, fun ht => ?_⟩
    rcases hd with hd | hd | hd
    · exact ht.type hd
    · exact ht.cap ⟨hd.1, by rw [← hord]; exact hd.2⟩
    · rw [hc.partly, hc.item, ht.whole] at hd
      cases hd
  · refine .inl ⟨_, rfl, { hc with }, fun ht => hb ?_⟩
    rw [hpage, hsame, hord]
    exact ⟨ht.buddy, ht.valid⟩
  · rw [hc.partly] at hwhole
    rw [hpage, hsame, hord] at hbuddy
    rw [hpage, hsame] at hvalid
    exact .inr ⟨rfl, hc.merge hwhole hm, by omega, htype, by rw [← hord]; exact hcap,
      by rw [← hc.item]; exact hwhole, hbuddy, hvalid⟩

/-- **The merge takes exactly the buddies that the state before it lets it take.** -/
theorem mergeLoop_absorbed {k : Nat} {exit : MergeExit} {buddy : Option (Nat × Item)} {item : Item}
    (hitem : base + x = item)
    (hs : mergeLoop group mt maxOrder top k st ⟨item, x, order, a, buddy⟩ = some (st', v', exit)) :
    ∃ n, Absorbed st base x a order n st' v' ∧
      (∀ m < n, TakesBuddy st base x a mt maxOrder (top = true) order m) ∧
      ¬ TakesBuddy st base x a mt maxOrder (top = true) order n := by
  have hstart : Absorbed st base x a order 0 st ⟨item, x, order, a, buddy⟩ :=
    ⟨hitem.symm, rfl, rfl, rfl, fun _ _ _ _ => rfl, rfl⟩
  refine mergeLoop_rule
    (fun s w => ∃ n, Absorbed st base x a order n s w ∧
      ∀ m < n, TakesBuddy st base x a mt maxOrder (top = true) order m)
    (fun s w _ => ∃ n, Absorbed st base x a order n s w ∧
      (∀ m < n, TakesBuddy st base x a mt maxOrder (top = true) order m) ∧
      ¬ TakesBuddy st base x a mt maxOrder (top = true) order n)
    (fun ⟨n, h, hall⟩ hstep => ?_) (fun ⟨n, h, hall⟩ hstep => ?_) hs
    ⟨0, hstart, fun m hm => absurd hm (Nat.not_lt_zero m)⟩
  · obtain ⟨_, he, -⟩ | ⟨-, hA, htakes⟩ := h.step hstep
    · cases he
    · refine ⟨n + 1, hA, fun m hm => ?_⟩
      rcases Nat.eq_or_lt_of_le (Nat.le_of_lt_succ hm) with rfl | hlt
      · exact htakes
      · exact hall m hlt
  · obtain ⟨_, -, hA, hnot⟩ | ⟨he, -⟩ := h.step hstep
    · exact ⟨n, hA, hall, hnot⟩
    · cases he

end Region

/-! ## 4. What a free gives back -/

/-- Every buddy the merge takes is on the list of its order, of this level and class, and below
    order 8 unless on the top level. -/
def BuddiesListed (st : State) (nu lvl order : Nat) (mt : MigrationType) (maxOrder : Nat) (top : Prop)
    (item : Item) : Prop :=
  let base := st.tables.phyItemStruct nu
  let a := order + functionItemLvl groupOrderNumShift lvl
  ∀ n, (∀ m ≤ n, TakesBuddy st base (item - base) a mt maxOrder top order m) →
    (st.items (base + mergedBuddy (item - base) a n)).onList =
        some (.groupCell (.phy nu lvl) mt (order + n)) ∧
      (order + n + 1 < maxItemOrder ∨ top)

/-- What the merge has done after `n` buddies: the lists of the class hold that much less, and only
    descriptors of the region were written. -/
structure Merging (st0 : State) (nu lvl order : Nat) (mt : MigrationType) (x a n : Nat) (st : State)
    (v : MergeVars) : Prop where
  item : v.item = st0.tables.phyItemStruct nu + mergedIdx x a n
  idx : v.idx = mergedIdx x a n
  ord : v.order = order + n
  orderIndex : v.orderIndex = a + n
  linked : st.Linked
  nodes : st.nodes = st0.nodes
  tables : st.tables = st0.tables
  off : (st.items v.item).onList = none
  lists : ∀ h, (∀ k, h ≠ .groupCell (.phy nu lvl) mt k) → st.lists h = st0.lists h
  prev : ∀ j, (st.items j).prev = (st0.items j).prev
  above : ∀ d b, a + n ≤ b → d.testBit b ≠ x.testBit b →
    st.items (st0.tables.phyItemStruct nu + d) = st0.items (st0.tables.phyItemStruct nu + d)
  partly : partlyFree (st.items v.item) = partlyFree (st0.items v.item)
  kept : ∀ j, j ≠ st0.tables.phyItemStruct nu + x →
    (∀ k, (st0.items j).onList ≠ some (.groupCell (.phy nu lvl) mt k)) → st.items j = st0.items j
  head : v.item = st0.tables.phyItemStruct nu + x ∨
    ∃ k, (st0.items v.item).onList = some (.groupCell (.phy nu lvl) mt k)
  listed : listedItems st nu mt + unitItems lvl (order + n) =
    listedItems st0 nu mt + unitItems lvl order

section Giving

variable {st0 st st' : State} {nu lvl order x a n maxOrder : Nat} {mt : MigrationType}
  {v v' : MergeVars} {top : Bool}

/-- What does not depend on the lists. -/
theorem Merging.absorbed (h : Merging st0 nu lvl order mt x a n st v) :
    Absorbed st0 (st0.tables.phyItemStruct nu) x a order n st v :=
  ⟨h.item, h.idx, h.ord, h.orderIndex, h.above, h.partly⟩

/-- The head is the block itself, or was on a list of the class. -/
theorem Merging.ne_head (h : Merging st0 nu lvl order mt x a n st v) {j : Item}
    (hj : j ≠ st0.tables.phyItemStruct nu + x)
    (hk : ∀ k, (st0.items j).onList ≠ some (.groupCell (.phy nu lvl) mt k)) : j ≠ v.item := by
  intro e
  subst e
  rcases h.head with e | ⟨k, e⟩
  · exact hj e
  · exact hk k e

/-- Clearing the present flag of the head. -/
theorem Merging.clearPresent (h : Merging st0 nu lvl order mt x a n st v) :
    Merging st0 nu lvl order mt x a n (st.modFlags v.item clearItemPresent) v := by
  refine { h.absorbed.clearPresent, h with
    linked := h.linked.modFlags _ _
    off := ?_, prev := fun j => ?_, kept := fun j hj hk => ?_, listed := ?_ }
  · rw [modFlags_onList]
    exact h.off
  · rw [modFlags_prev]
    exact h.prev j
  · rw [State.modFlags_items, if_neg (h.ne_head hj hk)]
    exact h.kept j hj hk
  · rw [← h.listed]
    congr 1
    exact listedItems_congr (fun _ _ => rfl) fun _ _ j _ => modFlags_prev ..

/-- **One merge**: the buddy leaves the list of its order, and the region is the pair. -/
theorem Merging.merge (h : Merging st0 nu lvl order mt x a n st v) (hmt : mt ≠ .sparseMovable)
    (hlvl : lvl < groupLvlNum) (hn : order + n ≤ maxItemOrder)
    (hon : (st0.items (st0.tables.phyItemStruct nu + mergedBuddy x a n)).onList =
      some (.groupCell (.phy nu lvl) mt (order + n)))
    (hwhole : partlyFree (st0.items v.item) = false)
    (hm : mergeBuddy st (.phy nu lvl) mt v (nextBuddyIdx v.idx v.orderIndex)
      (v.item + nextBuddyIdx v.idx v.orderIndex - v.idx) = some (st', v')) :
    Merging st0 nu lvl order mt x a (n + 1) st' v' := by
  obtain ⟨hpage, hsame, hne⟩ := h.absorbed.page
  have hA := h.absorbed.merge hwhole hm
  have hcases := combinedItem_cases v v.orderIndex
  have hitems := mergeBuddy_others hm
  rw [hpage] at hm hcases hitems
  set page := st0.tables.phyItemStruct nu + mergedBuddy x a n with hpg
  have hpon : (st.items page).onList = some (.groupCell (.phy nu lvl) mt (order + n)) := by
    rw [hsame]
    exact hon
  have hB := mergeBuddy_off h.linked hpon hne hm
  have hhead : v'.item = v.item ∨ v'.item = page := by
    obtain ⟨-, -, hv, -⟩ := mergeBuddy_eq hm
    rw [hv]
    exact hcases
  have helig : eligible st mt (order + n) page = true := by
    unfold eligible
    rw [decide_eq_true hmt]
    rfl
  have hlisted := listedItems_erase hlvl hn ((h.linked.mem _ _).mp hpon) helig hB.lists hB.prev
  refine { hA with
    linked := hB.linked
    nodes := hB.nodes.trans h.nodes
    tables := hB.tables.trans h.tables
    off := ?_, lists := fun l hl => ?_
    prev := fun j => (hB.prev j).trans (h.prev j)
    kept := fun j hj hk => ?_, head := ?_, listed := ?_ }
  · rcases hhead with e | e <;> rw [e]
    · exact hB.head.trans h.off
    · exact hB.page
  · rw [hB.lists, if_neg (hl _)]
    exact h.lists l hl
  · rw [hitems j (fun e => hk _ (e ▸ hon)) (h.ne_head hj hk)]
    exact h.kept j hj hk
  · rcases hhead with e | e
    · rw [e]
      exact h.head
    · rw [e]
      exact .inr ⟨_, hon⟩
  · have := unitItems_succ lvl (order + n)
    have := h.listed
    rw [← Nat.add_assoc]
    omega

/-- Where no promotion is in sight. -/
def StaysLow (maxOrder : Nat) (top : Prop) (order : Nat) : Prop :=
  order < maxItemOrder ∨ (order = maxItemOrder ∧ top ∧ maxOrder = maxItemOrder + 1)

theorem StaysLow.le (h : StaysLow maxOrder (top = true) n) : n ≤ maxItemOrder := by
  rcases h with h | h
  · exact Nat.le_of_lt h
  · exact Nat.le_of_eq h.1

/-- Step: a round takes a buddy from the list of its order, or leaves where nothing is promoted. -/
theorem Merging.step (hmt : mt ≠ .sparseMovable) (hlvl : lvl < groupLvlNum) {item : Item}
    (hpos : 1 ≤ maxOrder) (hmax : maxOrder ≤ maxItemOrder + 1)
    (hx : x = item - st0.tables.phyItemStruct nu)
    (ha : a = order + functionItemLvl groupOrderNumShift lvl)
    (hB : BuddiesListed st0 nu lvl order mt maxOrder (top = true) item)
    (h : Merging st0 nu lvl order mt x a n st v) (hlow : StaysLow maxOrder (top = true) (order + n))
    (hbefore : ∀ m < n, TakesBuddy st0 (st0.tables.phyItemStruct nu) x a mt maxOrder (top = true) order m)
    {e : Option MergeExit} (hs : mergeStep (.phy nu lvl) mt maxOrder top st v = some (st', v', e)) :
    (∃ exit, e = some exit ∧ Merging st0 nu lvl order mt x a n st' v' ∧
      (exit = .done → v'.order < maxItemOrder)) ∨
    (e = none ∧ Merging st0 nu lvl order mt x a (n + 1) st' v' ∧
      StaysLow maxOrder (top = true) (order + (n + 1)) ∧
      ∀ m < n + 1, TakesBuddy st0 (st0.tables.phyItemStruct nu) x a mt maxOrder (top = true) order m) := by
  have hsub : orderSub maxOrder 1 = maxOrder - 1 :=
    orderSub_eq hpos (by simp only [maxItemOrder_eq] at hmax; omega)
  have hord := h.ord
  have hc := h.clearPresent
  rcases mergeStep_cases hs with ⟨hlt, rfl, rfl, rfl⟩ | ⟨hle, rfl, rfl, rfl, -⟩ |
    ⟨hle, hcapped, rfl, rfl, rfl, -⟩ | ⟨hle, htype, htop, rfl, hwhole, hbuddy, hvalid, hm⟩
  · refine .inl ⟨_, rfl, h, fun _ => ?_⟩
    rcases hlow with hl | ⟨h8, -, hm⟩ <;> omega
  · exact .inl ⟨_, rfl, hc, fun hd => by cases hd⟩
  · refine .inl ⟨_, rfl, { hc with }, fun _ => ?_⟩
    show v.order < maxItemOrder
    rcases hlow with hl | ⟨h8, ht, hm⟩
    · omega
    · exact absurd ⟨ht, by omega⟩ hcapped
  · have htakes : TakesBuddy st0 (st0.tables.phyItemStruct nu) x a mt maxOrder (top = true) order n := by
      rcases h.absorbed.step hs with ⟨_, he, -⟩ | ⟨-, -, ht⟩
      · cases he
      · exact ht
    have hall : ∀ m < n + 1, TakesBuddy st0 (st0.tables.phyItemStruct nu) x a mt maxOrder (top = true)
        order m := by
      intro m hm
      rcases Nat.eq_or_lt_of_le (Nat.le_of_lt_succ hm) with rfl | hlt
      · exact htakes
      · exact hbefore m hlt
    subst hx ha
    obtain ⟨hon, hnext⟩ := hB n fun m hm => hall m (Nat.lt_succ_of_le hm)
    refine .inr ⟨rfl, hc.merge hmt hlvl hlow.le hon ?_ hm, ?_, hall⟩
    · rw [← hc.partly]
      exact hwhole
    · rcases hnext with hl | ht
      · exact .inl (by omega)
      · have hcap : order + n ≠ maxOrder - 1 := fun e => htop ⟨ht, by omega⟩
        rcases Nat.lt_or_ge (order + (n + 1)) maxItemOrder with hl | hg
        · exact .inl hl
        · exact .inr ⟨by omega, ht, by omega⟩

/-- Run: the inner loop leaves where nothing is promoted. -/
theorem Merging.run (hmt : mt ≠ .sparseMovable) (hlvl : lvl < groupLvlNum) {item : Item}
    (hpos : 1 ≤ maxOrder) (hmax : maxOrder ≤ maxItemOrder + 1)
    (hx : x = item - st0.tables.phyItemStruct nu)
    (ha : a = order + functionItemLvl groupOrderNumShift lvl)
    (hB : BuddiesListed st0 nu lvl order mt maxOrder (top = true) item) {k : Nat}
    (h : Merging st0 nu lvl order mt x a n st v) (hlow : StaysLow maxOrder (top = true) (order + n))
    (hbefore : ∀ m < n, TakesBuddy st0 (st0.tables.phyItemStruct nu) x a mt maxOrder (top = true) order m)
    {exit : MergeExit}
    (hs : mergeLoop (.phy nu lvl) mt maxOrder top k st v = some (st', v', exit)) :
    ∃ n', Merging st0 nu lvl order mt x a n' st' v' ∧ order + n' ≤ maxItemOrder ∧
      (exit = .done → v'.order < maxItemOrder) := by
  refine mergeLoop_rule
    (fun s w => ∃ n, Merging st0 nu lvl order mt x a n s w ∧ StaysLow maxOrder (top = true) (order + n) ∧
      ∀ m < n, TakesBuddy st0 (st0.tables.phyItemStruct nu) x a mt maxOrder (top = true) order m)
    (fun s w exit => ∃ n', Merging st0 nu lvl order mt x a n' s w ∧ order + n' ≤ maxItemOrder ∧
      (exit = .done → w.order < maxItemOrder))
    (fun ⟨n, h, hlow, hbefore⟩ hstep => ?_) (fun ⟨n, h, hlow, hbefore⟩ hstep => ?_) hs
    ⟨n, h, hlow, hbefore⟩
  · obtain ⟨exit, he, -⟩ | ⟨-, hM, hlow', hall⟩ :=
      h.step hmt hlvl hpos hmax hx ha hB hlow hbefore hstep
    · cases he
    · exact ⟨n + 1, hM, hlow', hall⟩
  · obtain ⟨exit, he, hM, hdone⟩ | ⟨he, -⟩ :=
      h.step hmt hlvl hpos hmax hx ha hB hlow hbefore hstep
    · cases he
      exact ⟨n, hM, hlow.le, hdone⟩
    · cases he

/-- What a free of the unlinked block `item` leaves. -/
structure PutBack (st st' : State) (nu lvl order : Nat) (mt : MigrationType) (item : Item) : Prop where
  linked : st'.Linked
  nodes : st'.nodes = st.nodes
  tables : st'.tables = st.tables
  lists : ∀ h, (∀ k, h ≠ .groupCell (.phy nu lvl) mt k) → st'.lists h = st.lists h
  kept : ∀ j, j ≠ item → (∀ k, (st.items j).onList ≠ some (.groupCell (.phy nu lvl) mt k)) →
    st'.items j = st.items j
  listed : listedItems st' nu mt = listedItems st nu mt + unitItems lvl order

/-- The insertion. -/
theorem Merging.insert (hmt : mt ≠ .sparseMovable) (hlvl : lvl < groupLvlNum) {item : Item}
    (hitem : st0.tables.phyItemStruct nu + x = item)
    (h : Merging st0 nu lvl order mt x a n st v) (hn : order + n ≤ maxItemOrder) {tail : Bool}
    (hs : insertFreed .listFirst (.phy nu lvl) mt lvl tail st v = some st') :
    PutBack st0 st' nu lvl order mt item := by
  have hlists := insertFreed_lists hs
  have hitems := (insertFreed_items hs).1
  have haside := aside_insertFreed hs
  have hprev := insertFreed_prev hs
  have hord := h.ord
  rw [insertFreed_listFirst, Option.some.injEq] at hs
  refine ⟨?_, haside.nodes.trans h.nodes, haside.tables.trans h.tables, fun l hl => ?_,
    fun j hj hk => ?_, ?_⟩
  · rw [← hs]
    cases tail
    · exact ((h.linked.pushHead h.off _).modFlags _ _).countInc _
    · exact ((h.linked.pushTail h.off _).modFlags _ _).countInc _
  · have hne : l ≠ .groupCell (.phy nu lvl) mt v.order := hl _
    rw [← h.lists l hl, ← hs]
    cases tail <;> simp [hne]
  · have hj' : j ≠ st0.tables.phyItemStruct nu + x := by
      rw [hitem]
      exact hj
    rw [hitems j (h.ne_head hj' hk)]
    exact h.kept j hj' hk
  · have hpush := (@listedItems_push st st' nu lvl v.order mt hlvl
      (show v.order ≤ maxItemOrder by omega) v.item
      ((hlists _).trans (by rw [if_pos rfl])) (fun l hl => ?_) hprev).2 hmt
    · have := h.listed
      rw [hord] at hpush
      omega
    · rw [← hs]
      cases tail <;> simp [hl]

/-- **What a free gives back**: where every buddy is where its order says, the block, on the lists of
    its class. -/
theorem freeGroupMigration_putsBack (hL : st.Linked) (hmt : mt ≠ .sparseMovable)
    (hlvl : lvl < groupLvlNum)
    (hcur : getCurrentNodeNum (st.nodeOf (.phy nu lvl)).dim = some nu)
    (hpgo : 1 ≤ st.tables.phyGroupOrder nu ∧ st.tables.phyGroupOrder nu ≤ maxItemOrder + 1)
    {item i : Item} (hnode : getItemNode (st.items item).flags = nu)
    (hoff : (st.items item).onList = none)
    (hlow : StaysLow (levelMaxOrder st nu lvl) ((lvl : Int) = st.tables.phyGroupLvl nu) order)
    (hB : BuddiesListed st nu lvl order mt (levelMaxOrder st nu lvl)
      ((lvl : Int) = st.tables.phyGroupLvl nu) item)
    (h : freeGroupMigration .listFirst st item (.phy nu lvl) lvl order mt = some (st', i)) :
    PutBack st st' nu lvl order mt item := by
  have htopiff : ((lvl : Int) = st.tables.phyGroupLvl nu) ↔
      decide ((lvl : Int) = st.tables.phyGroupLvl nu) = true := decide_eq_true_iff.symm
  rw [propext htopiff] at hlow hB
  have hround : ∀ st1 e, freePass .listFirst (st.nodeOf (.phy nu lvl)).dim nu (.phy nu lvl) mt lvl st item
      order (order + functionItemLvl groupOrderNumShift lvl) none = some (st1, e) →
        ∃ j, e = .inserted j ∧ PutBack st st1 nu lvl order mt item := by
    intro st1 e hp
    obtain ⟨idx, maxOrder, topLvl, st2, v, exit, hidx, hm, ht, hloop, hleave⟩ := freePass_cases hp
    have hmax := orderCap_of hmt hcur hpgo hm ht
    simp only [maxOrderOf, if_neg hmt, hcur, Option.map_some, Option.some.injEq] at hm
    simp only [topLvlOf, if_neg hmt, hcur, Option.map_some, Option.some.injEq] at ht
    have hmax' : maxOrder = levelMaxOrder st nu lvl := hm.symm
    subst hmax' ht
    unfold itemToRelIdx at hidx
    split at hidx
    · next hle =>
        have hx := (Option.some.inj hidx).symm
        have hitem : st.tables.phyItemStruct nu + (item - st.tables.phyItemStruct nu) = item :=
          Nat.add_sub_cancel' hle
        have hstart : Merging st nu lvl order mt (item - st.tables.phyItemStruct nu)
            (order + functionItemLvl groupOrderNumShift lvl) 0 st
            ⟨item, idx, order, order + functionItemLvl groupOrderNumShift lvl, none⟩ :=
          ⟨hitem.symm, hx, rfl, rfl, hL, rfl, rfl, hoff, fun _ _ => rfl, fun _ => rfl,
            fun _ _ _ _ => rfl, rfl, fun _ _ _ => rfl, .inl hitem.symm, rfl⟩
        obtain ⟨n, hM, hn, hdone⟩ := hstart.run hmt hlvl hmax.1
          (by rcases hmax.2 with hc | ⟨hc, -⟩ <;> omega) rfl rfl hB hlow
          (fun m hm => absurd hm (Nat.not_lt_zero m)) hloop
        rcases leavePass_cases hleave with ⟨tail, hi, he⟩ | ⟨hex, hge, -, -⟩
        · exact ⟨_, he, hM.insert hmt hlvl hitem hn hi⟩
        · exact absurd (hdone hex) (Nat.not_lt.mpr hge)
    · cases hidx
  unfold freeGroupMigration at h
  rw [hnode, if_neg hmt] at h
  rcases freeLoop_cases h with hp | ⟨st1, v1, lvl', -, hp, -⟩
  · obtain ⟨_, -, hback⟩ := hround _ _ hp
    exact hback
  · obtain ⟨_, he, -⟩ := hround _ _ hp
    cases he

end Giving

end TensorAlloc
