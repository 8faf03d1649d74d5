/-
  File:      TensorAlloc/Counter.lean
  Subject:   `nr_freeitems` over runs of single-block allocations and frees.

  * `counterRun` -- allocations by `dispatch_group` and frees by `find_group_reversed`;
  * `StepKeeps` -- what a step must not run into, judged by the state before it. The main one: an
    UNMOVABLE request served from its own lists is debited, though what is parked there was never
    credited;
  * `alloc_keeps` -- an allocation, by the three ways a request is served;
  * `counter_balanced` -- in a run of such steps the counter neither drifts nor wraps.
-/
import TensorAlloc.Books
import TensorAlloc.Dispatch
import TensorAlloc.SparseSearch

namespace TensorAlloc

/-! ## 1. Runs -/

/-- A request, or a free, of a single block. -/
inductive CounterOp where
  | alloc (lvl : Nat) (mt : MigrationType) (order : Nat) (isCombined : Bool)
  | free (mt : MigrationType) (item : Item)
  deriving DecidableEq, Repr

/-- The searches with the code's own one of the MOVABLE lists. -/
def Searches.withSparse (s : Searches) (env : StreamEnv) (fuel : Nat) : Searches :=
  { s with sparse := forwardRemoveGroupSparse env fuel }

section Runs

variable (r : Reading) (s : Searches) (depth fuel nu : Nat)

/-- One step, with the blocks handed out; `none` where the request is refused, the block is not one of
    them, or the call does not return. -/
def counterStep (x : State × List Item) : CounterOp → Option (State × List Item)
  | .alloc lvl mt order isCombined =>
      match dispatchGroup s depth x.1 (.phy nu) lvl mt order (nestedPara isCombined) with
      | some (st, .noError, some item) => some (st, item :: x.2)
      | _ => none
  | .free mt item =>
      if item ∈ x.2 then
        (findGroupReversed r fuel x.1 mt item false).map fun q => (q.1, x.2.erase item)
      else none

def counterRun : State × List Item → List CounterOp → Option (State × List Item)
  | x, [] => some x
  | x, op :: ops => (counterStep r s depth fuel nu x op).bind fun x => counterRun x ops

end Runs

/-! ## 2. What a step must not run into -/

section Conditions

variable (itemarrayPrev : ItemarrayPrev) (st : State) (nu : Nat) (held : List Item) (lvl order : Nat)
  (mt : MigrationType)

/-- The block a search of the class takes: the first eligible one of the least order, below
    `max_order`. -/
def Takes (oi : Nat) (item : Item) : Prop :=
  (∃ m, maxOrderOf st (st.nodes (.phy nu)).dim lvl mt = some m ∧ oi < m) ∧
    Finds st nu lvl order mt oi item

/-- Its halves go to descriptors that are on no list and not in use. -/
def HalvesClear (oi : Nat) (item : Item) : Prop :=
  ∀ k, order ≤ k → k < oi →
    (st.items (halfAt mt lvl item k)).onList = none ∧ halfAt mt lvl item k ∉ held

/-- A MOVABLE list of the node. -/
def OnMovable (l : ListHead) : Prop := ∃ lvl k, l = .groupCell (.phy nu lvl) .movable k

/-- The tables above the block taken are, where listed, on MOVABLE lists of the node. They start with
    the word read at the block's rounded address, once it is off its list. -/
def TablesMovable (item : Item) : Prop :=
  ∀ st1 prev, removeGroupMigration st (.phy nu lvl) lvl order .movable false = some (st1, some item) →
    itemarrayPrev st1 item = some prev →
      ∀ t, IsAbove st prev t → ∀ l, (st.items t).onList = some l → OnMovable nu l

/-- The physical lists of its own class serve the request: they are searched, and the block looked at
    is a multiple of the level's unit. -/
def OwnServes : Prop :=
  mt ≠ .movable ∧ st.tables.phyGroupLvl nu ≤ lvl ∧
    groupBudget st (.phy nu lvl) lvl mt order maxItemOrder ≠ 0 ∧
    ∃ oi item, Takes st nu lvl order mt oi item ∧
      itemToIdx st item % 2 ^ functionItemLvl groupOrderNumShift lvl = 0

/-- The MOVABLE lists of the level serve it. -/
def MovableServes : Prop :=
  ∃ oi item, Takes st nu lvl order .movable oi item ∧
    HalvesClear st held lvl order .movable oi item ∧ TablesMovable itemarrayPrev st nu lvl order item

/-- An allocation off the cache, from the lists of its class if that is not UNMOVABLE, or from the
    MOVABLE lists in the search mode of a migration. -/
structure AllocKeeps : Prop where
  level : lvl < groupLvlNum
  own : cachedHead st (.phy nu) mt = none → OwnServes st nu lvl order mt →
    mt ≠ .unmovable ∧ ∀ oi item, Takes st nu lvl order mt oi item →
      HalvesClear st held lvl order mt oi item
  migrated : cachedHead st (.phy nu) mt = none → ¬ OwnServes st nu lvl order mt →
    mt ≠ .reclaimable →
      MovableServes itemarrayPrev (migrateStart st (.phy nu) mt) nu held lvl order

end Conditions

/-- What a step must meet. -/
def StepKeeps (itemarrayPrev : ItemarrayPrev) (nu : Nat) (x : State × List Item) : CounterOp → Prop
  | .alloc lvl mt order _ => AllocKeeps itemarrayPrev x.1 nu x.2 lvl order mt
  | .free mt item => MergesOwn x.1 nu mt item

/-- Every step of the run meets it. -/
def RunKeeps (itemarrayPrev : ItemarrayPrev) (r : Reading) (s : Searches) (depth fuel nu : Nat) :
    State × List Item → List CounterOp → Prop
  | _, [] => True
  | x, op :: ops => StepKeeps itemarrayPrev nu x op ∧
      ∀ x', counterStep r s depth fuel nu x op = some x' →
        RunKeeps itemarrayPrev r s depth fuel nu x' ops

/-! ## 3. Allocations -/

/-- What a search leaves that took the block `i` for a request of level `lvl` and order `order`. -/
structure Taken (st st' : State) (nu : Nat) (held : List Item) (lvl order : Nat) (i : Item) : Prop where
  linked : st'.Linked
  nodes : st'.nodes = st.nodes
  tables : st'.tables = st.tables
  cache : st'.lists (cacheCell nu) = st.lists (cacheCell nu)
  before : ∃ l k mt, (st.items i).onList = some (.groupCell (.phy nu l) mt k)
  off : ∀ j, j = i ∨ j ∈ held → (st'.items j).onList = none
  own : OwnBlock st' nu i
  size : blockSize st' i = unitItems lvl order
  kept : ∀ j, j ∈ held ∨ j ∈ st.lists (cacheCell nu) → marks (st'.items j) = marks (st.items j)
  parked : listedItems st' nu .unmovable = listedItems st nu .unmovable
  free : freeItems st' nu + unitItems lvl order ≤ freeItems st nu

section Allocations

variable {itemarrayPrev : ItemarrayPrev} {st st' : State} {nu total lvl order oi : Nat}
  {held : List Item} {mt : MigrationType} {item : Item}

/-- The lists of the other classes are left alone. -/
theorem TakenOff.other (h : TakenOff st st' nu lvl order mt oi item) {mt' : MigrationType}
    (hne : mt' ≠ mt) : listedItems st' nu mt' = listedItems st nu mt' := by
  refine listedItems_congr (fun c _ => h.lists _ fun k e => ?_) fun _ _ j _ => h.prev j
  simp only [ListHead.groupCell.injEq] at e
  exact hne e.2.1

/-- A block marked with level and order is of that size. -/
theorem TakenOff.marked (h : TakenOff st st' nu lvl order mt oi item) (hlvl : lvl < groupLvlNum) :
    blockLvl st' item = lvl ∧ blockOrder st' item = order := by
  refine ⟨?_, h.orderSet⟩
  unfold blockLvl
  dsimp only
  rw [h.levelSet, if_neg (by simp only [groupLvlNum_eq, maxGroupLvls_eq] at hlvl ⊢; omega)]

/-- The block handed out is of an order below the top of its level. -/
theorem TakenOff.own (h : TakenOff st st' nu lvl order mt oi item) (hlvl : lvl < groupLvlNum)
    (hlow : StaysLow (levelMaxOrder st nu lvl) ((lvl : Int) = st.tables.phyGroupLvl nu) order) :
    OwnBlock st' nu item := by
  obtain ⟨hl, ho⟩ := h.marked hlvl
  refine ⟨h.nodeSet, ?_⟩
  unfold levelMaxOrder
  rw [hl, ho, h.tables]
  exact hlow

/-- Blocks in use and cached ones are not written. -/
theorem TakenOff.aside (h : TakenOff st st' nu lvl order mt oi item) (hS : Sound st nu held total)
    (hH : HalvesClear st held lvl order mt oi item) {j : Item}
    (hj : j ∈ held ∨ j ∈ st.lists (cacheCell nu)) : st'.items j = st.items j := by
  have hbefore := h.before
  rcases hj with hj | hj
  · refine h.others j (fun e => ?_) fun k h1 h2 e => (hH k h1 h2).2 (e ▸ hj)
    rw [← e, hS.off j hj] at hbefore
    cases hbefore
  · have ho := (hS.linked.mem j _).mpr hj
    refine h.others j (fun e => ?_) fun k h1 h2 e => ?_
    · rw [← e, ho] at hbefore
      cases hbefore
    · rw [e, (hH k h1 h2).1] at ho
      cases ho

/-- A block off the physical lists of a class that is not parked. -/
theorem TakenOff.taken (h : TakenOff st st' nu lvl order mt oi item) (hS : Sound st nu held total)
    (hlvl : lvl < groupLvlNum)
    (hlow : StaysLow (levelMaxOrder st nu lvl) ((lvl : Int) = st.tables.phyGroupLvl nu) order)
    (hH : HalvesClear st held lvl order mt oi item) (hmt : mt ≠ .unmovable) :
    Taken st st' nu held lvl order item := by
  refine ⟨h.linked, h.nodes, h.tables, h.lists _ fun k => by simp, ⟨_, _, _, h.before⟩,
    fun j hj => ?_, h.own hlvl hlow, ?_, fun j hj => by rw [h.aside hS hH hj],
    h.other (Ne.symm hmt), ?_⟩
  · rcases hj with rfl | hj
    · exact h.off
    · rw [h.aside hS hH (.inl hj)]
      exact hS.off j hj
  · obtain ⟨hl, ho⟩ := h.marked hlvl
    unfold blockSize
    rw [hl, ho]
  · have hlisted := h.listed
    have hother : ∀ mt', mt' ≠ mt → listedItems st' nu mt' = listedItems st nu mt' :=
      fun _ hne => h.other hne
    unfold freeItems
    cases mt with
    | movable =>
        rw [hother .reclaimable (by decide), hother .lrutype (by decide)]
        omega
    | unmovable => exact absurd rfl hmt
    | reclaimable =>
        rw [hother .movable (by decide), hother .lrutype (by decide)]
        omega
    | lrutype =>
        rw [hother .movable (by decide), hother .reclaimable (by decide)]
        omega

/-- `max_order` is the top level's order or 8. -/
theorem maxOrder_cases {m : Nat} (hS : ServedNode st nu)
    (hm : maxOrderOf st (st.nodes (.phy nu)).dim lvl mt = some m) :
    m = maxItemOrder ∨ (lvl : Int) = st.tables.phyGroupLvl nu ∧ m = st.tables.phyGroupOrder nu := by
  unfold maxOrderOf at hm
  rw [hS.current] at hm
  split at hm
  · exact .inl (Option.some.inj hm).symm
  · simp only [Option.map_some, Option.some.injEq] at hm
    split at hm
    · next htop => exact .inr ⟨htop, hm.symm⟩
    · exact .inl hm.symm

theorem maxOrder_le {m : Nat} (hS : ServedNode st nu)
    (hm : maxOrderOf st (st.nodes (.phy nu)).dim lvl mt = some m) : m ≤ maxItemOrder + 1 := by
  rcases maxOrder_cases hS hm with rfl | ⟨-, rfl⟩
  · exact Nat.le_succ _
  · exact hS.orders.2

/-- An order below it is below the top of the level. -/
theorem staysLow_of_lt {m : Nat} (hS : ServedNode st nu)
    (hm : maxOrderOf st (st.nodes (.phy nu)).dim lvl mt = some m) (ho : order < m) :
    StaysLow (levelMaxOrder st nu lvl) ((lvl : Int) = st.tables.phyGroupLvl nu) order := by
  rcases maxOrder_cases hS hm with rfl | ⟨htop, rfl⟩
  · exact .inl ho
  · have hle := hS.orders.2
    rcases Nat.lt_or_ge order maxItemOrder with h8 | h8
    · exact .inl h8
    · refine .inr ⟨by omega, htop, ?_⟩
      unfold levelMaxOrder
      rw [if_pos htop]
      omega

/-- One block is looked at. -/
theorem Finds.unique {oi' : Nat} {item' : Item} (h : Finds st nu lvl order mt oi item)
    (h' : Finds st nu lvl order mt oi' item') : oi = oi' ∧ item = item' := by
  obtain rfl : oi = oi' := by
    rcases Nat.lt_trichotomy oi oi' with hlt | he | hlt
    · have := h'.first oi h.ge hlt
      rw [h.found] at this
      cases this
    · exact he
    · have := h.first oi' h'.ge hlt
      rw [h'.found] at this
      cases this
  exact ⟨rfl, Option.some.inj (h.found.symm.trans h'.found)⟩

/-- A block that a search looks at leaves its list, from a physical one where it is a multiple of the
    level's unit. -/
theorem Takes.removes (hS : Sound st nu held total) (hlvl : lvl < groupLvlNum)
    (h : Takes st nu lvl order mt oi item)
    (ha : mt = .movable ∨ itemToIdx st item % 2 ^ functionItemLvl groupOrderNumShift lvl = 0) :
    ∃ st', removeGroupMigration st (.phy nu lvl) lvl order mt false = some (st', some item) := by
  obtain ⟨⟨m, hm, hlt⟩, hF⟩ := h
  have hof : st.nodeOf (.phy nu lvl) = st.nodes (.phy nu) :=
    congrArg st.nodes (hS.node.groups lvl hlvl)
  have hge := hF.ge
  have hs : searchOrders st (.phy nu lvl) mt false (m - order) order = some (oi, item) :=
    searchOrders_eq_some.mpr ⟨hF.ge, by omega, hF.found, hF.first⟩
  have ho := (hS.linked.mem item _).mpr (searchList_mem hF.found)
  have hgate : ¬ (mt ≠ .sparseMovable ∧
      itemToIdx st item % 2 ^ functionItemLvl groupOrderNumShift lvl ≠ 0) :=
    fun hg => ha.elim hg.1 hg.2
  unfold removeGroupMigration
  rw [hof, hm]
  simp only [Option.bind_eq_bind, Option.bind_some, hs, if_neg hgate, listDel_of ho]
  exact ⟨_, rfl⟩

/-- What leaves a physical list is a multiple of the unit. -/
theorem removeGroupMigration_aligned {group : Group} {isTable : Bool} (hmt : mt ≠ .movable)
    (h : removeGroupMigration st group lvl order mt isTable = some (st', some item)) :
    itemToIdx st item % 2 ^ functionItemLvl groupOrderNumShift lvl = 0 := by
  obtain ⟨-, hfound⟩ | ⟨_, _, i, _, -, -, hgate, -, hfound, -⟩ := removeGroupMigration_cases h
  · cases hfound
  · obtain rfl := Option.some.inj hfound
    exact Decidable.of_not_not fun hne => hgate ⟨hmt, hne⟩

/-- **When the physical lists serve a request**, judged by the state before it. -/
theorem ownServes_iff (hS : Sound st nu held total) (hlvl : lvl < groupLvlNum) (hmt : mt ≠ .movable) :
    OwnServes st nu lvl order mt ↔ ∃ st' item,
      forwardRemoveGroupMigration st lvl mt order (st.nodes (.phy nu)).dim =
        some (st', some item) := by
  have hnode := hS.node
  have hof : st.nodeOf (.phy nu lvl) = st.nodes (.phy nu) :=
    congrArg st.nodes (hnode.groups lvl hlvl)
  unfold forwardRemoveGroupMigration
  rw [hnode.current]
  simp only [Option.bind_eq_bind, Option.bind_some]
  constructor
  · intro h
    obtain ⟨-, htop, hb, oi, item, hTakes, ha⟩ := h
    obtain ⟨last, hlast, hle, hz⟩ := (forwardGroupBudget_own htop).mpr hb
    obtain ⟨st', hr⟩ := hTakes.removes hS hlvl (.inr ha)
    refine ⟨st', item, ?_⟩
    rw [hlast, Option.bind_some, if_neg (Int.not_lt.mpr hle), hz, borrowLevels, Option.bind_some]
    exact hr
  · intro h
    obtain ⟨st', item, h⟩ := h
    rw [Option.bind_eq_some_iff] at h
    obtain ⟨last, hlast, h⟩ := h
    split at h
    · simp at h
    · next hle =>
        rw [Option.bind_eq_some_iff] at h
        obtain ⟨st1, hbor, hr⟩ := h
        cases hn : lvl - last.toNat with
        | succ n =>
            rw [hn, borrowLevels_faults] at hbor
            cases hbor
        | zero =>
            rw [hn, borrowLevels, Option.some.injEq] at hbor
            subst hbor
            have hle' := Int.not_lt.mp hle
            have htop : st.tables.phyGroupLvl nu ≤ lvl :=
              Int.le_trans hle' (forwardGroupBudget_le hlast)
            obtain ⟨m, oi, hm, hlt, hF, -⟩ := removeGroupMigration_takes hS.linked hlvl
              (by rw [hof]; exact hnode.id) hnode.lt
              (by rw [hof]; exact fun m hm => maxOrder_le hnode hm) hr
            rw [hof] at hm
            exact ⟨hmt, htop, (forwardGroupBudget_own htop).mp ⟨last, hlast, hle', hn⟩, oi, item,
              ⟨⟨m, hm, hlt⟩, hF⟩, removeGroupMigration_aligned hmt hr⟩

/-- What the forward search takes, where the halves are clear. -/
theorem forwardRemove_takes (hS : Sound st nu held total) (hlvl : lvl < groupLvlNum)
    (h : forwardRemoveGroupMigration st lvl mt order (st.nodes (.phy nu)).dim =
      some (st', some item)) :
    ∃ oi, Takes st nu lvl order mt oi item ∧
      StaysLow (levelMaxOrder st nu lvl) ((lvl : Int) = st.tables.phyGroupLvl nu) order ∧
      (HalvesClear st held lvl order mt oi item → TakenOff st st' nu lvl order mt oi item) := by
  have hnode := hS.node
  have hof : st.nodeOf (.phy nu lvl) = st.nodes (.phy nu) :=
    congrArg st.nodes (hnode.groups lvl hlvl)
  rcases forwardRemove_cases h with ⟨he, -⟩ | ⟨cur, hcur, hr⟩
  · cases he
  · obtain rfl : nu = cur := Option.some.inj (hnode.current.symm.trans hcur)
    obtain ⟨m, oi, hm, hlt, hF, htaken⟩ := removeGroupMigration_takes hS.linked hlvl
      (by rw [hof]; exact hnode.id) hnode.lt (by rw [hof]; exact fun m hm => maxOrder_le hnode hm) hr
    rw [hof] at hm
    exact ⟨oi, ⟨⟨m, hm, hlt⟩, hF⟩, staysLow_of_lt hnode hm (Nat.lt_of_le_of_lt hF.ge hlt),
      fun hH => htaken fun k h1 h2 => (hH k h1 h2).1⟩

/-- **A block from the lists of its class.** -/
theorem own_taken (hS : Sound st nu held total) (hA : AllocKeeps itemarrayPrev st nu held lvl order mt)
    (hc : cachedHead st (.phy nu) mt = none) (hmt : mt ≠ .movable)
    (h : forwardRemoveGroupMigration st lvl mt order (st.nodes (.phy nu)).dim =
      some (st', some item)) : Taken st st' nu held lvl order item := by
  obtain ⟨hun, hclear⟩ := hA.own hc ((ownServes_iff hS hA.level hmt).mpr ⟨_, _, h⟩)
  obtain ⟨oi, hTakes, hlow, htaken⟩ := forwardRemove_takes hS hA.level h
  have hH := hclear oi item hTakes
  exact (htaken hH).taken hS hA.level hlow hH hun

/-- With one parent set, the tables above an item are those that were. -/
theorem isAbove_set {p q : Option Item} {t : Item}
    (h : IsAbove (st.modItem item fun x => { x with prev := p }) q t) :
    IsAbove st q t ∨ IsAbove st p t := by
  induction h with
  | parent t => exact .inl (.parent t)
  | @further u t h ih =>
      by_cases hu : u = item
      · subst hu
        simp only [State.modItem_items, if_true] at ih
        exact .inr (ih.elim id id)
      · simp only [State.modItem_items, if_neg hu] at ih
        exact ih.imp_left .further

/-- The block taken enters its table, and the tables above are charged: they are on MOVABLE lists. -/
theorem enterTable_charged {pg : ProcessGroup} {dim : Nat} {st1 : State}
    (hT : TakenOff st st1 nu lvl order .movable oi item) (hL : st.Linked)
    (hr : removeGroupMigration st (.phy nu lvl) lvl order .movable false = some (st1, some item))
    (hab : TablesMovable itemarrayPrev st nu lvl order item)
    (he : enterTable itemarrayPrev pg st1 item lvl order .movable dim false = some st') :
    ∃ prev, TablesCharged (OnMovable nu) (st1.modItem item fun x => { x with prev := prev }) st' := by
  obtain ⟨prev, hword, he⟩ := Option.bind_eq_some_iff.mp he
  refine ⟨prev, mergeGroupSparseTable_charged (fun t ht l hl => ?_) he⟩
  -- the tables above are those of before the search
  have htab := ((isAbove_set ht).elim id id).congr hT.prev
  rw [st1.modItem_keeps t ItemStruct.onList rfl] at hl
  by_cases hcell : ∃ k, l = .groupCell (.phy nu lvl) .movable k
  · exact ⟨lvl, hcell⟩
  · have hmem := (hT.linked.mem t l).mp hl
    rw [hT.lists l fun k e => hcell ⟨k, e⟩] at hmem
    exact hab st1 prev hr hword t htab l ((hL.mem t l).mpr hmem)

/-- **The charge of the tables above** leaves the block taken. -/
theorem Taken.charged {st1 : State} {prev : Option Item} (h : Taken st st1 nu held lvl order item)
    (hC : TablesCharged (OnMovable nu) (st1.modItem item fun x => { x with prev := prev }) st') :
    Taken st st' nu held lvl order item := by
  have honList : ∀ j, ((st1.modItem item fun x => { x with prev := prev }).items j).onList =
      (st1.items j).onList := fun j => st1.modItem_keeps j ItemStruct.onList rfl
  have hnone : ∀ j, (st1.items j).onList = none → (st'.items j).onList = none := by
    intro j hj
    cases hl : (st'.items j).onList with
    | none => rfl
    | some l =>
        have := hC.onList j l hl
        rw [honList, hj] at this
        cases this
  have hmarks : ∀ j, marks (st'.items j) = marks (st1.items j) := by
    intro j
    refine (marks_congr fun f hf => hC.marks j f ?_).trans (st1.modItem_keeps j marks rfl)
    rcases hf with rfl | rfl | rfl <;> decide
  have hcells : ∀ mt l k, mt ≠ .movable → st'.lists (.groupCell (.phy nu l) mt k) =
      st1.lists (.groupCell (.phy nu l) mt k) := by
    intro mt l k hmt
    refine hC.same _ fun hm => ?_
    obtain ⟨l', k', e⟩ := hm
    simp only [ListHead.groupCell.injEq] at e
    exact hmt e.2.1
  -- the block itself is the only one with a new parent, and it is on no list
  have hprev : ∀ c j, j ∈ st1.lists c → (st'.items j).prev = (st1.items j).prev := by
    intro c j hj
    rw [hC.prev, State.modItem_items, if_neg (h.linked.ne_of_mem (h.off item (.inl rfl)) hj)]
  have hother : ∀ mt, mt ≠ .movable → listedItems st' nu mt = listedItems st1 nu mt := fun mt hmt =>
    listedItems_congr (fun c _ => hcells mt _ _ hmt) fun c _ j hj => hprev _ j hj
  have hmov : listedItems st' nu .movable ≤ listedItems st1 nu .movable :=
    listedItems_le (fun c _ => hC.sub _) fun c _ j hj => hprev _ j hj
  have hcache : st'.lists (cacheCell nu) = st1.lists (cacheCell nu) := by
    refine hC.same _ fun hm => ?_
    obtain ⟨l', k', e⟩ := hm
    cases e
  have htables : st'.tables = st1.tables := hC.tables
  refine ⟨hC.linked (h.linked.congr rfl honList), hC.nodes.trans h.nodes, htables.trans h.tables,
    hcache.trans h.cache, h.before, fun j hj => hnone j (h.off j hj), h.own.congr htables (hmarks item),
    (blockSize_congr (hmarks item)).1.trans h.size, fun j hj => (hmarks j).trans (h.kept j hj),
    (hother _ (by decide)).trans h.parked, ?_⟩
  have hfree := h.free
  unfold freeItems at hfree ⊢
  rw [hother .reclaimable (by decide), hother .lrutype (by decide)]
  omega

/-- A block taken by the first search, entered in its table. -/
theorem entered_taken {pg : ProcessGroup} {dim : Nat} {st1 : State} (hS : Sound st nu held total)
    (hlvl : lvl < groupLvlNum)
    (hr : removeGroupMigration st (.phy nu lvl) lvl order .movable false = some (st1, some item))
    (he : enterTable itemarrayPrev pg st1 item lvl order .movable dim false = some st') :
    ∃ oi, Takes st nu lvl order .movable oi item ∧
      (HalvesClear st held lvl order .movable oi item →
        TablesMovable itemarrayPrev st nu lvl order item →
        Taken st st' nu held lvl order item) := by
  have hnode := hS.node
  have hof : st.nodeOf (.phy nu lvl) = st.nodes (.phy nu) :=
    congrArg st.nodes (hnode.groups lvl hlvl)
  obtain ⟨m, oi, hm, hlt, hF, htaken⟩ := removeGroupMigration_takes hS.linked hlvl
    (by rw [hof]; exact hnode.id) hnode.lt (by rw [hof]; exact fun m hm => maxOrder_le hnode hm) hr
  rw [hof] at hm
  refine ⟨oi, ⟨⟨m, hm, hlt⟩, hF⟩, fun hH hab => ?_⟩
  have hT := htaken fun k h1 h2 => (hH k h1 h2).1
  have hlow := staysLow_of_lt hnode hm (Nat.lt_of_le_of_lt hF.ge hlt)
  obtain ⟨prev, hC⟩ := enterTable_charged hT hS.linked hr hab he
  exact (hT.taken hS hlvl hlow hH (by decide)).charged hC

/-- **A block from the MOVABLE lists.** -/
theorem movable_taken {s : Searches} {env : StreamEnv} {fuel : Nat} {isCombined : Bool}
    (hS : Sound st nu held total) (hlvl : lvl < groupLvlNum)
    (hM : MovableServes env.itemarrayPrev st nu held lvl order)
    (h : forwardSearch (s.withSparse env (fuel + 1)) st (.phy nu) lvl .movable order
      (nestedPara isCombined) = some (st', some item)) : Taken st st' nu held lvl order item := by
  obtain ⟨oi, i, hTakes, hH, hab⟩ := hM
  obtain ⟨st1, hr⟩ := hTakes.removes hS hlvl (.inl rfl)
  have hg : sparseGroup env.pg (st.nodes (.phy nu)).dim false lvl = some (.phy nu lvl) := by
    rw [sparseGroup, hS.node.current]
    rfl
  change forwardRemoveGroupSparse env (fuel + 1) st lvl .movable order (st.nodes (.phy nu)).dim false =
    some (st', some item) at h
  rw [forwardRemoveGroupSparse_own hg hr, Option.map_eq_some_iff] at h
  obtain ⟨st2, he, hi⟩ := h
  simp only [Prod.mk.injEq, Option.some.injEq] at hi
  obtain ⟨rfl, rfl⟩ := hi
  obtain ⟨oi', hTakes', htaken⟩ := entered_taken hS hlvl hr he
  obtain ⟨rfl, -⟩ := hTakes'.2.unique hTakes.2
  exact htaken hH hab

/-- The state of an item is none of its marks. -/
theorem setState_items (st : State) (i : Item) (state : ItemState) (j : Item) :
    ((st.setState i state).items j).onList = (st.items j).onList ∧
      ((st.setState i state).items j).prev = (st.items j).prev ∧
      marks ((st.setState i state).items j) = marks (st.items j) := by
  unfold State.setState State.modFlags
  refine ⟨st.modItem_keeps j ItemStruct.onList rfl, st.modItem_keeps j ItemStruct.prev rfl,
    st.modItem_keeps j marks (marks_congr fun f hf =>
      (field_withField f .state _ _).trans (if_neg ?_))⟩
  rcases hf with rfl | rfl | rfl <;> decide

theorem sound_setState (hS : Sound st nu held total) (i : Item) (state : ItemState) :
    Sound (st.setState i state) nu held total ∧
      (Balanced st nu held total → Balanced (st.setState i state) nu held total) := by
  have hitems := setState_items st i state
  exact hS.moved (hS.linked.congr rfl fun j => (hitems j).1) rfl rfl (fun j => (hitems j).2.2)
    (fun j => (hitems j).2.1) (fun _ _ _ => rfl) (List.Perm.refl _) hS.nodup
    fun j hj => (hitems j).1.trans (hS.off j hj)

/-- What is used with a block more. -/
theorem Taken.used (h : Taken st st' nu held lvl order item) :
    usedItems st' nu (item :: held) = usedItems st nu held + unitItems lvl order := by
  have hsame := @sum_blockSize_congr st st' (held ++ st.lists (cacheCell nu))
    fun j hj => h.kept j (List.mem_append.mp hj)
  unfold usedItems
  rw [h.cache, List.cons_append, List.map_cons, List.sum_cons, hsame, h.size, h.parked]
  omega

/-- The globals once a block of that level and order is handed out: the mode, and the debit. -/
def debited (st : State) (nu lvl order : Nat) : State :=
  (st.setStatus (.phy nu) .forward).lowerFree (.phy nu)
    (bit (order + functionItemLvl groupOrderNumShift lvl))

theorem debited_node (st : State) (nu lvl order : Nat) :
    (debited st nu lvl order).nodes (.phy nu) = { st.nodes (.phy nu) with
      status := .forward
      nrFreeitems := (st.nodes (.phy nu)).nrFreeitems -
        bit (order + functionItemLvl groupOrderNumShift lvl) } := by
  rw [debited, State.lowerFree, State.setStatus]
  simp

/-- A block more in use, that was on a list: what is free and used together does not grow. -/
theorem sound_debited (hS : Sound st nu held total) (hL : st'.Linked)
    (hn : st'.nodes = st.nodes) (ht : st'.tables = st.tables)
    (hcache : st'.lists (cacheCell nu) = st.lists (cacheCell nu))
    (hbefore : (st.items item).onList ≠ none)
    (hoff : ∀ j, j = item ∨ j ∈ held → (st'.items j).onList = none) (hown : OwnBlock st' nu item)
    (hkept : ∀ j, j ∈ held ∨ j ∈ st.lists (cacheCell nu) →
      marks (st'.items j) = marks (st.items j))
    (hfits : freeItems st' nu + usedItems st' nu (item :: held) ≤
      freeItems st nu + usedItems st nu held) :
    Sound (debited st' nu lvl order) nu (item :: held) total := by
  have hnode := debited_node st' nu lvl order
  rw [hn] at hnode
  have hnot : item ∉ held := fun hm => hbefore (hS.off item hm)
  refine ⟨hL.congr rfl fun _ => rfl, ?_, List.nodup_cons.mpr ⟨hnot, hS.nodup⟩,
    fun j hj => hoff j (List.mem_cons.mp hj), fun j hj => ?_, Nat.le_trans hfits hS.fits, hS.small⟩
  · exact hS.node.congr ht (by rw [hnode]) (by rw [hnode])
      (by rw [hnode]; exact GroupStatus.noConfusion)
  · have hj' : j = item ∨ j ∈ held ∨ j ∈ st.lists (cacheCell nu) := by
      rw [← hcache]
      exact hj.elim (fun hj => (List.mem_cons.mp hj).imp_right .inl) fun hj => .inr (.inr hj)
    rcases hj' with rfl | hj'
    · exact hown.congr rfl rfl
    · exact (hS.own j hj').congr ht (hkept j hj')

/-- **The debit is the block taken.** -/
theorem Taken.debited (h : Taken st st' nu held lvl order item) (hS : Sound st nu held total) :
    Sound (debited st' nu lvl order) nu (item :: held) total ∧
      (Balanced st nu held total → Balanced (debited st' nu lvl order) nu (item :: held) total) := by
  have hfree := h.free
  have hfits := hS.fits
  have hsmall := hS.small
  have hused : usedItems (TensorAlloc.debited st' nu lvl order) nu (item :: held) =
      usedItems st nu held + unitItems lvl order := h.used
  obtain ⟨l, k, mt, hbefore⟩ := h.before
  refine ⟨sound_debited hS h.linked h.nodes h.tables h.cache (by rw [hbefore]; simp) h.off h.own h.kept
    (by rw [h.used]; omega), fun hB => ?_⟩
  -- the block was on a list, so the counter covers it
  have hcovered := hS.covered hB
  have hsize : (bit (order + functionItemLvl groupOrderNumShift lvl)).toNat = unitItems lvl order :=
    toNat_bit ((Nat.pow_lt_pow_iff_right (Nat.lt_succ_self 1)).mp (show unitItems lvl order < 2 ^ 64 by
      omega))
  unfold Balanced at hB ⊢
  rw [hused, debited_node, h.nodes]
  show (_ - _ : Word).toNat + _ = _
  rw [BitVec.toNat_sub_of_le (by rw [BitVec.le_def, hsize]; omega), hsize]
  omega

/-- What `final_dispatch` debits a single block. -/
theorem finalDispatch_single (st : State) (node : NodeRef) (lvl : Nat) (mt : MigrationType)
    (order : Nat) (isCombined : Bool) (item : Item) :
    finalDispatch st node lvl mt order (nestedPara isCombined) item =
      (st.lowerFree node (bit (order + functionItemLvl groupOrderNumShift lvl))).setState item
        (groupItemState (compoundItem st item) mt (nestedPara isCombined)) := by
  have hshift : dispatchShift lvl mt (nestedPara isCombined) =
      functionItemLvl groupOrderNumShift lvl := by
    unfold dispatchShift nestedPara
    rw [if_neg Bool.false_ne_true]
    split <;> rfl
  unfold finalDispatch
  rw [hshift]
  rfl

/-- The search mode of a migration is no part of the books. -/
theorem sound_migrateStart (hS : Sound st nu held total) (mt : MigrationType) :
    Sound (migrateStart st (.phy nu) mt) nu held total ∧
      (Balanced st nu held total → Balanced (migrateStart st (.phy nu) mt) nu held total) := by
  unfold migrateStart
  split
  · have hnode : (st.setStatus (.phy nu) .onlyForward).nodes (.phy nu) =
        { st.nodes (.phy nu) with status := .onlyForward } := by
      simp [State.setStatus]
    refine ⟨⟨hS.linked.congr rfl fun _ => rfl, ?_, hS.nodup, hS.off,
      fun j hj => (hS.own j hj).congr rfl rfl, hS.fits, hS.small⟩, fun hB => ?_⟩
    · exact hS.node.congr rfl (by rw [hnode]) (by rw [hnode])
        (by rw [hnode]; exact GroupStatus.noConfusion)
    · unfold Balanced
      rw [hnode]
      exact hB
  · exact ⟨hS, id⟩

/-- Nor does it change what a MOVABLE search takes. -/
theorem takes_migrateStart (mt : MigrationType) :
    Takes (migrateStart st (.phy nu) mt) nu lvl order .movable oi item ↔
      Takes st nu lvl order .movable oi item := by
  unfold migrateStart
  split
  · exact ⟨fun h => ⟨h.1, h.2.ge, h.2.found, h.2.first⟩, fun h => ⟨h.1, h.2.ge, h.2.found, h.2.first⟩⟩
  · exact Iff.rfl

theorem halvesClear_migrateStart (mt : MigrationType)
    (hH : HalvesClear st held lvl order .movable oi item) :
    HalvesClear (migrateStart st (.phy nu) mt) held lvl order .movable oi item := by
  unfold migrateStart
  split <;> exact hH

variable {s : Searches} {env : StreamEnv} {depth fuel : Nat} {isCombined : Bool}

/-- **Step: an allocation**, off the cache, from its own lists or from the MOVABLE ones. -/
theorem alloc_keeps (hS : Sound st nu held total)
    (hA : AllocKeeps env.itemarrayPrev st nu held lvl order mt)
    (h : dispatchGroup (s.withSparse env (fuel + 1)) (depth + 2) st (.phy nu) lvl mt order
      (nestedPara isCombined) = some (st', .noError, some item)) :
    Sound st' nu (item :: held) total ∧
      (Balanced st nu held total → Balanced st' nu (item :: held) total) := by
  rcases dispatch_served h fun _ => hS.node.mode with ⟨hc, st1, hd, rfl⟩ | ⟨hc, st1, hs, rfl⟩ |
    ⟨hc, hmt, hs, st1, hs', rfl⟩
  · have hmem : item ∈ st.lists (cacheCell nu) := by
      unfold cachedHead at hc
      split at hc
      · exact List.mem_of_mem_head? hc
      · cases hc
    obtain ⟨hS1, hB1⟩ := cache_taken hS hmem hd
    exact (sound_countDec hS1 _).imp_right fun hB2 hB => hB2 (hB1 hB)
  · have hT : Taken st st1 nu held lvl order item := by
      by_cases hm : mt = .movable
      · subst hm
        exact movable_taken hS hA.level (hA.migrated hc (fun ho => ho.1 rfl) (by decide)) hs
      · rw [forwardSearch, if_neg hm] at hs
        exact own_taken hS hA hc hm hs
    rw [finalDispatch_single]
    obtain ⟨hS1, hB1⟩ := hT.debited hS
    exact (sound_setState hS1 item _).imp_right fun hB2 hB => hB2 (hB1 hB)
  · have hne : mt ≠ .sparseMovable ∧ mt ≠ .reclaimable := by rcases hmt with rfl | rfl <;> decide
    have hown : ¬ OwnServes st nu lvl order mt := by
      intro ho
      obtain ⟨st2, i, hr⟩ := (ownServes_iff hS hA.level hne.1).mp ho
      rw [forwardSearch, if_neg hne.1, hr] at hs
      cases hs
    obtain ⟨hS0, hB0⟩ := sound_migrateStart hS mt
    rw [finalDispatch_single]
    obtain ⟨hS1, hB1⟩ := (movable_taken hS0 hA.level (hA.migrated hc hown hne.2) hs').debited hS0
    obtain ⟨hS2, hB2⟩ := sound_setState hS1 item
      (groupItemState (compoundItem (st1.setStatus (.phy nu) .forward) item) .movable
        (nestedPara (nestedPara isCombined).isCombined))
    exact (sound_setState hS2 item _).imp_right fun hB3 hB => hB3 (hB2 (hB1 (hB0 hB)))

end Allocations

/-! ## 4. Runs -/

section Results

variable {r : Reading} {s : Searches} {env : StreamEnv} {depth fuel freeFuel nu total : Nat}

/-- **Step.** As written only allocations are made. -/
theorem counterStep_keeps {x x' : State × List Item} {op : CounterOp} (hS : Sound x.1 nu x.2 total)
    (hB : Balanced x.1 nu x.2 total) (hK : StepKeeps env.itemarrayPrev nu x op)
    (h : counterStep r (s.withSparse env (fuel + 1)) (depth + 2) freeFuel nu x op = some x') :
    Sound x'.1 nu x'.2 total ∧ Balanced x'.1 nu x'.2 total := by
  cases op with
  | alloc lvl mt order isCombined =>
      unfold counterStep at h
      dsimp only at h
      split at h
      · next hd =>
          obtain rfl := Option.some.inj h
          exact (alloc_keeps hS hK hd).imp_right fun hB' => hB' hB
      · cases h
  | free mt item =>
      unfold counterStep at h
      dsimp only at h
      split at h
      · next hi =>
          cases r with
          | written =>
              rw [findGroupReversed_written (hS.off item hi)] at h
              cases h
          | listFirst =>
              rw [Option.map_eq_some_iff] at h
              obtain ⟨⟨st', freed⟩, hf, rfl⟩ := h
              exact (free_keeps hS hi hK hf).imp_right fun hB' => hB' hB
      · cases h

/-- Run. -/
theorem counterRun_keeps {x x' : State × List Item} {ops : List CounterOp}
    (hS : Sound x.1 nu x.2 total) (hB : Balanced x.1 nu x.2 total)
    (hK : RunKeeps env.itemarrayPrev r (s.withSparse env (fuel + 1)) (depth + 2) freeFuel nu x ops)
    (h : counterRun r (s.withSparse env (fuel + 1)) (depth + 2) freeFuel nu x ops = some x') :
    Sound x'.1 nu x'.2 total ∧ Balanced x'.1 nu x'.2 total := by
  induction ops generalizing x with
  | nil =>
      obtain rfl := Option.some.inj h
      exact ⟨hS, hB⟩
  | cons op ops ih =>
      obtain ⟨hstep, hrest⟩ := hK
      rw [counterRun, Option.bind_eq_some_iff] at h
      obtain ⟨x1, h1, h⟩ := h
      obtain ⟨hS1, hB1⟩ := counterStep_keeps hS hB hstep h1
      exact ih hS1 hB1 (hrest x1 h1) h

/-- **A parked block that is served is debited a second time.** The equation is lost whenever an
    UNMOVABLE request is served from the UNMOVABLE lists. -/
theorem parked_served_drifts {st st' : State} {held : List Item} {lvl order : Nat} {item : Item}
    {isCombined : Bool} (hS : Sound st nu held total) (hB : Balanced st nu held total)
    (hlvl : lvl < groupLvlNum) (hown : OwnServes st nu lvl order .unmovable)
    (hclear : ∀ oi i, Takes st nu lvl order .unmovable oi i →
      HalvesClear st held lvl order .unmovable oi i)
    (h : dispatchGroup s (depth + 2) st (.phy nu) lvl .unmovable order (nestedPara isCombined) =
      some (st', .noError, some item)) : ¬ Balanced st' nu (item :: held) total := by
  obtain ⟨st2, i, hr2⟩ := (ownServes_iff hS hlvl (by decide)).mp hown
  rcases dispatch_served h fun _ => hS.node.mode with ⟨hc, -⟩ | ⟨-, st1, hs, rfl⟩ | ⟨-, -, hs, -⟩
  · cases hc
  · obtain ⟨oi, hTakes, -, htaken⟩ := forwardRemove_takes hS hlvl hs
    have hH := hclear oi item hTakes
    have hT := htaken hH
    obtain ⟨hl, ho⟩ := hT.marked hlvl
    rw [finalDispatch_single]
    set st3 := (st1.setStatus (.phy nu) .forward).lowerFree (.phy nu)
      (bit (order + functionItemLvl groupOrderNumShift lvl)) with hst3
    set x := groupItemState (compoundItem (st1.setStatus (.phy nu) .forward) item) .unmovable
      (nestedPara isCombined)
    have hitems := setState_items st3 item x
    have hsum := @sum_blockSize_congr st (st3.setState item x) (held ++ st.lists (cacheCell nu))
      fun j hj => by
        rw [(hitems j).2.2]
        exact congrArg marks (hT.aside hS hH (List.mem_append.mp hj))
    have hsize : blockSize (st3.setState item x) item = unitItems lvl order := by
      rw [(blockSize_congr (hitems item).2.2).1]
      show blockSize st1 item = _
      unfold blockSize
      rw [hl, ho]
    have hcache : (st3.setState item x).lists (cacheCell nu) = st.lists (cacheCell nu) :=
      hT.lists _ fun k => by simp
    have hparked : listedItems (st3.setState item x) nu .unmovable = listedItems st1 nu .unmovable :=
      @listedItems_same st1 (st3.setState item x) nu rfl (fun j => (hitems j).2.1) _
    have hnode : ((st3.setState item x).nodes (.phy nu)).nrFreeitems =
        (st.nodes (.phy nu)).nrFreeitems - bit (order + functionItemLvl groupOrderNumShift lvl) := by
      show (st3.nodes (.phy nu)).nrFreeitems = _
      rw [hst3, State.lowerFree, State.setStatus, hT.nodes]
      simp
    have hlisted := hT.listed
    have hsmall := hS.small
    unfold Balanced usedItems at hB ⊢
    rw [hcache, List.cons_append, List.map_cons, List.sum_cons, hsum, hsize, hparked, hnode]
    have hu : unitItems lvl order < 2 ^ 64 := by omega
    have hbit : (bit (order + functionItemLvl groupOrderNumShift lvl)).toNat = unitItems lvl order :=
      toNat_bit ((Nat.pow_lt_pow_iff_right (Nat.lt_succ_self 1)).mp hu)
    have hpos : 0 < unitItems lvl order := Nat.two_pow_pos _
    rw [BitVec.toNat_sub, hbit]
    omega
  · rw [forwardSearch, if_neg (by decide), hr2] at hs
    cases hs

/-- **The free counter over runs.** As written no free of a block in use returns, and only allocations
    are made. In a run whose steps all meet `StepKeeps` the counter is, at the end, the total less what
    is allocated, cached or parked, and at most the total. An UNMOVABLE request served from the
    UNMOVABLE lists always breaks that. -/
theorem counter_balanced (s : Searches) (env : StreamEnv) (depth fuel freeFuel nu total : Nat) :
    (∀ st held mt item, Sound st nu held total → item ∈ held →
      findGroupReversed .written freeFuel st mt item false = none) ∧
    (∀ r x x' ops, Sound x.1 nu x.2 total → Balanced x.1 nu x.2 total →
      RunKeeps env.itemarrayPrev r (s.withSparse env (fuel + 1)) (depth + 2) freeFuel nu x ops →
      counterRun r (s.withSparse env (fuel + 1)) (depth + 2) freeFuel nu x ops = some x' →
      Balanced x'.1 nu x'.2 total ∧ (x'.1.nodes (.phy nu)).nrFreeitems.toNat ≤ total) ∧
    ∀ r x x' lvl order isCombined, Sound x.1 nu x.2 total → Balanced x.1 nu x.2 total →
      lvl < groupLvlNum → OwnServes x.1 nu lvl order .unmovable →
      (∀ oi i, Takes x.1 nu lvl order .unmovable oi i →
        HalvesClear x.1 x.2 lvl order .unmovable oi i) →
      counterStep r (s.withSparse env (fuel + 1)) (depth + 2) freeFuel nu x
        (.alloc lvl .unmovable order isCombined) = some x' → ¬ Balanced x'.1 nu x'.2 total := by
  refine ⟨fun st held mt item hS hi => findGroupReversed_written (hS.off item hi) _ _,
    fun r x x' ops hS hB hK h => ?_, fun r x x' lvl order isCombined hS hB hlvl hown hclear h => ?_⟩
  · obtain ⟨-, hB'⟩ := counterRun_keeps hS hB hK h
    refine ⟨hB', ?_⟩
    unfold Balanced at hB'
    omega
  · unfold counterStep at h
    dsimp only at h
    split at h
    · next hd =>
        obtain rfl := Option.some.inj h
        exact parked_served_drifts hS hB hlvl hown hclear hd
    · cases h

/-- Node 0, its one block the item 0: of the class `mt`, of order 0 on level 3, and counted. -/
def oneItem (mt : MigrationType) : State :=
  { oneBlock (.groupCell (.phy 0 3) mt 0) 0 with
    nodes := fun _ => { zeroed.nodes (.phy 0) with nrFreeitems := 1#64 }
    tables := { zeroed.tables with phyGroupOrder := fun _ => maxItemOrder + 1 } }

theorem listedItems_zeroed (nu : Nat) (mt : MigrationType) : listedItems zeroed nu mt = 0 := by
  refine Finset.sum_eq_zero fun c _ => ?_
  unfold cellItems
  rw [show zeroed.lists (.groupCell (.phy nu c.1) mt c.2) = [] from rfl, List.countP_nil, Nat.zero_mul]

/-- A block linked adds itself to its class at most. -/
theorem listedItems_pushTail (st : State) {lvl k : Nat} (hlvl : lvl < groupLvlNum)
    (hk : k ≤ maxItemOrder) (nu : Nat) (mt mt' : MigrationType) (i : Item) :
    listedItems (st.pushTail (.groupCell (.phy nu lvl) mt k) i) nu mt' ≤
      listedItems st nu mt' + if mt' = mt then unitItems lvl k else 0 := by
  have hprev : ∀ j, ((st.pushTail (.groupCell (.phy nu lvl) mt k) i).items j).prev = (st.items j).prev :=
    fun j => st.pushTail_keeps _ i j ItemStruct.prev rfl
  split
  · next h =>
      subst h
      refine (listedItems_push hlvl hk (i := i) ?_ (fun h hne => ?_) hprev).1
      · rw [State.pushTail_lists, if_pos rfl]
        exact List.perm_append_singleton _ _
      · rw [State.pushTail_lists, if_neg hne]
  · next h =>
      rw [Nat.add_zero]
      refine Nat.le_of_eq (listedItems_congr (fun c _ => ?_) fun _ _ j _ => hprev j)
      rw [State.pushTail_lists, if_neg]
      intro e
      simp only [ListHead.groupCell.injEq] at e
      exact h e.2.1

/-- A node of which nothing is used. -/
theorem sound_unused {st : State} (hL : st.Linked) (hN : ServedNode st nu)
    (hcache : st.lists (cacheCell nu) = []) (hparked : listedItems st nu .unmovable = 0)
    (hfits : freeItems st nu ≤ total) (hsmall : total < 2 ^ 64) :
    Sound st nu [] total ∧ usedItems st nu [] = 0 := by
  have hused : usedItems st nu [] = 0 := by
    unfold usedItems
    rw [hcache, hparked]
    rfl
  refine ⟨⟨hL, hN, List.nodup_nil, fun _ hi => absurd hi List.not_mem_nil, fun i hi => ?_, ?_, hsmall⟩,
    hused⟩
  · rw [hcache] at hi
    rcases hi with h | h <;> cases h
  · rw [hused, Nat.add_zero]
    exact hfits

theorem oneItem_listed (mt mt' : MigrationType) :
    listedItems (oneItem mt) 0 mt' ≤ if mt' = mt then 1 else 0 := by
  have hpush := @listedItems_pushTail zeroed 3 0 (by decide) (by decide) 0 mt mt' 0
  rw [listedItems_zeroed, Nat.zero_add] at hpush
  exact hpush

theorem oneItem_sound {mt : MigrationType} (hmt : mt ≠ .unmovable) :
    Sound (oneItem mt) 0 [] 1 ∧ Balanced (oneItem mt) 0 [] 1 := by
  have hlisted := oneItem_listed mt
  have hparked := hlisted .unmovable
  rw [if_neg (Ne.symm hmt)] at hparked
  have hfree : freeItems (oneItem mt) 0 ≤ 1 := by
    have h1 := hlisted .movable
    have h2 := hlisted .reclaimable
    have h3 := hlisted .lrutype
    unfold freeItems
    cases mt <;> simp only [reduceCtorEq, if_true, if_false] at h1 h2 h3 <;> omega
  obtain ⟨hS, hused⟩ := @sound_unused 0 1 (oneItem mt) ((oneBlock_linked _ _).congr rfl fun _ => rfl)
    ⟨fun _ _ => rfl, rfl, rfl, ⟨Nat.le_add_left _ _, Nat.le_refl _⟩, GroupStatus.noConfusion⟩
    ((oneBlock_lists (.groupCell (.phy 0 3) mt 0) (cacheCell 0) 0).trans (if_neg (by simp)))
    (Nat.le_zero.mp hparked) hfree (by decide)
  refine ⟨hS, ?_⟩
  unfold Balanced
  rw [hused]
  rfl

/-- A block taken and cached again. -/
theorem reclaimable_cycle : ∃ st', counterRun .listFirst (noSearch.withSparse streamEnv 1) 2 1 0
      (oneItem .reclaimable, []) [.alloc 3 .reclaimable 0 false, .free .lrutype 0] = some (st', []) ∧
    Balanced st' 0 [] 1 := by
  obtain ⟨hS, hB⟩ := @oneItem_sound .reclaimable (by decide)
  have hrun : (counterRun .listFirst (noSearch.withSparse streamEnv 1) 2 1 0 (oneItem .reclaimable, [])
      [.alloc 3 .reclaimable 0 false, .free .lrutype 0]).map (fun x => x.2) = some [] := by
    decide +kernel
  obtain ⟨⟨st', held⟩, hrun, rfl⟩ := Option.map_eq_some_iff.mp hrun
  have hK : RunKeeps streamEnv.itemarrayPrev .listFirst (noSearch.withSparse streamEnv 1) 2 1 0
      (oneItem .reclaimable, []) [.alloc 3 .reclaimable 0 false, .free .lrutype 0] := by
    refine ⟨⟨by decide, fun _ _ => ⟨by decide, fun oi i hT k h1 h2 => ?_⟩, fun _ _ h => absurd rfl h⟩,
      fun _ _ => ⟨fun h => ?_, fun _ _ => trivial⟩⟩
    · have h0 : Finds (oneItem .reclaimable) 0 3 0 .reclaimable 0 0 :=
        ⟨Nat.le_refl 0, rfl, fun k _ hk => absurd hk (Nat.not_lt_zero k)⟩
      obtain ⟨rfl, -⟩ := hT.2.unique h0
      exact absurd h2 (Nat.not_lt_zero k)
    · rcases h with h | h <;> cases h
  exact ⟨st', hrun, ((counter_balanced noSearch streamEnv 0 0 1 0 1).2.1 .listFirst _ _ _ hS hB hK
    hrun).1⟩

/-- An UNMOVABLE block migrated, parked, and taken again: the counter is -1. -/
theorem parked_cycle : Sound (oneItem .movable) 0 [] 1 ∧ Balanced (oneItem .movable) 0 [] 1 ∧
    ∃ st', counterRun .listFirst (noSearch.withSparse streamEnv 1) 2 1 0 (oneItem .movable, [])
        [.alloc 3 .unmovable 0 false, .free .unmovable 0, .alloc 3 .unmovable 0 false] =
          some (st', [0]) ∧
      1 < (st'.nodes (.phy 0)).nrFreeitems.toNat ∧ ¬ Balanced st' 0 [0] 1 := by
  obtain ⟨hS, hB⟩ := @oneItem_sound .movable (by decide)
  have hrun : (counterRun .listFirst (noSearch.withSparse streamEnv 1) 2 1 0 (oneItem .movable, [])
      [.alloc 3 .unmovable 0 false, .free .unmovable 0, .alloc 3 .unmovable 0 false]).map
        (fun x => (x.2, (x.1.nodes (.phy 0)).nrFreeitems)) = some ([0], BitVec.allOnes 64) := by
    decide +kernel
  obtain ⟨⟨st', held⟩, hrun, he⟩ := Option.map_eq_some_iff.mp hrun
  obtain ⟨rfl, hnr⟩ := Prod.mk.inj he
  refine ⟨hS, hB, st', hrun, ?_, fun h => ?_⟩
  · rw [hnr]
    decide
  · unfold Balanced at h
    rw [hnr, BitVec.toNat_allOnes] at h
    omega

end Results

end TensorAlloc
