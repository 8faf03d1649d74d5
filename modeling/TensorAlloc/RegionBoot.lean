/-
  File:      TensorAlloc/RegionBoot.lean
  Subject:   A node from setting it up through any run on it.

  * `Untaken` -- a node whose lists are empty and whose descriptors are zero: setting it up writes its
    record and its tables only, up to the carving;
  * `NodeCarved` -- what the carving leaves: one list of the node holds a row of blocks;
  * `Region.beside_carved` -- a node set up later leaves one that is divided;
  * `boot_divided` -- set up, and after any run from there, a node has every descriptor in one block.
-/
import TensorAlloc.Boot
import TensorAlloc.RegionRuns

namespace TensorAlloc

open DyadicBlocks

/-! ## 1. A node before it is set up -/

/-- A list of the node `nu`, of any order and of any CPU. -/
def ListOf (nu : Nat) : ListHead → Prop
  | .groupCell (.phy m _) _ _ => m = nu
  | .lruCacheCell (.phy m) _ => m = nu
  | _ => False

/-- The node `nu`, to be given the `n` descriptors from `itemPtr`: nothing listed, nothing counted,
    the descriptors zero. -/
structure Untaken (st : State) (nu n : Nat) (itemPtr : Item) : Prop where
  lists : ∀ h, ListOf nu h → st.lists h = [] ∧ st.counts h = 0#64
  items : ∀ d < n, st.items (itemPtr + d) = zeroed.items 0
  first : st.tables.phyItemStruct nu = 0
  order : st.tables.phyGroupOrder nu = 0

section Prepared

variable {st : State} {nu n k offset : Nat} {itemPtr : Item}

/-- Emptying empty lists changes nothing. -/
theorem resetLists_empty {p : ListHead → Bool}
    (h : ∀ l, p l = true → st.lists l = [] ∧ st.counts l = 0#64) : st.resetLists p = st := by
  have hl : (fun l => if p l then [] else st.lists l) = st.lists := by
    funext l
    split
    · next hp => exact (h l hp).1.symm
    · rfl
  have hc : (fun l => if p l then 0#64 else st.counts l) = st.counts := by
    funext l
    split
    · next hp => exact (h l hp).2.symm
    · rfl
  unfold State.resetLists
  rw [hl, hc]

theorem initFreeNodeList_empty
    (h : ∀ cpu, st.lists (.lruCacheCell (.phy nu) cpu) = [] ∧
      st.counts (.lruCacheCell (.phy nu) cpu) = 0#64) :
    initFreeNodeList st (.phy nu) = st := by
  refine resetLists_empty fun l hl => ?_
  cases l with
  | lruCacheCell node cpu =>
      obtain rfl := (of_decide_eq_true hl).1
      exact h cpu
  | _ => cases hl

theorem initFreeGroupList_empty {lvl : Nat}
    (h : ∀ t o, st.lists (.groupCell (.phy nu lvl) t o) = [] ∧
      st.counts (.groupCell (.phy nu lvl) t o) = 0#64) :
    initFreeGroupList st (.phy nu lvl) = st := by
  refine resetLists_empty fun l hl => ?_
  cases l with
  | groupCell g t o =>
      obtain rfl := (of_decide_eq_true hl).1
      exact h t o
  | _ => cases hl

/-- A zero descriptor is as `init_item` leaves it. -/
theorem initItem_zero {i : Item} (h : st.items i = zeroed.items 0) : initItem st i = st := by
  unfold initItem State.modItem
  dsimp only
  rw [h]
  have hself : Function.update st.items i (zeroed.items 0) = st.items := by
    rw [← h]
    exact Function.update_eq_self i st.items
  exact congrArg (fun f => { st with items := f }) hself

theorem initItems_zero {l : List Nat} {base : State → Nat}
    (h : ∀ d ∈ l, st.items (base st + d) = zeroed.items 0) :
    l.foldl (fun st d => initItem st (base st + d)) st = st := by
  induction l with
  | nil => rfl
  | cons d l ih =>
      rw [List.foldl_cons, initItem_zero (h d List.mem_cons_self)]
      exact ih fun d hd => h d (List.mem_cons_of_mem _ hd)

/-- The groups of the node, level by level: only `group->node` is written. -/
theorem initGroups_empty (l : List Nat)
    (h : ∀ lvl t o, st.lists (.groupCell (.phy nu lvl) t o) = [] ∧
      st.counts (.groupCell (.phy nu lvl) t o) = 0#64) :
    ∃ g, l.foldl (fun st lvl => initFreeGroupList (st.setTables fun t =>
        { t with groupNode := Function.update t.groupNode (.phy nu lvl) (.phy nu) }) (.phy nu lvl)) st =
          st.setTables (fun t => { t with groupNode := g }) ∧
      (∀ lvl, lvl ∈ l ∨ st.tables.groupNode (.phy nu lvl) = .phy nu → g (.phy nu lvl) = .phy nu) ∧
      ∀ m, m ≠ nu → ∀ lvl, g (.phy m lvl) = st.tables.groupNode (.phy m lvl) := by
  induction l generalizing st with
  | nil => exact ⟨_, rfl, fun lvl hl => hl.resolve_left List.not_mem_nil, fun _ _ _ => rfl⟩
  | cons a l ih =>
      obtain ⟨g, hrun, hown, hother⟩ := @ih (st.setTables fun t =>
        { t with groupNode := Function.update t.groupNode (.phy nu a) (.phy nu) }) h
      refine ⟨g, ?_, fun lvl hl => hown lvl ?_, fun m hm lvl => ?_⟩
      · have hself := @initFreeGroupList_empty (st.setTables fun t =>
          { t with groupNode := Function.update t.groupNode (.phy nu a) (.phy nu) }) nu a (h a)
        rw [List.foldl_cons, hself, hrun]
        rfl
      · by_cases he : lvl = a
        · subst he
          exact .inr (Function.update_self _ _ _)
        · refine hl.imp (fun hl => (List.mem_cons.mp hl).resolve_left he) fun hl => ?_
          exact (Function.update_of_ne (by simp [he]) _ _).trans hl
      · rw [hother m hm]
        exact Function.update_of_ne (by simp [hm]) _ _

/-- The tables of a node set up on `2 ^ k` descriptors from `itemPtr`. -/
structure TablesSet (t t' : Tables) (nu k : Nat) (itemPtr : Item) : Prop where
  groupNode : ∀ lvl < groupLvlNum, t'.groupNode (.phy nu lvl) = .phy nu
  groups : ∀ m, m ≠ nu → ∀ lvl, t'.groupNode (.phy m lvl) = t.groupNode (.phy m lvl)
  first : t'.phyItemStruct = Function.update t.phyItemStruct nu itemPtr
  last : t'.phyItemStructEnd nu = itemPtr + 2 ^ k
  top : t'.phyGroupLvl nu = nitemsToLvl (2 ^ k)
  tops : ∀ m, m ≠ nu → t'.phyGroupLvl m = t.phyGroupLvl m
  order : t'.phyGroupOrder = t.phyGroupOrder

/-- The record of the node: new, but for its dimension and what no function here reads. -/
structure RecordSet (st st' : State) (nu offset : Nat) : Prop where
  id : (st'.nodes (.phy nu)).nodeId = nu
  offset : (st'.nodes (.phy nu)).offset = offset
  mode : (st'.nodes (.phy nu)).status = .idle
  others : ∀ node, node ≠ .phy nu → st'.nodes node = st.nodes node

/-- **Up to the carving only the record and the tables of the node are written.** -/
theorem initPnode_prepared (r : BootReading) (hU : Untaken st nu (2 ^ k) itemPtr) (offset : Nat) :
    ∃ st1, st1.items = st.items ∧ st1.lists = st.lists ∧ st1.counts = st.counts ∧
      RecordSet st st1 nu offset ∧ TablesSet st.tables st1.tables nu k itemPtr ∧
      initPnode r st nu offset (2 ^ (12 + k)) itemPtr = initPnodeItem r st1 nu (2 ^ (12 + k)) := by
  have hshift : fls (2 ^ (12 + k)) - 1 - groupOrderNumShift = k := by
    rw [fls_two_pow]
    show 12 + k + 1 - 1 - 12 = k
    omega
  have hnode : initNode st nu offset (2 ^ (12 + k)) = { st with
      nodes := Function.update st.nodes (.phy nu)
        { st.nodes (.phy nu) with
          nodeId := nu, offset := offset, size := 2 ^ (12 + k), status := .idle
          sequeueStreamId := BitVec.ofNat 64 (nodeReservedRangeSize / fixedItemSize)
          nrFreeitems := BitVec.ofNat 64 (2 ^ (12 + k) / fixedItemSize) } } := by
    unfold initNode
    rw [initFreeNodeList_empty fun cpu => hU.lists (.lruCacheCell (.phy nu) cpu) rfl]
  unfold initPnode initItemPernode
  dsimp only
  rw [if_neg (Nat.two_pow_pos _).ne', hshift, hnode]
  generalize hst2 : State.setTables _ _ = st2
  have hitems2 : st2.items = st.items := by rw [← hst2]; rfl
  have hfirst2 : st2.tables.phyItemStruct = Function.update st.tables.phyItemStruct nu itemPtr := by
    rw [← hst2]
    show Function.update st.tables.phyItemStruct nu
      (if st.tables.phyItemStruct nu = 0 then itemPtr else st.tables.phyItemStruct nu) = _
    rw [if_pos hU.first]
  have hidx : itemToRelIdx st2 itemPtr nu = some 0 := by
    unfold itemToRelIdx
    rw [hfirst2, Function.update_self, if_pos (Nat.le_refl _), Nat.sub_self]
  rw [hidx, Option.map_some, Option.bind_eq_bind, Option.bind_some]
  rw [initItems_zero fun d hd => by
    rw [hitems2, hfirst2, Function.update_self]
    exact hU.items d (by simpa using List.mem_range'.mp hd)]
  have hlists : ∀ lvl t o, st2.lists (.groupCell (.phy nu lvl) t o) = [] ∧
      st2.counts (.groupCell (.phy nu lvl) t o) = 0#64 := fun lvl t o => by
    rw [← hst2]
    exact hU.lists (.groupCell (.phy nu lvl) t o) rfl
  obtain ⟨g, hrun, hown, hother⟩ := @initGroups_empty (st2.setTables fun t =>
    { t with phyGroupLvl := Function.update t.phyGroupLvl nu (nitemsToLvl (2 ^ (12 + k) / fixedItemSize)) })
    nu (List.range groupLvlNum) hlists
  unfold initGroupPernode
  dsimp only
  rw [hrun]
  refine ⟨_, ?_, ?_, ?_, ⟨?_, ?_, ?_, fun node hn => ?_⟩,
    ⟨fun lvl hl => ?_, fun m hm lvl => ?_, ?_, ?_, ?_, fun m hm => ?_, ?_⟩, rfl⟩
  · exact hitems2
  · rw [← hst2]
    rfl
  · rw [← hst2]
    rfl
  · rw [← hst2]
    simp [State.setTables]
  · rw [← hst2]
    simp [State.setTables]
  · rw [← hst2]
    simp [State.setTables]
  · rw [← hst2]
    simp [State.setTables, hn]
  · exact hown lvl (.inl (List.mem_range.mpr hl))
  · rw [← hst2] at hother
    exact hother m hm lvl
  · exact hfirst2
  · rw [← hst2]
    exact Function.update_self _ _ _
  · rw [size_items]
    exact Function.update_self _ _ _
  · rw [← hst2]
    exact Function.update_of_ne hm _ _
  · rw [← hst2]
    rfl

end Prepared

/-! ## 2. The carving -/

/-- What setting up the node `nu` leaves: `m` blocks of order `o` on the MOVABLE list of level `l`, its
    record and its tables; the rest as it was. -/
structure NodeCarved (st st' : State) (nu k l o m offset : Nat) (itemPtr : Item) : Prop where
  linked : st'.Linked
  lists : ∀ h, st'.lists h = st.lists h ++ if h = .groupCell (.phy nu l) .movable o then
    rowBelow (itemPtr + 2 ^ k) (o + functionItemLvl groupOrderNumShift l) m else []
  drift : st'.drift = st.drift
  items : ∀ i, i ∉ rowBelow (itemPtr + 2 ^ k) (o + functionItemLvl groupOrderNumShift l) m →
    st'.items i = st.items i
  record : RecordSet st st' nu offset
  groupNode : ∀ lvl < groupLvlNum, st'.tables.groupNode (.phy nu lvl) = .phy nu
  groups : ∀ p, p ≠ nu → ∀ lvl, st'.tables.groupNode (.phy p lvl) = st.tables.groupNode (.phy p lvl)
  first : st'.tables.phyItemStruct = Function.update st.tables.phyItemStruct nu itemPtr
  top : st'.tables.phyGroupLvl nu = (l : Int)
  tops : ∀ p, p ≠ nu → st'.tables.phyGroupLvl p = st.tables.phyGroupLvl p
  aligned : rangeToIdx offset % 2 ^ functionItemLvl groupOrderNumShift l = 0
  orders : st'.tables.phyGroupOrder = Function.update st.tables.phyGroupOrder nu (o + 1)
  level : l < groupLvlNum
  order : o ≤ maxItemOrder
  whole : m * 2 ^ (o + functionItemLvl groupOrderNumShift l) = 2 ^ k

section Carving

variable {st st' : State} {nu k l o m offset : Nat} {itemPtr : Item}

/-- A row that is listed is counted. -/
theorem RowAdded.drift {cell : ListHead} {row : List Item} (h : RowAdded st st' nu cell row) :
    st'.drift = st.drift := by
  funext c
  unfold State.drift
  rw [h.lists, h.counts, List.length_append, BitVec.ofNat_add]
  exact add_sub_add_right_eq_sub _ _ _

/-- The blocks of the row are the node's descriptors. -/
theorem mem_row (hwhole : m * 2 ^ (o + functionItemLvl groupOrderNumShift l) = 2 ^ k) {i : Item}
    (hi : i ∈ rowBelow (itemPtr + 2 ^ k) (o + functionItemLvl groupOrderNumShift l) m) :
    ∃ d < 2 ^ k, i = itemPtr + d := by
  obtain ⟨j, hj, rfl⟩ := mem_rowBelow.mp hi
  have hle : (j + 1) * 2 ^ (o + functionItemLvl groupOrderNumShift l) ≤ 2 ^ k :=
    hwhole ▸ Nat.mul_le_mul_right _ hj
  have hpos : 0 < (j + 1) * 2 ^ (o + functionItemLvl groupOrderNumShift l) :=
    Nat.mul_pos (Nat.succ_pos j) (Nat.two_pow_pos _)
  exact ⟨2 ^ k - (j + 1) * 2 ^ (o + functionItemLvl groupOrderNumShift l),
    Nat.sub_lt (Nat.two_pow_pos k) hpos, Nat.add_sub_assoc hle itemPtr⟩

/-- **A node that was not taken is carved**: one row of blocks on one list. -/
theorem initPnode_carved (hL : st.Linked) (hU : Untaken st nu (2 ^ k) itemPtr) (offset : Nat)
    (hk : 9 ≤ k) : ∃ st' l o m, initPnode .repaired st nu offset (2 ^ (12 + k)) itemPtr = some st' ∧
      NodeCarved st st' nu k l o m offset itemPtr := by
  obtain ⟨st1, hitems, hlists, hcounts, hrec, htab, hrun⟩ := initPnode_prepared .repaired hU offset
  obtain ⟨lvl, hlvl, hl, hu⟩ := nitemsToLvl_pow hk
  have htop : st1.tables.phyGroupLvl nu = lvl := by rw [htab.top, hlvl]
  obtain ⟨l, h1, h2, h3, h4⟩ := carveLevels_first (r := .repaired) (k := k)
    (c := ⟨st1, 2 ^ k, itemPtr + 2 ^ k⟩) (n := groupLvlNum - lvl) (by omega) hl hu rfl htop
  have hul : functionItemLvl groupOrderNumShift l ≤ k := by
    rw [groupLvlNum_eq] at hl h2
    rw [functionItemLvl_eq (by omega)] at hu ⊢
    omega
  have hle := carvedOrder_le hul
  have hwhole : 2 ^ (k - (carvedOrder k l + functionItemLvl groupOrderNumShift l)) *
      2 ^ (carvedOrder k l + functionItemLvl groupOrderNumShift l) = 2 ^ k := by
    rw [← Nat.pow_add, Nat.sub_add_cancel hle]
  -- the first block sets the order of the top level
  have htables : (topAt nu l st1).setTables (fun t =>
      if (l : Int) = t.phyGroupLvl nu ∧ t.phyGroupOrder nu = 0 then
        { t with phyGroupOrder :=
            Function.update t.phyGroupOrder nu (min (carvedOrder k l + 1) groupOrderNumShift) }
      else t) = st1.setTables (carvedTables nu l (carvedOrder k l)) := by
    have hmin : min (carvedOrder k l + 1) groupOrderNumShift = carvedOrder k l + 1 :=
      Nat.min_eq_left (Nat.succ_le_succ (Nat.le_trans (carvedOrder_le_max k l) (by decide)))
    unfold topAt State.setTables carvedTables
    dsimp only
    rw [if_pos ⟨by rw [Function.update_self], by rw [htab.order]; exact hU.order⟩, hmin]
  have hL1 : (st1.setTables (carvedTables nu l (carvedOrder k l))).Linked :=
    hL.congr hlists fun i => congrArg ItemStruct.onList (congrFun hitems i)
  obtain ⟨st', hblocks, hrow⟩ := carveBlocks_repaired nu l (carvedOrder k l)
    hL1 (show _ ≤ itemPtr + 2 ^ k by rw [hwhole]; exact Nat.le_add_left _ _) fun i hi => by
      obtain ⟨d, hd, rfl⟩ := mem_row hwhole hi
      show (st1.items (itemPtr + d)).onList = none
      rw [hitems, hU.items d hd]
      rfl
  refine ⟨st', l, carvedOrder k l, _, ?_, hrow.linked, fun h => ?_, ?_, fun i hi => ?_,
    ⟨?_, ?_, ?_, fun node hn => ?_⟩, fun lvl hlvl => ?_, fun p hp lvl => ?_, ?_, ?_, fun p hp => ?_, ?_,
    ?_, h2, carvedOrder_le_max k l, hwhole⟩
  · rw [hrun]
    unfold initPnodeItem
    dsimp only
    rw [htop, size_items, htab.last, if_neg (by omega), Int.toNat_natCast, h4]
    unfold carveOrder
    dsimp only
    rw [block_size, Nat.pow_div hle (by decide), if_neg (Nat.two_pow_pos _).ne', htables, hblocks]
    rfl
  · rw [hrow.lists, ← hlists]
    rfl
  · exact hrow.drift.trans (drift_congr hlists hcounts)
  · rw [hrow.others i hi, ← hitems]
    rfl
  · rw [hrow.nodes]
    exact hrec.id
  · rw [hrow.nodes]
    exact hrec.offset
  · rw [hrow.nodes]
    exact hrec.mode
  · rw [hrow.nodes]
    exact hrec.others node hn
  · rw [hrow.tables]
    exact htab.groupNode lvl hlvl
  · rw [hrow.tables]
    exact htab.groups p hp lvl
  · rw [hrow.tables]
    exact htab.first
  · rw [hrow.tables]
    exact Function.update_self _ _ _
  · rw [hrow.tables]
    exact (Function.update_of_ne hp _ _).trans (htab.tops p hp)
  · rw [← hrec.offset]
    exact h3
  · rw [hrow.tables]
    show Function.update st1.tables.phyGroupOrder nu _ = _
    rw [htab.order]

end Carving

/-! ## 3. The node divided, and the nodes beside it -/

section Divided

variable {st st' : State} {nu k l o m offset dim n nu' n' : Nat} {itemPtr itemPtr' : Item}
  {held : List Item}

theorem listOf_nodeList {h : ListHead} (hh : NodeList nu h) : ListOf nu h := by
  rcases hh with rfl | ⟨c, -, rfl⟩ <;> rfl

/-- Nothing is listed but the row. -/
theorem NodeCarved.own_lists (hC : NodeCarved st st' nu k l o m offset itemPtr)
    (hU : Untaken st nu (2 ^ k) itemPtr) {h : ListHead} (hh : ListOf nu h) :
    st'.lists h = if h = .groupCell (.phy nu l) .movable o then
      rowBelow (itemPtr + 2 ^ k) (o + functionItemLvl groupOrderNumShift l) m else [] := by
  rw [hC.lists, (hU.lists h hh).1, List.nil_append]

/-- The row, read as blocks. -/
theorem NodeCarved.free (hC : NodeCarved st st' nu k l o m offset itemPtr)
    (hU : Untaken st nu (2 ^ k) itemPtr) :
    freeBlocks st' nu = (rowBelow (2 ^ k) (o + functionItemLvl groupOrderNumShift l) m :
      Multiset Nat).map fun y => ⟨y, o + functionItemLvl groupOrderNumShift l⟩ := by
  have hfirst : st'.tables.phyItemStruct nu = itemPtr := by rw [hC.first, Function.update_self]
  unfold freeBlocks
  rw [hfirst, Finset.sum_eq_single_of_mem (l, .movable, o) (mem_nodeCells.mpr ⟨hC.level, hC.order⟩)]
  · have hown := hC.own_lists hU (h := .groupCell (.phy nu l) .movable o) rfl
    rw [if_pos rfl] at hown
    have hrow := map_sub_rowBelow itemPtr (itemPtr + 2 ^ k)
      (o + functionItemLvl groupOrderNumShift l) m
    rw [Nat.add_sub_cancel_left] at hrow
    show Multiset.map _ (st'.lists (.groupCell (.phy nu l) .movable o) : Multiset Item) = _
    rw [hown, ← hrow, Multiset.map_coe, Multiset.map_coe, List.map_map]
    rfl
  · intro c _ hne
    have hother : nodeCell nu c ≠ .groupCell (.phy nu l) .movable o := fun e =>
      hne (nodeCell_injective nu e)
    rw [hC.own_lists hU (h := nodeCell nu c) rfl, if_neg hother]
    rfl

/-- **A carved node is divided**, all of it free. -/
theorem NodeCarved.region (hC : NodeCarved st st' nu k l o m offset itemPtr) (hL : st.Linked)
    (hU : Untaken st nu (2 ^ k) itemPtr) (hk : k ≤ 30) (hdim : getCurrentNodeNum dim = some nu) :
    Region (st'.setDim (.phy nu) dim) nu [] (2 ^ k) := by
  have hfirst : st'.tables.phyItemStruct nu = itemPtr := by rw [hC.first, Function.update_self]
  have hnode : (st'.setDim (.phy nu) dim).nodes (.phy nu) =
      { st'.nodes (.phy nu) with dim := dim } := Function.update_self _ _ _
  have hcache : st'.lists (cacheCell nu) = [] := by
    rw [hC.own_lists hU (h := cacheCell nu) rfl, if_neg (by simp [cacheCell])]
  have hpow : 2 ^ k ≤ 2 ^ 30 := Nat.pow_le_pow_right (by decide) hk
  have hfree : freeBlocks (st'.setDim (.phy nu) dim) nu = freeBlocks st' nu :=
    freeBlocks_congr rfl rfl
  have hlive : liveBlocks (st'.setDim (.phy nu) dim) nu [] = 0 := by
    unfold liveBlocks
    rw [List.nil_append]
    show Multiset.map _ (st'.lists (cacheCell nu) : Multiset Item) = 0
    rw [hcache]
    rfl
  have horder : st'.tables.phyGroupOrder nu = o + 1 := by rw [hC.orders, Function.update_self]
  refine {
    linked := hC.linked.congr rfl fun _ => rfl
    node := ⟨hC.groupNode, by rw [hnode]; exact hC.record.id, by rw [hnode]; exact hdim,
      ⟨by show 1 ≤ st'.tables.phyGroupOrder nu; omega,
        by show st'.tables.phyGroupOrder nu ≤ _; have := hC.order; omega⟩,
      by rw [hnode]; show (st'.nodes _).status ≠ _; rw [hC.record.mode]; exact GroupStatus.noConfusion⟩
    nodup := List.nodup_nil
    off := fun _ hi => absurd hi List.not_mem_nil
    own := fun i hi => ?_
    based := fun i hi => ?_
    counted := fun c hc => ?_
    inside := fun h hh d hd hm => ?_
    orders := fun lvl t j hj => ?_
    aligned := fun b hb => ?_
    whole := ?_
    small := by omega }
  · rcases hi with hi | hi
    · cases hi
    · change i ∈ st'.lists (cacheCell nu) at hi
      rw [hcache] at hi
      cases hi
  · show st'.tables.phyItemStruct nu ≤ i
    rw [hfirst]
    rcases hi with hi | ⟨h, hh, hi⟩
    · cases hi
    · change i ∈ st'.lists h at hi
      rw [hC.own_lists hU (listOf_nodeList hh)] at hi
      split at hi
      · obtain ⟨d, -, rfl⟩ := mem_row hC.whole hi
        exact Nat.le_add_right _ _
      · cases hi
  · show st'.drift _ = 0
    obtain ⟨hl, hc⟩ := hU.lists (nodeCell nu c) rfl
    rw [hC.drift, drift_eq_zero, hl, hc]
    rfl
  · change st'.tables.phyItemStruct nu + d ∈ st'.lists h at hm
    rw [hfirst, hC.lists, if_neg, List.append_nil] at hm
    · have ho := (hL.mem _ h).mpr hm
      rw [hU.items d hd] at ho
      cases ho
    · rintro rfl
      exact hh (.inr ⟨(l, .movable, o), mem_nodeCells.mpr ⟨hC.level, hC.order⟩, rfl⟩)
  · show st'.lists (.groupCell (.phy nu lvl) t j) = []
    rw [hC.own_lists hU (h := .groupCell (.phy nu lvl) t j) rfl, if_neg]
    intro e
    injection e with _ _ e
    have := hC.order
    omega
  · rw [hfree, hlive, add_zero, hC.free hU] at hb
    obtain ⟨y, hy, rfl⟩ := Multiset.mem_map.mp hb
    obtain ⟨j, hj, rfl⟩ := mem_rowBelow.mp (Multiset.mem_coe.mp hy)
    rw [← hC.whole, ← Nat.sub_mul]
    exact Nat.dvd_mul_left _ _
  · intro d
    show cover (freeBlocks _ nu + liveBlocks _ nu []) d = _
    rw [hfree, hlive, add_zero, hC.free hU, tiles_rowBelow hC.whole d]
    simp only [mem_mk, Nat.zero_le, true_and, Nat.zero_add]

/-- **A node set up later leaves one that is divided.** -/
theorem Region.beside_carved (hR : Region st nu' held n')
    (hC : NodeCarved st st' nu k l o m offset itemPtr) (hne : nu' ≠ nu)
    (hap : ∀ d < 2 ^ k, ∀ d' < n', itemPtr + d ≠ st.tables.phyItemStruct nu' + d') :
    Region (st'.setDim (.phy nu) dim) nu' held n' ∧
      division (st'.setDim (.phy nu) dim) nu' held = division st nu' held := by
  have hnode : (st'.setDim (.phy nu) dim).nodes (.phy nu') = st.nodes (.phy nu') := by
    have hn : NodeRef.phy nu' ≠ .phy nu := fun e => hne (NodeRef.phy.inj e)
    exact (Function.update_of_ne hn _ _).trans (hC.record.others _ hn)
  have horder : st'.tables.phyGroupOrder nu' = st.tables.phyGroupOrder nu' := by
    rw [hC.orders, Function.update_of_ne hne]
  have hc : (l, .movable, o) ∈ nodeCells := mem_nodeCells.mpr ⟨hC.level, hC.order⟩
  refine hR.beside_row hne (hC.linked.congr rfl fun _ => rfl) ?_ ?_ ⟨hC.tops nu' hne, horder⟩ hc hC.lists
    hC.drift hC.items fun i hi d' hd' => ?_
  · refine ⟨fun lvl hl => ?_, by rw [hnode]; exact hR.node.id, by rw [hnode]; exact hR.node.current,
      ?_, by rw [hnode]; exact hR.node.mode⟩
    · exact (hC.groups nu' hne lvl).trans (hR.node.groups lvl hl)
    · show 1 ≤ st'.tables.phyGroupOrder nu' ∧ st'.tables.phyGroupOrder nu' ≤ _
      rw [horder]
      exact hR.node.orders
  · show st'.tables.phyItemStruct nu' = _
    rw [hC.first, Function.update_of_ne hne]
  · obtain ⟨d, hd, rfl⟩ := mem_row hC.whole hi
    exact hap d hd d' hd'

/-- A node still to be set up, with descriptors of its own, is left as it was. -/
theorem NodeCarved.untaken (hC : NodeCarved st st' nu k l o m offset itemPtr) (hne : nu' ≠ nu)
    (hU : Untaken st nu' n' itemPtr')
    (hap : ∀ d < 2 ^ k, ∀ d' < n', itemPtr + d ≠ itemPtr' + d') :
    Untaken (st'.setDim (.phy nu) dim) nu' n' itemPtr' := by
  refine ⟨fun h hh => ?_, fun d' hd' => ?_, ?_, ?_⟩
  · obtain ⟨hl, hc⟩ := hU.lists h hh
    have hother : h ≠ .groupCell (.phy nu l) .movable o := by
      rintro rfl
      exact hne (Eq.symm hh)
    have hlists : st'.lists h = [] := by rw [hC.lists, hl, if_neg hother]; rfl
    have hdrift : st'.drift h = 0 := by
      rw [hC.drift, drift_eq_zero, hl, hc]
      rfl
    refine ⟨hlists, ?_⟩
    have hcount := drift_eq_zero.mp hdrift
    rw [hlists] at hcount
    exact hcount
  · show st'.items _ = _
    rw [hC.items _ fun hi => ?_, hU.items d' hd']
    obtain ⟨d, hd, e⟩ := mem_row hC.whole hi
    exact hap d hd d' hd' e.symm
  · show st'.tables.phyItemStruct nu' = 0
    rw [hC.first, Function.update_of_ne hne, hU.first]
  · show st'.tables.phyGroupOrder nu' = 0
    rw [hC.orders, Function.update_of_ne hne, hU.order]

/-- Several nodes, and one more. -/
theorem Regions.carved {held : Nat → List Item} {n : Nat → Nat} {on : Nat → Prop}
    (hR : Regions st held n on) (hnu : ¬ on nu) (hC : NodeCarved st st' nu k l o m offset itemPtr)
    (hL : st.Linked) (hU : Untaken st nu (2 ^ k) itemPtr) (hk : k ≤ 30)
    (hdim : getCurrentNodeNum dim = some nu)
    (hap : ∀ p, on p → ∀ d < 2 ^ k, ∀ d' < n p, itemPtr + d ≠ st.tables.phyItemStruct p + d') :
    Regions (st'.setDim (.phy nu) dim) (Function.update held nu []) (Function.update n nu (2 ^ k))
      fun p => on p ∨ p = nu := by
  have hne : ∀ p, on p → p ≠ nu := fun p hp e => hnu (e ▸ hp)
  have hfirst : ∀ p, (st'.setDim (.phy nu) dim).tables.phyItemStruct p =
      if p = nu then itemPtr else st.tables.phyItemStruct p := fun p => by
    show st'.tables.phyItemStruct p = _
    rw [hC.first, Function.update_apply]
  refine ⟨fun p hp => ?_, fun p hp q hq hpq => ?_⟩
  · rcases hp with hp | rfl
    · rw [Function.update_of_ne (hne p hp), Function.update_of_ne (hne p hp)]
      exact ((hR.region p hp).beside_carved hC (hne p hp) (hap p hp)).1
    · rw [Function.update_self, Function.update_self]
      exact hC.region hL hU hk hdim
  · rw [hfirst, hfirst]
    rcases hp with hp | rfl <;> rcases hq with hq | rfl
    · rw [Function.update_of_ne (hne p hp), Function.update_of_ne (hne q hq), if_neg (hne p hp),
        if_neg (hne q hq)]
      exact hR.apart p hp q hq hpq
    · rw [Function.update_of_ne (hne p hp), Function.update_self, if_neg (hne p hp), if_pos rfl]
      exact fun d hd d' hd' e => hap p hp d' hd' d hd e.symm
    · rw [Function.update_of_ne (hne q hq), Function.update_self, if_neg (hne q hq), if_pos rfl]
      exact fun d hd d' hd' e => hap q hq d hd d' hd' e
    · exact absurd rfl hpq

end Divided

/-- **From setting a node up to any run on it**, list and heads as the repair has them: its descriptors
    are divided among the blocks of one list, a node beside it stays as it is, divided or still to be
    set up, and from there on every descriptor is in one block, on a list, in the cache or handed
    out. -/
theorem boot_divided (s : Searches) (env : StreamEnv) (depth fuel freeFuel : Nat) :
    ∀ r st nu k dim offset itemPtr, st.Linked → Untaken st nu (2 ^ k) itemPtr → 9 ≤ k → k ≤ 30 →
      getCurrentNodeNum dim = some nu →
      ∃ st', initPnode .repaired st nu offset (2 ^ (12 + k)) itemPtr = some st' ∧
        (∀ nu' held n', nu' ≠ nu → Region st nu' held n' →
          (∀ d < 2 ^ k, ∀ d' < n', itemPtr + d ≠ st.tables.phyItemStruct nu' + d') →
          Region (st'.setDim (.phy nu) dim) nu' held n' ∧
            division (st'.setDim (.phy nu) dim) nu' held = division st nu' held) ∧
        (∀ nu' n' itemPtr', nu' ≠ nu → Untaken st nu' n' itemPtr' →
          (∀ d < 2 ^ k, ∀ d' < n', itemPtr + d ≠ itemPtr' + d') →
          Untaken (st'.setDim (.phy nu) dim) nu' n' itemPtr') ∧
        Region (st'.setDim (.phy nu) dim) nu [] (2 ^ k) ∧
        ∀ x' ops,
          RunMeets env.itemarrayPrev r (s.withSparse env (fuel + 1)) (depth + 2) freeFuel nu
            (st'.setDim (.phy nu) dim, []) ops →
          counterRun r (s.withSparse env (fuel + 1)) (depth + 2) freeFuel nu
            (st'.setDim (.phy nu) dim, []) ops = some x' →
          Region x'.1 nu x'.2 (2 ^ k) := by
  intro r st nu k dim offset itemPtr hL hU h9 h30 hdim
  obtain ⟨st', l, o, m, hrun, hC⟩ := initPnode_carved hL hU offset h9
  have hR := hC.region hL hU h30 hdim
  exact ⟨st', hrun, fun nu' held n' hne hR' hap => hR'.beside_carved hC hne hap,
    fun nu' n' itemPtr' hne hU' hap => hC.untaken hne hU' hap, hR,
    fun x' ops hM h => (counterRun_stepped hR hM h).region⟩

/-- Nothing is taken of zeroed globals. -/
theorem zeroed_untaken (nu n : Nat) (itemPtr : Item) : Untaken zeroed nu n itemPtr :=
  ⟨fun _ _ => ⟨rfl, rfl⟩, fun _ _ => rfl, rfl, rfl⟩

/-- A time node and a memory node of `2 ^ 10` descriptors each, set up one after the other. -/
def bootedTwo : Option State :=
  (initPnode .repaired zeroed 0 0 (2 ^ 22) 8).bind fun st1 =>
    (initPnode .repaired (st1.setDim (.phy 0) dimTime) 16 (2 ^ 31) (2 ^ 22) 1032).map fun st2 =>
      st2.setDim (.phy 16) dimMemory

/-- Both are divided, beside each other. -/
theorem bootedTwo_regions : ∃ st, bootedTwo = some st ∧
    Regions st (fun _ => []) (fun _ => 2 ^ 10) fun nu => nu ∈ [0, 16] := by
  have hfirst : ∀ d < 2 ^ 10, ∀ d' < 2 ^ 10, 8 + d ≠ 1032 + d' := by omega
  obtain ⟨st1, l1, o1, m1, h1, hC1⟩ := initPnode_carved zeroed_linked (zeroed_untaken 0 (2 ^ 10) 8) 0
    (by decide)
  have hnone : Regions zeroed (fun _ => []) (fun _ => 2 ^ 10) fun _ => False :=
    ⟨fun _ h => h.elim, fun _ h => h.elim⟩
  have hR1 : Regions (st1.setDim (.phy 0) dimTime) _ _ fun p => False ∨ p = 0 :=
    hnone.carved id hC1 zeroed_linked (zeroed_untaken 0 _ 8) (by decide) rfl fun _ h => h.elim
  rw [Function.update_eq_self, Function.update_eq_self] at hR1
  have hL1 := (hR1.region 0 (.inr rfl)).linked
  have hU : Untaken (st1.setDim (.phy 0) dimTime) 16 (2 ^ 10) 1032 :=
    hC1.untaken (by decide) (zeroed_untaken 16 (2 ^ 10) 1032) hfirst
  obtain ⟨st2, l2, o2, m2, h2, hC2⟩ := initPnode_carved hL1 hU (2 ^ 31) (by decide)
  have hR2 : Regions (st2.setDim (.phy 16) dimMemory) _ _ fun p => (False ∨ p = 0) ∨ p = 16 :=
    hR1.carved (by simp) hC2 hL1 hU (by decide) rfl fun p hp => by
      obtain rfl := hp.resolve_left id
      show ∀ d < 2 ^ 10, ∀ d' < 2 ^ 10, 1032 + d ≠ st1.tables.phyItemStruct 0 + d'
      rw [hC1.first, Function.update_self]
      exact fun d hd d' hd' e => hfirst d' hd' d hd e.symm
  rw [Function.update_eq_self, Function.update_eq_self] at hR2
  have hon : ∀ nu, nu ∈ [0, 16] → (False ∨ nu = 0) ∨ nu = 16 := by simp
  refine ⟨_, ?_, fun nu hnu => hR2.region nu (hon nu hnu),
    fun nu hnu nu' hnu' => hR2.apart nu (hon nu hnu) nu' (hon nu' hnu')⟩
  unfold bootedTwo
  rw [h1, Option.bind_some, h2]
  rfl

/-- The block of the memory node is taken from the MOVABLE list and comes back as UNMOVABLE; from there
    it is cut for two requests, and the halves come back. -/
def cutAndBack : List CounterOp :=
  [.alloc 2 .unmovable 1 false, .free .unmovable 1032, .alloc 2 .unmovable 0 false,
    .alloc 2 .unmovable 0 false, .free .unmovable 1544, .free .unmovable 1032]

theorem bootedTwo_runs : (bootedTwo.bind fun st =>
    (counterRun .listFirst (noSearch.withSparse streamEnv 1) 2 1 16 (st, []) cutAndBack).map fun x =>
      x.1.lists (nodeCell 16 (2, .unmovable, 0))) = some [1032, 1544] := by
  decide +kernel

theorem bootedTwo_meets : ∀ st, bootedTwo = some st →
    RunMeets streamEnv.itemarrayPrev .listFirst (noSearch.withSparse streamEnv 1) 2 1 16 (st, [])
      cutAndBack := by
  decide +kernel

/-- The second node is set up beside the first, and the run on it leaves both divided. -/
theorem bootedTwo_divided : ∃ st x', bootedTwo = some st ∧ Region st 0 [] (2 ^ 10) ∧
    counterRun .listFirst (noSearch.withSparse streamEnv 1) 2 1 16 (st, []) cutAndBack = some x' ∧
    x'.1.lists (nodeCell 16 (2, .unmovable, 0)) = [1032, 1544] ∧ Region x'.1 16 x'.2 (2 ^ 10) := by
  have hfirst : ∀ d < 2 ^ 10, ∀ d' < 2 ^ 10, 8 + d ≠ 1032 + d' := by omega
  obtain ⟨st1, h1, -, htaken, hR1, -⟩ := boot_divided noSearch streamEnv 0 0 1 .listFirst zeroed 0 10
    dimTime 0 8 zeroed_linked (zeroed_untaken 0 _ 8) (by decide) (by decide) rfl
  have hU := htaken 16 (2 ^ 10) 1032 (by decide) (zeroed_untaken 16 _ 1032) hfirst
  obtain ⟨st2, h2, hbeside, -, -, hruns⟩ := boot_divided noSearch streamEnv 0 0 1 .listFirst
    (st1.setDim (.phy 0) dimTime) 16 10 dimMemory (2 ^ 31) 1032 hR1.linked hU (by decide) (by decide) rfl
  have hst : bootedTwo = some (st2.setDim (.phy 16) dimMemory) := by
    unfold bootedTwo
    rw [h1, Option.bind_some, h2]
    rfl
  have hat : ∀ st, initPnode .repaired zeroed 0 0 (2 ^ 22) 8 = some st →
      st.tables.phyItemStruct 0 = 8 := by
    decide +kernel
  have hR0 := (hbeside 0 [] (2 ^ 10) (by decide) hR1 fun d hd d' hd' e => by
    change 1032 + d = st1.tables.phyItemStruct 0 + d' at e
    rw [hat st1 h1] at e
    exact hfirst d' hd' d hd e.symm).1
  have hrun := bootedTwo_runs
  rw [hst, Option.bind_some] at hrun
  obtain ⟨x', hx, hlist⟩ := Option.map_eq_some_iff.mp hrun
  exact ⟨_, x', hst, hR0, hx, hlist, hruns x' cutAndBack (bootedTwo_meets _ hst) hx⟩

end TensorAlloc
