/-
  File:      TensorAlloc/RegionFree.lean
  Subject:   A block given back to a divided node.

  * `Untouched` -- what the rounds of a merge keep: the lists that are not the node's, and each count
    with its list;
  * `freeFits_of_listed` -- the condition on a free, from where the buddies are listed;
  * `freed_exchange` -- the free exchanges the blocks it merges for the one it lists, and they tile it;
  * `Region.putBack`, `Region.given` -- the free is `Division.Step.give`.
-/
import TensorAlloc.Region

namespace TensorAlloc

open DyadicBlocks

/-! ## 1. The lists during a merge -/

/-- The lists at a point of a merge, against those before the free. -/
structure Untouched (st0 st : State) (nu : Nat) : Prop where
  lists : ∀ h, ¬ NodeList nu h → st.lists h = st0.lists h
  sub : ∀ h j, j ∈ st.lists h → j ∈ st0.lists h
  drift : st.drift = st0.drift

section Merging

variable {st0 st st' : State} {nu lvl order x a n maxOrder : Nat} {mt : MigrationType}
  {v v' : MergeVars} {top : Bool} {item : Item}

/-- A buddy that leaves the list it is counted on. -/
theorem Untouched.merge (h : Untouched st0 st nu) {page : Item} {y : Nat}
    (hL : st.Linked) (hc : (lvl, mt, v.order) ∈ nodeCells)
    (hon : (st.items page).onList = some (.groupCell (.phy nu lvl) mt v.order))
    (hm : mergeBuddy st (.phy nu lvl) mt v y page = some (st', v')) : Untouched st0 st' nu := by
  obtain ⟨l, hl, hlists⟩ := mergeBuddy_lists hm
  rw [hon, Option.some.injEq] at hl
  subst hl
  have hmem := (hL.mem page _).mp hon
  refine ⟨fun l hl => ?_, fun l j hj => ?_, ?_⟩
  · rw [hlists, if_neg, h.lists l hl]
    rintro rfl
    exact hl (nodeList_cell hc)
  · rw [hlists] at hj
    split at hj
    · next e =>
        rw [e]
        exact h.sub _ j (List.mem_of_mem_erase hj)
    · exact h.sub l j hj
  · rw [← h.drift]
    funext l
    by_cases hcell : l = .groupCell (.phy nu lvl) mt v.order
    · subst hcell
      refine drift_loss ?_ ?_
      · rw [hlists, if_pos rfl, List.length_erase_of_mem hmem]
        have := List.length_pos_of_mem hmem
        omega
      · rw [mergeBuddy_counts hm, if_pos rfl]
    · unfold State.drift
      rw [hlists, if_neg hcell, mergeBuddy_counts hm, if_neg hcell, sub_zero]

/-- Step: what a round of the loop takes off a list it takes off one of the node's. -/
theorem Untouched.step (h : Untouched st0 st nu) (hlvl : lvl < groupLvlNum)
    (hx : x = item - st0.tables.phyItemStruct nu)
    (ha : a = order + functionItemLvl groupOrderNumShift lvl)
    (hB : BuddiesListed st0 nu lvl order mt maxOrder (top = true) item)
    (hM : Merging st0 nu lvl order mt x a n st v) (hn : order + n ≤ maxItemOrder)
    (hbefore : ∀ m < n, TakesBuddy st0 (st0.tables.phyItemStruct nu) x a mt maxOrder (top = true) order m)
    {e : Option MergeExit} (hs : mergeStep (.phy nu lvl) mt maxOrder top st v = some (st', v', e)) :
    Untouched st0 st' nu := by
  have hmod : ∀ i f, Untouched st0 (st.modFlags i f) nu := fun i f => ⟨h.lists, h.sub, h.drift⟩
  rcases mergeStep_cases hs with ⟨-, rfl, -⟩ | ⟨-, rfl, -⟩ | ⟨-, -, rfl, -⟩ |
    ⟨-, -, -, rfl, -, -, -, hm⟩
  · exact h
  · exact hmod _ _
  · exact hmod _ _
  · have htakes : TakesBuddy st0 (st0.tables.phyItemStruct nu) x a mt maxOrder (top = true) order n := by
      rcases hM.absorbed.step hs with ⟨_, he, -⟩ | ⟨-, -, ht⟩
      · cases he
      · exact ht
    subst hx ha
    obtain ⟨hon, -⟩ := hB n fun m hm => by
      rcases Nat.eq_or_lt_of_le hm with rfl | hlt
      · exact htakes
      · exact hbefore m hlt
    obtain ⟨hpage, hsame, -⟩ := hM.absorbed.page
    have hc : (lvl, mt, v.order) ∈ nodeCells := mem_nodeCells.mpr ⟨hlvl, by rw [hM.ord]; exact hn⟩
    refine (hmod _ _).merge (hM.linked.modFlags _ _) hc ?_ hm
    rw [modFlags_onList, hpage, hsame, hon, hM.ord]

/-- Run: with `Merging` beside it. -/
theorem Merging.run_untouched (hmt : mt ≠ .sparseMovable) (hlvl : lvl < groupLvlNum)
    (hpos : 1 ≤ maxOrder) (hmax : maxOrder ≤ maxItemOrder + 1)
    (hx : x = item - st0.tables.phyItemStruct nu)
    (ha : a = order + functionItemLvl groupOrderNumShift lvl)
    (hB : BuddiesListed st0 nu lvl order mt maxOrder (top = true) item) {k : Nat}
    (h : Merging st0 nu lvl order mt x a 0 st v) (hU : Untouched st0 st nu)
    (hlow : StaysLow maxOrder (top = true) order) {exit : MergeExit}
    (hs : mergeLoop (.phy nu lvl) mt maxOrder top k st v = some (st', v', exit)) :
    ∃ n', Merging st0 nu lvl order mt x a n' st' v' ∧ order + n' ≤ maxItemOrder ∧
      (exit = .done → v'.order < maxItemOrder) ∧ Untouched st0 st' nu := by
  refine mergeLoop_rule
    (fun s w => ∃ n, Merging st0 nu lvl order mt x a n s w ∧ StaysLow maxOrder (top = true) (order + n) ∧
      (∀ m < n, TakesBuddy st0 (st0.tables.phyItemStruct nu) x a mt maxOrder (top = true) order m) ∧
      Untouched st0 s nu)
    (fun s w exit => ∃ n', Merging st0 nu lvl order mt x a n' s w ∧ order + n' ≤ maxItemOrder ∧
      (exit = .done → w.order < maxItemOrder) ∧ Untouched st0 s nu)
    (fun ⟨n, h, hlow, hbefore, hU⟩ hstep => ?_) (fun ⟨n, h, hlow, hbefore, hU⟩ hstep => ?_) hs
    ⟨0, h, hlow, fun m hm => absurd hm (Nat.not_lt_zero m), hU⟩
  · have hU' := hU.step hlvl hx ha hB h hlow.le hbefore hstep
    obtain ⟨exit, he, -⟩ | ⟨-, hM, hlow', hall⟩ :=
      h.step hmt hlvl hpos hmax hx ha hB hlow hbefore hstep
    · cases he
    · exact ⟨n + 1, hM, hlow', hall, hU'⟩
  · have hU' := hU.step hlvl hx ha hB h hlow.le hbefore hstep
    obtain ⟨exit, he, hM, hdone⟩ | ⟨he, -⟩ :=
      h.step hmt hlvl hpos hmax hx ha hB hlow hbefore hstep
    · cases he
      exact ⟨n, hM, hlow.le, hdone, hU'⟩
    · cases he

/-- The insertion counts the block it lists. -/
theorem Untouched.insert (h : Untouched st0 st nu) (hc : (lvl, mt, v.order) ∈ nodeCells) {tail : Bool}
    (hs : insertFreed .listFirst (.phy nu lvl) mt lvl tail st v = some st') :
    (∀ h, ¬ NodeList nu h → st'.lists h = st0.lists h) ∧
      (∀ h j, j ∈ st'.lists h → j = v.item ∨ j ∈ st0.lists h) ∧ st'.drift = st0.drift := by
  have hlists := insertFreed_lists hs
  refine ⟨fun l hl => ?_, fun l j hj => ?_, ?_⟩
  · have hne : l ≠ .groupCell (.phy nu lvl) mt v.order := fun e => hl (e ▸ nodeList_cell hc)
    rw [← h.lists l hl]
    rw [insertFreed_listFirst, Option.some.injEq] at hs
    rw [← hs]
    cases tail <;> simp [hne]
  · have hm := (hlists l).mem_iff.mp hj
    split at hm
    · exact (List.mem_cons.mp hm).imp_right (h.sub l j)
    · exact .inr (h.sub l j hm)
  · rw [← h.drift]
    funext l
    have hlen := (hlists l).length_eq
    by_cases hcell : l = .groupCell (.phy nu lvl) mt v.order
    · rw [if_pos hcell, List.length_cons] at hlen
      exact drift_gain hlen (by rw [insertFreed_counts hs, if_pos hcell])
    · rw [if_neg hcell] at hlen
      unfold State.drift
      rw [hlen, insertFreed_counts hs, if_neg hcell, add_zero]

end Merging

/-! ## 2. The exchange -/

section Exchange

variable {st st' : State} {nu lvl order maxOrder : Nat} {mt : MigrationType} {top : Prop}
  {item i : Item} {given : Block} {still : Multiset Block}

/-- The region held after `m` merges, by its order. -/
theorem mergedIdx_eq {x s : Nat} (ha : 2 ^ (order + s) ∣ x) (m : Nat) :
    mergedIdx x (order + s) m = headAt x s (order + m) := by
  induction m with
  | zero => exact (headAt_self ha).symm
  | succ m ih =>
      rw [mergedIdx, ih, ← Nat.add_assoc, ← headAt_succ, buddyAt, Nat.add_right_comm]
      rfl

theorem mergedBuddy_eq {x s : Nat} (ha : 2 ^ (order + s) ∣ x) (m : Nat) :
    mergedBuddy x (order + s) m = buddyAt x s (order + m) := by
  rw [mergedBuddy, mergedIdx_eq ha, buddyAt, Nat.add_right_comm]
  rfl

/-- **The condition on a free, from where its buddies are listed.** -/
theorem freeFits_of_listed (hpos : 1 ≤ maxOrder) (hmax : maxOrder ≤ maxItemOrder + 1)
    (hset : maxOrder = 1 → order = 0) (hlow : StaysLow maxOrder top order)
    (ha : 2 ^ (order + functionItemLvl groupOrderNumShift lvl) ∣ item - st.tables.phyItemStruct nu)
    (hB : BuddiesListed st nu lvl order mt maxOrder top item) :
    FreeFits st nu lvl (item - st.tables.phyItemStruct nu) order mt maxOrder top := by
  have hsub : orderSub maxOrder 1 = maxOrder - 1 :=
    orderSub_eq hpos (by simp only [maxItemOrder_eq] at hmax; omega)
  refine ⟨hset, hlow.imp_right fun h => h.2, fun j h1 hall => ?_⟩
  obtain ⟨m, rfl⟩ := Nat.exists_eq_add_of_le h1
  obtain ⟨hon, hnext⟩ := hB m fun k hk => by
    obtain ⟨below, type, cap, whole, buddy, valid⟩ := hall (order + k) (Nat.le_add_right _ _)
      (Nat.add_le_add_left hk _)
    refine ⟨by omega, type, fun hc => cap ⟨hc.1, by omega⟩, ?_, ?_, ?_⟩
    · rw [mergedIdx_eq ha]
      exact whole
    · rw [mergedBuddy_eq ha]
      exact buddy
    · rw [mergedBuddy_eq ha]
      exact valid
  rw [mergedBuddy_eq ha] at hon
  exact ⟨⟨mt, hon⟩, hnext⟩

/-- What a free exchanges: `gone` leaves the lists, `block` is listed, and with the block given back
    the first tile the second. -/
structure Exchanged (st st' : State) (nu : Nat) (given : Block) (rest gone : Multiset Block)
    (block : Block) : Prop where
  before : freeBlocks st nu = gone + rest
  after : freeBlocks st' nu = block ::ₘ rest
  tiles : Tiles (given ::ₘ gone) block
  aligned : block.Aligned
  lists : ∀ h, ¬ NodeList nu h → st'.lists h = st.lists h
  mem : ∀ h j, j ∈ st'.lists h → j = st.tables.phyItemStruct nu + block.start ∨ j ∈ st.lists h
  drift : st'.drift = st.drift

/-- **The free exchanges the blocks it merges for the one it lists.** -/
theorem freed_exchange (hN : NodeState st nu given still) (hmt : mt ≠ .sparseMovable)
    (hlvl : lvl < groupLvlNum)
    (hcur : getCurrentNodeNum (st.nodeOf (.phy nu lvl)).dim = some nu)
    (hpgo : 1 ≤ st.tables.phyGroupOrder nu ∧ st.tables.phyGroupOrder nu ≤ maxItemOrder + 1)
    (hnode : getItemNode (st.items item).flags = nu) (hoff : (st.items item).onList = none)
    (hbase : st.tables.phyItemStruct nu ≤ item)
    (hg : given = blockAt (st.tables.phyItemStruct nu) lvl order item)
    (hlow : StaysLow (levelMaxOrder st nu lvl) ((lvl : Int) = st.tables.phyGroupLvl nu) order)
    (hB : BuddiesListed st nu lvl order mt (levelMaxOrder st nu lvl)
      ((lvl : Int) = st.tables.phyGroupLvl nu) item)
    (h : freeGroupMigration .listFirst st item (.phy nu lvl) lvl order mt = some (st', i)) :
    ∃ rest gone block, Exchanged st st' nu given rest gone block := by
  have htopiff : ((lvl : Int) = st.tables.phyGroupLvl nu) ↔
      decide ((lvl : Int) = st.tables.phyGroupLvl nu) = true := decide_eq_true_iff.symm
  rw [propext htopiff] at hlow hB
  have hround : ∀ st1 e, freePass .listFirst (st.nodeOf (.phy nu lvl)).dim nu (.phy nu lvl) mt lvl st item
      order (order + functionItemLvl groupOrderNumShift lvl) none = some (st1, e) →
        ∃ j, e = .inserted j ∧ ∃ rest gone block, Exchanged st st1 nu given rest gone block := by
    intro st1 e hp
    have hset : levelMaxOrder st nu lvl = 1 → order = 0 := by
      intro hone
      by_contra hne
      rw [freePass_unset hmt hcur hone item (Nat.pos_of_ne_zero hne) hlow.le] at hp
      cases hp
    obtain ⟨idx, maxOrder, topLvl, st2, v, exit, hidx, hm, ht, hloop, hleave⟩ := freePass_cases hp
    have hcap := orderCap_of hmt hcur hpgo hm ht
    simp only [maxOrderOf, if_neg hmt, hcur, Option.map_some, Option.some.injEq] at hm
    simp only [topLvlOf, if_neg hmt, hcur, Option.map_some, Option.some.injEq] at ht
    have hm' : maxOrder = levelMaxOrder st nu lvl := hm.symm
    subst hm' ht
    rw [itemToRelIdx, if_pos hbase, Option.some.injEq] at hidx
    subst hidx
    have hitem : st.tables.phyItemStruct nu + (item - st.tables.phyItemStruct nu) = item :=
      Nat.add_sub_cancel' hbase
    have hmax : levelMaxOrder st nu lvl ≤ maxItemOrder + 1 := by
      rcases hcap.2 with hc | ⟨hc, -⟩ <;> omega
    -- the loop, once for the links and once for the blocks
    have hH := held_start hN (v := ⟨item, item - st.tables.phyItemStruct nu, order,
      order + functionItemLvl groupOrderNumShift lvl, none⟩) hitem.symm hg
    have ha : 2 ^ (order + functionItemLvl groupOrderNumShift lvl) ∣
        item - st.tables.phyItemStruct nu := hH.aligned
    obtain ⟨n, hM, hn, hdone, hU⟩ := Merging.run_untouched hmt hlvl hcap.1 hmax rfl rfl hB
      (show Merging st nu lvl order mt (item - st.tables.phyItemStruct nu)
          (order + functionItemLvl groupOrderNumShift lvl) 0 st
          ⟨item, item - st.tables.phyItemStruct nu, order,
            order + functionItemLvl groupOrderNumShift lvl, none⟩ from
        ⟨hitem.symm, rfl, rfl, rfl, hN.linked, rfl, rfl, hoff, fun _ _ => rfl, fun _ => rfl,
          fun _ _ _ _ => rfl, rfl, fun _ _ _ => rfl, .inl hitem.symm, rfl⟩)
      ⟨fun _ _ => rfl, fun _ _ hj => hj, rfl⟩ hlow hloop
    obtain ⟨gone, hF⟩ := mergeLoop_first hN hcap hlvl hH (merged_start rfl rfl ha) hlow.le
      (iff_of_true (by rw [Multiset.cons_zero, hg]; exact tiles_self _) fun j h1 h2 => by
        dsimp only at h1 h2
        omega) hloop
    have hfit := freeFits_of_listed hcap.1 hmax hset hlow ha hB
    have htiles := hF.tiles.mpr fun j h1 h2 =>
      (hfit.right j h1 fun i hi1 hi2 => hF.merged.merges i hi1 (by omega)).1
    have hoi := hF.merged.orderIndex
    rcases leavePass_cases hleave with ⟨tail, hi, he⟩ | ⟨hex, hge, -, -⟩
    · have hc : (lvl, mt, v.order) ∈ nodeCells := mem_nodeCells.mpr ⟨hlvl, hF.order⟩
      obtain ⟨hlists, hmem, hdrift⟩ := hU.insert hc hi
      have hblocks := insertFreed_blocks hF.held hlvl hF.order hi
      refine ⟨_, he, freeBlocks st2 nu, gone, ⟨v.idx, v.orderIndex⟩, ?_, ?_, htiles, hF.held.aligned,
        hlists, fun l j hj => ?_, hdrift⟩
      · rw [← hF.held.blocks, add_comm]
      · rw [← hoi, ← hF.held.blocks, ← Multiset.cons_add] at hblocks
        exact Multiset.add_left_inj.mp hblocks
      · rw [← hF.held.item]
        exact hmem l j hj
    · exact absurd (hdone hex) (Nat.not_lt.mpr hge)
  unfold freeGroupMigration at h
  rw [hnode, if_neg hmt] at h
  rcases freeLoop_cases h with hp | ⟨st1, v1, lvl', -, hp, -⟩
  · obtain ⟨_, -, hex⟩ := hround _ _ hp
    exact hex
  · obtain ⟨_, he, -⟩ := hround _ _ hp
    cases he

end Exchange

/-! ## 3. A block given back -/

section Giving

variable {st st' : State} {nu n fuel : Nat} {held freed : List Item} {mt : MigrationType}
  {item i : Item}

/-- The blocks in use, the one given back first. -/
theorem liveBlocks_erase (hi : item ∈ held) :
    liveBlocks st nu held = markedBlock st nu item ::ₘ liveBlocks st nu (held.erase item) := by
  unfold liveBlocks
  rw [← Multiset.map_cons, Multiset.cons_coe, Multiset.coe_eq_coe.mpr
    ((List.perm_cons_erase hi).append_right (st.lists (cacheCell nu)))]
  rfl

/-- The node as a free finds it. -/
theorem Region.nodeState (hR : Region st nu held n) (hi : item ∈ held) :
    NodeState st nu (markedBlock st nu item) (liveBlocks st nu (held.erase item)) where
  linked := hR.linked
  based c hc i hi := hR.based i (.inr ⟨_, nodeList_cell hc, hi⟩)
  counted c hc := by
    have hlen : (st.lists (nodeCell nu c)).length ≤ volume (freeBlocks st nu) := length_le_volume hc
    have hvol : volume (freeBlocks st nu) + volume (liveBlocks st nu held) = n := hR.whole.volume
    have hsmall := hR.small
    exact ⟨by omega, drift_eq_zero.mp (hR.counted c hc)⟩
  aligned b hb := hR.aligned b (Multiset.mem_add.mpr (.inl hb))
  givenAligned := hR.aligned _ (Multiset.mem_add.mpr (.inr (mem_liveBlocks (.inl hi))))
  apart := by
    rw [← liveBlocks_erase hi]
    exact hR.free_apart

/-- **A free puts one block back into the division**: it is listed together with the free ones it
    completes. -/
theorem Region.putBack (hR : Region st nu held n) (hi : item ∈ held) (hmt : mt ≠ .movable)
    (hB : BuddiesListed st nu (blockLvl st item) (blockOrder st item) mt
      (levelMaxOrder st nu (blockLvl st item)) ((blockLvl st item : Int) = st.tables.phyGroupLvl nu) item)
    (h : freeGroupMigration .listFirst st item (.phy nu (blockLvl st item)) (blockLvl st item)
      (blockOrder st item) mt = some (st', i)) :
    Stepped st st' nu held (held.erase item) n := by
  have hlvl : blockLvl st item < groupLvlNum := Nat.lt_succ_of_le (blockLvl_le st item)
  have hown := hR.own item (.inl hi)
  have hof : st.nodeOf (.phy nu (blockLvl st item)) = st.nodes (.phy nu) :=
    congrArg st.nodes (hR.node.groups _ hlvl)
  have hcur : getCurrentNodeNum (st.nodeOf (.phy nu (blockLvl st item))).dim = some nu := by
    rw [hof]
    exact hR.node.current
  have hback := freeGroupMigration_putsBack hR.linked hmt hlvl hcur hR.node.orders hown.node
    (hR.off item hi) hown.low hB h
  obtain ⟨rest, gone, block, hX⟩ := freed_exchange (hR.nodeState hi) hmt hlvl hcur hR.node.orders
    hown.node (hR.off item hi) (hR.based item (.inl hi)) rfl hown.low hB h
  have haside : ∀ j, j ∈ held.erase item ∨ j ∈ st.lists (cacheCell nu) → st'.items j = st.items j :=
    fun j hj => hback.aside hR.sound hi hj
  have hcache : st'.lists (cacheCell nu) = st.lists (cacheCell nu) := hback.lists _ fun k => by simp
  have hlive : liveBlocks st' nu (held.erase item) = liveBlocks st nu (held.erase item) := by
    unfold liveBlocks
    rw [hcache]
    exact map_markedBlock_congr (List.Perm.refl _) hback.tables fun j hj =>
      congrArg marks (haside j (List.mem_append.mp hj))
  have hstep : (division st nu held).Step (division st' nu (held.erase item)) := by
    unfold division
    rw [hX.before, hX.after, hlive, liveBlocks_erase hi]
    exact .give hX.tiles
  refine ⟨{
    linked := hback.linked
    node := hR.node.congr hback.tables (by rw [hback.nodes]) (by rw [hback.nodes])
      (by rw [hback.nodes]; exact hR.node.mode)
    nodup := hR.nodup.erase item
    off := fun j hj => by rw [haside j (.inl hj)]; exact hR.off j (List.mem_of_mem_erase hj)
    own := fun j hj => ?_
    based := fun j hj => ?_
    counted := fun c hc => by rw [hX.drift]; exact hR.counted c hc
    inside := fun h hh => by rw [hX.lists h hh, hback.tables]; exact hR.inside h hh
    orders := fun lvl mt k hk => (hX.lists _ (not_nodeList_order hk)).trans (hR.orders lvl mt k hk)
    aligned := fun b hb => ?_
    whole := hstep.whole hR.whole
    small := hR.small }, ⟨hback.tables, by rw [hback.nodes],
      fun node _ => congrFun hback.nodes node, hX.lists, hX.drift,
      fun j hj => hback.kept j (fun e => ?_) fun k ho => ?_⟩,
    .single hstep⟩
  · rw [hcache] at hj
    exact (hR.own j (hj.imp_left List.mem_of_mem_erase)).congr hback.tables
      (congrArg marks (haside j hj))
  · rw [hback.tables]
    rcases hj with hj | ⟨h, hh, hj⟩
    · exact hR.based j (.inl (List.mem_of_mem_erase hj))
    · rcases hX.mem h j hj with rfl | hj
      · exact Nat.le_add_right _ _
      · exact hR.based j (.inr ⟨h, hh, hj⟩)
  · rw [hX.after, hlive, Multiset.mem_add, Multiset.mem_cons] at hb
    rcases hb with (rfl | hb) | hb
    · exact hX.aligned
    · exact hR.aligned b (Multiset.mem_add.mpr (.inl (by
        rw [hX.before]; exact Multiset.mem_add.mpr (.inr hb))))
    · exact hR.aligned b (Multiset.mem_add.mpr (.inr (by
        rw [liveBlocks_erase hi]; exact Multiset.mem_cons_of_mem hb)))
  · obtain ⟨d, hd, he⟩ := hR.inRange (.inl hi)
    exact hj d hd (e.trans he)
  · -- a listed descriptor is one of the node's, and no list is of an order above 8
    have hm := (hR.linked.mem j _).mp ho
    have hk : k ≤ maxItemOrder := by
      by_contra hk
      rw [hR.orders _ mt k (Nat.lt_of_not_le hk)] at hm
      cases hm
    obtain ⟨d, hd, he⟩ := hR.listed_inRange (c := (blockLvl st item, mt, k))
      (mem_nodeCells.mpr ⟨hlvl, hk⟩) hm
    exact hj d hd he

/-- **A block given back alone.** -/
theorem Region.given (hR : Region st nu held n) (hi : item ∈ held) (hmt : mt ≠ .movable)
    (hB : BuddiesListed st nu (blockLvl st item) (blockOrder st item) mt
      (levelMaxOrder st nu (blockLvl st item)) ((blockLvl st item : Int) = st.tables.phyGroupLvl nu) item)
    (h : dequeueGroupMigration .listFirst mt fuel st item = some (st', freed)) :
    Stepped st st' nu held (held.erase item) n := by
  cases fuel with
  | zero => cases h
  | succ fuel =>
      rw [dequeueGroupMigration_once] at h
      obtain ⟨⟨st1, i⟩, hf, he⟩ := Option.map_eq_some_iff.mp h
      obtain ⟨rfl, -⟩ := Prod.mk.inj he
      rw [(hR.own item (.inl hi)).blockNode] at hf
      -- the chain's head is taken off first
      have hhead : Stepped st (compoundRemoveHead st item).1 nu held held n := by
        unfold compoundRemoveHead
        split
        · exact ⟨hR, .refl _ _ _, .refl⟩
        · exact hR.written (.inl hi) (f := fun x =>
            { x with compoundHead := false, compoundNode := none }) rfl rfl
      have hf0 := fun j => compoundRemoveHead_flags st item j
      obtain ⟨-, ht0, -⟩ := compoundRemoveHead_rest st item
      have hlinks := fun j => compoundRemoveHead_links st item j
      generalize (compoundRemoveHead st item).1 = st0 at hf hf0 ht0 hlinks hhead
      have hlvl0 : blockLvl st0 item = blockLvl st item := by
        unfold blockLvl
        rw [hf0]
      have hord0 : blockOrder st0 item = blockOrder st item := by
        unfold blockOrder
        rw [hf0]
      have hB0 := hB.congr ht0 hf0 fun j => (hlinks j).1
      have hback := hhead.region.putBack hi hmt (by
        unfold levelMaxOrder at hB0 ⊢
        rw [hlvl0, hord0, ht0]
        exact hB0) (by rw [hlvl0, hord0]; exact hf)
      -- the credit writes the counter only
      obtain ⟨hitems, hlists, htables⟩ := counted_rest mt item st st1
      have hcounts : (TensorAlloc.counted mt item st st1).counts = st1.counts := by
        unfold TensorAlloc.counted
        split <;> rfl
      have hnode := @counted_node st nu mt item (hR.own item (.inl hi)).blockNode st1
      refine (hhead.trans hback).trans (hback.region.recorded hitems hlists hcounts htables
        (by rw [hnode]; rfl) (fun node hne => ?_) ?_)
      · unfold TensorAlloc.counted
        split
        · rw [(hR.own item (.inl hi)).blockNode]
          simp [State.raiseFree, hne]
        · rfl
      · exact hback.region.node.congr htables (by rw [hnode]) (by rw [hnode])
          (by rw [hnode]; exact hback.region.node.mode)

end Giving

end TensorAlloc
