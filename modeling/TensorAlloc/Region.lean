/-
  File:      TensorAlloc/Region.lean
  Subject:   A physical node while blocks are handed out and come back: its descriptors stay divided
             among the blocks on its lists, those in the cache and those handed out.

  * `division` -- the lists, and what is in use, read as blocks;
  * `Region` -- the invariant; with it no block in use lies in a free one, so the halves of a block
    that is cut are on no list (`Region.halvesClear`);
  * `Region.taken` -- a removal is `Division.Step.take`;
  * `Region.given` -- a free whose buddies are where their order says is `Division.Step.give`;
  * `Region.moved` -- in and out of the cache, nothing moves.
-/
import TensorAlloc.Base.Division
import TensorAlloc.Counter

namespace TensorAlloc

open DyadicBlocks

/-! ## 1. The division of a node -/

/-- The block a descriptor in use is the first of, by its own marks. -/
def markedBlock (st : State) (nu : Nat) (i : Item) : Block :=
  blockAt (st.tables.phyItemStruct nu) (blockLvl st i) (blockOrder st i) i

/-- The blocks handed out and those in the cache. -/
def liveBlocks (st : State) (nu : Nat) (held : List Item) : Multiset Block :=
  ((held ++ st.lists (cacheCell nu) : List Item) : Multiset Item).map (markedBlock st nu)

/-- The node's lists against what is in use. -/
def division (st : State) (nu : Nat) (held : List Item) : Division :=
  ⟨freeBlocks st nu, liveBlocks st nu held⟩

/-- The cache of the node, or a list of one of its groups. -/
def NodeList (nu : Nat) (h : ListHead) : Prop := h = cacheCell nu ∨ ∃ c ∈ nodeCells, h = nodeCell nu c

/-- What the count of a list is ahead of its length, in 64 bits. -/
def State.drift (st : State) (h : ListHead) : Word :=
  st.counts h - BitVec.ofNat 64 (st.lists h).length

/-- The node `nu` with its `n` descriptors divided, the blocks `held` handed out:

    * `inside` -- what is linked there is on the node's lists;
    * `orders` -- the lists end at order 8. -/
structure Region (st : State) (nu : Nat) (held : List Item) (n : Nat) : Prop where
  linked : st.Linked
  node : ServedNode st nu
  nodup : held.Nodup
  off : ∀ i ∈ held, (st.items i).onList = none
  own : ∀ i, i ∈ held ∨ i ∈ st.lists (cacheCell nu) → OwnBlock st nu i
  based : ∀ i, i ∈ held ∨ (∃ h, NodeList nu h ∧ i ∈ st.lists h) → st.tables.phyItemStruct nu ≤ i
  counted : ∀ c ∈ nodeCells, st.drift (nodeCell nu c) = 0
  inside : ∀ h, ¬ NodeList nu h → ∀ d < n, st.tables.phyItemStruct nu + d ∉ st.lists h
  orders : ∀ lvl mt k, maxItemOrder < k → st.lists (.groupCell (.phy nu lvl) mt k) = []
  aligned : ∀ b ∈ freeBlocks st nu + liveBlocks st nu held, b.Aligned
  whole : (division st nu held).Whole n
  small : n + 1 < 2 ^ 31

/-- Where a node is: what no operation on its blocks writes. -/
def NodeStruct.site (node : NodeStruct) : Nat × Nat × Nat × Option Item :=
  (node.dim, node.offset, node.size, node.sparseItemRoot)

/-- What an operation on the node leaves of the rest: the tables, where the node is, the other nodes,
    the lists that are not its own, the descriptors outside its range. -/
structure Confined (st st' : State) (nu n : Nat) : Prop where
  tables : st'.tables = st.tables
  site : (st'.nodes (.phy nu)).site = (st.nodes (.phy nu)).site
  nodes : ∀ node, node ≠ .phy nu → st'.nodes node = st.nodes node
  lists : ∀ h, ¬ NodeList nu h → st'.lists h = st.lists h
  drift : st'.drift = st.drift
  items : ∀ j, (∀ d < n, j ≠ st.tables.phyItemStruct nu + d) → st'.items j = st.items j

/-- **What a step on the node leaves**: the node still divided, the rest as it was, and the division
    one that the old one leads to. -/
structure Stepped (st st' : State) (nu : Nat) (held held' : List Item) (n : Nat) : Prop where
  region : Region st' nu held' n
  confined : Confined st st' nu n
  reach : (division st nu held).Reach (division st' nu held')

section Facts

variable {st st' st'' : State} {nu n : Nat} {held : List Item} {i j : Item}
  {c c' : Nat × MigrationType × Nat}

theorem Confined.refl (st : State) (nu n : Nat) : Confined st st nu n :=
  ⟨rfl, rfl, fun _ _ => rfl, fun _ _ => rfl, rfl, fun _ _ => rfl⟩

theorem Confined.trans (h : Confined st st' nu n) (h' : Confined st' st'' nu n) :
    Confined st st'' nu n where
  tables := h'.tables.trans h.tables
  site := h'.site.trans h.site
  nodes node hn := (h'.nodes node hn).trans (h.nodes node hn)
  lists l hl := (h'.lists l hl).trans (h.lists l hl)
  drift := h'.drift.trans h.drift
  items j hj := (h'.items j (by rw [h.tables]; exact hj)).trans (h.items j hj)

theorem Stepped.trans {held' held'' : List Item} (h : Stepped st st' nu held held' n)
    (h' : Stepped st' st'' nu held' held'' n) : Stepped st st'' nu held held'' n :=
  ⟨h'.region, h.confined.trans h'.confined, h.reach.trans h'.reach⟩

theorem nodeList_cell (hc : c ∈ nodeCells) : NodeList nu (nodeCell nu c) := .inr ⟨c, hc, rfl⟩

theorem not_nodeList_order {lvl k : Nat} {mt : MigrationType} (hk : maxItemOrder < k) :
    ¬ NodeList nu (.groupCell (.phy nu lvl) mt k) := by
  rintro (e | ⟨c, hc, e⟩)
  · cases e
  · simp only [nodeCell, ListHead.groupCell.injEq] at e
    have := (mem_nodeCells.mp hc).2
    omega

theorem mem_liveBlocks (hi : i ∈ held ∨ i ∈ st.lists (cacheCell nu)) :
    markedBlock st nu i ∈ liveBlocks st nu held :=
  Multiset.mem_map_of_mem _ (Multiset.mem_coe.mpr (List.mem_append.mpr hi))

/-- A block in use is read from its marks and the node's first descriptor. -/
theorem markedBlock_congr (ht : st'.tables = st.tables)
    (hm : marks (st'.items i) = marks (st.items i)) : markedBlock st' nu i = markedBlock st nu i := by
  obtain ⟨-, hl, ho, -⟩ := blockSize_congr hm
  unfold markedBlock
  rw [ht, hl, ho]

theorem map_markedBlock_congr {l l' : List Item} (hp : l'.Perm l) (ht : st'.tables = st.tables)
    (hm : ∀ i ∈ l, marks (st'.items i) = marks (st.items i)) :
    (l' : Multiset Item).map (markedBlock st' nu) = (l : Multiset Item).map (markedBlock st nu) := by
  rw [Multiset.coe_eq_coe.mpr hp]
  exact Multiset.map_congr rfl fun i hi => markedBlock_congr ht (hm i (Multiset.mem_coe.mp hi))

/-- A list whose count follows it. -/
theorem drift_eq_zero {h : ListHead} :
    st.drift h = 0 ↔ st.counts h = BitVec.ofNat 64 (st.lists h).length := by
  unfold State.drift
  exact sub_eq_zero

theorem drift_congr (hl : st'.lists = st.lists) (hc : st'.counts = st.counts) :
    st'.drift = st.drift := by
  funext h
  unfold State.drift
  rw [hl, hc]

/-- One more item and one more counted. -/
theorem drift_gain {h : ListHead} (hl : (st'.lists h).length = (st.lists h).length + 1)
    (hc : st'.counts h = st.counts h + 1) : st'.drift h = st.drift h := by
  unfold State.drift
  rw [hl, hc, BitVec.ofNat_add]
  exact add_sub_add_right_eq_sub _ _ _

theorem drift_loss {h : ListHead} (hl : (st'.lists h).length + 1 = (st.lists h).length)
    (hc : st'.counts h = st.counts h - 1) : st'.drift h = st.drift h :=
  (drift_gain hl.symm (by rw [hc]; exact (sub_add_cancel _ _).symm)).symm

end Facts

/-! ## 2. What the division says -/

section Volumes

variable {st : State} {nu n : Nat} {held : List Item}

theorem volume_liveBlocks (st : State) (nu : Nat) (held : List Item) :
    volume (liveBlocks st nu held) = ((held ++ st.lists (cacheCell nu)).map (blockSize st)).sum := by
  unfold liveBlocks volume
  rw [Multiset.map_map, Multiset.map_coe, Multiset.sum_coe]
  rfl

theorem volume_cell (base lvl k : Nat) (l : List Item) :
    volume ((l : Multiset Item).map (blockAt base lvl k)) = l.length * unitItems lvl k := by
  induction l with
  | nil => rw [List.length_nil, Nat.zero_mul]; rfl
  | cons i l ih =>
      rw [← Multiset.cons_coe, Multiset.map_cons, volume_cons, ih, List.length_cons, Nat.succ_mul,
        Nat.add_comm]
      rfl

theorem volume_freeBlocks (st : State) (nu : Nat) :
    volume (freeBlocks st nu) =
      ∑ c ∈ nodeCells, (st.lists (nodeCell nu c)).length * unitItems c.1 c.2.2 := by
  unfold freeBlocks
  rw [volume_sum]
  exact Finset.sum_congr rfl fun c _ => volume_cell _ _ _ _

/-- No list is longer than the node has descriptors on its lists. -/
theorem length_le_volume {c : Nat × MigrationType × Nat} (hc : c ∈ nodeCells) :
    (st.lists (nodeCell nu c)).length ≤ volume (freeBlocks st nu) := by
  rw [volume_freeBlocks]
  refine Nat.le_trans (Nat.le_mul_of_pos_right _ (Nat.two_pow_pos _))
    (Finset.single_le_sum (f := fun c : Nat × MigrationType × Nat =>
      (st.lists (nodeCell nu c)).length * unitItems c.1 c.2.2) (fun _ _ => Nat.zero_le _) hc)

/-- The lists of the classes hold no more than the free blocks do. -/
theorem listed_le_volume (st : State) (nu : Nat) :
    ∑ mt, listedItems st nu mt ≤ volume (freeBlocks st nu) := by
  rw [volume_freeBlocks]
  unfold nodeCells
  rw [Finset.sum_product, Finset.sum_congr rfl fun lvl _ => Finset.sum_product .., Finset.sum_comm]
  refine Finset.sum_le_sum fun mt _ => ?_
  unfold listedItems classCells
  rw [Finset.sum_product]
  refine Finset.sum_le_sum fun lvl _ => Finset.sum_le_sum fun k _ => ?_
  exact Nat.mul_le_mul_right _ List.countP_le_length

/-- **A node that is divided has no more than its descriptors on its lists and in use.** -/
theorem fits_of_whole (hW : (division st nu held).Whole n) :
    freeItems st nu + usedItems st nu held ≤ n := by
  have hvol := hW.volume
  have hfree := listed_le_volume st nu
  have hlive := volume_liveBlocks st nu held
  have hclasses : ∑ mt, listedItems st nu mt = freeItems st nu + listedItems st nu .unmovable := by
    have huniv : (Finset.univ : Finset MigrationType) =
        {.movable, .unmovable, .reclaimable, .lrutype} := rfl
    rw [huniv, Finset.sum_insert (by decide), Finset.sum_insert (by decide),
      Finset.sum_insert (by decide), Finset.sum_singleton]
    unfold freeItems
    omega
  unfold division at hvol
  unfold usedItems
  dsimp only at hvol
  omega

end Volumes

section Interior

variable {st : State} {nu n lvl order oi k : Nat} {held : List Item} {mt : MigrationType}
  {c c' : Nat × MigrationType × Nat} {i j item : Item}

/-- What the books ask of the node follows. -/
theorem Region.sound (hR : Region st nu held n) : Sound st nu held n :=
  ⟨hR.linked, hR.node, hR.nodup, hR.off, hR.own, fits_of_whole hR.whole, by
    have := hR.small
    omega⟩

/-- The block of a listed item is free. -/
theorem Region.free_apart (hR : Region st nu held n) : Apart (freeBlocks st nu + liveBlocks st nu held) :=
  hR.whole.apart

/-- Two listed items have no descriptor in common. -/
theorem Region.listed_apart (hR : Region st nu held n) (hc : c ∈ nodeCells)
    (hi : i ∈ st.lists (nodeCell nu c)) (hc' : c' ∈ nodeCells) (hj : j ∈ st.lists (nodeCell nu c'))
    (hne : j ≠ i) {d : Nat} (hd : d ∈ blockAt (st.tables.phyItemStruct nu) c.1 c.2.2 i) :
    d ∉ blockAt (st.tables.phyItemStruct nu) c'.1 c'.2.2 j := by
  have ho := (hR.linked.mem i _).mpr hi
  have hdel := listDel_of ho
  have hfree := @freeBlocks_listDel st _ nu _ i hR.linked ho hdel
  set st1 := (st.setList (nodeCell nu c) ((st.lists (nodeCell nu c)).erase i)).modItem i
    fun x => { x with onList := none } with hst1
  have hj1 : j ∈ st1.lists (nodeCell nu c') := by
    rw [hst1, State.modItem_lists, State.setList_lists]
    split
    · next e => exact (List.mem_erase_of_ne hne).mpr (e ▸ hj)
    · exact hj
  have hap : Apart (freeBlocks st nu) := hR.free_apart.of_le (Multiset.le_add_right _ _)
  rw [hfree, blockOn_nodeCell _ _ hc] at hap
  exact hap.not_both (Multiset.mem_singleton_self _) hd (mem_freeBlocks hc' hj1)

/-- **No list and nobody in use has a descriptor inside a free block.** -/
theorem Region.interior (hR : Region st nu held n) (hc : c ∈ nodeCells)
    (hi : i ∈ st.lists (nodeCell nu c)) {d : Nat}
    (hd : d ∈ blockAt (st.tables.phyItemStruct nu) c.1 c.2.2 i)
    (hne : st.tables.phyItemStruct nu + d ≠ i) :
    (st.items (st.tables.phyItemStruct nu + d)).onList = none ∧
      st.tables.phyItemStruct nu + d ∉ held := by
  have hfree := mem_freeBlocks hc hi
  have hlt : d < n := hR.whole.lt (Multiset.mem_add.mpr (.inl hfree)) hd
  have hlive : ∀ j, j ∈ held ∨ j ∈ st.lists (cacheCell nu) → st.tables.phyItemStruct nu + d ≠ j := by
    intro j hj e
    refine hR.free_apart.not_both hfree hd (mem_liveBlocks hj) ?_
    have hself := start_mem (markedBlock st nu j)
    rw [← e] at hself ⊢
    simpa [markedBlock, blockAt] using hself
  refine ⟨?_, fun hm => hlive _ (.inl hm) rfl⟩
  cases ho : (st.items (st.tables.phyItemStruct nu + d)).onList with
  | none => rfl
  | some h =>
      have hm := (hR.linked.mem _ _).mp ho
      by_cases hh : NodeList nu h
      · rcases hh with rfl | ⟨c', hc', rfl⟩
        · exact absurd rfl (hlive _ (.inr hm))
        · refine absurd ?_ (hR.listed_apart hc hi hc' hm hne hd)
          have hself := start_mem (blockAt (st.tables.phyItemStruct nu) c'.1 c'.2.2
            (st.tables.phyItemStruct nu + d))
          simpa [blockAt] using hself
      · exact absurd hm (hR.inside h hh d hlt)

/-- A half of a listed block, where the split measures in the level's unit. -/
theorem Region.half (hR : Region st nu held n) (hlvl : lvl < groupLvlNum) (hoi : oi ≤ maxItemOrder)
    (hi : item ∈ st.lists (.groupCell (.phy nu lvl) mt oi))
    (hu : oi = order ∨ splitShift mt lvl = functionItemLvl groupOrderNumShift lvl)
    (h1 : order ≤ k) (h2 : k < oi) :
    ∃ d, halfAt mt lvl item k = st.tables.phyItemStruct nu + d ∧
      d = item - st.tables.phyItemStruct nu + 2 ^ (k + functionItemLvl groupOrderNumShift lvl) ∧
      d ∈ blockAt (st.tables.phyItemStruct nu) lvl oi item ∧ halfAt mt lvl item k ≠ item := by
  have hc : (lvl, mt, oi) ∈ nodeCells := mem_nodeCells.mpr ⟨hlvl, hoi⟩
  have hshift : splitShift mt lvl = functionItemLvl groupOrderNumShift lvl :=
    hu.resolve_left (by omega)
  have hbase := hR.based item (.inr ⟨_, nodeList_cell hc, hi⟩)
  -- the whole block lies below `n`, so no size is cut
  have hlast := hR.whole.lt (Multiset.mem_add.mpr (.inl (mem_freeBlocks hc hi))) (last_mem _ _)
  dsimp only at hlast
  have hpos := Nat.two_pow_pos (k + functionItemLvl groupOrderNumShift lvl)
  have hlt : 2 ^ (k + functionItemLvl groupOrderNumShift lvl) <
      2 ^ (oi + functionItemLvl groupOrderNumShift lvl) :=
    Nat.pow_lt_pow_right (by decide) (Nat.add_lt_add_right h2 _)
  have hsmall := hR.small
  have hk : k + functionItemLvl groupOrderNumShift lvl < 31 :=
    (Nat.pow_lt_pow_iff_right (show 1 < 2 by decide)).mp (by omega)
  have hhalf := @halfAt_of_lt mt lvl k (by rw [hshift]; exact hk) item
  rw [hshift] at hhalf
  rw [hhalf]
  refine ⟨_, ?_, rfl, ?_, Nat.ne_of_gt (Nat.lt_add_of_pos_right hpos)⟩
  · rw [← Nat.add_assoc, Nat.add_sub_cancel' hbase]
  · unfold blockAt
    rw [mem_mk]
    omega

/-- The halves of the block a request takes are clear. -/
theorem Region.halvesClear (hR : Region st nu held n) (hlvl : lvl < groupLvlNum)
    (hoi : oi ≤ maxItemOrder) (hi : item ∈ st.lists (.groupCell (.phy nu lvl) mt oi))
    (hu : oi = order ∨ splitShift mt lvl = functionItemLvl groupOrderNumShift lvl) :
    HalvesClear st held lvl order mt oi item := by
  intro k h1 h2
  have hc : (lvl, mt, oi) ∈ nodeCells := mem_nodeCells.mpr ⟨hlvl, hoi⟩
  obtain ⟨d, hd, -, hmem, hne⟩ := hR.half hlvl hoi hi hu h1 h2
  rw [hd] at hne ⊢
  exact hR.interior hc hi hmem hne

end Interior

/-! ## 3. Where nothing moves -/

section Moved

variable {st st' : State} {nu n : Nat} {held held' : List Item}

/-- The cache is none of the lists a block is free on. -/
theorem nodeCell_ne_cache (c : Nat × MigrationType × Nat) : nodeCell nu c ≠ cacheCell nu := by
  simp [nodeCell]

/-- **Blocks that change hands between use and the cache**, and writes to anything but the lists, leave
    the division as it is. -/
theorem Region.moved (hR : Region st nu held n) (hL : st'.Linked) (hN : ServedNode st' nu)
    (ht : st'.tables = st.tables) (hs : (st'.nodes (.phy nu)).site = (st.nodes (.phy nu)).site)
    (hnodes : ∀ node, node ≠ .phy nu → st'.nodes node = st.nodes node)
    (hl : ∀ h, h ≠ cacheCell nu → st'.lists h = st.lists h) (hd : st'.drift = st.drift)
    (hm : ∀ j, marks (st'.items j) = marks (st.items j))
    (hi : ∀ j, (∀ d < n, j ≠ st.tables.phyItemStruct nu + d) → st'.items j = st.items j)
    (hperm : (held' ++ st'.lists (cacheCell nu)).Perm (held ++ st.lists (cacheCell nu)))
    (hnodup : held'.Nodup) (hoff : ∀ j ∈ held', (st'.items j).onList = none) :
    Stepped st st' nu held held' n := by
  have hcells : ∀ c, st'.lists (nodeCell nu c) = st.lists (nodeCell nu c) := fun c =>
    hl _ (nodeCell_ne_cache c)
  have hfree : freeBlocks st' nu = freeBlocks st nu := by
    unfold freeBlocks
    rw [ht]
    exact Finset.sum_congr rfl fun c _ => by rw [hcells]
  have hlive : liveBlocks st' nu held' = liveBlocks st nu held :=
    map_markedBlock_congr hperm ht fun j _ => hm j
  have hdiv : division st' nu held' = division st nu held := by
    unfold division
    rw [hfree, hlive]
  have huse : ∀ j, j ∈ held' ∨ j ∈ st'.lists (cacheCell nu) →
      j ∈ held ∨ j ∈ st.lists (cacheCell nu) := fun j hj =>
    List.mem_append.mp (hperm.mem_iff.mp (List.mem_append.mpr hj))
  have hcache : NodeList nu (cacheCell nu) := .inl rfl
  refine ⟨{
    linked := hL
    node := hN
    nodup := hnodup
    off := hoff
    own := fun j hj => (hR.own j (huse j hj)).congr ht (hm j)
    based := fun j hj => ?_
    counted := fun c hc => by rw [hd]; exact hR.counted c hc
    inside := fun h hh => by rw [hl h fun e => hh (e ▸ hcache), ht]; exact hR.inside h hh
    orders := fun lvl mt k hk => (hl _ (by simp)).trans (hR.orders lvl mt k hk)
    aligned := by rw [hfree, hlive]; exact hR.aligned
    whole := by rw [hdiv]; exact hR.whole
    small := hR.small }, ⟨ht, hs, hnodes, fun h hh => hl h fun e => hh (e ▸ hcache), hd, hi⟩,
    by rw [hdiv]⟩
  have hback : ∀ j, j ∈ held ∨ j ∈ st.lists (cacheCell nu) → st.tables.phyItemStruct nu ≤ j :=
    fun j hj => hR.based j (hj.imp_right fun hj => ⟨_, hcache, hj⟩)
  rw [ht]
  rcases hj with hj | ⟨h, hh, hj⟩
  · exact hback j (huse j (.inl hj))
  · rcases hh with rfl | ⟨c, hc, rfl⟩
    · exact hback j (huse j (.inr hj))
    · exact hR.based j (.inr ⟨_, nodeList_cell hc, (hcells c) ▸ hj⟩)

/-- Nothing but the node's own record is written. -/
theorem Region.recorded (hR : Region st nu held n) (hi : st'.items = st.items)
    (hl : st'.lists = st.lists) (hc : st'.counts = st.counts) (ht : st'.tables = st.tables)
    (hs : (st'.nodes (.phy nu)).site = (st.nodes (.phy nu)).site)
    (hnodes : ∀ node, node ≠ .phy nu → st'.nodes node = st.nodes node) (hN : ServedNode st' nu) :
    Stepped st st' nu held held n :=
  hR.moved (hR.linked.congr hl fun j => by rw [hi]) hN ht hs hnodes (fun h _ => congrFun hl h)
    (drift_congr hl hc) (fun j => by rw [hi]) (fun j _ => by rw [hi]) (by rw [hl]) hR.nodup
    (by rw [hi]; exact hR.off)

/-- A descriptor in use is one of the node's. -/
theorem Region.inRange (hR : Region st nu held n) {i : Item}
    (hi : i ∈ held ∨ i ∈ st.lists (cacheCell nu)) : ∃ d < n, i = st.tables.phyItemStruct nu + d := by
  have hbase := hR.based i (hi.imp_right fun hi => ⟨_, .inl rfl, hi⟩)
  refine ⟨i - st.tables.phyItemStruct nu, ?_, (Nat.add_sub_cancel' hbase).symm⟩
  exact hR.whole.lt (Multiset.mem_add.mpr (.inr (mem_liveBlocks hi))) (start_mem _)

/-- So is a listed one. -/
theorem Region.listed_inRange (hR : Region st nu held n) {c : Nat × MigrationType × Nat} {i : Item}
    (hc : c ∈ nodeCells) (hi : i ∈ st.lists (nodeCell nu c)) :
    ∃ d < n, i = st.tables.phyItemStruct nu + d := by
  have hbase := hR.based i (.inr ⟨_, nodeList_cell hc, hi⟩)
  refine ⟨i - st.tables.phyItemStruct nu, ?_, (Nat.add_sub_cancel' hbase).symm⟩
  exact hR.whole.lt (Multiset.mem_add.mpr (.inl (mem_freeBlocks hc hi))) (start_mem _)

/-- A descriptor in use is written: not its marks, nor its links. -/
theorem Region.written (hR : Region st nu held n) {i : Item}
    (hi : i ∈ held ∨ i ∈ st.lists (cacheCell nu)) {f : ItemStruct → ItemStruct}
    (ho : (f (st.items i)).onList = (st.items i).onList)
    (hm : marks (f (st.items i)) = marks (st.items i)) :
    Stepped st (st.modItem i f) nu held held n := by
  obtain ⟨d, hd, hself⟩ := hR.inRange hi
  refine hR.moved (hR.linked.congr rfl fun j => st.modItem_keeps j ItemStruct.onList ho) ?_ rfl
    rfl (fun _ _ => rfl) (fun _ _ => rfl) rfl (fun j => st.modItem_keeps j marks hm) (fun j hj => ?_)
    (List.Perm.refl _) hR.nodup fun j hj => ?_
  · exact hR.node.congr rfl rfl rfl hR.node.mode
  · rw [State.modItem_items, if_neg fun e => hj d hd (e.trans hself)]
  · exact (st.modItem_keeps j ItemStruct.onList ho).trans (hR.off j hj)

/-- The state of a block is none of its marks. -/
theorem Region.stated (hR : Region st nu held n) {i : Item}
    (hi : i ∈ held ∨ i ∈ st.lists (cacheCell nu)) (state : ItemState) :
    Stepped st (st.setState i state) nu held held n := by
  have hm : marks { st.items i with flags := setItemState (st.items i).flags state.number } =
      marks (st.items i) := by
    refine marks_congr fun f hf => (field_withField f .state _ _).trans (if_neg ?_)
    rcases hf with rfl | rfl | rfl <;> decide
  exact hR.written hi (f := fun x => { x with flags := setItemState x.flags state.number }) rfl hm

/-- The blocks in use are read from their own descriptors. -/
theorem liveBlocks_kept (hfirst : st'.tables.phyItemStruct nu = st.tables.phyItemStruct nu)
    (hcache : st'.lists (cacheCell nu) = st.lists (cacheCell nu))
    (huse : ∀ i, i ∈ held ∨ i ∈ st.lists (cacheCell nu) → st'.items i = st.items i) :
    liveBlocks st' nu held = liveBlocks st nu held := by
  unfold liveBlocks
  rw [hcache]
  refine Multiset.map_congr rfl fun i hu => ?_
  have hsame := huse i (List.mem_append.mp (Multiset.mem_coe.mp hu))
  unfold markedBlock blockLvl blockOrder
  rw [hfirst, hsame]

/-- **The division is read from the node's own lists and descriptors**: what leaves these, the first
    descriptor and the top level, leaves the node divided as it is. -/
theorem Region.kept (hR : Region st nu held n) (hL : st'.Linked) (hN : ServedNode st' nu)
    (hfirst : st'.tables.phyItemStruct nu = st.tables.phyItemStruct nu)
    (htop : st'.tables.phyGroupLvl nu = st.tables.phyGroupLvl nu ∧
      st'.tables.phyGroupOrder nu = st.tables.phyGroupOrder nu)
    (hl : ∀ h, NodeList nu h → st'.lists h = st.lists h ∧ st'.drift h = st.drift h)
    (ho : ∀ lvl mt k, maxItemOrder < k → st'.lists (.groupCell (.phy nu lvl) mt k) = [])
    (hi : ∀ d < n, st'.items (st.tables.phyItemStruct nu + d) = st.items (st.tables.phyItemStruct nu + d))
    (hin : ∀ h, ¬ NodeList nu h → ∀ d < n, st.tables.phyItemStruct nu + d ∉ st'.lists h) :
    Region st' nu held n ∧ division st' nu held = division st nu held := by
  have hcache := (hl (cacheCell nu) (.inl rfl)).1
  have huse : ∀ i, i ∈ held ∨ i ∈ st.lists (cacheCell nu) → st'.items i = st.items i := by
    intro i hu
    obtain ⟨d, hd, rfl⟩ := hR.inRange hu
    exact hi d hd
  have hfree : freeBlocks st' nu = freeBlocks st nu := by
    unfold freeBlocks
    rw [hfirst]
    exact Finset.sum_congr rfl fun c hc => by rw [(hl _ (nodeList_cell hc)).1]
  have hlive := liveBlocks_kept hfirst hcache huse
  have hdiv : division st' nu held = division st nu held := by
    unfold division
    rw [hfree, hlive]
  refine ⟨{
    linked := hL
    node := hN
    nodup := hR.nodup
    off := fun i hu => by rw [huse i (.inl hu)]; exact hR.off i hu
    own := fun i hu => ?_
    based := fun i hu => ?_
    counted := fun c hc => by rw [(hl _ (nodeList_cell hc)).2]; exact hR.counted c hc
    inside := fun h hh d hd => by rw [hfirst]; exact hin h hh d hd
    orders := ho
    aligned := by rw [hfree, hlive]; exact hR.aligned
    whole := by rw [hdiv]; exact hR.whole
    small := hR.small }, hdiv⟩
  · rw [hcache] at hu
    exact (hR.own i hu).kept htop (by rw [huse i hu])
  · rw [hfirst]
    refine hR.based i (hu.imp_right fun hu => ?_)
    obtain ⟨h, hh, hu⟩ := hu
    exact ⟨h, hh, (hl h hh).1 ▸ hu⟩

end Moved

/-! ## 4. A block taken -/

section Taking

variable {st st' : State} {nu n lvl order oi : Nat} {held : List Item} {mt : MigrationType}
  {item : Item}

/-- **The halves a split puts back**, read as blocks. -/
theorem freeBlocks_splitLoop (item : Item) (mt : MigrationType) (hlvl : lvl < groupLvlNum) (m : Nat)
    (hm : order + m ≤ maxItemOrder + 1) (st : State) :
    freeBlocks (splitLoop (.phy nu lvl) item lvl order mt m st) nu =
      ∑ k ∈ Finset.Ico order (order + m),
        {blockAt (st.tables.phyItemStruct nu) lvl k (halfAt mt lvl item k)} + freeBlocks st nu := by
  induction m generalizing st with
  | zero => rw [Nat.add_zero, Finset.Ico_self, Finset.sum_empty, zero_add]; rfl
  | succ m ih =>
      have hc : (lvl, mt, order + m) ∈ nodeCells := mem_nodeCells.mpr ⟨hlvl, by dsimp only; omega⟩
      have hgain := @freeBlocks_gain st (split2GroupMigration st (.phy nu lvl) item
        (splitSize mt lvl (order + m)) (order + m) mt lvl) nu (nodeCell nu (lvl, mt, order + m))
        (halfAt mt lvl item (order + m)) rfl (by rw [nodeCell, split2_lists, if_pos rfl]; rfl)
        fun h hh => by rw [split2_lists, if_neg (show h ≠ .groupCell _ _ _ from hh)]; rfl
      rw [blockOn_nodeCell _ _ hc] at hgain
      rw [splitLoop, ih (by omega), hgain, ← Nat.add_assoc,
        Finset.sum_Ico_succ_top (Nat.le_add_right order m), add_assoc]
      rfl

/-- A removal gives the block up and puts the halves back. -/
theorem freeBlocks_removed (hL : st.Linked) (hlvl : lvl < groupLvlNum) (hge : order ≤ oi)
    (hoi : oi ≤ maxItemOrder) (hi : item ∈ st.lists (.groupCell (.phy nu lvl) mt oi)) :
    ∃ rest, freeBlocks st nu = blockAt (st.tables.phyItemStruct nu) lvl oi item ::ₘ rest ∧
      freeBlocks (splitGroupMigration (st.takeOff (.groupCell (.phy nu lvl) mt oi) item)
          (.phy nu lvl) item lvl order oi mt) nu =
        ∑ k ∈ Finset.Ico order oi,
          {blockAt (st.tables.phyItemStruct nu) lvl k (halfAt mt lvl item k)} + rest := by
  have ho := (hL.mem item _).mpr hi
  have hc : (lvl, mt, oi) ∈ nodeCells := mem_nodeCells.mpr ⟨hlvl, hoi⟩
  have hblock := blockOn_nodeCell (st.tables.phyItemStruct nu) nu hc item
  rw [nodeCell] at hblock
  refine ⟨freeBlocks (st.takeOff (.groupCell (.phy nu lvl) mt oi) item) nu, ?_, ?_⟩
  · rw [freeBlocks_listDel hL ho (listDel_of ho), hblock, Multiset.singleton_add]
    rfl
  · obtain ⟨m, rfl⟩ := Nat.exists_eq_add_of_le hge
    have hloop := @freeBlocks_splitLoop nu lvl order item mt hlvl m (Nat.le_succ_of_le hoi)
      (st.takeOff (.groupCell (.phy nu lvl) mt (order + m)) item)
    refine Eq.trans ?_ hloop
    unfold splitGroupMigration
    rw [Nat.add_sub_cancel_left]
    exact freeBlocks_congr rfl rfl

/-- Every half put back is counted. -/
theorem Releases.drift {group : Group} {half : Nat → Item}
    (h : Releases st st' group mt order oi half) : st'.drift = st.drift := by
  funext l
  by_cases hl : ∃ k, order ≤ k ∧ k < oi ∧ l = .groupCell group mt k
  · obtain ⟨k, h1, h2, rfl⟩ := hl
    obtain ⟨hg, hc⟩ := h.gained k h1 h2
    exact drift_gain (by rw [hg, List.length_cons]) hc
  · obtain ⟨hg, hc⟩ := h.others l fun k h1 h2 e => hl ⟨k, h1, h2, e⟩
    unfold State.drift
    rw [hg, hc]

theorem takeOff_drift {h : ListHead} (hi : item ∈ st.lists h) :
    (st.takeOff h item).drift = st.drift := by
  funext l
  by_cases hl : l = h
  · subst hl
    refine drift_loss ?_ ?_
    · simp only [State.takeOff, State.countDec_lists, State.modItem_lists, State.setList_lists,
        if_true]
      rw [List.length_erase_of_mem hi]
      have := List.length_pos_of_mem hi
      omega
    · simp [State.takeOff]
  · unfold State.drift
    simp [State.takeOff, hl]

/-- A removal touches the lists of one class below order 9, and keeps every count with its list. -/
theorem removed_rest (hlvl : lvl < groupLvlNum) (hoi : oi ≤ maxItemOrder)
    (hi : item ∈ st.lists (.groupCell (.phy nu lvl) mt oi))
    (he : st' = splitGroupMigration (st.takeOff (.groupCell (.phy nu lvl) mt oi) item)
      (.phy nu lvl) item lvl order oi mt) :
    (∀ h, ¬ NodeList nu h → st'.lists h = st.lists h) ∧ st'.drift = st.drift := by
  have hrel := splitGroupMigration_releases (st.takeOff (.groupCell (.phy nu lvl) mt oi) item)
    (.phy nu lvl) item lvl order oi mt
  rw [← he] at hrel
  have hcell : ∀ k, k ≤ oi → NodeList nu (.groupCell (.phy nu lvl) mt k) := fun k hk =>
    nodeList_cell (mem_nodeCells.mpr ⟨hlvl, Nat.le_trans hk hoi⟩ : (lvl, mt, k) ∈ nodeCells)
  refine ⟨fun h hh => ?_, hrel.drift.trans (takeOff_drift hi)⟩
  rw [(hrel.others h fun k _ h2 e => hh (e ▸ hcell k (Nat.le_of_lt h2))).1]
  have hne : h ≠ .groupCell (.phy nu lvl) mt oi := fun e => hh (e ▸ hcell oi (Nat.le_refl oi))
  simp [State.takeOff, hne]

/-- What is on a list after a removal was there, or is a half. -/
theorem mem_removed {h : ListHead} {j : Item}
    (he : st' = splitGroupMigration (st.takeOff (.groupCell (.phy nu lvl) mt oi) item)
      (.phy nu lvl) item lvl order oi mt) (hj : j ∈ st'.lists h) :
    (∃ k, order ≤ k ∧ k < oi ∧ j = halfAt mt lvl item k) ∨ j ∈ st.lists h := by
  rw [he, remove_lists] at hj
  rcases List.mem_append.mp hj with hj | hj
  · refine .inl ?_
    cases h with
    | groupCell g t k =>
        rw [splitPieces] at hj
        by_cases hk : g = .phy nu lvl ∧ t = mt ∧ order ≤ k ∧ k < order + (oi - order)
        · rw [if_pos hk] at hj
          exact ⟨k, hk.2.2.1, by omega, List.mem_singleton.mp hj⟩
        · rw [if_neg hk] at hj
          cases hj
    | _ => cases hj
  · refine .inr ?_
    split at hj
    · exact List.mem_of_mem_erase hj
    · exact hj

/-- The blocks in use, once the block `item` is marked with level and order. -/
theorem TakenOff.live (h : TakenOff st st' nu lvl order mt oi item) (hS : Sound st nu held n)
    (hlvl : lvl < groupLvlNum) (hH : HalvesClear st held lvl order mt oi item) :
    liveBlocks st' nu (item :: held) =
      blockAt (st.tables.phyItemStruct nu) lvl order item ::ₘ liveBlocks st nu held := by
  have hcache : st'.lists (cacheCell nu) = st.lists (cacheCell nu) := h.lists _ fun k => by simp
  obtain ⟨hl, ho⟩ := h.marked hlvl
  have hself : markedBlock st' nu item = blockAt (st.tables.phyItemStruct nu) lvl order item := by
    unfold markedBlock
    rw [h.tables, hl, ho]
  unfold liveBlocks
  rw [hcache, List.cons_append, ← Multiset.cons_coe, Multiset.map_cons, hself]
  congr 1
  exact map_markedBlock_congr (List.Perm.refl _) h.tables fun j hj =>
    congrArg marks (h.aside hS hH (List.mem_append.mp hj))

/-- **A removal takes one block out of the division**: the block of the request is cut out of the one
    on the list, and what is left goes back. -/
theorem Region.taken (hR : Region st nu held n) (hlvl : lvl < groupLvlNum)
    (hT : Takes st nu lvl order mt oi item)
    (hu : oi = order ∨ splitShift mt lvl = functionItemLvl groupOrderNumShift lvl)
    (hr : removeGroupMigration st (.phy nu lvl) lvl order mt false = some (st', some item)) :
    TakenOff st st' nu lvl order mt oi item ∧ Stepped st st' nu held (item :: held) n := by
  have hof : st.nodeOf (.phy nu lvl) = st.nodes (.phy nu) :=
    congrArg st.nodes (hR.node.groups lvl hlvl)
  obtain ⟨⟨m, hm, hlt⟩, hF⟩ := hT
  have hoi : oi ≤ maxItemOrder := Nat.le_of_lt_succ (Nat.lt_of_lt_of_le hlt (maxOrder_le hR.node hm))
  have hlow := staysLow_of_lt hR.node hm (Nat.lt_of_le_of_lt hF.ge hlt)
  have hi := searchList_mem hF.found
  have hc : (lvl, mt, oi) ∈ nodeCells := mem_nodeCells.mpr ⟨hlvl, hoi⟩
  have hH := hR.halvesClear hlvl hoi hi hu
  have hhalf := fun k h1 h2 => hR.half (k := k) hlvl hoi hi hu h1 h2
  have hbig := mem_freeBlocks hc hi
  have hx := hR.whole.lt (Multiset.mem_add.mpr (.inl hbig)) (start_mem _)
  have hbase := hR.based item (.inr ⟨_, nodeList_cell hc, hi⟩)
  have hself : item = st.tables.phyItemStruct nu + (item - st.tables.phyItemStruct nu) :=
    (Nat.add_sub_cancel' hbase).symm
  obtain ⟨m1, oi1, -, -, hF1, htaken⟩ := removeGroupMigration_takes hR.linked hlvl
    (by rw [hof]; exact hR.node.id) hR.node.lt
    (by rw [hof]; exact fun m hm => maxOrder_le hR.node hm) hr
  obtain ⟨rfl, -⟩ := hF1.unique hF
  have hOff := htaken fun k h1 h2 => (hH k h1 h2).1
  obtain ⟨m2, oi2, -, hge, -, hs, hfirst, he⟩ := removeGroupMigration_some hR.linked hr
  obtain ⟨rfl, -⟩ := (show Finds st nu lvl order mt oi2 item from ⟨hge, hs, hfirst⟩).unique hF
  obtain ⟨hlists, hdrift⟩ := removed_rest hlvl hoi hi he
  obtain ⟨rest, hfree, hfree'⟩ := @freeBlocks_removed st nu lvl order oi2 mt item hR.linked hlvl hge
    hoi hi
  rw [← he] at hfree'
  have hlive := hOff.live hR.sound hlvl hH
  -- the halves lie where halving puts them
  have hparts : ∑ k ∈ Finset.Ico order oi2,
      ({blockAt (st.tables.phyItemStruct nu) lvl k (halfAt mt lvl item k)} : Multiset Block) =
        ∑ k ∈ Finset.Ico order oi2,
          {⟨item - st.tables.phyItemStruct nu + 2 ^ (k + functionItemLvl groupOrderNumShift lvl),
            k + functionItemLvl groupOrderNumShift lvl⟩} := by
    refine Finset.sum_congr rfl fun k hk => ?_
    obtain ⟨d, hd, rfl, -⟩ := hhalf k (Finset.mem_Ico.mp hk).1 (Finset.mem_Ico.mp hk).2
    rw [hd, blockAt, Nat.add_sub_cancel_left]
  have htiles := tiles_halves (item - st.tables.phyItemStruct nu)
    (functionItemLvl groupOrderNumShift lvl) hge
  rw [hparts] at hfree'
  have hstep : (division st nu held).Step (division st' nu (item :: held)) := by
    unfold division
    rw [hfree, hfree', hlive]
    exact .take htiles
  have hcache : st'.lists (cacheCell nu) = st.lists (cacheCell nu) := hOff.lists _ fun k => by simp
  have haside : ∀ j, j ∈ held ∨ j ∈ st.lists (cacheCell nu) → st'.items j = st.items j :=
    fun j hj => hOff.aside hR.sound hH hj
  refine ⟨hOff, ⟨{
    linked := hOff.linked
    node := hR.node.congr hOff.tables (by rw [hOff.nodes]) (by rw [hOff.nodes])
      (by rw [hOff.nodes]; exact hR.node.mode)
    nodup := List.nodup_cons.mpr ⟨fun hm => ?_, hR.nodup⟩
    off := fun j hj => ?_
    own := fun j hj => ?_
    based := fun j hj => ?_
    counted := fun c hc => by rw [hdrift]; exact hR.counted c hc
    inside := fun h hh => by rw [hlists h hh, hOff.tables]; exact hR.inside h hh
    orders := fun lvl mt k hk => (hlists _ (not_nodeList_order hk)).trans (hR.orders lvl mt k hk)
    aligned := fun b hb => ?_
    whole := hstep.whole hR.whole
    small := hR.small }, ⟨hOff.tables, by rw [hOff.nodes],
      fun node _ => congrFun hOff.nodes node, hlists, hdrift,
      fun j hj => hOff.others j (fun e => ?_) fun k h1 h2 e => ?_⟩, .single hstep⟩⟩
  · have ho := (hR.linked.mem item _).mpr hi
    rw [hR.off item hm] at ho
    cases ho
  · rcases List.mem_cons.mp hj with rfl | hj
    · exact hOff.off
    · rw [haside j (.inl hj)]
      exact hR.off j hj
  · rw [hcache, List.mem_cons, or_assoc] at hj
    rcases hj with rfl | hj
    · exact hOff.own hlvl hlow
    · exact (hR.own j hj).congr hOff.tables (congrArg marks (haside j hj))
  · rw [hOff.tables]
    rcases hj with hj | ⟨h, hh, hj⟩
    · rcases List.mem_cons.mp hj with rfl | hj
      · exact hbase
      · exact hR.based j (.inl hj)
    · rcases mem_removed he hj with ⟨k, h1, h2, rfl⟩ | hj
      · obtain ⟨d, hd, -⟩ := hhalf k h1 h2
        rw [hd]
        exact Nat.le_add_right _ _
      · exact hR.based j (.inr ⟨h, hh, hj⟩)
  · have ha : 2 ^ (oi2 + functionItemLvl groupOrderNumShift lvl) ∣ item - st.tables.phyItemStruct nu :=
      hR.aligned _ (Multiset.mem_add.mpr (.inl hbig))
    have hdvd : ∀ k, k ≤ oi2 → 2 ^ (k + functionItemLvl groupOrderNumShift lvl) ∣
        item - st.tables.phyItemStruct nu := fun k hk =>
      Nat.dvd_trans (Nat.pow_dvd_pow 2 (Nat.add_le_add_right hk _)) ha
    rw [hfree', hlive, Multiset.mem_add, Multiset.mem_add, Multiset.mem_cons] at hb
    rcases hb with (hb | hb) | rfl | hb
    · obtain ⟨k, hk, hb⟩ := Multiset.mem_sum.mp hb
      rw [Multiset.mem_singleton.mp hb]
      exact Nat.dvd_add (hdvd k (Nat.le_of_lt (Finset.mem_Ico.mp hk).2)) (Nat.dvd_refl _)
    · exact hR.aligned b (Multiset.mem_add.mpr (.inl (hfree ▸ Multiset.mem_cons_of_mem hb)))
    · exact hdvd order hge
    · exact hR.aligned b (Multiset.mem_add.mpr (.inr hb))
  · exact hj _ hx (e.trans hself)
  · obtain ⟨d, hd, -, hmem, -⟩ := hhalf k h1 h2
    exact hj d (hR.whole.lt (Multiset.mem_add.mpr (.inl hbig)) hmem) (e.trans hd)

end Taking

end TensorAlloc
