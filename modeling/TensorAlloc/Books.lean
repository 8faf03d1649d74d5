/-
  File:      TensorAlloc/Books.lean
  Subject:   What `nr_freeitems` of a physical node stands for, and what the cache and a free do to it.

  * `Balanced` -- the counter is the node's total less what is allocated, cached, or parked on the
    UNMOVABLE lists. The blocks allocated are a GHOST list;
  * `cache_taken`, `cache_given` -- a block in or out of the cache changes nothing of that;
  * `dequeue_given` -- a block put back on the lists of a class is credited, or parked;
  * `free_keeps` -- a free by `find_group_reversed`, where its merges are exact.
-/
import TensorAlloc.Find
import TensorAlloc.Listed

namespace TensorAlloc

/-! ## 1. The books -/

/-- Base items of a block, by its descriptor. -/
def blockSize (st : State) (i : Item) : Nat := unitItems (blockLvl st i) (blockOrder st i)

/-- `LRU_CACHE_CELL` of a physical node. -/
abbrev cacheCell (nu : Nat) : ListHead := .lruCacheCell (.phy nu) archCurrCpuNum

/-- Base items allocated, cached, or parked on the UNMOVABLE lists. -/
def usedItems (st : State) (nu : Nat) (held : List Item) : Nat :=
  ((held ++ st.lists (cacheCell nu)).map (blockSize st)).sum + listedItems st nu .unmovable

/-- Base items on the lists of the other classes. -/
def freeItems (st : State) (nu : Nat) : Nat :=
  listedItems st nu .movable + listedItems st nu .reclaimable + listedItems st nu .lrutype

/-- The counter is the total less what is used. -/
def Balanced (st : State) (nu : Nat) (held : List Item) (total : Nat) : Prop :=
  (st.nodes (.phy nu)).nrFreeitems.toNat + usedItems st nu held = total

/-- The node the searches of its dimension serve. -/
structure ServedNode (st : State) (nu : Nat) : Prop where
  groups : ∀ lvl < groupLvlNum, st.tables.groupNode (.phy nu lvl) = .phy nu
  id : (st.nodes (.phy nu)).nodeId = nu
  current : getCurrentNodeNum (st.nodes (.phy nu)).dim = some nu
  orders : 1 ≤ st.tables.phyGroupOrder nu ∧ st.tables.phyGroupOrder nu ≤ maxItemOrder + 1
  mode : (st.nodes (.phy nu)).status ≠ .backward

/-- A block of the node `nu`, of an order its level hands out. -/
structure OwnBlock (st : State) (nu : Nat) (i : Item) : Prop where
  node : getItemNode (st.items i).flags = nu
  low : StaysLow (levelMaxOrder st nu (blockLvl st i))
    ((blockLvl st i : Int) = st.tables.phyGroupLvl nu) (blockOrder st i)

/-- A node whose lists are linked, whose blocks `held` are off the lists and its own, and whose
    blocks of all kinds fit its total. -/
structure Sound (st : State) (nu : Nat) (held : List Item) (total : Nat) : Prop where
  linked : st.Linked
  node : ServedNode st nu
  nodup : held.Nodup
  off : ∀ i ∈ held, (st.items i).onList = none
  own : ∀ i, i ∈ held ∨ i ∈ st.lists (cacheCell nu) → OwnBlock st nu i
  fits : freeItems st nu + usedItems st nu held ≤ total
  small : total < 2 ^ 64
/-! ## 2. Small facts -/

section Facts

variable {st st' : State} {nu total : Nat} {held : List Item} {i : Item}

theorem blockLvl_le (st : State) (i : Item) : blockLvl st i ≤ maxGroupLvls := by
  unfold blockLvl
  dsimp only
  split
  · exact Nat.le_refl _
  · next h => exact Nat.le_of_not_lt h

/-- What `dequeue_group_migration` credits. -/
theorem toNat_blockItems (st : State) (i : Item) : (blockItems st i).toNat = blockSize st i := by
  have ho : blockOrder st i < 16 := field_lt .order _
  have hl := blockLvl_le st i
  simp only [maxGroupLvls_eq] at hl
  have hu := functionItemLvl_eq hl
  exact toNat_bit (by omega)

theorem ServedNode.lt (h : ServedNode st nu) : nu < 2 ^ ItemField.node.offset := by
  have := h.current
  unfold getCurrentNodeNum at this
  split at this
  · cases this; decide
  · split at this
    · cases this; decide
    · cases this

/-- The number of an own block is not cut. -/
theorem OwnBlock.blockNode (h : OwnBlock st nu i) : blockNode st i = nu := by
  have hlt : getItemNode (st.items i).flags < 32 := field_lt .node _
  unfold TensorAlloc.blockNode
  dsimp only
  rw [if_neg, h.node]
  rw [Nat.not_le]
  exact Nat.lt_of_lt_of_le hlt (by decide)

/-- Order, level and node of an item. -/
def marks (x : ItemStruct) : Nat × Nat × Nat :=
  (getItemOrder x.flags, getItemSection x.flags, getItemNode x.flags)

theorem marks_congr {x y : ItemStruct}
    (h : ∀ f, f = .order ∨ f = .section_ ∨ f = .node → field f x.flags = field f y.flags) :
    marks x = marks y := by
  unfold marks getItemOrder getItemSection getItemNode
  rw [h .order (.inl rfl), h .section_ (.inr (.inl rfl)), h .node (.inr (.inr rfl))]

/-- The size of a block is read from its marks. -/
theorem blockSize_congr (h : marks (st'.items i) = marks (st.items i)) :
    blockSize st' i = blockSize st i ∧ blockLvl st' i = blockLvl st i ∧
      blockOrder st' i = blockOrder st i ∧
      getItemNode (st'.items i).flags = getItemNode (st.items i).flags := by
  unfold marks at h
  simp only [Prod.mk.injEq] at h
  obtain ⟨h1, h2, h3⟩ := h
  have hl : blockLvl st' i = blockLvl st i := by
    unfold blockLvl
    rw [h2]
  exact ⟨by unfold blockSize blockOrder; rw [hl, h1], hl, h1, h3⟩

/-- Of the tables only the top level of the node is looked at. -/
theorem OwnBlock.kept (h : OwnBlock st nu i)
    (htop : st'.tables.phyGroupLvl nu = st.tables.phyGroupLvl nu ∧
      st'.tables.phyGroupOrder nu = st.tables.phyGroupOrder nu)
    (hm : marks (st'.items i) = marks (st.items i)) : OwnBlock st' nu i := by
  obtain ⟨-, hl, ho, hn⟩ := blockSize_congr hm
  refine ⟨hn.trans h.node, ?_⟩
  have hlow := h.low
  unfold levelMaxOrder at hlow ⊢
  rw [hl, ho, htop.1, htop.2]
  exact hlow

theorem OwnBlock.congr (h : OwnBlock st nu i) (ht : st'.tables = st.tables)
    (hm : marks (st'.items i) = marks (st.items i)) : OwnBlock st' nu i :=
  h.kept ⟨by rw [ht], by rw [ht]⟩ hm

/-- Sizes summed over blocks that keep their marks. -/
theorem sum_blockSize_congr {l : List Item}
    (h : ∀ i ∈ l, marks (st'.items i) = marks (st.items i)) :
    (l.map (blockSize st')).sum = (l.map (blockSize st)).sum := by
  congr 1
  exact List.map_congr_left fun i hi => (blockSize_congr (h i hi)).1

theorem ServedNode.congr (h : ServedNode st nu) (ht : st'.tables = st.tables)
    (hid : (st'.nodes (.phy nu)).nodeId = (st.nodes (.phy nu)).nodeId)
    (hdim : (st'.nodes (.phy nu)).dim = (st.nodes (.phy nu)).dim)
    (hmode : (st'.nodes (.phy nu)).status ≠ .backward) : ServedNode st' nu where
  groups := by rw [ht]; exact h.groups
  id := hid.trans h.id
  current := by rw [hdim]; exact h.current
  orders := by rw [ht]; exact h.orders
  mode := hmode

/-- The counter covers what the other lists hold. -/
theorem Sound.covered (hS : Sound st nu held total) (hB : Balanced st nu held total) :
    freeItems st nu ≤ (st.nodes (.phy nu)).nrFreeitems.toNat := by
  have := hS.fits
  unfold Balanced at hB
  omega

end Facts

/-! ## 3. In and out of the cache -/

section Cache

variable {st st' : State} {nu total : Nat} {held held' : List Item} {i : Item}

/-- What is used depends on which blocks are in use, not on where. -/
theorem usedItems_perm
    (hp : (held' ++ st'.lists (cacheCell nu)).Perm (held ++ st.lists (cacheCell nu)))
    (hm : ∀ i, i ∈ held ∨ i ∈ st.lists (cacheCell nu) → marks (st'.items i) = marks (st.items i))
    (hl : listedItems st' nu .unmovable = listedItems st nu .unmovable) :
    usedItems st' nu held' = usedItems st nu held := by
  unfold usedItems
  rw [hl, (hp.map (blockSize st')).sum_eq, sum_blockSize_congr fun i hi => hm i (List.mem_append.mp hi)]

/-- The lists of a class are apart from every other list and read the items' parents only. -/
theorem listedItems_off {mt : MigrationType}
    (hl : ∀ l k, st'.lists (.groupCell (.phy nu l) mt k) = st.lists (.groupCell (.phy nu l) mt k))
    (hp : ∀ j, (st'.items j).prev = (st.items j).prev) :
    listedItems st' nu mt = listedItems st nu mt :=
  listedItems_congr (fun c _ => hl c.1 c.2) fun _ _ j _ => hp j

theorem freeItems_off
    (hl : ∀ mt l k, st'.lists (.groupCell (.phy nu l) mt k) = st.lists (.groupCell (.phy nu l) mt k))
    (hp : ∀ j, (st'.items j).prev = (st.items j).prev) : freeItems st' nu = freeItems st nu := by
  unfold freeItems
  rw [listedItems_off (hl _) hp, listedItems_off (hl _) hp, listedItems_off (hl _) hp]

/-- **Blocks that change hands between use and the cache** change nothing in the books. -/
theorem Sound.moved (hS : Sound st nu held total) (hL : st'.Linked)
    (hnode : st'.nodes (.phy nu) = st.nodes (.phy nu)) (ht : st'.tables = st.tables)
    (hm : ∀ j, marks (st'.items j) = marks (st.items j))
    (hp : ∀ j, (st'.items j).prev = (st.items j).prev)
    (hl : ∀ mt l k, st'.lists (.groupCell (.phy nu l) mt k) = st.lists (.groupCell (.phy nu l) mt k))
    (hperm : (held' ++ st'.lists (cacheCell nu)).Perm (held ++ st.lists (cacheCell nu)))
    (hnodup : held'.Nodup) (hoff : ∀ j ∈ held', (st'.items j).onList = none) :
    Sound st' nu held' total ∧ (Balanced st nu held total → Balanced st' nu held' total) := by
  have hused : usedItems st' nu held' = usedItems st nu held :=
    usedItems_perm hperm (fun j _ => hm j) (listedItems_off (hl _) hp)
  have hfree : freeItems st' nu = freeItems st nu := freeItems_off hl hp
  refine ⟨⟨hL, ?_, hnodup, hoff, fun j hj => ?_, ?_, hS.small⟩, fun hB => ?_⟩
  · exact hS.node.congr ht (by rw [hnode]) (by rw [hnode]) (by rw [hnode]; exact hS.node.mode)
  · have hj' := hperm.mem_iff.mp (List.mem_append.mpr hj)
    exact (hS.own j (List.mem_append.mp hj')).congr ht (hm j)
  · rw [hfree, hused]
    exact hS.fits
  · unfold Balanced
    rw [hused, hnode]
    exact hB

/-- **A block off the cache.** -/
theorem cache_taken (hS : Sound st nu held total) (hi : i ∈ st.lists (cacheCell nu))
    (hd : listDel st i = some st') :
    Sound st' nu (i :: held) total ∧ (Balanced st nu held total → Balanced st' nu (i :: held) total) := by
  have ho := (hS.linked.mem i _).mpr hi
  have hlinked := hS.linked.listDel hd
  obtain ⟨hother, hnone, hflags, hpi⟩ := listDel_items hd
  rw [listDel_of ho, Option.some.injEq] at hd
  have hlists : ∀ l, st'.lists l = if l = cacheCell nu then (st.lists (cacheCell nu)).erase i
      else st.lists l := by
    intro l
    rw [← hd, State.modItem_lists, State.setList_lists]
  have hnot : i ∉ held := fun hm => by
    rw [hS.off i hm] at ho
    cases ho
  refine hS.moved hlinked (by rw [← hd]; rfl) (by rw [← hd]; rfl) (fun j => ?_) (fun j => ?_)
    (fun mt l k => by rw [hlists, if_neg (by simp)]) ?_ (List.nodup_cons.mpr ⟨hnot, hS.nodup⟩)
    fun j hj => ?_
  · by_cases hj : j = i
    · subst hj
      unfold marks
      rw [hflags]
    · rw [hother j hj]
  · by_cases hj : j = i
    · rw [hj, hpi]
    · rw [hother j hj]
  · rw [hlists, if_pos rfl]
    exact (List.perm_middle.symm).trans ((List.perm_cons_erase hi).symm.append_left held)
  · rcases List.mem_cons.mp hj with rfl | hj
    · exact hnone
    · rw [hother j fun e => hnot (e ▸ hj)]
      exact hS.off j hj

/-- **A block into the cache.** -/
theorem cache_given (hS : Sound st nu held total) (hi : i ∈ held) :
    Sound (st.pushHead (cacheCell nu) i) nu (held.erase i) total ∧ (Balanced st nu held total →
      Balanced (st.pushHead (cacheCell nu) i) nu (held.erase i) total) := by
  refine hS.moved (hS.linked.pushHead (hS.off i hi) _) rfl rfl
    (fun j => st.pushHead_keeps _ i j marks rfl) (fun j => st.pushHead_keeps _ i j ItemStruct.prev rfl)
    (fun mt l k => by rw [State.pushHead_lists, if_neg (by simp)]) ?_ (hS.nodup.erase i)
    fun j hj => ?_
  · rw [State.pushHead_lists, if_pos rfl]
    exact List.perm_middle.trans ((List.perm_cons_erase hi).symm.append_right _)
  · obtain ⟨hne, hj⟩ := hS.nodup.mem_erase_iff.mp hj
    rw [State.pushHead_items, if_neg hne]
    exact hS.off j hj

/-- The counts of the lists are not read. -/
theorem sound_countInc (hS : Sound st nu held total) (h : ListHead) :
    Sound (st.countInc h) nu held total ∧
      (Balanced st nu held total → Balanced (st.countInc h) nu held total) :=
  hS.moved (hS.linked.countInc h) rfl rfl (fun _ => rfl) (fun _ => rfl) (fun _ _ _ => rfl)
    (List.Perm.refl _) hS.nodup hS.off

theorem sound_countDec (hS : Sound st nu held total) (h : ListHead) :
    Sound (st.countDec h) nu held total ∧
      (Balanced st nu held total → Balanced (st.countDec h) nu held total) :=
  hS.moved (hS.linked.countDec h) rfl rfl (fun _ => rfl) (fun _ => rfl) (fun _ _ _ => rfl)
    (List.Perm.refl _) hS.nodup hS.off

end Cache

/-! ## 4. Frees -/

/-- A free that merges, if it does, with blocks of its own lists. -/
def MergesOwn (st : State) (nu : Nat) (mt : MigrationType) (item : Item) : Prop :=
  mt = .unmovable ∨ mt = .reclaimable →
    BuddiesListed st nu (blockLvl st item) (blockOrder st item) mt
      (levelMaxOrder st nu (blockLvl st item)) ((blockLvl st item : Int) = st.tables.phyGroupLvl nu) item

section Frees

variable {st st' : State} {nu total fuel : Nat} {held freed : List Item} {mt : MigrationType}
  {item : Item}

/-- Taking the head off a compound chain touches the chain of the head only. -/
theorem compoundRemoveHead_links (st : State) (head i : Item) :
    ((compoundRemoveHead st head).1.items i).onList = (st.items i).onList ∧
      ((compoundRemoveHead st head).1.items i).prev = (st.items i).prev ∧
      (i ≠ head → (compoundRemoveHead st head).1.items i = st.items i) := by
  unfold compoundRemoveHead
  split
  · exact ⟨rfl, rfl, fun _ => rfl⟩
  · dsimp only
    exact ⟨st.modItem_keeps i ItemStruct.onList rfl, st.modItem_keeps i ItemStruct.prev rfl,
      fun hi => by rw [State.modItem_items, if_neg hi]⟩

/-- The buddies of a free are read from flags and links. -/
theorem BuddiesListed.congr {lvl order maxOrder : Nat} {top : Prop}
    (h : BuddiesListed st nu lvl order mt maxOrder top item) (ht : st'.tables = st.tables)
    (hf : ∀ i, (st'.items i).flags = (st.items i).flags)
    (ho : ∀ i, (st'.items i).onList = (st.items i).onList) :
    BuddiesListed st' nu lvl order mt maxOrder top item := by
  unfold BuddiesListed
  rw [ht]
  intro base a n hn
  obtain ⟨h1, h2⟩ := h n fun m hm => by
    obtain ⟨below, type, cap, whole, buddy, valid⟩ := hn m hm
    refine ⟨below, type, cap, ?_, ?_, ?_⟩
    · rw [← whole]
      exact partlyFree_congr (by rw [hf])
    · rw [← buddy]
      unfold itemIsBuddy
      rw [hf]
    · rw [← valid]
      unfold buddyIsValid
      rw [hf, ho]
  exact ⟨(ho _).trans h1, h2⟩

/-- The lists of the other classes are left alone. -/
theorem PutBack.other {lvl order : Nat} (h : PutBack st st' nu lvl order mt item) (hL : st.Linked)
    (hoff : (st.items item).onList = none) {mt' : MigrationType} (hne : mt' ≠ mt) :
    listedItems st' nu mt' = listedItems st nu mt' := by
  refine listedItems_congr (fun c _ => h.lists _ fun k e => ?_) fun c _ j hj => ?_
  · simp only [ListHead.groupCell.injEq] at e
    exact hne e.2.1
  · have ho := (hL.mem j _).mpr hj
    refine congrArg ItemStruct.prev (h.kept j (hL.ne_of_mem hoff hj) fun k e => ?_)
    rw [e] at ho
    simp only [Option.some.injEq, ListHead.groupCell.injEq] at ho
    exact hne ho.2.1.symm

/-- The parents and marks of a state are those of another. -/
theorem listedItems_same (hl : st'.lists = st.lists)
    (hp : ∀ j, (st'.items j).prev = (st.items j).prev) (mt : MigrationType) :
    listedItems st' nu mt = listedItems st nu mt :=
  listedItems_congr (fun _ _ => by rw [hl]) fun _ _ j _ => hp j

/-- Taking a block out of use. -/
theorem usedItems_erase (hi : item ∈ held) (hcache : st'.lists (cacheCell nu) = st.lists (cacheCell nu))
    (hm : ∀ j, j ∈ held.erase item ∨ j ∈ st.lists (cacheCell nu) →
      marks (st'.items j) = marks (st.items j)) :
    usedItems st' nu (held.erase item) + blockSize st item + listedItems st nu .unmovable =
      usedItems st nu held + listedItems st' nu .unmovable := by
  have hperm : (held ++ st.lists (cacheCell nu)).Perm
      (item :: (held.erase item ++ st.lists (cacheCell nu))) :=
    (List.perm_cons_erase hi).append_right _
  have hsum := (hperm.map (blockSize st)).sum_eq
  rw [List.map_cons, List.sum_cons] at hsum
  have hsame := @sum_blockSize_congr st st' (held.erase item ++ st.lists (cacheCell nu))
    fun j hj => hm j (List.mem_append.mp hj)
  unfold usedItems
  rw [hcache, hsame, hsum]
  omega

/-- The credit writes the counter only. -/
theorem counted_rest (mt : MigrationType) (item : Item) (st st1 : State) :
    (counted mt item st st1).items = st1.items ∧ (counted mt item st st1).lists = st1.lists ∧
      (counted mt item st st1).tables = st1.tables := by
  unfold counted
  split <;> exact ⟨rfl, rfl, rfl⟩

theorem counted_node (hn : blockNode st item = nu) (st1 : State) :
    (counted mt item st st1).nodes (.phy nu) =
      { st1.nodes (.phy nu) with
        nrFreeitems := (st1.nodes (.phy nu)).nrFreeitems +
          if mt = .unmovable then 0 else blockItems st item } := by
  unfold counted
  by_cases hmt : mt = .unmovable
  · rw [if_neg (not_not_intro hmt), if_pos hmt]
    simp
  · rw [if_pos hmt, if_neg hmt, hn, State.raiseFree]
    simp

/-- **A block given back alone**: on the lists of its class, then credited, unless it is parked. -/
theorem dequeue_putsBack (hS : Sound st nu held total) (hi : item ∈ held) (hmt : mt ≠ .movable)
    (hM : BuddiesListed st nu (blockLvl st item) (blockOrder st item) mt
      (levelMaxOrder st nu (blockLvl st item)) ((blockLvl st item : Int) = st.tables.phyGroupLvl nu) item)
    (h : dequeueGroupMigration .listFirst mt fuel st item = some (st', freed)) :
    ∃ st1, PutBack st st1 nu (blockLvl st item) (blockOrder st item) mt item ∧
      st' = counted mt item st st1 := by
  cases fuel with
  | zero => cases h
  | succ fuel =>
      rw [dequeueGroupMigration_once] at h
      obtain ⟨⟨st1, i⟩, hf, he⟩ := Option.map_eq_some_iff.mp h
      refine ⟨st1, ?_, (Prod.mk.inj he).1.symm⟩
      have hown := hS.own item (.inl hi)
      have hlvl : blockLvl st item < groupLvlNum := Nat.lt_succ_of_le (blockLvl_le st item)
      rw [hown.blockNode] at hf
      -- the chain's head is taken off first
      obtain ⟨hn0, ht0, hl0⟩ := compoundRemoveHead_rest st item
      have hf0 := fun j => compoundRemoveHead_flags st item j
      have hlinks := fun j => compoundRemoveHead_links st item j
      generalize (compoundRemoveHead st item).1 = st0 at hf hn0 ht0 hl0 hf0 hlinks
      have hnodeOf : (st0.nodeOf (.phy nu (blockLvl st item))) = st.nodes (.phy nu) := by
        unfold State.nodeOf
        rw [ht0, hn0, hS.node.groups _ hlvl]
      have hback : PutBack st0 st1 nu (blockLvl st item) (blockOrder st item) mt item := by
        refine freeGroupMigration_putsBack (hS.linked.congr hl0 fun j => (hlinks j).1) hmt hlvl
          (by rw [hnodeOf]; exact hS.node.current) (by rw [ht0]; exact hS.node.orders)
          (by rw [hf0]; exact hown.node) (by rw [(hlinks item).1]; exact hS.off item hi) ?_ ?_ hf
        · have := hown.low
          unfold levelMaxOrder at this ⊢
          rw [ht0]
          exact this
        · have := hM.congr ht0 hf0 fun j => (hlinks j).1
          unfold levelMaxOrder at this ⊢
          rw [ht0]
          exact this
      refine ⟨hback.linked, hback.nodes.trans hn0, hback.tables.trans ht0,
        fun l hl => (hback.lists l hl).trans (congrFun hl0 l), fun j hj hk => ?_, ?_⟩
      · rw [hback.kept j hj fun k => by rw [(hlinks j).1]; exact hk k]
        exact (hlinks j).2.2 hj
      · rw [hback.listed, listedItems_same hl0 fun j => (hlinks j).2.1]

/-- Blocks that stay in use and cached ones are not written. -/
theorem PutBack.aside {lvl order : Nat} (h : PutBack st st' nu lvl order mt item)
    (hS : Sound st nu held total) (hi : item ∈ held) {j : Item}
    (hj : j ∈ held.erase item ∨ j ∈ st.lists (cacheCell nu)) : st'.items j = st.items j := by
  rcases hj with hj | hj
  · obtain ⟨hne, hj⟩ := hS.nodup.mem_erase_iff.mp hj
    refine h.kept j hne fun k => ?_
    rw [hS.off j hj]
    exact fun e => by cases e
  · have ho := (hS.linked.mem j _).mpr hj
    refine h.kept j (hS.linked.ne_of_mem (hS.off item hi) hj) fun k => ?_
    rw [ho]
    simp

/-- **The credit is the block given back.** -/
theorem PutBack.credited {st1 : State}
    (h : PutBack st st1 nu (blockLvl st item) (blockOrder st item) mt item)
    (hS : Sound st nu held total) (hi : item ∈ held) (hmt : mt ≠ .movable) :
    Sound (counted mt item st st1) nu (held.erase item) total ∧ (Balanced st nu held total →
      Balanced (counted mt item st st1) nu (held.erase item) total) := by
  obtain ⟨hitems, hlists, htables⟩ := counted_rest mt item st st1
  have hnode := @counted_node st nu mt item (hS.own item (.inl hi)).blockNode st1
  rw [h.nodes] at hnode
  have haside : ∀ j, j ∈ held.erase item ∨ j ∈ st.lists (cacheCell nu) →
      (counted mt item st st1).items j = st.items j :=
    fun j hj => (congrFun hitems j).trans (h.aside hS hi hj)
  have hcache : (counted mt item st st1).lists (cacheCell nu) = st.lists (cacheCell nu) :=
    (congrFun hlists _).trans (h.lists _ fun k => by simp)
  -- the block is on the lists of its class, and nothing else moved
  have hsame := @listedItems_same st1 (counted mt item st st1) nu hlists
    fun j => congrArg ItemStruct.prev (congrFun hitems j)
  have hgain : listedItems (counted mt item st st1) nu mt =
      listedItems st nu mt + blockSize st item := (hsame mt).trans h.listed
  have hother : ∀ mt', mt' ≠ mt →
      listedItems (counted mt item st st1) nu mt' = listedItems st nu mt' :=
    fun mt' hne => (hsame mt').trans (h.other hS.linked (hS.off item hi) hne)
  have hused := usedItems_erase hi hcache fun j hj => congrArg marks (haside j hj)
  have hsum : freeItems (counted mt item st st1) nu +
      usedItems (counted mt item st st1) nu (held.erase item) =
        freeItems st nu + usedItems st nu held := by
    unfold freeItems
    cases mt with
    | movable => exact absurd rfl hmt
    | unmovable =>
        rw [hother .movable (by decide), hother .reclaimable (by decide),
          hother .lrutype (by decide)]
        omega
    | reclaimable =>
        rw [hother .movable (by decide), hother .lrutype (by decide)]
        rw [hother .unmovable (by decide)] at hused
        omega
    | lrutype =>
        rw [hother .movable (by decide), hother .reclaimable (by decide)]
        rw [hother .unmovable (by decide)] at hused
        omega
  refine ⟨⟨h.linked.congr hlists fun j => by rw [hitems], ?_, hS.nodup.erase item, fun j hj => ?_,
    fun j hj => ?_, by rw [hsum]; exact hS.fits, hS.small⟩, fun hB => ?_⟩
  · exact hS.node.congr (htables.trans h.tables) (by rw [hnode]) (by rw [hnode])
      (by rw [hnode]; exact hS.node.mode)
  · rw [haside j (.inl hj)]
    exact hS.off j (List.mem_of_mem_erase hj)
  · rw [hcache] at hj
    refine (hS.own j ?_).congr (htables.trans h.tables) (congrArg marks (haside j hj))
    exact hj.imp_left List.mem_of_mem_erase
  · have hfits := hS.fits
    have hsmall := hS.small
    have hsize := toNat_blockItems st item
    unfold Balanced at hB ⊢
    rw [hnode]
    show (_ + _ : Word).toNat + _ = _
    by_cases hu : mt = .unmovable
    · subst hu
      rw [if_pos rfl, add_zero]
      omega
    · rw [hother _ (Ne.symm hu)] at hused
      rw [if_neg hu, BitVec.toNat_add, hsize, Nat.mod_eq_of_lt (by omega)]
      omega

/-- **A block back to the lists of a class.** -/
theorem dequeue_given (hS : Sound st nu held total) (hi : item ∈ held) (hmt : mt ≠ .movable)
    (hM : BuddiesListed st nu (blockLvl st item) (blockOrder st item) mt
      (levelMaxOrder st nu (blockLvl st item)) ((blockLvl st item : Int) = st.tables.phyGroupLvl nu) item)
    (h : dequeueGroupMigration .listFirst mt fuel st item = some (st', freed)) :
    Sound st' nu (held.erase item) total ∧
      (Balanced st nu held total → Balanced st' nu (held.erase item) total) := by
  obtain ⟨st1, hback, rfl⟩ := dequeue_putsBack hS hi hmt hM h
  exact hback.credited hS hi hmt

/-- **The free of an unlinked block, read back**: into the cache, whose last one is freed in its place
    where that fills it, or onto the lists of one of two classes. -/
theorem findGroupReversed_cases (hnode : getItemNode (st.items item).flags = nu)
    (hoff : (st.items item).onList = none)
    (h : findGroupReversed .listFirst fuel st mt item false = some (st', freed)) :
    (mt = .lrutype ∧ (st' = (st.pushHead (cacheCell nu) item).countInc (cacheCell nu) ∨
      ∃ tmp st1 freed', tmp ∈ ((st.pushHead (cacheCell nu) item).countInc (cacheCell nu)).lists
          (cacheCell nu) ∧
        listDel ((st.pushHead (cacheCell nu) item).countInc (cacheCell nu)) tmp = some st1 ∧
        dequeueGroupMigration .listFirst .lrutype fuel (st1.countDec (cacheCell nu)) tmp =
          some (st', freed'))) ∨
    ((mt = .unmovable ∨ mt = .reclaimable) ∧
      dequeueGroupMigration .listFirst mt fuel st item = some (st', freed)) := by
  by_cases hm : mt = .sparseMovable
  · rw [hm, findGroupReversed_movable .listFirst hoff] at h
    cases h
  unfold findGroupReversed at h
  rw [hnode] at h
  simp only [Bool.false_eq_true, if_false, Option.bind_eq_bind, Option.bind_some] at h
  by_cases hl : mt = .lrutype
  · subst hl
    refine .inl ⟨rfl, ?_⟩
    rw [if_pos rfl] at h
    simp only [listAddHead, if_true, Option.bind_some] at h
    split at h
    · exact .inl (Prod.mk.inj (Option.some.inj h)).1.symm
    · simp only [Option.bind_eq_some_iff] at h
      obtain ⟨tmp, htail, st1, hd, ⟨st2, freed'⟩, hq, he⟩ := h
      obtain ⟨rfl, -⟩ := Prod.mk.inj (Option.some.inj he)
      exact .inr ⟨tmp, st1, freed', List.mem_of_getLast? htail, hd, hq⟩
  · rw [if_neg hl, if_neg hm] at h
    refine .inr ⟨?_, h⟩
    cases mt with
    | movable => exact absurd rfl hm
    | unmovable => exact .inl rfl
    | reclaimable => exact .inr rfl
    | lrutype => exact absurd rfl hl

/-- **Step: a free.** Only the cache and the lists of two classes take it. -/
theorem free_keeps (hS : Sound st nu held total) (hi : item ∈ held) (hM : MergesOwn st nu mt item)
    (h : findGroupReversed .listFirst fuel st mt item false = some (st', freed)) :
    Sound st' nu (held.erase item) total ∧
      (Balanced st nu held total → Balanced st' nu (held.erase item) total) := by
  rcases findGroupReversed_cases (hS.own item (.inl hi)).node (hS.off item hi) h with
    ⟨-, hlru⟩ | ⟨hmt, hq⟩
  · obtain ⟨hS1, hB1⟩ := cache_given hS hi
    obtain ⟨hS2, hB2⟩ := sound_countInc hS1 (cacheCell nu)
    rcases hlru with rfl | ⟨tmp, st3, freed', hmem, hd, hq⟩
    · exact ⟨hS2, fun hB => hB2 (hB1 hB)⟩
    · -- the coldest block leaves the cache and is freed in its place
      obtain ⟨hS3, hB3⟩ := cache_taken hS2 hmem hd
      obtain ⟨hS4, hB4⟩ := sound_countDec hS3 (cacheCell nu)
      have hgiven := dequeue_given hS4 (List.mem_cons_self ..) (by decide)
        (fun n hn => absurd rfl (hn n (Nat.le_refl n)).type) hq
      rw [List.erase_cons_head] at hgiven
      exact ⟨hgiven.1, fun hB => hgiven.2 (hB4 (hB3 (hB2 (hB1 hB))))⟩
  · refine dequeue_given hS hi ?_ (hM hmt) hq
    rcases hmt with rfl | rfl <;> decide

end Frees

end TensorAlloc
