/-
  File:      TensorAlloc/Hotplug.lean
  Subject:   `update_pnode`: a physical node set up with one size and grown by others.

  * `hotPlug` -- `init_pnode`, then `update_pnode` for each further size; the descriptors of a call
    follow those of the call before;
  * `PlugCall` -- GHOST: the descriptors a call creates, and the blocks it puts on the lists;
  * `carveLevels_puts` -- any size is carved to the last item, and a power of two from one order: the
    blocks then are the descriptors below `item_start`;
  * `hotPlug_inside_iff` -- `__init_item_pernode` creates the power of two below the size, the carving
    puts all of the size on the lists: they agree on the powers of two.
-/
import TensorAlloc.Init

namespace TensorAlloc

open DyadicBlocks

/-! ## 1. The calls -/

/-- `update_pnode`. -/
def updatePnode (r : BootReading) (st : State) (nu size : Nat) (itemPtr : Item) : Option State := do
  let st ← initItemPernode st nu size itemPtr
  let st ← initPnodeItem r st nu size
  let node := st.nodes (.phy nu)
  pure { st with
    nodes := Function.update st.nodes (.phy nu)
      { node with
        nrFreeitems := node.nrFreeitems + BitVec.ofNat 64 (size / fixedItemSize)
        status := .idle, size := node.size + size } }

/-- The blocks on the lists of a node, by descriptor. -/
def listedBlocks (st : State) (nu : Nat) : Multiset Block :=
  ∑ c ∈ nodeCells, (st.lists (nodeCell nu c) : Multiset Item).map (blockAt 0 c.1 c.2.2)

/-- No block is on the node's lists yet. -/
def NoneListed (st : State) (nu : Nat) : Prop := ∀ c ∈ nodeCells, st.lists (nodeCell nu c) = []

/-- What a call creates, and what it puts on the lists of the node. -/
structure PlugCall where
  created : Block
  put : Multiset Block

/-- `pn_item` descriptors from `item_ptr`. -/
def createdBlock (size : Nat) (itemPtr : Item) : Block :=
  ⟨itemPtr, fls size - 1 - groupOrderNumShift⟩

def plugCall (st st' : State) (nu size : Nat) (itemPtr : Item) : PlugCall :=
  ⟨createdBlock size itemPtr, listedBlocks st' nu - listedBlocks st nu⟩

/-- `update_pnode` for one size after the other. -/
def growPnode (r : BootReading) (nu : Nat) : State → List Nat → Item → Option (List PlugCall)
  | _, [], _ => some []
  | st, size :: sizes, itemPtr => do
      let st' ← updatePnode r st nu size itemPtr
      let calls ← growPnode r nu st' sizes (itemPtr + 2 ^ (createdBlock size itemPtr).log)
      pure (plugCall st st' nu size itemPtr :: calls)

/-- `init_pnode` with the first size, `update_pnode` with the others. -/
def hotPlug (r : BootReading) (st : State) (nu offset size : Nat) (sizes : List Nat) (itemPtr : Item) :
    Option (List PlugCall) := do
  let st' ← initPnode r st nu offset size itemPtr
  let calls ← growPnode r nu st' sizes (itemPtr + 2 ^ (createdBlock size itemPtr).log)
  pure (plugCall st st' nu size itemPtr :: calls)

/-- Each call's blocks lie within its descriptors, and no descriptor is in two blocks. -/
structure StaysInside (calls : List PlugCall) : Prop where
  within : ∀ c ∈ calls, ∀ b ∈ c.put, ∀ d ∈ b, d ∈ c.created
  apart : Apart (calls.map PlugCall.put).sum

/-! ## 2. What the carving puts on the lists -/

section Carving

variable {nu lvl o n : Nat} {st st' : State} {c c' c'' : CarveVars} {m m' : Multiset Block}

/-- The blocks by descriptor are those of a node whose first descriptor is 0. -/
theorem listedBlocks_pushTail (st : State) (nu : Nat) (h : ListHead) (i : Item) :
    listedBlocks (st.pushTail h i) nu = blockOn 0 nu h i + listedBlocks st nu :=
  freeBlocks_pushTail (st.setTables fun t => { t with phyItemStruct := fun _ => 0 }) nu h i

theorem listedBlocks_congr
    (h : ∀ c ∈ nodeCells, st'.lists (nodeCell nu c) = st.lists (nodeCell nu c)) :
    listedBlocks st' nu = listedBlocks st nu :=
  Finset.sum_congr rfl fun c hc => by rw [h c hc]

/-- The row of an order on a level. -/
def rowBlocks (lvl o : Nat) (itemStart : Item) (n : Nat) : Multiset Block :=
  (rowBelow itemStart (o + functionItemLvl groupOrderNumShift lvl) n : Multiset Item).map
    fun i => ⟨i, o + functionItemLvl groupOrderNumShift lvl⟩

/-- What one part of the carving leaves: the blocks `m` more on the lists, so much less to carve. -/
structure Puts (nu : Nat) (c c' : CarveVars) (m : Multiset Block) : Prop where
  blocks : listedBlocks c'.st nu = m + listedBlocks c.st nu
  volume : volume m + c'.relPaOffset = c.relPaOffset
  nodes : c'.st.nodes = c.st.nodes
  first : c'.st.tables.phyItemStruct = c.st.tables.phyItemStruct
  top : c'.st.tables.phyGroupLvl = c.st.tables.phyGroupLvl

theorem Puts.refl (nu : Nat) (c : CarveVars) : Puts nu c c 0 :=
  ⟨(zero_add _).symm, by simp, rfl, rfl, rfl⟩

theorem Puts.trans (h : Puts nu c c' m) (h' : Puts nu c' c'' m') : Puts nu c c'' (m' + m) where
  blocks := by rw [h'.blocks, h.blocks, add_assoc]
  volume := by
    have h1 := h.volume
    have h2 := h'.volume
    rw [volume_add]
    omega
  nodes := h'.nodes.trans h.nodes
  first := h'.first.trans h.first
  top := h'.top.trans h.top

/-- The row goes on the list of its order. -/
theorem carveBlocks_puts (hlvl : lvl < groupLvlNum) (ho : o ≤ maxItemOrder) (itemStart : Item) (n : Nat)
    (st : State) :
    ∃ st', carveBlocks .repaired nu lvl o itemStart n st = some st' ∧
      listedBlocks st' nu = rowBlocks lvl o itemStart n + listedBlocks st nu ∧
      st'.nodes = st.nodes ∧ st'.tables = st.tables := by
  induction n generalizing st with
  | zero => exact ⟨st, rfl, (zero_add _).symm, rfl, rfl⟩
  | succ n ih =>
      rw [carveBlocks_succ]
      generalize hi : itemStart - (n + 1) * 2 ^ (o + functionItemLvl groupOrderNumShift lvl) = i
      obtain ⟨st', hrun, hblocks, hnodes, htables⟩ := ih
        ((((st.modFlags i fun flags => setItemNode (setItemOrder flags o) nu).pushTail
          (.groupCell (.phy nu lvl) .movable o) i)).countInc (.groupCell (.phy nu lvl) .movable o))
      refine ⟨st', hrun, ?_, hnodes, htables⟩
      have hone : blockOn 0 nu (.groupCell (.phy nu lvl) .movable o) i =
          {⟨i, o + functionItemLvl groupOrderNumShift lvl⟩} := if_pos ⟨rfl, hlvl, ho⟩
      have hpush := listedBlocks_pushTail
        (st.modFlags i fun flags => setItemNode (setItemOrder flags o) nu) nu
        (.groupCell (.phy nu lvl) .movable o) i
      rw [hone] at hpush
      rw [hblocks]
      show _ + listedBlocks (State.pushTail _ _ _) nu = _
      rw [hpush, rowBlocks, rowBlocks, rowBelow, hi, ← Multiset.cons_coe, Multiset.map_cons,
        ← add_assoc, Multiset.add_comm _ {_}, Multiset.singleton_add]
      rfl

/-- One turn takes the row of its order. -/
theorem carveOrder_puts (hlvl : lvl < groupLvlNum) (ho : o ≤ maxItemOrder) (c : CarveVars) :
    ∃ c', carveOrder .repaired nu lvl o c = some c' ∧
      Puts nu c c' (rowBlocks lvl o c.itemStart
        (c.relPaOffset / 2 ^ (o + functionItemLvl groupOrderNumShift lvl))) ∧
      c'.relPaOffset = c.relPaOffset % 2 ^ (o + functionItemLvl groupOrderNumShift lvl) := by
  unfold carveOrder
  rw [block_size]
  dsimp only
  split
  · next hz =>
      refine ⟨c, rfl, ?_, ?_⟩
      · rw [hz]
        exact Puts.refl nu c
      · have := Nat.div_add_mod' c.relPaOffset (2 ^ (o + functionItemLvl groupOrderNumShift lvl))
        rw [hz] at this
        omega
  · obtain ⟨st', hrun, hblocks, hnodes, htables⟩ := @carveBlocks_puts nu lvl o hlvl ho c.itemStart
      (c.relPaOffset / 2 ^ (o + functionItemLvl groupOrderNumShift lvl)) (c.st.setTables fun t =>
        if (lvl : Int) = t.phyGroupLvl nu ∧ t.phyGroupOrder nu = 0 then
          { t with phyGroupOrder :=
              Function.update t.phyGroupOrder nu (min (o + 1) groupOrderNumShift) }
        else t)
    have hdiv := Nat.div_add_mod' c.relPaOffset (2 ^ (o + functionItemLvl groupOrderNumShift lvl))
    rw [hrun]
    refine ⟨_, rfl, ⟨hblocks, ?_, hnodes, ?_, ?_⟩, ?_⟩
    · rw [rowBlocks, volume_rowBelow]
      dsimp only
      omega
    · rw [htables, State.setTables]
      dsimp only
      split <;> rfl
    · rw [htables, State.setTables]
      dsimp only
      split <;> rfl
    · dsimp only
      omega

/-- The orders from `n - 1` down leave what is less than a unit. -/
theorem carveOrders_puts (hlvl : lvl < groupLvlNum) (hn : n ≤ maxItemOrder + 1) (c : CarveVars) :
    ∃ c' m, carveOrders .repaired nu lvl n c = some c' ∧ Puts nu c c' m ∧
      (n ≠ 0 → c'.relPaOffset = c.relPaOffset % 2 ^ functionItemLvl groupOrderNumShift lvl) := by
  induction n generalizing c with
  | zero => exact ⟨c, 0, rfl, Puts.refl nu c, fun h => absurd rfl h⟩
  | succ n ih =>
      obtain ⟨c1, h1, hP1, hrel1⟩ := @carveOrder_puts nu lvl n hlvl (Nat.le_of_succ_le_succ hn) c
      obtain ⟨c', m, h, hP, hrel⟩ := ih (Nat.le_of_succ_le hn) c1
      refine ⟨c', _, ?_, hP1.trans hP, fun _ => ?_⟩
      · rw [carveOrders, h1]
        exact h
      · cases n with
        | zero =>
            obtain rfl := Option.some.inj h
            rw [hrel1, Nat.zero_add]
        | succ n =>
            rw [hrel (Nat.succ_ne_zero n), hrel1, Nat.mod_mod_of_dvd]
            exact Nat.pow_dvd_pow 2 (Nat.le_add_left _ _)

/-- What the carving of a whole call leaves. -/
structure CarvesAll (nu : Nat) (c : CarveVars) (st' : State) (m : Multiset Block) : Prop where
  blocks : listedBlocks st' nu = m + listedBlocks c.st nu
  volume : volume m = c.relPaOffset
  nodes : st'.nodes = c.st.nodes
  first : st'.tables.phyItemStruct = c.st.tables.phyItemStruct
  top : 0 ≤ st'.tables.phyGroupLvl nu ∧ st'.tables.phyGroupLvl nu ≤ maxGroupLvls
  fits : ∀ k, c.relPaOffset = 2 ^ k → 2 ^ k ≤ c.itemStart → Fits m ⟨c.itemStart - 2 ^ k, k⟩

/-- The last part of the carving. -/
theorem Puts.all (h : Puts nu c c' m) (hzero : c'.relPaOffset = 0)
    (htop : 0 ≤ c.st.tables.phyGroupLvl nu ∧ c.st.tables.phyGroupLvl nu ≤ maxGroupLvls)
    (hfits : ∀ k, c.relPaOffset = 2 ^ k → 2 ^ k ≤ c.itemStart → Fits m ⟨c.itemStart - 2 ^ k, k⟩) :
    CarvesAll nu c c'.st m := by
  have hvol := h.volume
  rw [hzero, Nat.add_zero] at hvol
  exact ⟨h.blocks, hvol, h.nodes, h.first, by rw [h.top]; exact htop, hfits⟩

/-- A part of the carving of what is no power of two, then the rest. -/
theorem Puts.andThen (h : Puts nu c c' m) (hC : CarvesAll nu c' st' m')
    (hpow : ∀ k, c.relPaOffset ≠ 2 ^ k) : CarvesAll nu c st' (m' + m) where
  blocks := by rw [hC.blocks, h.blocks, add_assoc]
  volume := by
    have hvol := h.volume
    rw [volume_add, hC.volume]
    omega
  nodes := hC.nodes.trans h.nodes
  first := hC.first.trans h.first
  top := hC.top
  fits k hk := absurd hk (hpow k)

theorem carveLevels_done {r : BootReading} (n lvl : Nat) (h : c.relPaOffset = 0) :
    carveLevels r nu n lvl c = some c := by
  induction n generalizing lvl with
  | zero => rfl
  | succ n ih =>
      rw [carveLevels, if_pos (by rw [h]; exact Nat.two_pow_pos _)]
      exact ih _

/-- **One aligned level** leaves less than a unit, and of a power of two nothing: that goes on one list,
    the row right below `item_start`. -/
theorem carveOrders_level (hlvl : lvl < groupLvlNum)
    (hunit : 2 ^ functionItemLvl groupOrderNumShift lvl ≤ c.relPaOffset) :
    ∃ c' m, carveOrders .repaired nu lvl (maxItemOrder + 1) c = some c' ∧ Puts nu c c' m ∧
      c'.relPaOffset = c.relPaOffset % 2 ^ functionItemLvl groupOrderNumShift lvl ∧
      ∀ k, c.relPaOffset = 2 ^ k → 2 ^ k ≤ c.itemStart → Fits m ⟨c.itemStart - 2 ^ k, k⟩ := by
  by_cases hpow : ∃ k, c.relPaOffset = 2 ^ k
  · obtain ⟨k, hk⟩ := hpow
    have hle : functionItemLvl groupOrderNumShift lvl ≤ k := by
      rw [hk] at hunit
      exact (Nat.pow_le_pow_iff_right (by decide)).mp hunit
    have hfit := carvedOrder_le hle
    obtain ⟨c', hrun, hP, hrel⟩ :=
      @carveOrder_puts nu lvl (carvedOrder k lvl) hlvl (carvedOrder_le_max k lvl) c
    have hdvd : ∀ n, n ≤ k → c.relPaOffset % 2 ^ n = 0 := by
      intro n hn
      rw [hk]
      exact Nat.mod_eq_zero_of_dvd (Nat.pow_dvd_pow 2 hn)
    refine ⟨c', _, (carveOrders_pow hle hk).trans hrun, hP, ?_, fun k' hk' hstart => ?_⟩
    · rw [hrel, hdvd _ hfit, hdvd _ hle]
    · obtain rfl := Nat.pow_right_injective (Nat.le_refl 2) (hk.symm.trans hk')
      have ht := tiles_rowBelow_add (c.itemStart - 2 ^ k)
        (Nat.div_mul_cancel (Nat.pow_dvd_pow 2 hfit))
      rw [Nat.sub_add_cancel hstart, ← hk] at ht
      rw [← hk]
      exact ht.fits
  · obtain ⟨c', m, hrun, hP, hrel⟩ := @carveOrders_puts nu lvl (maxItemOrder + 1) hlvl (Nat.le_refl _) c
    exact ⟨c', m, hrun, hP, hrel (Nat.succ_ne_zero _), fun k hk => absurd ⟨k, hk⟩ hpow⟩

/-- **The carving puts all of a size on the lists**, a power of two right below `item_start`. -/
theorem carveLevels_puts (hn : lvl + n = groupLvlNum) (hlvl : lvl < groupLvlNum) (c : CarveVars)
    (h0 : 0 ≤ c.st.tables.phyGroupLvl nu) (htop : c.st.tables.phyGroupLvl nu ≤ lvl) :
    ∃ c' m, carveLevels .repaired nu n lvl c = some c' ∧ CarvesAll nu c c'.st m := by
  have hmax : c.st.tables.phyGroupLvl nu ≤ maxGroupLvls := by
    simp only [groupLvlNum_eq, maxGroupLvls_eq] at hlvl ⊢
    omega
  by_cases hrel : c.relPaOffset = 0
  · refine ⟨c, 0, carveLevels_done n lvl hrel, (Puts.refl nu c).all hrel ⟨h0, hmax⟩ fun k hk => ?_⟩
    rw [hrel] at hk
    exact absurd hk (Nat.two_pow_pos k).ne
  induction n generalizing lvl c with
  | zero => omega
  | succ n ih =>
      rw [carveLevels]
      -- on the finest level a unit is one descriptor: nothing is passed over
      have hlast : lvl = 3 → 2 ^ functionItemLvl groupOrderNumShift lvl = 1 := by
        intro e
        subst e
        rfl
      have hnext : lvl ≠ 3 → lvl + 1 + n = groupLvlNum ∧ lvl + 1 < groupLvlNum ∧
          ((lvl + 1 : Nat) : Int) ≤ maxGroupLvls := by
        intro hne
        simp only [groupLvlNum_eq, maxGroupLvls_eq] at hn hlvl ⊢
        omega
      by_cases hsmall : c.relPaOffset < 2 ^ functionItemLvl groupOrderNumShift lvl
      · rw [if_pos hsmall]
        obtain ⟨h1, h2, -⟩ := hnext fun e => by rw [hlast e] at hsmall; omega
        exact ih h1 h2 c h0 (by push_cast; omega) hmax hrel
      rw [if_neg hsmall]
      by_cases hodd : rangeToIdx (c.st.nodes (.phy nu)).offset %
          2 ^ functionItemLvl groupOrderNumShift lvl ≠ 0
      · rw [if_pos hodd]
        obtain ⟨h1, h2, h3⟩ := hnext fun e => hodd (by rw [hlast e, Nat.mod_one])
        have hbump : (c.st.setTables (bumpGroupLvl nu)).tables.phyGroupLvl nu =
            c.st.tables.phyGroupLvl nu + 1 := Function.update_self _ _ _
        obtain ⟨c', m, hrun, hC⟩ := ih h1 h2 { c with st := c.st.setTables (bumpGroupLvl nu) }
          (by rw [hbump]; omega) (by rw [hbump]; push_cast; omega) (by rw [hbump]; omega) hrel
        exact ⟨c', m, hrun, hC.blocks, hC.volume, hC.nodes, hC.first, hC.top, hC.fits⟩
      rw [if_neg hodd]
      obtain ⟨c1, m, hrun1, hP, hrel1, hfits⟩ := @carveOrders_level nu lvl c hlvl (Nat.not_lt.mp hsmall)
      have htop1 : c1.st.tables.phyGroupLvl nu = c.st.tables.phyGroupLvl nu := congrFun hP.top nu
      rw [hrun1]
      show ∃ c' m, (if c1.relPaOffset = 0 then some c1 else _) = some c' ∧ _
      by_cases hzero : c1.relPaOffset = 0
      · rw [if_pos hzero]
        exact ⟨c1, m, rfl, hP.all hzero ⟨h0, hmax⟩ hfits⟩
      · rw [if_neg hzero]
        obtain ⟨h1, h2, -⟩ := hnext fun e => hzero (by rw [hrel1, hlast e, Nat.mod_one])
        obtain ⟨c', m', hrun, hC⟩ := ih h1 h2 c1 (by omega) (by push_cast; omega) (by omega) hzero
        refine ⟨c', m' + m, hrun, hP.andThen hC fun k hk => hzero ?_⟩
        rw [hrel1, hk]
        rw [hk, Nat.not_lt] at hsmall
        exact Nat.mod_eq_zero_of_dvd (Nat.pow_dvd_pow 2 ((Nat.pow_le_pow_iff_right (by decide)).mp hsmall))

end Carving

/-! ## 3. One call -/

section Call

variable {nu offset size : Nat} {st st' : State} {itemPtr : Item} {call : PlugCall}
  {calls : List PlugCall} {sizes : List Nat}

/-- What a call does: it puts all of its size on the lists, within what it creates where that is all
    of it. -/
structure CallRight (size : Nat) (itemPtr : Item) (call : PlugCall) : Prop where
  created : call.created = createdBlock size itemPtr
  volume : volume call.put = size / fixedItemSize
  fits : (∃ k, size = 2 ^ (12 + k)) → Fits call.put call.created

/-- What a further call relies on. -/
structure PlugReady (st : State) (nu : Nat) (itemPtr : Item) : Prop where
  first : st.tables.phyItemStruct nu ≤ itemPtr
  top : 0 ≤ st.tables.phyGroupLvl nu ∧ st.tables.phyGroupLvl nu ≤ maxGroupLvls

/-- The descriptors of a call are a power of two, the largest in the size. -/
theorem createdBlock_log (hd : fixedItemSize ∣ size) (h0 : 0 < size) (itemPtr : Item) :
    (createdBlock size itemPtr).log = (size / fixedItemSize).log2 := by
  obtain ⟨n, rfl⟩ := hd
  have hn : n ≠ 0 := by
    intro e
    subst e
    exact absurd h0 (Nat.lt_irrefl 0)
  have hlog : (fixedItemSize * n).log2 = n.log2 + 12 := by
    have h1 := Nat.log2_self_le hn
    have h2 := @Nat.lt_log2_self n
    have he : ∀ a, 2 ^ (a + 12) = fixedItemSize * 2 ^ a := by
      intro a
      rw [pow_add, Nat.mul_comm]
      rfl
    rw [Nat.log2_eq_iff h0.ne', Nat.add_right_comm, he, he]
    exact ⟨Nat.mul_le_mul_left _ h1, Nat.mul_lt_mul_of_pos_left h2 (by decide)⟩
  rw [Nat.mul_div_cancel_left n (by decide)]
  show fls (fixedItemSize * n) - 1 - groupOrderNumShift = _
  unfold fls
  rw [if_neg h0.ne', hlog]
  rfl

/-- The two agree on the powers of two. -/
theorem size_two_pow_iff (hd : fixedItemSize ∣ size) (h0 : 0 < size) :
    (∃ k, size = 2 ^ (12 + k)) ↔ size / fixedItemSize ≤ 2 ^ (size / fixedItemSize).log2 := by
  constructor
  · intro h
    obtain ⟨k, rfl⟩ := h
    rw [size_items, Nat.log2_two_pow]
  · intro h
    obtain ⟨n, rfl⟩ := hd
    rw [Nat.mul_div_cancel_left n (by decide)] at h
    have hn : n ≠ 0 := by
      intro e
      subst e
      exact absurd h0 (Nat.lt_irrefl 0)
    refine ⟨n.log2, ?_⟩
    rw [pow_add, ← Nat.le_antisymm h (Nat.log2_self_le hn)]
    rfl

/-- `__init_item_pernode` touches no list. -/
theorem initItemPernode_creates (h0 : 0 < size) (hfirst : st.tables.phyItemStruct nu ≤ itemPtr) :
    ∃ st', initItemPernode st nu size itemPtr = some st' ∧ st'.lists = st.lists ∧
      st'.nodes = st.nodes ∧ st'.tables.phyItemStruct nu ≤ itemPtr ∧
      st'.tables.phyItemStructEnd nu = itemPtr + 2 ^ (createdBlock size itemPtr).log ∧
      st'.tables.phyGroupLvl = st.tables.phyGroupLvl := by
  unfold initItemPernode
  rw [if_neg h0.ne']
  dsimp only
  generalize hst1 : State.setTables st _ = st1
  have hfirst1 : st1.tables.phyItemStruct nu ≤ itemPtr := by
    rw [← hst1]
    show Function.update st.tables.phyItemStruct nu _ nu ≤ _
    rw [Function.update_self]
    split
    · exact Nat.le_refl _
    · exact hfirst
  have hidx : itemToRelIdx st1 itemPtr nu = some (itemPtr - st1.tables.phyItemStruct nu) := if_pos hfirst1
  rw [hidx, Option.map_some]
  refine ⟨_, rfl, ?_, ?_, ?_, ?_, ?_⟩
  · rw [initItems_lists, ← hst1]
    rfl
  · rw [initItems_nodes, ← hst1]
    rfl
  · rw [initItems_tables]
    exact hfirst1
  · rw [initItems_tables, ← hst1]
    exact Function.update_self _ _ _
  · rw [initItems_tables, ← hst1]
    rfl

/-- **`__init_pnode_item` divides by zero** from level -1 at index 0 only; elsewhere it carves all. -/
theorem initPnodeItem_carves (size : Nat)
    (htop : st.tables.phyGroupLvl nu = -1 ∧ rangeToIdx (st.nodes (.phy nu)).offset ≠ 0 ∨
      0 ≤ st.tables.phyGroupLvl nu ∧ st.tables.phyGroupLvl nu ≤ maxGroupLvls) :
    ∃ st' m, initPnodeItem .repaired st nu size = some st' ∧
      CarvesAll nu ⟨st, size / fixedItemSize, st.tables.phyItemStructEnd nu⟩ st' m := by
  unfold initPnodeItem
  dsimp only
  rcases htop with ⟨hlow, hidx⟩ | ⟨h0, h3⟩
  · rw [if_pos (by omega), if_neg hidx]
    have hbump : (st.setTables (bumpGroupLvl nu)).tables.phyGroupLvl nu =
        st.tables.phyGroupLvl nu + 1 := Function.update_self _ _ _
    obtain ⟨c', m, hrun, hC⟩ := @carveLevels_puts nu 0 groupLvlNum rfl (by decide)
      ⟨st.setTables (bumpGroupLvl nu), size / fixedItemSize, st.tables.phyItemStructEnd nu⟩
      (by rw [hbump, hlow]; decide) (by rw [hbump, hlow]; decide)
    rw [hrun]
    exact ⟨c'.st, m, rfl, hC.blocks, hC.volume, hC.nodes, hC.first, hC.top, hC.fits⟩
  · rw [if_neg (Int.not_lt.mpr h0)]
    simp only [maxGroupLvls_eq] at h3
    obtain ⟨c', m, hrun, hC⟩ := @carveLevels_puts nu (st.tables.phyGroupLvl nu).toNat
      (groupLvlNum - (st.tables.phyGroupLvl nu).toNat) (by rw [groupLvlNum_eq]; omega)
      (by rw [groupLvlNum_eq]; omega)
      ⟨st, size / fixedItemSize, st.tables.phyItemStructEnd nu⟩ h0 (by dsimp only; omega)
    rw [hrun]
    exact ⟨c'.st, m, rfl, hC⟩

/-- What was carved below the end of the descriptors created is a call done right. -/
theorem CarvesAll.right {st0 : State} {c : CarveVars} {m : Multiset Block} (hC : CarvesAll nu c st' m)
    (hold : listedBlocks c.st nu = listedBlocks st0 nu)
    (hrel : c.relPaOffset = size / fixedItemSize)
    (hstart : c.itemStart = itemPtr + 2 ^ (createdBlock size itemPtr).log) :
    CallRight size itemPtr (plugCall st0 st' nu size itemPtr) := by
  have hput : listedBlocks st' nu - listedBlocks st0 nu = m := by
    rw [hC.blocks, hold, add_tsub_cancel_right]
  refine ⟨rfl, ?_, fun h => ?_⟩
  · show DyadicBlocks.volume (_ - _) = _
    rw [hput, hC.volume, hrel]
  · obtain ⟨k, rfl⟩ := h
    have hlog : (createdBlock (2 ^ (12 + k)) itemPtr).log = k := by
      rw [createdBlock_log (by rw [pow_add]; exact Nat.dvd_mul_right _ _) (Nat.two_pow_pos _), size_items,
        Nat.log2_two_pow]
    rw [hlog] at hstart
    have hfits := hC.fits k (by rw [hrel, size_items]) (by rw [hstart]; exact Nat.le_add_left _ _)
    rw [hstart, Nat.add_sub_cancel] at hfits
    show Fits (_ - _) ⟨itemPtr, (createdBlock (2 ^ (12 + k)) itemPtr).log⟩
    rw [hput, hlog]
    exact hfits

/-- The node as `__init_pnode_item` finds it, its lists still empty. -/
structure Entered (st : State) (nu offset size : Nat) (itemPtr : Item) : Prop where
  first : st.tables.phyItemStruct nu ≤ itemPtr
  last : st.tables.phyItemStructEnd nu = itemPtr + 2 ^ (createdBlock size itemPtr).log
  top : st.tables.phyGroupLvl nu = nitemsToLvl (size / fixedItemSize)
  offset : (st.nodes (.phy nu)).offset = offset
  lists : NoneListed st nu

theorem initGroupPernode_lists {h : ListHead} (hl : st.lists h = []) :
    (initGroupPernode st nu size).lists h = [] := by
  have hreset : ∀ (st : State) (lvl : Nat), st.lists h = [] → (initFreeGroupList (st.setTables fun t =>
      { t with groupNode := Function.update t.groupNode (.phy nu lvl) (.phy nu) })
      (.phy nu lvl)).lists h = [] := by
    intro st lvl hl
    show (if _ = true then [] else st.lists h) = []
    rw [hl]
    exact ite_self _
  exact hreset _ 3 (hreset _ 2 (hreset _ 1 (hreset _ 0 hl)))

theorem initPnode_enters (offset : Nat) (h0 : 0 < size) (hfirst : st.tables.phyItemStruct nu = 0)
    (hlists : NoneListed st nu) :
    ∃ st1, Entered st1 nu offset size itemPtr ∧
      ∀ r, initPnode r st nu offset size itemPtr = initPnodeItem r st1 nu size := by
  obtain ⟨st1, hrun, hlists1, hnodes1, hfirst1, hlast1, -⟩ :=
    @initItemPernode_creates nu size (initNode st nu offset size) itemPtr h0
      (hfirst.trans_le (Nat.zero_le itemPtr))
  refine ⟨initGroupPernode st1 nu size, ⟨hfirst1, hlast1, ?_, ?_, fun c hc => ?_⟩, fun r => ?_⟩
  · exact Function.update_self _ _ _
  · rw [initGroupPernode_nodes, Function.update_self]
    show (st1.nodes (.phy nu)).offset = offset
    rw [hnodes1, initNode_nodes, Function.update_self]
  · refine initGroupPernode_lists ?_
    rw [hlists1]
    exact hlists c hc
  · unfold initPnode
    dsimp only
    rw [hrun]
    rfl

/-- `nitems_to_lvl` finds no level below 512 descriptors. -/
theorem nitemsToLvl_cases (n : Nat) :
    n < 512 ∧ nitemsToLvl n = -1 ∨ 512 ≤ n ∧ 0 ≤ nitemsToLvl n ∧ nitemsToLvl n ≤ maxGroupLvls := by
  unfold nitemsToLvl
  cases hf : (List.range maxGroupLvls).find?
      (fun level => decide (n / 2 ^ functionItemLvl groupOrderNumShift level ≠ 0)) with
  | none =>
      rw [List.find?_eq_none] at hf
      have h2 := hf 2 (by decide)
      rw [decide_eq_true_eq, not_not, Nat.div_eq_zero_iff_lt (Nat.two_pow_pos _)] at h2
      exact .inl ⟨h2, rfl⟩
  | some lvl =>
      have hp := List.find?_some hf
      have hm := List.mem_range.mp (List.mem_of_find?_eq_some hf)
      rw [decide_eq_true_eq, Ne, Nat.div_eq_zero_iff_lt (Nat.two_pow_pos _), Nat.not_lt] at hp
      rw [maxGroupLvls_eq] at hm ⊢
      have hunit : 512 ≤ 2 ^ functionItemLvl groupOrderNumShift lvl := by
        rw [functionItemLvl_eq (by omega)]
        exact Nat.pow_le_pow_right (n := 2) (i := 9) (by decide) (by omega)
      exact .inr ⟨Nat.le_trans hunit hp, Int.natCast_nonneg _, by push_cast; omega⟩

/-- The first call, where the division is not by zero. -/
theorem Entered.right (hE : Entered st nu offset size itemPtr)
    (henter : 512 ≤ size / fixedItemSize ∨ rangeToIdx offset ≠ 0) {st0 : State}
    (hlists : NoneListed st0 nu) :
    ∃ st', initPnodeItem .repaired st nu size = some st' ∧
      CallRight size itemPtr (plugCall st0 st' nu size itemPtr) ∧
      PlugReady st' nu (itemPtr + 2 ^ (createdBlock size itemPtr).log) := by
  have hcases := nitemsToLvl_cases (size / fixedItemSize)
  rw [← hE.top] at hcases
  obtain ⟨st', m, hrun, hC⟩ := @initPnodeItem_carves nu st size (by
    rcases hcases with ⟨hsmall, htop⟩ | ⟨-, h0, h3⟩
    · refine .inl ⟨htop, ?_⟩
      rw [hE.offset]
      exact henter.resolve_left (Nat.not_le.mpr hsmall)
    · exact .inr ⟨h0, h3⟩)
  refine ⟨st', hrun, hC.right (listedBlocks_congr fun c hc => ?_) rfl hE.last, ?_, hC.top⟩
  · rw [hE.lists c hc, hlists c hc]
  · rw [hC.first]
    exact Nat.le_trans hE.first (Nat.le_add_right _ _)

/-- From level -1 at index 0 the block size is zero. -/
theorem Entered.divides (hE : Entered st nu offset size itemPtr) (hsmall : size / fixedItemSize < 512)
    (hidx : rangeToIdx offset = 0) (r : BootReading) : initPnodeItem r st nu size = none := by
  have htop := hE.top
  rcases nitemsToLvl_cases (size / fixedItemSize) with ⟨-, e⟩ | ⟨hle, -⟩
  · rw [e] at htop
    unfold initPnodeItem
    dsimp only
    rw [htop, if_pos (by decide), hE.offset, if_pos hidx]
  · exact absurd hle (Nat.not_le.mpr hsmall)

/-- **A further call** never divides by zero: the level found by the first is kept. -/
theorem updatePnode_right (h0 : 0 < size) (hP : PlugReady st nu itemPtr) :
    ∃ st', updatePnode .repaired st nu size itemPtr = some st' ∧
      CallRight size itemPtr (plugCall st st' nu size itemPtr) ∧
      PlugReady st' nu (itemPtr + 2 ^ (createdBlock size itemPtr).log) := by
  obtain ⟨st1, hrun1, hlists1, -, hfirst1, hlast1, htop1⟩ := @initItemPernode_creates nu size st itemPtr
    h0 hP.first
  obtain ⟨st2, m, hrun2, hC⟩ := @initPnodeItem_carves nu st1 size (.inr (by rw [htop1]; exact hP.top))
  have hR := hC.right (listedBlocks_congr fun c _ => congrFun hlists1 _) rfl hlast1
  unfold updatePnode
  rw [hrun1, Option.bind_eq_bind, Option.bind_some, hrun2]
  refine ⟨_, rfl, hR, ?_, hC.top⟩
  show st2.tables.phyItemStruct nu ≤ _
  rw [hC.first]
  exact Nat.le_trans hfirst1 (Nat.le_add_right _ _)

end Call

/-! ## 4. All calls -/

section Calls

variable {nu : Nat} {st : State} {itemPtr : Item} {calls : List PlugCall} {sizes : List Nat}

/-- Every call is right for its size, its descriptors after those of the call before. -/
inductive CallsRight : List Nat → Item → List PlugCall → Prop
  | nil (itemPtr : Item) : CallsRight [] itemPtr []
  | cons {size : Nat} {sizes : List Nat} {itemPtr : Item} {call : PlugCall} {calls : List PlugCall}
      (head : CallRight size itemPtr call)
      (tail : CallsRight sizes (itemPtr + 2 ^ (createdBlock size itemPtr).log) calls) :
      CallsRight (size :: sizes) itemPtr (call :: calls)

theorem growPnode_right (hsizes : ∀ s ∈ sizes, 0 < s) (hP : PlugReady st nu itemPtr) :
    ∃ calls, growPnode .repaired nu st sizes itemPtr = some calls ∧ CallsRight sizes itemPtr calls := by
  induction sizes generalizing st itemPtr with
  | nil => exact ⟨[], rfl, .nil itemPtr⟩
  | cons size sizes ih =>
      obtain ⟨st', hrun, hR, hP'⟩ := updatePnode_right (hsizes size List.mem_cons_self) hP
      obtain ⟨calls, hgrow, hC⟩ := ih (fun s hs => hsizes s (List.mem_cons_of_mem _ hs)) hP'
      refine ⟨_, ?_, .cons hR hC⟩
      rw [growPnode, hrun, Option.bind_eq_bind, Option.bind_some, hgrow]
      rfl

/-- **Powers of two only**: the calls cover no descriptor twice, and none below their first. -/
theorem CallsRight.cover_le {itemPtr : Nat} (hC : CallsRight sizes itemPtr calls)
    (hpow : ∀ s ∈ sizes, ∃ k, s = 2 ^ (12 + k)) (d : Nat) :
    cover (calls.map PlugCall.put).sum d ≤ 1 ∧
      (0 < cover (calls.map PlugCall.put).sum d → itemPtr ≤ d) := by
  induction hC with
  | nil => exact ⟨Nat.zero_le _, fun h => absurd h (Nat.lt_irrefl 0)⟩
  | @cons size _ _ _ _ head tail ih =>
      have hpos := Nat.two_pow_pos (fls size - 1 - groupOrderNumShift)
      have hfit := head.fits (hpow _ List.mem_cons_self) d
      obtain ⟨hone, hbelow⟩ := ih fun s hs => hpow s (List.mem_cons_of_mem _ hs)
      rw [head.created] at hfit
      rw [List.map_cons, List.sum_cons, cover_add]
      simp only [createdBlock, mem_mk] at hfit hbelow ⊢
      split at hfit <;> omega

/-- **Right calls stay inside exactly when every size is a power of two**: the blocks of a call
    have the volume of its size, its descriptors the power of two below. -/
theorem CallsRight.inside_iff (hC : CallsRight sizes itemPtr calls)
    (hsizes : ∀ s ∈ sizes, fixedItemSize ∣ s ∧ 0 < s) :
    StaysInside calls ↔ ∀ s ∈ sizes, ∃ k, s = 2 ^ (12 + k) := by
  constructor
  · intro hS
    induction hC with
    | nil => exact fun s hs => absurd hs List.not_mem_nil
    | @cons size _ itemPtr call calls head _ ih =>
        obtain ⟨hd, h0⟩ := hsizes size List.mem_cons_self
        have hapart : ∀ d, cover call.put d + cover (calls.map PlugCall.put).sum d ≤ 1 := by
          intro d
          have := hS.apart d
          rwa [List.map_cons, List.sum_cons, cover_add] at this
        have hfits := fits_of_mem (hS.within call List.mem_cons_self) fun d =>
          Nat.le_trans (Nat.le_add_right _ _) (hapart d)
        have hvol := hfits.volume_le
        rw [head.volume, head.created, createdBlock_log hd h0] at hvol
        have htail := ih (fun s hs => hsizes s (List.mem_cons_of_mem _ hs))
          ⟨fun c hc => hS.within c (List.mem_cons_of_mem _ hc),
            fun d => Nat.le_trans (Nat.le_add_left _ _) (hapart d)⟩
        intro s hs
        rcases List.mem_cons.mp hs with rfl | hs
        · exact (size_two_pow_iff hd h0).mpr hvol
        · exact htail s hs
  · intro hpow
    refine ⟨?_, fun d => ?_⟩
    · induction hC with
      | nil => exact fun c hc => absurd hc List.not_mem_nil
      | cons head _ ih =>
          have htail := ih (fun s hs => hsizes s (List.mem_cons_of_mem _ hs))
            fun s hs => hpow s (List.mem_cons_of_mem _ hs)
          intro c hc b hb d hd
          rcases List.mem_cons.mp hc with rfl | hc
          · exact (head.fits (hpow _ List.mem_cons_self)).mem hb hd
          · exact htail c hc b hb d hd
    · exact (hC.cover_le hpow d).1

/-! ## 5. As the code stands -/

/-- An order that takes a block faults, and order 0 takes one. -/
theorem carveOrders_faults {r : BootReading} (hr : r ≠ .repaired) {lvl n : Nat} {c : CarveVars}
    (hl : NoneListed c.st nu) (hlvl : lvl < groupLvlNum) (hn : n ≤ maxItemOrder)
    (hc : 2 ^ functionItemLvl groupOrderNumShift lvl ≤ c.relPaOffset) :
    carveOrders r nu lvl (n + 1) c = none := by
  induction n with
  | zero =>
      rw [carveOrders, carveOrder_faults (by rwa [Nat.zero_add]) fun _ _ h =>
        bootAddTail_faults hr (h.trans (hl (lvl, .movable, 0) (mem_nodeCells.mpr ⟨hlvl, hn⟩)))]
      rfl
  | succ n ih =>
      rw [carveOrders]
      by_cases hfit : 2 ^ (n + 1 + functionItemLvl groupOrderNumShift lvl) ≤ c.relPaOffset
      · rw [carveOrder_faults hfit fun _ _ h =>
          bootAddTail_faults hr (h.trans (hl (lvl, .movable, n + 1) (mem_nodeCells.mpr ⟨hlvl, hn⟩)))]
        rfl
      · rw [carveOrder_skip (Nat.not_le.mp hfit)]
        exact ih (Nat.le_of_succ_le hn)

theorem carveLevels_faults {r : BootReading} (hr : r ≠ .repaired) {lvl n : Nat} {c : CarveVars}
    (hl : NoneListed c.st nu) (hn : lvl + (n + 1) = groupLvlNum) (hc : 1 ≤ c.relPaOffset) :
    carveLevels r nu (n + 1) lvl c = none := by
  induction n generalizing lvl c with
  | zero =>
      obtain rfl : lvl = 3 := by
        rw [groupLvlNum_eq] at hn
        omega
      have hone : 2 ^ functionItemLvl groupOrderNumShift 3 = 1 := rfl
      rw [carveLevels, if_neg (by rw [hone]; omega), if_neg (by rw [hone, Nat.mod_one]; simp),
        carveOrders_faults hr hl (by decide) (Nat.le_refl _) (by rw [hone]; exact hc)]
      rfl
  | succ n ih =>
      rw [carveLevels]
      split
      · exact ih hl (by omega) hc
      · next hbig =>
          split
          · exact ih hl (by omega) hc
          · rw [carveOrders_faults hr hl (by omega) (Nat.le_refl _) (Nat.not_lt.mp hbig)]
            rfl

/-- **No size is carved**: the first insertion faults. -/
theorem initPnodeItem_faults {r : BootReading} (hr : r ≠ .repaired) {size : Nat}
    (hl : NoneListed st nu) (h0 : 1 ≤ size / fixedItemSize)
    (htop : st.tables.phyGroupLvl nu ≤ maxGroupLvls) : initPnodeItem r st nu size = none := by
  unfold initPnodeItem
  dsimp only
  rw [maxGroupLvls_eq] at htop
  split
  · split
    · rfl
    · rw [Option.map_eq_none_iff]
      exact @carveLevels_faults nu r hr 0 3 _ hl rfl h0
  · next hpos =>
      obtain ⟨n, hn⟩ : ∃ n, groupLvlNum - (st.tables.phyGroupLvl nu).toNat = n + 1 :=
        ⟨3 - (st.tables.phyGroupLvl nu).toNat, by rw [groupLvlNum_eq]; omega⟩
      rw [hn, Option.map_eq_none_iff]
      exact carveLevels_faults hr hl (by omega) h0

end Calls

/-! ## 6. The growth of a node -/

section Growth

variable {nu offset size : Nat} {sizes : List Nat} {st : State} {itemPtr : Item}

theorem items_pos (hd : fixedItemSize ∣ size) (h0 : 0 < size) : 1 ≤ size / fixedItemSize :=
  Nat.div_pos (Nat.le_of_dvd h0 hd) (by decide)

theorem hotPlug_faults {r : BootReading} (hr : r ≠ .repaired) (hd : fixedItemSize ∣ size) (h0 : 0 < size)
    (hfirst : st.tables.phyItemStruct nu = 0)
    (hlists : NoneListed st nu) :
    hotPlug r st nu offset size sizes itemPtr = none := by
  obtain ⟨st1, hE, hrun⟩ := @initPnode_enters nu size st itemPtr offset h0 hfirst hlists
  have htop : st1.tables.phyGroupLvl nu ≤ maxGroupLvls := by
    rw [hE.top]
    rcases nitemsToLvl_cases (size / fixedItemSize) with ⟨-, e⟩ | ⟨-, -, hle⟩
    · rw [e]
      decide
    · exact hle
  rw [hotPlug, hrun, initPnodeItem_faults hr hE.lists (items_pos hd h0) htop]
  rfl

theorem hotPlug_divides (h0 : 0 < size) (hfirst : st.tables.phyItemStruct nu = 0)
    (hlists : NoneListed st nu)
    (hsmall : size / fixedItemSize < 512) (hidx : rangeToIdx offset = 0) :
    hotPlug .repaired st nu offset size sizes itemPtr = none := by
  obtain ⟨st1, hE, hrun⟩ := @initPnode_enters nu size st itemPtr offset h0 hfirst hlists
  rw [hotPlug, hrun, hE.divides hsmall hidx]
  rfl

/-- Where the first call does not divide by zero, every call is right. -/
theorem hotPlug_right (hsizes : ∀ s ∈ size :: sizes, 0 < s) (hfirst : st.tables.phyItemStruct nu = 0)
    (hlists : NoneListed st nu)
    (henter : 512 ≤ size / fixedItemSize ∨ rangeToIdx offset ≠ 0) :
    ∃ calls, hotPlug .repaired st nu offset size sizes itemPtr = some calls ∧
      CallsRight (size :: sizes) itemPtr calls := by
  obtain ⟨st1, hE, hrun⟩ := @initPnode_enters nu size st itemPtr offset
    (hsizes size List.mem_cons_self) hfirst hlists
  obtain ⟨st', hcarve, hR, hP⟩ := hE.right henter hlists
  obtain ⟨calls, hgrow, hC⟩ := growPnode_right (fun s hs => hsizes s (List.mem_cons_of_mem _ hs)) hP
  refine ⟨_, ?_, .cons hR hC⟩
  rw [hotPlug, hrun, hcarve, Option.bind_eq_bind, Option.bind_some, hgrow]
  rfl

end Growth

/-- **Growth stays inside the descriptors** exactly for powers of two, where the list is passed as the
    list and its head is linked to itself: `__init_item_pernode` creates the power of two below a size.
    The first call divides by zero where it has less than 512 descriptors at index 0. With the arguments
    or the heads left as they are the first insertion faults. -/
theorem hotPlug_inside_iff (st : State) (nu offset size : Nat) (sizes : List Nat) (itemPtr : Item)
    (hfirst : st.tables.phyItemStruct nu = 0)
    (hlists : NoneListed st nu)
    (hsizes : ∀ s ∈ size :: sizes, fixedItemSize ∣ s ∧ 0 < s) :
    (∀ r, r ≠ .repaired → hotPlug r st nu offset size sizes itemPtr = none) ∧
    ((∃ calls, hotPlug .repaired st nu offset size sizes itemPtr = some calls ∧ StaysInside calls) ↔
      (∀ s ∈ size :: sizes, ∃ k, s = 2 ^ (12 + k)) ∧
        (512 ≤ size / fixedItemSize ∨ rangeToIdx offset ≠ 0)) := by
  obtain ⟨hd, h0⟩ := hsizes size List.mem_cons_self
  refine ⟨fun _ hr => hotPlug_faults hr hd h0 hfirst hlists, ?_⟩
  by_cases henter : 512 ≤ size / fixedItemSize ∨ rangeToIdx offset ≠ 0
  · obtain ⟨calls, hrun, hC⟩ := @hotPlug_right nu offset size sizes st itemPtr
      (fun s hs => (hsizes s hs).2) hfirst hlists henter
    rw [hrun, ← hC.inside_iff hsizes]
    constructor
    · rintro ⟨_, h, hS⟩
      obtain rfl := Option.some.inj h
      exact ⟨hS, henter⟩
    · exact fun h => ⟨calls, rfl, h.1⟩
  · have hcase := henter
    rw [not_or, Nat.not_le, not_not] at hcase
    rw [hotPlug_divides h0 hfirst hlists hcase.1 hcase.2]
    constructor
    · rintro ⟨_, h, -⟩
      cases h
    · exact fun h => absurd h.2 henter

/-- 512 descriptors, then one, then two. -/
theorem powers_inside :
    ∃ calls, hotPlug .repaired zeroed 16 0 (2 ^ 21) [2 ^ 12, 2 ^ 13] 1 = some calls ∧
      StaysInside calls :=
  (hotPlug_inside_iff zeroed 16 0 (2 ^ 21) [2 ^ 12, 2 ^ 13] 1 rfl (fun _ _ => rfl)
    (by decide)).2.mpr ⟨List.forall_mem_cons.mpr ⟨⟨9, rfl⟩, List.forall_mem_cons.mpr ⟨⟨0, rfl⟩,
      List.forall_mem_cons.mpr ⟨⟨1, rfl⟩, List.forall_mem_nil _⟩⟩⟩, .inl (by decide)⟩

/-- Three descriptors put in the room of two; and one descriptor at index 0, which divides by zero. -/
theorem threeItems_outside :
    (∀ r, r ≠ .repaired → hotPlug r zeroed 16 (2 ^ 30) (3 * fixedItemSize) [] 1 = none) ∧
    (¬ ∃ calls, hotPlug .repaired zeroed 16 (2 ^ 30) (3 * fixedItemSize) [] 1 = some calls ∧
      StaysInside calls) ∧
    hotPlug .repaired zeroed 16 0 fixedItemSize [] 1 = none := by
  refine ⟨fun _ hr => hotPlug_faults hr (by decide) (by decide) rfl fun _ _ => rfl, ?_,
    hotPlug_divides (by decide) rfl (fun _ _ => rfl) (by decide) rfl⟩
  rintro ⟨calls, hrun, hS⟩
  obtain ⟨_, hrun', hC⟩ := @hotPlug_right 16 (2 ^ 30) (3 * fixedItemSize) [] zeroed 1 (by decide) rfl
    (fun _ _ => rfl) (.inr (by decide))
  obtain rfl := Option.some.inj (hrun.symm.trans hrun')
  obtain ⟨k, hk⟩ := (hC.inside_iff (by decide)).mp hS _ List.mem_cons_self
  have hthree : 3 * fixedItemSize = 2 ^ 12 * 3 := rfl
  rw [hthree, pow_add] at hk
  have h3 : 3 = 2 ^ k := Nat.eq_of_mul_eq_mul_left (by decide) hk
  cases k with
  | zero => omega
  | succ k => rw [pow_succ] at h3; omega

end TensorAlloc
