/-
  File:      TensorAlloc/RegionGrow.lean
  Subject:   `update_pnode` on a node in use.

  * `carveLevels_aligned` -- the levels too large for the new size are passed over, the next takes all;
  * `Plugged` -- what the call leaves: a row of blocks more on one list, the rest as it was;
  * `Plugged.region` -- the node is divided as before, the new descriptors free;
  * **`plant_divided`** -- allocations, frees and growth in any order, on nodes beside each other.
-/
import TensorAlloc.Hotplug
import TensorAlloc.RegionBoot

namespace TensorAlloc

open DyadicBlocks

/-! ## 1. Carving what is new -/

section Carving

variable {r : BootReading} {nu lvl k : Nat} {c : CarveVars}

/-- The levels whose unit is larger are passed over, without a word to the top level; the first other
    one takes all. -/
theorem carveLevels_aligned {n : Nat} (hn : lvl + n = groupLvlNum) (hl : lvl < groupLvlNum)
    (hc : c.relPaOffset = 2 ^ k)
    (ha : rangeToIdx (c.st.nodes (.phy nu)).offset % 2 ^ functionItemLvl groupOrderNumShift lvl = 0) :
    ∃ l, lvl ≤ l ∧ l < groupLvlNum ∧ functionItemLvl groupOrderNumShift l ≤ k ∧
      carveLevels r nu n lvl c = carveOrder r nu l (carvedOrder k l) c := by
  induction n generalizing lvl with
  | zero => omega
  | succ n ih =>
      by_cases hk : functionItemLvl groupOrderNumShift lvl ≤ k
      · exact ⟨lvl, Nat.le_refl _, hl, hk, carveLevels_takes hk hc ha⟩
      · rw [carveLevels]
        have hlt : c.relPaOffset < 2 ^ functionItemLvl groupOrderNumShift lvl := by
          rw [hc]
          exact Nat.pow_lt_pow_right (by decide) (Nat.lt_of_not_le hk)
        rw [if_pos hlt]
        have hlast : lvl ≠ 3 := by
          rintro rfl
          exact hk (Nat.zero_le k)
        rw [groupLvlNum_eq] at hn hl
        have hnext : lvl + 1 < groupLvlNum := by
          rw [groupLvlNum_eq]
          omega
        have hdvd : 2 ^ functionItemLvl groupOrderNumShift (lvl + 1) ∣
            rangeToIdx (c.st.nodes (.phy nu)).offset :=
          (Nat.pow_dvd_pow 2 (unit_le hnext)).trans (Nat.dvd_of_mod_eq_zero ha)
        obtain ⟨l, h1, h2, h3, h4⟩ := ih (by rw [groupLvlNum_eq]; omega) hnext
          (Nat.mod_eq_zero_of_dvd hdvd)
        exact ⟨l, Nat.le_of_succ_le h1, h2, h3, h4⟩

end Carving

/-! ## 2. The call -/

/-- The node `nu` of `n` descriptors, to be given the `2 ^ k` that follow:

    * `based` -- the array does not start at address 0, which the call reads as no array;
    * `top` -- the offset is aligned to the unit of the top level, as setting the node up left it;
    * `fits` -- what is new is aligned to its size. -/
structure Pluggable (st : State) (nu n k : Nat) (itemPtr : Item) : Prop where
  next : itemPtr = st.tables.phyItemStruct nu + n
  based : st.tables.phyItemStruct nu ≠ 0
  fresh : ∀ d < 2 ^ k, st.items (itemPtr + d) = zeroed.items 0
  top : ∃ lvl < groupLvlNum, st.tables.phyGroupLvl nu = (lvl : Int) ∧
    rangeToIdx (st.nodes (.phy nu)).offset % 2 ^ functionItemLvl groupOrderNumShift lvl = 0
  fits : 2 ^ k ∣ n
  small : n + 2 ^ k + 1 < 2 ^ 31

/-- What the call leaves: `m` blocks of order `o` more on the MOVABLE list of level `l`, and the end of
    the array. -/
structure Plugged (st st' : State) (nu k l o m : Nat) (itemPtr : Item) : Prop where
  linked : st'.Linked
  lists : ∀ h, st'.lists h = st.lists h ++ if h = .groupCell (.phy nu l) .movable o then
    rowBelow (itemPtr + 2 ^ k) (o + functionItemLvl groupOrderNumShift l) m else []
  drift : st'.drift = st.drift
  items : ∀ i, i ∉ rowBelow (itemPtr + 2 ^ k) (o + functionItemLvl groupOrderNumShift l) m →
    st'.items i = st.items i
  tables : st'.tables = { st.tables with
    phyItemStructEnd := Function.update st.tables.phyItemStructEnd nu (itemPtr + 2 ^ k) }
  others : ∀ node, node ≠ .phy nu → st'.nodes node = st.nodes node
  id : (st'.nodes (.phy nu)).nodeId = (st.nodes (.phy nu)).nodeId
  dim : (st'.nodes (.phy nu)).dim = (st.nodes (.phy nu)).dim
  offset : (st'.nodes (.phy nu)).offset = (st.nodes (.phy nu)).offset
  mode : (st'.nodes (.phy nu)).status = .idle
  level : l < groupLvlNum
  order : o ≤ maxItemOrder
  whole : m * 2 ^ (o + functionItemLvl groupOrderNumShift l) = 2 ^ k

section Grows

variable {st st' : State} {nu n k : Nat} {itemPtr : Item}

/-- The new descriptors are as `init_item` leaves them: only the end of the array is written. -/
theorem initItemPernode_fresh (hP : Pluggable st nu n k itemPtr) :
    initItemPernode st nu (2 ^ (12 + k)) itemPtr = some (st.setTables fun t =>
      { t with phyItemStructEnd := Function.update t.phyItemStructEnd nu (itemPtr + 2 ^ k) }) := by
  have hshift : fls (2 ^ (12 + k)) - 1 - groupOrderNumShift = k := by
    rw [fls_two_pow]
    show 12 + k + 1 - 1 - 12 = k
    omega
  have htables : (st.setTables fun t => { t with
        phyItemStruct := Function.update t.phyItemStruct nu
          (if t.phyItemStruct nu = 0 then itemPtr else t.phyItemStruct nu)
        phyItemStructEnd := Function.update t.phyItemStructEnd nu (itemPtr + 2 ^ k) }) =
      st.setTables fun t =>
        { t with phyItemStructEnd := Function.update t.phyItemStructEnd nu (itemPtr + 2 ^ k) } := by
    unfold State.setTables
    dsimp only
    rw [if_neg hP.based, Function.update_eq_self]
  unfold initItemPernode
  dsimp only
  rw [if_neg (Nat.two_pow_pos _).ne', hshift, htables]
  generalize hst1 : State.setTables _ _ = st1
  have hfirst : st1.tables.phyItemStruct nu = st.tables.phyItemStruct nu := by rw [← hst1]; rfl
  have hidx : itemToRelIdx st1 itemPtr nu = some n := by
    unfold itemToRelIdx
    rw [hfirst, hP.next, if_pos (Nat.le_add_right _ _), Nat.add_sub_cancel_left]
  rw [hidx, Option.map_some]
  refine congrArg some (initItems_zero fun d hd => ?_)
  obtain ⟨j, hj, rfl⟩ := List.mem_range'.mp hd
  rw [Nat.one_mul, hfirst, ← Nat.add_assoc, ← hP.next, ← hst1]
  exact hP.fresh j hj

/-- **The call puts the new descriptors on one list**; with the arguments as they are it does not
    return. -/
theorem updatePnode_grown (hL : st.Linked) (hP : Pluggable st nu n k itemPtr)
    (horder : st.tables.phyGroupOrder nu ≠ 0) :
    (∀ r, r.call = .written → updatePnode r st nu (2 ^ (12 + k)) itemPtr = none) ∧
      ∃ st' l o m, updatePnode .repaired st nu (2 ^ (12 + k)) itemPtr = some st' ∧
        Plugged st st' nu k l o m itemPtr := by
  obtain ⟨lvl, hlvl, htop, ha⟩ := hP.top
  have hinit := initItemPernode_fresh hP
  generalize hst1 : State.setTables _ _ = st1 at hinit
  have htop1 : st1.tables.phyGroupLvl nu = lvl := by rw [← hst1]; exact htop
  have hend1 : st1.tables.phyItemStructEnd nu = itemPtr + 2 ^ k := by
    rw [← hst1]
    exact Function.update_self _ _ _
  have hitems1 : st1.items = st.items := by rw [← hst1]; rfl
  have hL1 : st1.Linked := hL.congr (by rw [← hst1]; rfl) fun i => by rw [hitems1]
  -- reading by reading, the carving is one order of one level
  have hcarve : ∀ r, ∃ l, l < groupLvlNum ∧ functionItemLvl groupOrderNumShift l ≤ k ∧
      initPnodeItem r st1 nu (2 ^ (12 + k)) =
        (carveOrder r nu l (carvedOrder k l) ⟨st1, 2 ^ k, itemPtr + 2 ^ k⟩).map CarveVars.st := by
    intro r
    obtain ⟨l, -, h2, h3, h4⟩ := @carveLevels_aligned r nu lvl k ⟨st1, 2 ^ k, itemPtr + 2 ^ k⟩
      (groupLvlNum - lvl) (Nat.add_sub_cancel' (Nat.le_of_lt hlvl)) hlvl rfl (by rw [← hst1]; exact ha)
    refine ⟨l, h2, h3, ?_⟩
    unfold initPnodeItem
    dsimp only
    rw [htop1, size_items, hend1, if_neg (by omega), Int.toNat_natCast, h4]
  unfold updatePnode
  simp only [hinit, Option.bind_eq_bind, Option.bind_some]
  obtain ⟨l', hl', hul', hrun⟩ := hcarve .repaired
  constructor
  · intro r hr
    obtain ⟨l, -, hul, hw⟩ := hcarve r
    rw [hw, carveOrder_faults (Nat.pow_le_pow_right (by decide) (carvedOrder_le hul)) fun _ _ _ =>
      bootAddTail_swapped hr _ _ _]
    rfl
  · rw [hrun]
    have hle := carvedOrder_le hul'
    have hwhole : 2 ^ (k - (carvedOrder k l' + functionItemLvl groupOrderNumShift l')) *
        2 ^ (carvedOrder k l' + functionItemLvl groupOrderNumShift l') = 2 ^ k := by
      rw [← Nat.pow_add, Nat.sub_add_cancel hle]
    obtain ⟨st2, hblocks, hrow⟩ := carveBlocks_repaired nu l' (carvedOrder k l') hL1
      (show _ ≤ itemPtr + 2 ^ k by rw [hwhole]; exact Nat.le_add_left _ _) fun i hi => by
        obtain ⟨d, hd, rfl⟩ := mem_row hwhole hi
        rw [hitems1, hP.fresh d hd]
        rfl
    have hkeep : (st1.setTables fun t =>
        if (l' : Int) = t.phyGroupLvl nu ∧ t.phyGroupOrder nu = 0 then
          { t with phyGroupOrder :=
              Function.update t.phyGroupOrder nu (min (carvedOrder k l' + 1) groupOrderNumShift) }
        else t) = st1 := by
      have hno : ¬ st1.tables.phyGroupOrder nu = 0 := by rw [← hst1]; exact horder
      unfold State.setTables
      dsimp only
      rw [if_neg fun h => hno h.2]
    have hcarved : carveOrder .repaired nu l' (carvedOrder k l') ⟨st1, 2 ^ k, itemPtr + 2 ^ k⟩ =
        some ⟨st2, 2 ^ k - 2 ^ (k - (carvedOrder k l' + functionItemLvl groupOrderNumShift l')) *
          2 ^ (carvedOrder k l' + functionItemLvl groupOrderNumShift l'),
          itemPtr + 2 ^ k - 2 ^ (carvedOrder k l' + functionItemLvl groupOrderNumShift l')⟩ := by
      unfold carveOrder
      dsimp only
      rw [block_size, Nat.pow_div hle (by decide), if_neg (Nat.two_pow_pos _).ne', hkeep, hblocks]
      rfl
    rw [hcarved]
    have hnodes : st2.nodes = st.nodes := by rw [hrow.nodes, ← hst1]; rfl
    refine ⟨_, l', carvedOrder k l', _, rfl, hrow.linked.congr rfl fun _ => rfl, fun h => ?_, ?_,
      fun i hi => ?_, ?_, fun node hn => ?_, ?_, ?_, ?_, ?_, hl', carvedOrder_le_max k l', hwhole⟩
    · show st2.lists h = _
      rw [hrow.lists, ← hst1]
      rfl
    · exact (hrow.drift).trans (by rw [← hst1]; exact drift_congr rfl rfl)
    · show st2.items i = _
      rw [hrow.others i hi, hitems1]
    · show st2.tables = _
      rw [hrow.tables, ← hst1]
      rfl
    · show Function.update st2.nodes _ _ node = _
      rw [Function.update_of_ne hn, hnodes]
    · show (Function.update st2.nodes _ _ _).nodeId = _
      rw [Function.update_self, hnodes]
    · show (Function.update st2.nodes _ _ _).dim = _
      rw [Function.update_self, hnodes]
    · show (Function.update st2.nodes _ _ _).offset = _
      rw [Function.update_self, hnodes]
    · show (Function.update st2.nodes _ _ _).status = _
      rw [Function.update_self]

end Grows

/-! ## 3. The node after the call -/

section Divided

variable {st st' : State} {nu nu' n n' k l o m : Nat} {itemPtr : Item} {held : List Item}

theorem Plugged.first (hG : Plugged st st' nu k l o m itemPtr) (p : Nat) :
    st'.tables.phyItemStruct p = st.tables.phyItemStruct p := by rw [hG.tables]

/-- The row, from the node's first descriptor. -/
def rowFree (n k l o m : Nat) : Multiset Block :=
  (rowBelow (n + 2 ^ k) (o + functionItemLvl groupOrderNumShift l) m : Multiset Nat).map fun y =>
    ⟨y, o + functionItemLvl groupOrderNumShift l⟩

/-- **The node is divided as before, the new descriptors free.** -/
theorem Plugged.region (hG : Plugged st st' nu k l o m itemPtr) (hP : Pluggable st nu n k itemPtr)
    (hR : Region st nu held n) : Region st' nu held (n + 2 ^ k) := by
  have hN := hR.node
  have hc : (l, .movable, o) ∈ nodeCells := mem_nodeCells.mpr ⟨hG.level, hG.order⟩
  have hunit : 2 ^ (o + functionItemLvl groupOrderNumShift l) ∣ 2 ^ k :=
    ⟨m, by rw [← hG.whole, Nat.mul_comm]⟩
  have hrow : ((rowBelow (itemPtr + 2 ^ k) (o + functionItemLvl groupOrderNumShift l) m : List Item) :
      Multiset Item).map (blockAt (st.tables.phyItemStruct nu) l o) = rowFree n k l o m := by
    have hmap := map_sub_rowBelow (st.tables.phyItemStruct nu) (itemPtr + 2 ^ k)
      (o + functionItemLvl groupOrderNumShift l) m
    rw [hP.next, Nat.add_assoc, Nat.add_sub_cancel_left] at hmap
    unfold rowFree
    rw [hP.next, Nat.add_assoc, ← hmap, Multiset.map_coe, Multiset.map_coe, List.map_map]
    rfl
  refine hR.grown hG.linked ⟨fun lvl hl => ?_, by rw [hG.id]; exact hN.id, by rw [hG.dim]; exact hN.current,
      by rw [hG.tables]; exact hN.orders, by rw [hG.mode]; exact GroupStatus.noConfusion⟩ (hG.first nu)
    (by rw [hG.tables]; exact ⟨rfl, rfl⟩) hc hG.lists hG.drift hG.items (fun i hi => ?_) (fun d hd => ?_)
    hrow (tiles_rowBelow_add n hG.whole) (fun b hb => ?_) hP.small
  · rw [hG.tables]
    exact hN.groups lvl hl
  · obtain ⟨d, hd, rfl⟩ := mem_row hG.whole hi
    exact ⟨d, hd, by rw [hP.next, Nat.add_assoc]⟩
  · rw [← Nat.add_assoc, ← hP.next, hP.fresh d hd]
    rfl
  · obtain ⟨y, hy, rfl⟩ := Multiset.mem_map.mp hb
    obtain ⟨j, hj, rfl⟩ := mem_rowBelow.mp (Multiset.mem_coe.mp hy)
    exact Nat.dvd_sub (Nat.dvd_add (hunit.trans hP.fits) hunit) (Nat.dvd_mul_left _ _)

/-- A node beside it is left as it is. -/
theorem Plugged.beside (hG : Plugged st st' nu k l o m itemPtr) (hR : Region st nu' held n')
    (hne : nu' ≠ nu)
    (hap : ∀ d < 2 ^ k, ∀ d' < n', itemPtr + d ≠ st.tables.phyItemStruct nu' + d') :
    Region st' nu' held n' ∧ division st' nu' held = division st nu' held := by
  have hnode : st'.nodes (.phy nu') = st.nodes (.phy nu') :=
    hG.others _ fun e => hne (NodeRef.phy.inj e)
  have hN := hR.node
  have hc : (l, .movable, o) ∈ nodeCells := mem_nodeCells.mpr ⟨hG.level, hG.order⟩
  refine hR.beside_row hne hG.linked ⟨fun lvl hl => ?_, by rw [hnode]; exact hN.id,
      by rw [hnode]; exact hN.current, by rw [hG.tables]; exact hN.orders, by rw [hnode]; exact hN.mode⟩
    (hG.first nu') (by rw [hG.tables]; exact ⟨rfl, rfl⟩) hc hG.lists hG.drift hG.items fun i hi => ?_
  · rw [hG.tables]
    exact hN.groups lvl hl
  · obtain ⟨d, hd, rfl⟩ := mem_row hG.whole hi
    exact hap d hd

end Divided

/-! ## 4. Runs -/

/-- An allocation or a free on a node, or `2 ^ k` descriptors more for it from `itemPtr`. -/
inductive PlantOp
  | on (nu : Nat) (op : CounterOp)
  | plug (nu k : Nat) (itemPtr : Item)

/-- The globals, the blocks in use by node, and GHOST: how many descriptors each node was given. -/
structure Plant where
  st : State
  held : Nat → List Item
  size : Nat → Nat

section Plant

variable (itemarrayPrev : ItemarrayPrev) (r : Reading) (s : Searches) (depth fuel : Nat)

/-- A node in use has heads that are linked: the call is read with its own arguments only. -/
def plantStep (x : Plant) : PlantOp → Option Plant
  | .on nu op => (counterStep r s depth fuel nu (x.st, x.held nu) op).map fun y =>
      { x with st := y.1, held := Function.update x.held nu y.2 }
  | .plug nu k itemPtr => (updatePnode ⟨r, .linked⟩ x.st nu (2 ^ (12 + k)) itemPtr).map fun st =>
      { x with st := st, size := Function.update x.size nu (x.size nu + 2 ^ k) }

def plantRun : Plant → List PlantOp → Option Plant
  | x, [] => some x
  | x, op :: ops => (plantStep r s depth fuel x op).bind fun y => plantRun y ops

/-- What a step must meet: new descriptors are apart from those of the other nodes. -/
def PlantOp.Meets (on : Nat → Prop) (x : Plant) : PlantOp → Prop
  | .on nu op => on nu ∧ StepMeets itemarrayPrev nu x.st op
  | .plug nu k itemPtr => on nu ∧ Pluggable x.st nu (x.size nu) k itemPtr ∧
      ∀ nu', on nu' → nu' ≠ nu → ∀ d < 2 ^ k, ∀ d' < x.size nu',
        itemPtr + d ≠ x.st.tables.phyItemStruct nu' + d'

/-- Every step of the run meets its condition. -/
def PlantMeets (on : Nat → Prop) : Plant → List PlantOp → Prop
  | _, [] => True
  | x, op :: ops => op.Meets itemarrayPrev on x ∧
      ∀ y, plantStep r s depth fuel x op = some y → PlantMeets on y ops

instance {st : State} {nu n k : Nat} {itemPtr : Item} : Decidable (Pluggable st nu n k itemPtr) :=
  decidable_of_iff (itemPtr = st.tables.phyItemStruct nu + n ∧ st.tables.phyItemStruct nu ≠ 0 ∧
      (∀ d < 2 ^ k, st.items (itemPtr + d) = zeroed.items 0) ∧
      (∃ lvl < groupLvlNum, st.tables.phyGroupLvl nu = (lvl : Int) ∧
        rangeToIdx (st.nodes (.phy nu)).offset % 2 ^ functionItemLvl groupOrderNumShift lvl = 0) ∧
      2 ^ k ∣ n ∧ n + 2 ^ k + 1 < 2 ^ 31)
    ⟨fun ⟨h1, h2, h3, h4, h5, h6⟩ => ⟨h1, h2, h3, h4, h5, h6⟩,
      fun h => ⟨h.next, h.based, h.fresh, h.top, h.fits, h.small⟩⟩

instance {l : List Nat} {x : Plant} {op : PlantOp} :
    Decidable (op.Meets itemarrayPrev (fun nu => nu ∈ l) x) :=
  match op with
  | .on nu op => inferInstanceAs (Decidable (nu ∈ l ∧ StepMeets itemarrayPrev nu x.st op))
  | .plug nu k itemPtr => inferInstanceAs (Decidable (nu ∈ l ∧
      Pluggable x.st nu (x.size nu) k itemPtr ∧ ∀ nu' ∈ l, nu' ≠ nu →
        ∀ d < 2 ^ k, ∀ d' < x.size nu', itemPtr + d ≠ x.st.tables.phyItemStruct nu' + d'))

instance decidablePlantMeets (l : List Nat) :
    ∀ x ops, Decidable (PlantMeets itemarrayPrev r s depth fuel (fun nu => nu ∈ l) x ops)
  | _, [] => isTrue trivial
  | x, op :: ops =>
      have := fun x => decidablePlantMeets l x ops
      inferInstanceAs (Decidable (op.Meets itemarrayPrev (fun nu => nu ∈ l) x ∧
        ∀ y, plantStep r s depth fuel x op = some y →
          PlantMeets itemarrayPrev r s depth fuel (fun nu => nu ∈ l) y ops))

end Plant

section Results

variable {r : Reading} {s : Searches} {env : StreamEnv} {depth fuel freeFuel : Nat} {on : Nat → Prop}
  {x x' : Plant}

/-- Growth of one of several nodes. -/
theorem Regions.plugged {st st' : State} {held : Nat → List Item} {n : Nat → Nat} {nu k l o m : Nat}
    {itemPtr : Item} (hR : Regions st held n on) (hnu : on nu)
    (hG : Plugged st st' nu k l o m itemPtr) (hP : Pluggable st nu (n nu) k itemPtr)
    (hap : ∀ nu', on nu' → nu' ≠ nu → ∀ d < 2 ^ k, ∀ d' < n nu',
      itemPtr + d ≠ st.tables.phyItemStruct nu' + d') :
    Regions st' held (Function.update n nu (n nu + 2 ^ k)) on := by
  -- a descriptor of the grown node was its own, or is new
  have hnew : ∀ nu', on nu' → nu' ≠ nu → ∀ d < n nu + 2 ^ k, ∀ d' < n nu',
      st.tables.phyItemStruct nu + d ≠ st.tables.phyItemStruct nu' + d' := by
    intro nu' h' hne d hd d' hd'
    rcases Nat.lt_or_ge d (n nu) with hlt | hge
    · exact hR.apart nu hnu nu' h' (Ne.symm hne) d hlt d' hd'
    · obtain ⟨e, rfl⟩ := Nat.exists_eq_add_of_le hge
      rw [← Nat.add_assoc, ← hP.next]
      exact hap nu' h' hne e (Nat.lt_of_add_lt_add_left hd) d' hd'
  refine ⟨fun p hp => ?_, fun p hp q hq hpq => ?_⟩
  · by_cases he : p = nu
    · subst he
      rw [Function.update_self]
      exact hG.region hP (hR.region p hp)
    · rw [Function.update_of_ne he]
      exact (hG.beside (hR.region p hp) he (hap p hp he)).1
  · rw [hG.first, hG.first]
    by_cases h1 : p = nu
    · subst h1
      rw [Function.update_self, Function.update_of_ne (Ne.symm hpq)]
      exact hnew q hq (Ne.symm hpq)
    · by_cases h2 : q = nu
      · subst h2
        rw [Function.update_self, Function.update_of_ne h1]
        exact fun d hd d' hd' e => hnew p hp h1 d' hd' d hd e.symm
      · rw [Function.update_of_ne h1, Function.update_of_ne h2]
        exact hR.apart p hp q hq hpq

/-- **Step.** -/
theorem plantStep_divided {op : PlantOp} (hR : Regions x.st x.held x.size on)
    (hM : op.Meets env.itemarrayPrev on x)
    (h : plantStep r (s.withSparse env (fuel + 1)) (depth + 2) freeFuel x op = some x') :
    Regions x'.st x'.held x'.size on ∧ ∀ nu, x.size nu ≤ x'.size nu := by
  cases op with
  | on nu op =>
      obtain ⟨hnu, hstep⟩ := hM
      obtain ⟨y, hy, rfl⟩ := Option.map_eq_some_iff.mp h
      have hst := counterStep_stepped (x := (x.st, x.held nu)) (hR.region nu hnu) hstep hy
      exact ⟨(hR.step hnu hst).1, fun _ => Nat.le_refl _⟩
  | plug nu k itemPtr =>
      obtain ⟨hnu, hP, hap⟩ := hM
      obtain ⟨st', hu, rfl⟩ := Option.map_eq_some_iff.mp h
      have hreg := hR.region nu hnu
      obtain ⟨hwritten, st1, l, o, m, hrun, hG⟩ := updatePnode_grown hreg.linked hP
        (Nat.ne_of_gt hreg.node.orders.1)
      cases r with
      | written =>
          rw [hwritten _ rfl] at hu
          cases hu
      | listFirst =>
          obtain rfl := Option.some.inj (hrun.symm.trans hu)
          refine ⟨hR.plugged hnu hG hP hap, fun p => ?_⟩
          show x.size p ≤ Function.update x.size nu (x.size nu + 2 ^ k) p
          by_cases he : p = nu
          · rw [he, Function.update_self]
            exact Nat.le_add_right _ _
          · rw [Function.update_of_ne he]

/-- Run. -/
theorem plantRun_divided {ops : List PlantOp} (hR : Regions x.st x.held x.size on)
    (hM : PlantMeets env.itemarrayPrev r (s.withSparse env (fuel + 1)) (depth + 2) freeFuel on x ops)
    (h : plantRun r (s.withSparse env (fuel + 1)) (depth + 2) freeFuel x ops = some x') :
    Regions x'.st x'.held x'.size on ∧ ∀ nu, x.size nu ≤ x'.size nu := by
  induction ops generalizing x with
  | nil =>
      obtain rfl := Option.some.inj h
      exact ⟨hR, fun _ => Nat.le_refl _⟩
  | cons op ops ih =>
      obtain ⟨hstep, hrest⟩ := hM
      rw [plantRun, Option.bind_eq_some_iff] at h
      obtain ⟨y, hy, h⟩ := h
      obtain ⟨hR', hle⟩ := plantStep_divided hR hstep hy
      obtain ⟨hR'', hle'⟩ := ih hR' (hrest y hy) h
      exact ⟨hR'', fun nu => (hle nu).trans (hle' nu)⟩

/-- **Nodes in use that grow**: after any run of allocations, frees and `update_pnode`, on nodes beside
    each other and in any order, every descriptor a node was given is in exactly one block, on a list, in
    the cache or handed out. From there a node can always grow, with the list as the list; as written
    the call does not return. -/
theorem plant_divided (s : Searches) (env : StreamEnv) (depth fuel freeFuel : Nat) (on : Nat → Prop) :
    ∀ r x x' ops, Regions x.st x.held x.size on →
      PlantMeets env.itemarrayPrev r (s.withSparse env (fuel + 1)) (depth + 2) freeFuel on x ops →
      plantRun r (s.withSparse env (fuel + 1)) (depth + 2) freeFuel x ops = some x' →
      Regions x'.st x'.held x'.size on ∧ (∀ nu, x.size nu ≤ x'.size nu) ∧
        ∀ nu k itemPtr, on nu → Pluggable x'.st nu (x'.size nu) k itemPtr →
          (∀ heads, updatePnode ⟨.written, heads⟩ x'.st nu (2 ^ (12 + k)) itemPtr = none) ∧
            ∃ st', updatePnode .repaired x'.st nu (2 ^ (12 + k)) itemPtr = some st' := by
  intro r x x' ops hR hM h
  obtain ⟨hR', hle⟩ := plantRun_divided hR hM h
  refine ⟨hR', hle, fun nu k itemPtr hnu hP => ?_⟩
  have hreg := hR'.region nu hnu
  obtain ⟨hwritten, st', _, _, _, hrun, -⟩ := updatePnode_grown hreg.linked hP
    (Nat.ne_of_gt hreg.node.orders.1)
  exact ⟨fun _ => hwritten _ rfl, st', hrun⟩

/-- The memory node of `bootedTwo` hands its block out, grows by two descriptors and cuts the new block
    for two requests; the time node's block comes and goes in between. All comes back, and the new block
    is joined. -/
def growAndBack : List PlantOp :=
  [.on 16 (.alloc 2 .unmovable 1 false), .plug 16 1 2056, .on 0 (.alloc 2 .unmovable 1 false),
    .on 16 (.alloc 3 .unmovable 0 false), .on 16 (.alloc 3 .unmovable 0 false), .on 0 (.free .unmovable 8),
    .on 16 (.free .unmovable 2056), .on 16 (.free .unmovable 2057), .on 16 (.free .unmovable 1032)]

theorem growAndBack_runs : (bootedTwo.bind fun st =>
    (plantRun .listFirst (noSearch.withSparse streamEnv 1) 2 1 ⟨st, fun _ => [], fun _ => 2 ^ 10⟩
      growAndBack).map fun x => (x.size 16, x.st.lists (nodeCell 16 (3, .unmovable, 1)))) =
    some (2 ^ 10 + 2, [2056]) := by
  decide +kernel

theorem growAndBack_meets : ∀ st, bootedTwo = some st →
    PlantMeets streamEnv.itemarrayPrev .listFirst (noSearch.withSparse streamEnv 1) 2 1
      (fun nu => nu ∈ [0, 16]) ⟨st, fun _ => [], fun _ => 2 ^ 10⟩ growAndBack := by
  decide +kernel

theorem bootedTwo_grown : ∃ st x', bootedTwo = some st ∧
    plantRun .listFirst (noSearch.withSparse streamEnv 1) 2 1 ⟨st, fun _ => [], fun _ => 2 ^ 10⟩
      growAndBack = some x' ∧
    x'.size 16 = 2 ^ 10 + 2 ∧ x'.st.lists (nodeCell 16 (3, .unmovable, 1)) = [2056] ∧
    Regions x'.st x'.held x'.size fun nu => nu ∈ [0, 16] := by
  obtain ⟨st, hst, hR⟩ := bootedTwo_regions
  have hrun := growAndBack_runs
  rw [hst, Option.bind_some] at hrun
  obtain ⟨x', hx, hends⟩ := Option.map_eq_some_iff.mp hrun
  exact ⟨st, x', hst, hx, congrArg Prod.fst hends, congrArg Prod.snd hends,
    (plant_divided noSearch streamEnv 0 0 1 (fun nu => nu ∈ [0, 16]) .listFirst
      ⟨st, fun _ => [], fun _ => 2 ^ 10⟩ x' growAndBack hR (growAndBack_meets st hst) hx).1⟩

/-- **A node just set up can grow**, by up to its own size. -/
theorem NodeCarved.pluggable {st st' : State} {nu k k' l o m offset dim : Nat} {itemPtr : Item}
    (hC : NodeCarved st st' nu k l o m offset itemPtr) (h0 : itemPtr ≠ 0) (hle : k' ≤ k)
    (hfresh : ∀ d < 2 ^ k', st.items (itemPtr + 2 ^ k + d) = zeroed.items 0)
    (hsmall : 2 ^ k + 2 ^ k' + 1 < 2 ^ 31) :
    Pluggable (st'.setDim (.phy nu) dim) nu (2 ^ k) k' (itemPtr + 2 ^ k) := by
  have hfirst : st'.tables.phyItemStruct nu = itemPtr := by rw [hC.first, Function.update_self]
  have hoffset : ((st'.setDim (.phy nu) dim).nodes (.phy nu)).offset = offset := by
    show (Function.update st'.nodes _ _ _).offset = _
    rw [Function.update_self]
    exact hC.record.offset
  refine ⟨by show _ = st'.tables.phyItemStruct nu + _; rw [hfirst],
    by show st'.tables.phyItemStruct nu ≠ 0; rwa [hfirst], fun d hd => ?_,
    ⟨l, hC.level, hC.top, by rw [hoffset]; exact hC.aligned⟩, Nat.pow_dvd_pow 2 hle, hsmall⟩
  show st'.items _ = _
  rw [hC.items _ fun hi => ?_, hfresh d hd]
  obtain ⟨d', hd', e⟩ := mem_row hC.whole hi
  rw [Nat.add_assoc] at e
  exact absurd hd' (Nat.not_lt.mpr (Nat.add_left_cancel e ▸ Nat.le_add_right _ _))

end Results

end TensorAlloc
