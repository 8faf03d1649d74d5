/-
  File:      TensorAlloc/FreeTotal.lean
  Subject:   What `free_group_migration` leaves alone, and when it returns.

  * `Aside` -- the globals besides lists, counts and flags: nodes, tables and the compound links;
  * `freeGroupMigration_aside` -- a free changes none of them;
  * `freeGroupMigration_returns` -- with the list as the list, a block between the top level and
    level 3 is always freed: the top level promotes nothing.
-/
import TensorAlloc.Free

namespace TensorAlloc

/-! ## 1. What a free leaves alone -/

/-- Nodes, tables and compound links are the same. -/
structure Aside (st st' : State) : Prop where
  nodes : st'.nodes = st.nodes
  tables : st'.tables = st.tables
  head : ∀ i, (st'.items i).compoundHead = (st.items i).compoundHead
  node : ∀ i, (st'.items i).compoundNode = (st.items i).compoundNode

theorem Aside.refl (st : State) : Aside st st := ⟨rfl, rfl, fun _ => rfl, fun _ => rfl⟩

theorem Aside.trans {st st' st'' : State} (h : Aside st st') (h' : Aside st' st'') :
    Aside st st'' :=
  ⟨h'.nodes.trans h.nodes, h'.tables.trans h.tables, fun i => (h'.head i).trans (h.head i),
    fun i => (h'.node i).trans (h.node i)⟩

section Aside

variable {st st' : State} {mt : MigrationType} {v v' : MergeVars}

theorem aside_modFlags (st : State) (i : Item) (f : Word → Word) : Aside st (st.modFlags i f) := by
  refine ⟨rfl, rfl, fun j => ?_, fun j => ?_⟩ <;> rw [State.modFlags_items] <;> split <;> simp_all

theorem aside_countInc (st : State) (h : ListHead) : Aside st (st.countInc h) :=
  ⟨rfl, rfl, fun _ => rfl, fun _ => rfl⟩

theorem aside_countDec (st : State) (h : ListHead) : Aside st (st.countDec h) :=
  ⟨rfl, rfl, fun _ => rfl, fun _ => rfl⟩

theorem aside_pushHead (st : State) (h : ListHead) (i : Item) : Aside st (st.pushHead h i) := by
  refine ⟨rfl, rfl, fun j => ?_, fun j => ?_⟩ <;> rw [State.pushHead_items] <;> split <;> simp_all

theorem aside_pushTail (st : State) (h : ListHead) (i : Item) : Aside st (st.pushTail h i) := by
  refine ⟨rfl, rfl, fun j => ?_, fun j => ?_⟩ <;> rw [State.pushTail_items] <;> split <;> simp_all

theorem aside_listDel {i : Item} (h : listDel st i = some st') : Aside st st' := by
  obtain ⟨l, ho, rfl⟩ := listDel_some h
  refine ⟨rfl, rfl, fun j => ?_, fun j => ?_⟩ <;>
    simp only [State.modItem_items, State.setList_items] <;> split <;> simp_all

theorem aside_mergeStep {group : Group} {maxOrder : Nat} {top : Bool} {e : Option MergeExit}
    (h : mergeStep group mt maxOrder top st v = some (st', v', e)) : Aside st st' := by
  rcases mergeStep_cases h with ⟨-, rfl, -⟩ | ⟨-, rfl, -⟩ | ⟨-, -, rfl, -⟩ |
    ⟨-, -, -, -, -, -, -, hm⟩
  · exact Aside.refl _
  · exact aside_modFlags _ _ _
  · exact aside_modFlags _ _ _
  · obtain ⟨st1, hd, -, rfl⟩ := mergeBuddy_eq hm
    exact (aside_modFlags st v.item _).trans <| (aside_listDel hd).trans <|
      (aside_modFlags _ _ _).trans <| (aside_modFlags _ _ _).trans <|
      (aside_countDec _ _).trans (aside_modFlags _ _ _)

theorem aside_mergeLoop {group : Group} {maxOrder n : Nat} {top : Bool} {e : MergeExit}
    (h : mergeLoop group mt maxOrder top n st v = some (st', v', e)) : Aside st st' :=
  mergeLoop_keeps (fun s _ => Aside st s) (fun hP hs => hP.trans (aside_mergeStep hs)) h (.refl st)

theorem aside_insertFreed {group : Group} {lvl : Nat} {tail : Bool}
    (h : insertFreed .listFirst group mt lvl tail st v = some st') : Aside st st' := by
  rw [insertFreed_listFirst, Option.some.injEq] at h
  subst h
  refine Aside.trans ?_ ((aside_modFlags _ _ _).trans (aside_countInc _ _))
  cases tail
  · exact aside_pushHead _ _ _
  · exact aside_pushTail _ _ _

theorem aside_freePass {dim pid lvl : Nat} {group : Group} {item : Item} {order orderIndex : Nat}
    {buddy : Option (Nat × Item)} {e : PassEnd}
    (h : freePass .listFirst dim pid group mt lvl st item order orderIndex buddy = some (st', e)) :
    Aside st st' := by
  obtain ⟨idx, maxOrder, topLvl, st1, v1, exit, -, -, -, hm, hl⟩ := freePass_cases h
  refine (aside_mergeLoop hm).trans ?_
  rcases leavePass_cases hl with ⟨tail, hi, -⟩ | ⟨-, -, rfl, -⟩
  · exact aside_insertFreed hi
  · exact Aside.refl _

/-- **A free changes no node, no table and no compound link.** -/
theorem freeGroupMigration_aside {item i : Item} {group : Group} {lvl order : Nat}
    (h : freeGroupMigration .listFirst st item group lvl order mt = some (st', i)) :
    Aside st st' := by
  unfold freeGroupMigration at h
  dsimp only at h
  revert h
  generalize (if mt = .sparseMovable then order
    else order + functionItemLvl groupOrderNumShift lvl) = orderIndex
  generalize (none : Option (Nat × Item)) = buddy
  generalize (st.nodeOf group).dim = dim
  generalize getItemNode (st.items item).flags = pid
  induction lvl generalizing st group item order orderIndex buddy with
  | zero =>
      intro h
      rcases freeLoop_cases h with hp | ⟨_, _, _, hc, -⟩
      · exact aside_freePass hp
      · cases hc
  | succ lvl ih =>
      intro h
      rcases freeLoop_cases h with hp | ⟨st1, v1, lvl', hl, hp, h⟩
      · exact aside_freePass hp
      · cases hl
        exact (aside_freePass hp).trans (ih _ _ h)

end Aside

/-! ## 2. When a free returns -/

/-- The order cap of a level: above 1 off the top level, and above 8 on the top level only. -/
structure CapOf (st : State) (dim lvl : Nat) (mt : MigrationType) (maxOrder : Nat) (topLvl : Int) :
    Prop where
  max : maxOrderOf st dim lvl mt = some maxOrder
  top : topLvlOf st dim mt = some topLvl
  low : 2 ≤ maxOrder ∨ (maxOrder = 1 ∧ mt ≠ .sparseMovable ∧ (lvl : Int) = topLvl)
  high : maxOrder ≤ maxItemOrder + 1

section Returns

variable {st st' : State} {mt : MigrationType} {dim pid lvl : Nat} {group : Group}
  {v v' : MergeVars}
  {maxOrder : Nat} {top : Bool} {T : Prop}

/-- One round keeps the item at its index, and under `T` (the top level) the order below the cap; it
    leaves `done` above the cap, or with the buddy set and below the last order. -/
theorem mergeStep_exit {base : Nat} {e : Option MergeExit}
    (h1 : 1 ≤ maxOrder) (h2 : maxOrder ≤ maxItemOrder + 1) (hitem : v.item = base + v.idx)
    (hT : T → top = true) (hlow : T → v.order < maxOrder)
    (h : mergeStep group mt maxOrder top st v = some (st', v', e)) :
    v'.item = base + v'.idx ∧ (T → v'.order < maxOrder) ∧
      (e = some .done → maxOrder ≤ v'.order ∨
        (v'.buddy.isSome = true ∧ (T → v'.order + 1 < maxOrder))) := by
  have hsub : orderSub maxOrder 1 = maxOrder - 1 :=
    orderSub_eq h1 (by simp only [maxItemOrder_eq] at h2; omega)
  rcases mergeStep_cases h with ⟨hlt, -, rfl, -⟩ | ⟨-, -, rfl, rfl, -⟩ |
    ⟨hle, hcap, -, rfl, rfl, -⟩ |
    ⟨hle, -, hcap, rfl, -, -, -, hm⟩
  · exact ⟨hitem, hlow, fun _ => .inl (by omega)⟩
  · exact ⟨hitem, hlow, fun he => by cases he⟩
  · refine ⟨hitem, hlow, fun _ => .inr ⟨rfl, fun ht => ?_⟩⟩
    have : v.order ≠ orderSub maxOrder 1 := fun e => hcap ⟨hT ht, e⟩
    show v.order + 1 < maxOrder
    omega
  · obtain ⟨-, -, rfl, -⟩ := mergeBuddy_eq hm
    refine ⟨?_, fun ht => ?_, fun he => by cases he⟩
    · show combinedItem v _ = base + (_ &&& v.idx)
      rw [combinedItem, hitem]
      exact shift_page _ _ _
    · have : v.order ≠ orderSub maxOrder 1 := fun e => hcap ⟨hT ht, e⟩
      show v.order + 1 < maxOrder
      omega

theorem mergeLoop_exit {base n : Nat} {e : MergeExit}
    (h1 : 1 ≤ maxOrder) (h2 : maxOrder ≤ maxItemOrder + 1) (hitem : v.item = base + v.idx)
    (hT : T → top = true) (hlow : T → v.order < maxOrder)
    (h : mergeLoop group mt maxOrder top n st v = some (st', v', e)) :
    v'.item = base + v'.idx ∧ (T → v'.order < maxOrder) ∧
      (e = .done → maxOrder ≤ v'.order ∨
        (v'.buddy.isSome = true ∧ (T → v'.order + 1 < maxOrder))) := by
  refine mergeLoop_rule (fun _ w => w.item = base + w.idx ∧ (T → w.order < maxOrder))
    (fun _ w exit => w.item = base + w.idx ∧ (T → w.order < maxOrder) ∧
      (exit = .done → maxOrder ≤ w.order ∨
        (w.buddy.isSome = true ∧ (T → w.order + 1 < maxOrder))))
    (fun hP hs => ?_) (fun hP hs => ?_) h ⟨hitem, hlow⟩
  · obtain ⟨ha, hb, -⟩ := mergeStep_exit h1 h2 hP.1 hT hP.2 hs
    exact ⟨ha, hb⟩
  · obtain ⟨ha, hb, hc⟩ := mergeStep_exit h1 h2 hP.1 hT hP.2 hs
    exact ⟨ha, hb, fun he => hc (by rw [he])⟩

/-- **A round returns**, and promotes only off the top level. -/
theorem freePass_returns (group : Group) {topLvl : Int} (hcap : CapOf st dim lvl mt maxOrder topLvl)
    {item : Item}
    (hbase : st.tables.phyItemStruct pid ≤ item) {order : Nat}
    (htop : mt ≠ .sparseMovable → (lvl : Int) = topLvl → order < maxOrder) (orderIndex : Nat)
    (buddy : Option (Nat × Item)) :
    ∃ st' e, freePass .listFirst dim pid group mt lvl st item order orderIndex buddy =
        some (st', e) ∧
      ∀ v, e = .promoted v → mt ≠ .sparseMovable ∧ (lvl : Int) ≠ topLvl ∧
        st'.tables.phyItemStruct pid ≤ v.item := by
  have h1 : 1 ≤ maxOrder := by
    rcases hcap.low with h | h <;> omega
  have hidx : itemToRelIdx st item pid = some (item - st.tables.phyItemStruct pid) := if_pos hbase
  obtain ⟨⟨st1, v1, exit⟩, hloop⟩ := mergeLoop_total group mt (decide ((lvl : Int) = topLvl)) h1
    hcap.high (n := mergeBound) st
    ⟨item, item - st.tables.phyItemStruct pid, order, orderIndex, buddy⟩
    (by have := hcap.high; show maxOrder < order + 65; simp only [maxItemOrder_eq] at this; omega)
    (by decide)
  obtain ⟨hitem, hlow, hdone⟩ := mergeLoop_exit (T := mt ≠ .sparseMovable ∧ (lvl : Int) = topLvl) h1
    hcap.high
    (show item = st.tables.phyItemStruct pid + (item - st.tables.phyItemStruct pid) from
      (Nat.add_sub_cancel' hbase).symm)
    (fun ht => decide_eq_true ht.2) (fun ht => htop ht.1 ht.2) hloop
  rw [freePass_of hidx hcap.max hcap.top hloop]
  have hins : ∀ tail, ∃ st', insertFreed .listFirst group mt lvl tail st1 v1 = some st' :=
    fun tail => ⟨_, insertFreed_listFirst group mt lvl tail st1 v1⟩
  cases exit with
  | direct =>
      obtain ⟨st', hst'⟩ := hins false
      refine ⟨st', .inserted v1.item, ?_, fun v he => by cases he⟩
      rw [leavePass, hst']
      rfl
  | done =>
      -- the buddy is read only where it was set
      have hset : v1.order < orderSub maxOrder 2 → v1.buddy.isSome = true := by
        intro hlt
        rcases hdone rfl with hge | h
        · exfalso
          rcases hcap.low with hm | ⟨hm, ht⟩
          · have := hcap.high
            rw [orderSub_eq hm (by simp only [maxItemOrder_eq] at this; omega)] at hlt
            omega
          · have := hlow ht
            omega
        · exact h.1
      obtain ⟨tail, htail⟩ := tailWanted_total st1 mt hset
      simp only [leavePass, htail, Option.bind_eq_bind, Option.bind_some]
      split
      · next hp =>
          refine ⟨st1, .promoted v1, rfl, fun v he => ?_⟩
          cases he
          refine ⟨hp.2.2, fun ht => ?_, ?_⟩
          · -- on the top level the loop left below order 8
            have h8 : 8 ≤ v1.order := hp.2.1
            have hlt := hlow ⟨hp.2.2, ht⟩
            have hmax := hcap.high
            simp only [maxItemOrder_eq] at hmax
            rcases hdone rfl with h | h
            · omega
            · have := h.2 ⟨hp.2.2, ht⟩
              omega
          · rw [(aside_mergeLoop hloop).tables, hitem]
            exact Nat.le_add_right _ _
      · obtain ⟨st', hst'⟩ := hins tail
        refine ⟨st', .inserted v1.item, ?_, fun v he => by cases he⟩
        rw [hst']
        rfl

/-- A block where `free_group_migration` can take it: its descriptor lies in the array of its node,
    its level is the top level or a finer one, and the top level keeps its order. -/
structure FreePlace (st : State) (pid dim lvl order : Nat) (mt : MigrationType) (item : Item) :
    Prop where
  base : st.tables.phyItemStruct pid ≤ item
  level : mt ≠ .sparseMovable → ∃ cur, getCurrentNodeNum dim = some cur ∧
    0 ≤ st.tables.phyGroupLvl cur ∧ st.tables.phyGroupLvl cur ≤ lvl ∧
    1 ≤ st.tables.phyGroupOrder cur ∧ st.tables.phyGroupOrder cur ≤ maxItemOrder + 1 ∧
    (st.tables.phyGroupLvl cur = lvl → order < st.tables.phyGroupOrder cur)

/-- The caps of a level of a node whose entries are set. -/
theorem capOf_level {cur : Nat} (hmt : mt ≠ .sparseMovable)
    (hcur : getCurrentNodeNum dim = some cur)
    (hp1 : 1 ≤ st.tables.phyGroupOrder cur) (hp9 : st.tables.phyGroupOrder cur ≤ maxItemOrder + 1) :
    CapOf st dim lvl mt (if (lvl : Int) = st.tables.phyGroupLvl cur then st.tables.phyGroupOrder cur
      else maxItemOrder) (st.tables.phyGroupLvl cur) := by
  refine ⟨?_, ?_, ?_, ?_⟩
  · rw [maxOrderOf, if_neg hmt, hcur]
    rfl
  · rw [topLvlOf, if_neg hmt, hcur]
    rfl
  · split
    · next ht =>
        rcases Nat.eq_or_lt_of_le hp1 with he | hlt
        · exact .inr ⟨he.symm, hmt, ht⟩
        · exact .inl hlt
    · exact .inl (by decide)
  · split
    · exact hp9
    · exact Nat.le_succ _

/-- The rounds end at the top level at the latest. -/
theorem freeLoop_returns {item : Item} {order : Nat} (hmt : mt ≠ .sparseMovable)
    (h : FreePlace st pid dim lvl order mt item) (orderIndex : Nat)
    (buddy : Option (Nat × Item)) :
    ∃ r, freeLoop .listFirst dim pid mt lvl group st item order orderIndex buddy = some r := by
  induction lvl generalizing st group item order orderIndex buddy with
  | zero =>
      obtain ⟨cur, hcur, h0, hle, hp1, hp9, hord⟩ := h.level hmt
      have ht : st.tables.phyGroupLvl cur = (0 : Nat) := Int.le_antisymm hle h0
      obtain ⟨st', e, hp, hprom⟩ := freePass_returns group
        (capOf_level hmt hcur hp1 hp9) h.base
        (fun _ hl => by rw [if_pos hl]; exact hord ht) orderIndex buddy
      cases e with
      | inserted i => exact ⟨_, freeLoop_inserted hp⟩
      | promoted v => exact absurd ht.symm (hprom v rfl).2.1
  | succ lvl ih =>
      obtain ⟨cur, hcur, h0, hle, hp1, hp9, hord⟩ := h.level hmt
      obtain ⟨st', e, hp, hprom⟩ := freePass_returns group
        (capOf_level hmt hcur hp1 hp9) h.base
        (fun _ hl => by rw [if_pos hl]; exact hord hl.symm) orderIndex buddy
      cases e with
      | inserted i => exact ⟨_, freeLoop_inserted hp⟩
      | promoted v =>
          obtain ⟨-, hne, hbase⟩ := hprom v rfl
          rw [freeLoop, hp]
          have htables := (aside_freePass hp).tables
          refine ih ⟨hbase, fun _ => ⟨cur, hcur, ?_⟩⟩ v.orderIndex v.buddy
          rw [htables]
          exact ⟨h0, by omega, hp1, hp9, fun _ => hp1⟩

/-- **A free returns**, with the list as the list. -/
theorem freeGroupMigration_returns {item : Item} {order : Nat}
    (h : FreePlace st (getItemNode (st.items item).flags) (st.nodeOf group).dim lvl order mt item) :
    ∃ r, freeGroupMigration .listFirst st item group lvl order mt = some r := by
  unfold freeGroupMigration
  by_cases hmt : mt = .sparseMovable
  · -- a sparse group never promotes
    have hcap : CapOf st (st.nodeOf group).dim lvl mt maxItemOrder 0 :=
      ⟨if_pos hmt, if_pos hmt, .inl (by decide), Nat.le_succ _⟩
    obtain ⟨st', e, hp, hprom⟩ := freePass_returns group hcap h.base
      (fun hne => absurd hmt hne) (if mt = .sparseMovable then order
        else order + functionItemLvl groupOrderNumShift lvl) none
    cases e with
    | inserted i => exact ⟨_, freeLoop_inserted hp⟩
    | promoted v => exact absurd hmt (hprom v rfl).1
  · exact freeLoop_returns hmt h _ none

end Returns

end TensorAlloc
