/-
  File:      TensorAlloc/Budget.lean
  Subject:   What `group_budget` counts against what `remove_group_migration` can deliver.

  * `groupBudget_eq` -- where the counts follow the lists, the budget is the number of
    descriptors listed, in 64 bits;
  * `budget_delivers_iff` -- the budget counts the orders up to 8 inclusive, the removal searches
    below `max_order`: a request is served exactly when a list of the searched orders holds a
    block, or when nothing at all is counted.
-/
import Mathlib.Algebra.Order.BigOperators.Group.Finset
import Mathlib.Algebra.BigOperators.Intervals
import Mathlib.Algebra.BigOperators.Ring.Finset
import TensorAlloc.Remove

namespace TensorAlloc

/-! ## 1. The budget as a number -/

/-- The descriptors listed in the orders from `order` to 8, each block in the level's unit. -/
def listed (st : State) (group : Group) (lvl : Nat) (mt : MigrationType) (order : Nat) : Nat :=
  ∑ k ∈ Finset.Ico order (maxItemOrder + 1), (st.lists (.groupCell group mt k)).length *
    2 ^ (k + functionItemLvl groupOrderNumShift lvl)

/-- The counts of a group follow its lists, and pass through an `int` unharmed. -/
def Counted (st : State) (group : Group) (mt : MigrationType) : Prop :=
  ∀ k ≤ maxItemOrder, (st.lists (.groupCell group mt k)).length < 2 ^ 31 ∧
    st.counts (.groupCell group mt k) = BitVec.ofNat 64 (st.lists (.groupCell group mt k)).length

theorem orderCnt_ofNat {n : Nat} (h : n < 2 ^ 31) :
    orderCnt (BitVec.ofNat 64 n) = BitVec.ofNat 64 n := by
  have hm : (BitVec.ofNat 32 n).msb = false := by
    rw [BitVec.msb_eq_false_iff_two_mul_lt, BitVec.toNat_ofNat, Nat.mod_eq_of_lt (by omega)]
    omega
  apply BitVec.eq_of_toNat_eq
  unfold orderCnt
  rw [BitVec.setWidth_ofNat_of_le (by decide), BitVec.signExtend_eq_setWidth_of_msb_false hm]
  simp only [BitVec.toNat_setWidth, BitVec.toNat_ofNat]
  omega

theorem bit_eq (x : Nat) : bit x = BitVec.ofNat 64 (2 ^ x) := by
  apply BitVec.eq_of_toNat_eq
  simp [bit, BitVec.toNat_shiftLeft, Nat.shiftLeft_eq]

theorem groupBudget_sum (st : State) (group : Group) (mt : MigrationType) (lvl order : Nat) :
    groupBudget st group lvl mt order maxItemOrder =
      ∑ k ∈ Finset.Ico order (maxItemOrder + 1), orderCnt (st.counts (.groupCell group mt k)) *
        bit k * bit (functionItemLvl groupOrderNumShift lvl) :=
  (Multiset.sum_coe _).symm

/-- **The budget is what is listed**, in 64 bits. -/
theorem groupBudget_eq {st : State} {group : Group} {mt : MigrationType} (hc : Counted st group mt)
    (lvl order : Nat) :
    groupBudget st group lvl mt order maxItemOrder =
      BitVec.ofNat 64 (listed st group lvl mt order) := by
  rw [groupBudget_sum]
  unfold listed
  rw [← BitVec.natCast_eq_ofNat, Nat.cast_sum]
  refine Finset.sum_congr rfl fun k hk => ?_
  rw [Finset.mem_Ico] at hk
  obtain ⟨hlen, hcnt⟩ := hc k (by omega)
  rw [hcnt, orderCnt_ofNat hlen, bit_eq, bit_eq, ← BitVec.ofNat_mul, ← BitVec.ofNat_mul, pow_add,
    Nat.mul_assoc, BitVec.natCast_eq_ofNat]

/-- Nothing is listed exactly where every list is empty. -/
theorem listed_eq_zero (st : State) (group : Group) (lvl : Nat) (mt : MigrationType) (order : Nat) :
    listed st group lvl mt order = 0 ↔
      ∀ k, order ≤ k → k ≤ maxItemOrder → st.lists (.groupCell group mt k) = [] := by
  unfold listed
  rw [Finset.sum_eq_zero_iff]
  constructor
  · intro h k h1 h2
    have := h k (Finset.mem_Ico.mpr ⟨h1, by omega⟩)
    exact List.length_eq_zero_iff.mp ((Nat.mul_eq_zero.mp this).resolve_right (by simp))
  · intro h k hk
    rw [Finset.mem_Ico] at hk
    rw [h k hk.1 (by omega), List.length_nil, Nat.zero_mul]

/-! ## 2. Serving a request -/

/-- A group whose lists are linked, whose counts follow them, and whose blocks start at the level's
    unit. -/
structure Kept (st : State) (group : Group) (lvl : Nat) (mt : MigrationType) : Prop where
  linked : st.Linked
  counted : ∀ k ≤ maxItemOrder, st.counts (.groupCell group mt k) =
    BitVec.ofNat 64 (st.lists (.groupCell group mt k)).length
  aligned : ∀ k, ∀ i ∈ st.lists (.groupCell group mt k),
    itemToIdx st i % 2 ^ functionItemLvl groupOrderNumShift lvl = 0

/-- What is counted for a request is handed out. -/
def Delivers (st : State) (group : Group) (lvl order : Nat) (mt : MigrationType) : Prop :=
  groupBudget st group lvl mt order maxItemOrder > 0 →
    ∃ st' item, removeGroupMigration st group lvl order mt false = some (st', some item)

/-- The lists a request can be served from: one below `maxOrder` holds a block, or none that is
    counted does. -/
def Served (st : State) (group : Group) (order maxOrder : Nat) (mt : MigrationType) : Prop :=
  (∃ k, order ≤ k ∧ k < maxOrder ∧ st.lists (.groupCell group mt k) ≠ []) ∨
    ∀ k, order ≤ k → k ≤ maxItemOrder → st.lists (.groupCell group mt k) = []

/-- The descriptors listed fit a word, and every count an `int`. -/
def FitsWord (st : State) (group : Group) (lvl order : Nat) (mt : MigrationType) : Prop :=
  (∀ k ≤ maxItemOrder, (st.lists (.groupCell group mt k)).length < 2 ^ 31) ∧
    listed st group lvl mt order < 2 ^ 64

/-- Where every list is empty nothing is counted. -/
theorem Kept.groupBudget_nil {st : State} {group : Group} {lvl order : Nat} {mt : MigrationType}
    (hk : Kept st group lvl mt)
    (h : ∀ k, order ≤ k → k ≤ maxItemOrder → st.lists (.groupCell group mt k) = []) :
    groupBudget st group lvl mt order maxItemOrder = 0 := by
  rw [groupBudget_sum]
  refine Finset.sum_eq_zero fun k hmem => ?_
  rw [Finset.mem_Ico] at hmem
  rw [hk.counted k (by omega), h k hmem.1 (by omega), List.length_nil, orderCnt_ofNat (by decide),
    BitVec.zero_mul, BitVec.zero_mul]
  rfl

/-- Off the sparse groups nothing is passed over. -/
theorem searchList_isSome {st : State} {group : Group} {mt : MigrationType} {k : Nat}
    (hmt : mt ≠ .sparseMovable) :
    (searchList st group mt false k).isSome ↔ st.lists (.groupCell group mt k) ≠ [] := by
  have he : eligible st mt k = fun _ => true := by
    funext i
    simp [eligible, hmt]
  unfold searchList
  rw [if_neg (by simp [hmt]), he]
  cases st.lists (.groupCell group mt k) <;> simp

/-- **When a removal delivers**: some searched list holds a block. -/
theorem removeGroupMigration_delivers {st : State} {group : Group} {lvl order m : Nat}
    {mt : MigrationType} (hk : Kept st group lvl mt) (hmt : mt ≠ .sparseMovable)
    (hm : maxOrderOf st (st.nodeOf group).dim lvl mt = some m) :
    (∃ st' item, removeGroupMigration st group lvl order mt false = some (st', some item)) ↔
      ∃ k, order ≤ k ∧ k < m ∧ st.lists (.groupCell group mt k) ≠ [] := by
  constructor
  · intro h
    obtain ⟨st', item, h⟩ := h
    obtain ⟨m', oi, hm', h1, h2, h3, -⟩ := removeGroupMigration_some hk.linked h
    rw [hm, Option.some.injEq] at hm'
    subst hm'
    exact ⟨oi, h1, h2, List.ne_nil_of_mem (searchList_mem h3)⟩
  · intro h
    obtain ⟨k, h1, h2, hne⟩ := h
    cases hs : searchOrders st group mt false (m - order) order with
    | none =>
        have := searchOrders_eq_none.mp hs k h1 (by omega)
        have hsome : (searchList st group mt false k).isSome := (searchList_isSome hmt).mpr hne
        rw [this] at hsome
        cases hsome
    | some found =>
        obtain ⟨oi, item⟩ := found
        obtain ⟨-, -, h3, -⟩ := searchOrders_eq_some.mp hs
        have hmem := searchList_mem h3
        refine ⟨splitGroupMigration (st.takeOff (.groupCell group mt oi) item) group item lvl order oi
          mt, item, ?_⟩
        unfold removeGroupMigration
        simp only [hm, hs, Option.bind_eq_bind, Option.bind_some,
          listDel_of ((hk.linked.mem item _).mpr hmem), hk.aligned oi item hmem, ne_eq,
          not_true_eq_false, and_false, if_false]
        rfl

/-- **What the budget counts can be allocated, where it can**: a nonzero budget is delivered exactly
    when a list below `max_order` holds a block, or when every counted list is empty. That this
    is enough needs no bound; the other way the budget must not wrap. -/
theorem budget_delivers_iff {st : State} {group : Group} {lvl order cur : Nat} {mt : MigrationType}
    (hk : Kept st group lvl mt) (hmt : mt ≠ .sparseMovable)
    (hcur : getCurrentNodeNum (st.nodeOf group).dim = some cur) :
    let maxOrder := if (lvl : Int) = st.tables.phyGroupLvl cur then st.tables.phyGroupOrder cur
      else maxItemOrder
    (Served st group order maxOrder mt → Delivers st group lvl order mt) ∧
      (FitsWord st group lvl order mt →
        Delivers st group lvl order mt → Served st group order maxOrder mt) := by
  intro maxOrder
  have hm : maxOrderOf st (st.nodeOf group).dim lvl mt = some maxOrder := by
    unfold maxOrderOf
    rw [if_neg hmt, hcur]
    rfl
  constructor
  · intro hserved hpos
    rcases hserved with h | h
    · exact (removeGroupMigration_delivers hk hmt hm).mpr h
    · rw [hk.groupBudget_nil h] at hpos
      cases hpos
  · intro hfits hall
    by_cases h : ∀ k, order ≤ k → k ≤ maxItemOrder → st.lists (.groupCell group mt k) = []
    · exact .inr h
    · refine .inl ((removeGroupMigration_delivers hk hmt hm).mp (hall ?_))
      have hcounted : Counted st group mt := fun k hle => ⟨hfits.1 k hle, hk.counted k hle⟩
      rw [groupBudget_eq hcounted, gt_iff_lt, BitVec.lt_def, BitVec.toNat_ofNat,
        Nat.mod_eq_of_lt hfits.2]
      exact Nat.pos_of_ne_zero fun e => h ((listed_eq_zero st group lvl mt order).mp e)

/-- Level 3, below the top level, with one UNMOVABLE block of order `k` from descriptor 0. -/
def oneReserved (k : Nat) : State := oneBlock (.groupCell (.phy 0 3) .unmovable k) 0

theorem oneReserved_kept (k : Nat) : Kept (oneReserved k) (.phy 0 3) 3 .unmovable where
  linked := oneBlock_linked _ _
  counted j _ := by
    unfold oneReserved
    rw [oneBlock_lists, oneBlock_counts]
    split <;> rfl
  aligned j i _ := Int.emod_one _

/-- A block of order 3 serves a request of order 0. -/
theorem budget_delivers_small :
    Delivers (oneReserved 3) (.phy 0 3) 3 0 .unmovable ∧
      Served (oneReserved 3) (.phy 0 3) 0 8 .unmovable := by
  have hcur : getCurrentNodeNum ((oneReserved 3).nodeOf (.phy 0 3)).dim = some 0 := rfl
  have hall : Delivers (oneReserved 3) (.phy 0 3) 3 0 .unmovable :=
    (budget_delivers_iff (oneReserved_kept 3) (by decide) hcur).1
      (.inl ⟨3, by decide, by decide, by decide⟩)
  have hfits : FitsWord (oneReserved 3) (.phy 0 3) 3 0 .unmovable := ⟨by decide, by decide⟩
  exact ⟨hall, (budget_delivers_iff (oneReserved_kept 3) (by decide) hcur).2 hfits hall⟩

/-- A block of order 8 is counted, 256 descriptors, and a request of any order finds nothing. -/
theorem budget_strands_order_8 :
    groupBudget (oneReserved 8) (.phy 0 3) 3 .unmovable 0 maxItemOrder = 256#64 ∧
      ∀ order, ¬ ∃ st' item, removeGroupMigration (oneReserved 8) (.phy 0 3) 3 order .unmovable
        false = some (st', some item) := by
  have hk := oneReserved_kept 8
  refine ⟨by decide, fun order h => ?_⟩
  obtain ⟨k, -, hlt, hne⟩ := (removeGroupMigration_delivers hk (by decide) (m := 8) rfl).mp h
  refine hne ?_
  unfold oneReserved
  rw [oneBlock_lists, if_neg]
  intro e
  injection e
  omega

end TensorAlloc
