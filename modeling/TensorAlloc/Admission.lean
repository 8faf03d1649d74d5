/-
  File:      TensorAlloc/Admission.lean
  Subject:   What `node_struct_alloc` admits: the count `preprocess_node_struct_alloc` makes of a
             request, and the watermark `budget_sufficient`.

  * `contiguous_one_block` -- a contiguous request is one block, of the least power of two that holds
    it, up to `2 ^ 62`;
  * `reserved_rule_iff` -- a reserved request that is all of one level, and nothing else, is refused;
  * `missingAfter_eq` -- the loop over the 16 nodes in unsigned arithmetic, as the difference it is;
  * `watermark_exact_iff` -- the reserve that is read is that of the last node, or leaves level 3 out.
-/
import TensorAlloc.Alloc
import TensorAlloc.Budget
import TensorAlloc.Sizes

namespace TensorAlloc

open CeilLog

/-! ## 1. Contiguous requests -/

/-- The purposes whose count is rounded up. -/
def contiguousFuncs : List ItemFunc :=
  [.physicalCont, .physicalMmu, .physicalObject, .physicalStream, .virtual, .virtualStream]

section Contiguous

variable {fuel : Nat} {dispatch : Dispatch} {para : AllocPara} {mt : MigrationType} {level : Nat}

/-- The count as a signed word: positive up to `2 ^ 62`. -/
theorem toInt_bit {o : Nat} (h : o ≤ 63) :
    (o ≤ 62 → (bit o).toInt = (2 ^ o : Nat)) ∧ (o = 63 → (bit o).toInt < 0) := by
  constructor
  · intro hle
    have hlt : 2 ^ o < 2 ^ 63 := Nat.pow_lt_pow_right (by decide) (Nat.lt_succ_of_le hle)
    rw [BitVec.toInt_eq_toNat_of_lt] <;> rw [toNat_bit (Nat.lt_succ_of_le h)]
    omega
  · rintro rfl
    decide

/-- Nothing more is asked for. -/
theorem findLevels_zero (n level : Nat) (v : FindVars) :
    findLevels fuel dispatch para mt n level 0 v = some (v, true) := by
  induction n generalizing level with
  | zero => rfl
  | succ n ih =>
      rw [findLevels]
      simp only [Nat.zero_div, Nat.zero_mod, if_true]
      exact ih _

/-- **A power of two is one dispatch**, on the first level whose unit is not larger. -/
theorem findLevels_two_pow (hd : Succeeds dispatch) (hcomb : para.isCombined = false)
    (hentry : para.isEntry = false) (hfuel : 0 < fuel) {n e : Nat} (hn : level + n = groupLvlNum)
    (hpos : 0 < n) (v : FindVars) :
    ∃ st lvl order item, findLevels fuel dispatch para mt n level (2 ^ e) v =
        some (⟨st, v.calls ++ [⟨lvl, order, item⟩], some (v.itemPtr.getD item)⟩, true) ∧
      level ≤ lvl ∧ lvl < groupLvlNum ∧ order + functionItemLvl groupOrderNumShift lvl = e := by
  induction n generalizing level with
  | zero => cases hpos
  | succ n ih =>
      have hshift : findShift para mt level = functionItemLvl groupOrderNumShift level :=
        findShift_eq hentry level
      rw [findLevels, hshift]
      by_cases hle : functionItemLvl groupOrderNumShift level ≤ e
      · -- the digit is a power of two, and all of the count
        obtain ⟨order, rfl⟩ := Nat.exists_eq_add_of_le' hle
        have hdiv : 2 ^ (order + functionItemLvl groupOrderNumShift level) /
            2 ^ functionItemLvl groupOrderNumShift level = 2 ^ order := by
          rw [Nat.pow_add, Nat.mul_div_cancel _ (Nat.two_pow_pos _)]
        have hmod : 2 ^ (order + functionItemLvl groupOrderNumShift level) %
            2 ^ functionItemLvl groupOrderNumShift level = 0 := by
          rw [Nat.pow_add, Nat.mul_mod_left]
        obtain ⟨st, item, hone⟩ := @dispatchOne_single fuel _ _ hd hcomb level order v
        obtain ⟨fuel, rfl⟩ := Nat.exists_eq_add_of_le' hfuel
        have horder : lvlOrderOf para (2 ^ order) = (order, 0) := by
          unfold lvlOrderOf
          rw [hentry, hcomb]
          exact itemToOrder_two_pow order
        refine ⟨st, level, order, item, ?_, Nat.le_refl _, by omega, rfl⟩
        simp only [hdiv, hmod, if_neg (Nat.two_pow_pos order).ne', dispatchLoop, horder, hone,
          Option.bind_eq_bind, Option.bind_some, if_true, Option.pure_def, reduceCtorEq, if_false]
        exact findLevels_zero _ _ _
      · -- the unit is larger: not on level 3, where it is one item
        have hlt : e < functionItemLvl groupOrderNumShift level := Nat.lt_of_not_le hle
        have hpow : 2 ^ e < 2 ^ functionItemLvl groupOrderNumShift level :=
          Nat.pow_lt_pow_right (by decide) hlt
        have hlast : 0 < n := by
          rcases Nat.eq_zero_or_pos n with rfl | h
          · simp only [groupLvlNum_eq] at hn
            obtain rfl : level = 3 := by omega
            exact absurd hlt (Nat.not_lt_zero _)
          · exact h
        simp only [Nat.div_eq_of_lt hpow, Nat.mod_eq_of_lt hpow, if_true]
        obtain ⟨st, lvl, order, item, hrun, h1, h2, h3⟩ := @ih (level + 1) (by omega) hlast
        exact ⟨st, lvl, order, item, hrun, Nat.le_of_succ_le h1, h2, h3⟩

end Contiguous

/-- **A contiguous request becomes one tight block.** Of a count that is not zero the preprocessing
    returns a positive value exactly up to `2 ^ 62`: the least power of two that holds it. `find_group`
    makes one dispatch of it, for one item on level 3 with order 0. -/
theorem contiguous_one_block {flags : ItemFunc} (hflags : flags ∈ contiguousFuncs) {nitems : Nat}
    (h0 : 0 < nitems) (h64 : nitems < 2 ^ 64) (st : State) (mt : MigrationType) (dim : Nat) :
    ∃ psize, preprocessNodeStructAlloc st flags nitems mt dim = some psize ∧
      (0 < psize ↔ nitems ≤ 2 ^ 62) ∧
      (nitems ≤ 2 ^ 62 → ∃ p : Nat, psize = p ∧ IsLeast {p | (∃ o, p = 2 ^ o) ∧ nitems ≤ p} p ∧
        ∀ r fuel dispatch st' mt' lvl para, Succeeds dispatch → para.isCombined = false →
          para.isEntry = false → 0 < fuel → lvl ≤ maxGroupLvls →
          ∃ found level order item,
            findGroup r fuel dispatch st' p mt' lvl groupLvlNum para = some found ∧
            found.ok = true ∧ found.calls = [⟨level, order, item⟩] ∧
            lvl ≤ level ∧ level < groupLvlNum ∧
            2 ^ (order + functionItemLvl groupOrderNumShift level) = p ∧
            (nitems = 1 → level = maxGroupLvls ∧ order = 0)) := by
  have hpre : preprocessNodeStructAlloc st flags nitems mt dim =
      some (bit (itemToOrder nitems).1).toInt := by
    simp only [contiguousFuncs, List.mem_cons, List.not_mem_nil, or_false] at hflags
    rcases hflags with rfl | rfl | rfl | rfl | rfl | rfl <;> rfl
  obtain ⟨hsmall, hlarge⟩ := toInt_bit (Nat.min_le_right (Nat.clog 2 nitems) 63)
  rw [itemToOrder_eq h0.ne' h64] at hpre
  have hle : nitems ≤ 2 ^ 62 ↔ Nat.clog 2 nitems ≤ 62 := (Nat.clog_le_iff_le_pow (by decide)).symm
  refine ⟨_, hpre, ?_, fun h62 => ?_⟩
  · rw [hle]
    by_cases h : Nat.clog 2 nitems ≤ 62
    · rw [hsmall ((Nat.min_le_left _ _).trans h)]
      exact ⟨fun _ => h, fun _ => Int.natCast_pos.mpr (Nat.two_pow_pos _)⟩
    · have h63 : min (Nat.clog 2 nitems) 63 = 63 := Nat.min_eq_right (Nat.lt_of_not_le h)
      exact ⟨fun hpos => absurd hpos (Int.not_lt.mpr (Int.le_of_lt (hlarge h63))),
        fun h' => absurd h' h⟩
  · have hmin : min (Nat.clog 2 nitems) 63 = Nat.clog 2 nitems :=
      Nat.min_eq_left (Nat.le_succ_of_le (hle.mp h62))
    rw [hmin] at hsmall ⊢
    refine ⟨2 ^ Nat.clog 2 nitems, hsmall (hle.mp h62), isLeast_two_pow_clog nitems, ?_⟩
    intro r fuel dispatch st' mt' lvl para hd hcomb hentry hfuel hlvl
    rw [maxGroupLvls_eq] at hlvl
    obtain ⟨st1, level, order, item, hrun, h1, h2, h3⟩ :=
      @findLevels_two_pow fuel dispatch para mt' lvl hd hcomb hentry hfuel (groupLvlNum - lvl)
        (Nat.clog 2 nitems) (by rw [groupLvlNum_eq]; omega) (by rw [groupLvlNum_eq]; omega)
        ⟨st', [], none⟩
    refine ⟨⟨st1, true, some item, [⟨level, order, item⟩], []⟩, level, order, item, ?_, rfl, rfl, h1, h2,
      by rw [h3], fun hone => ?_⟩
    · unfold findGroup
      simp only [hentry, Bool.false_eq_true, if_false, hrun, Option.bind_eq_bind, Option.bind_some]
      rfl
    · rw [hone, Nat.clog_one_right] at h3
      obtain ⟨ho, hs⟩ := Nat.add_eq_zero_iff.mp h3
      rw [groupLvlNum_eq] at h2
      rw [functionItemLvl_eq (by omega)] at hs
      rw [maxGroupLvls_eq]
      exact ⟨by omega, ho⟩

/-- Three items are one block of four. -/
theorem contiguous_three :
    ∃ (p : Nat) (found : Found) (level order : Nat) (item : Item),
      IsLeast {p | (∃ o, p = 2 ^ o) ∧ 3 ≤ p} p ∧
      findGroup .written 1 (fun calls st _ _ => (st, some calls.length)) zeroed p .movable 0 groupLvlNum
        ⟨false, false, false⟩ = some found ∧
      found.calls = [⟨level, order, item⟩] ∧
      2 ^ (order + functionItemLvl groupOrderNumShift level) = p := by
  obtain ⟨_, -, -, h⟩ := @contiguous_one_block .physicalObject (by decide) 3 (by decide) (by decide)
    zeroed .movable dimMemory
  obtain ⟨p, -, hleast, hfind⟩ := h (by decide)
  obtain ⟨found, level, order, item, hrun, -, hcalls, -, -, hsize, -⟩ :=
    hfind .written 1 (fun calls st _ _ => (st, some calls.length)) zeroed .movable 0
      ⟨false, false, false⟩ (fun calls _ _ _ => ⟨calls.length, rfl⟩) rfl rfl (by decide) (by decide)
  exact ⟨p, found, level, order, item, hleast, hrun, hcalls, hsize⟩

/-! ## 2. Reserved requests -/

/-- The count is all that is free on some level of the budget. -/
def WholeLevel (st : State) (cur nitems : Nat) : Prop :=
  ∃ lvl, st.tables.phyGroupLvl cur ≤ (lvl : Nat) ∧ lvl < maxGroupLvls ∧
    nitems = (nodeBudgetLvl st cur .unmovable lvl).toNat

/-- The rule: all of the budget, all of one level, or a power of two. -/
def ReservedRule (st : State) (cur : Nat) (budget : Word) (nitems : Nat) : Prop :=
  nitems = budget.toNat ∨ WholeLevel st cur nitems ∨ ∃ o, nitems = 2 ^ o

/-- The request is accepted by the rule, with its own count, and refused else. -/
def ReservedExact (st : State) (dim cur nitems : Nat) : Prop :=
  ∃ budget psize, nodeBudget st .unmovable dim = some budget ∧
    preprocessNodeStructAlloc st .physicalReserved nitems .unmovable dim = some psize ∧
    (psize = nitems ↔ ReservedRule st cur budget nitems) ∧
    (¬ ReservedRule st cur budget nitems → psize = refusedSize)

section Reserved

variable {st : State} {dim cur nitems : Nat}

/-- What is left when the highest one is taken away is nothing exactly of a power of two. -/
theorem itemToOrders_rest (h0 : 0 < nitems) : (itemToOrders nitems).2 = 0 ↔ ∃ o, nitems = 2 ^ o := by
  rw [itemToOrders_eq h0.ne']
  constructor
  · intro h
    exact ⟨_, Nat.le_antisymm (Nat.sub_eq_zero_iff_le.mp h) (Nat.log2_self_le h0.ne')⟩
  · rintro ⟨o, rfl⟩
    rw [Nat.log2_two_pow]
    exact Nat.sub_self _

/-- The budget is there from level 0 on. -/
theorem nodeBudget_some (hcur : getCurrentNodeNum dim = some cur)
    (htop : 0 ≤ st.tables.phyGroupLvl cur) (mt : MigrationType) :
    ∃ budget, nodeBudget st mt dim = some budget := by
  have hlevels : budgetLevels st cur =
      some (List.range' (st.tables.phyGroupLvl cur).toNat
        (maxGroupLvls - (st.tables.phyGroupLvl cur).toNat)) := if_neg (Int.not_lt.mpr htop)
  unfold nodeBudget
  rw [hcur, Option.bind_eq_bind, Option.bind_some, hlevels]
  exact ⟨_, rfl⟩

/-- All of the budget, or a power of two. -/
def BudgetOrPower (budget : Word) (nitems : Nat) : Prop :=
  nitems = budget.toNat ∨ ∃ o, nitems = 2 ^ o

/-- **What the code accepts**: the levels are not in it. -/
theorem preprocess_reserved (h0 : 0 < nitems) (h62 : nitems < 2 ^ 62) {budget : Word}
    (hbudget : nodeBudget st .unmovable dim = some budget) :
    (BudgetOrPower budget nitems →
      preprocessNodeStructAlloc st .physicalReserved nitems .unmovable dim = some (nitems : Int)) ∧
    (¬ BudgetOrPower budget nitems →
      preprocessNodeStructAlloc st .physicalReserved nitems .unmovable dim = some refusedSize) := by
  have hnat : (BitVec.ofNat 64 nitems).toNat = nitems := by
    rw [BitVec.toNat_ofNat, Nat.mod_eq_of_lt (by omega)]
  have hint : (BitVec.ofNat 64 nitems).toInt = nitems := by
    rw [BitVec.toInt_eq_toNat_of_lt (by omega), hnat]
  have heq : BitVec.ofNat 64 nitems = budget ↔ nitems = budget.toNat := by
    rw [BitVec.toNat_eq, hnat]
  unfold BudgetOrPower preprocessNodeStructAlloc
  simp only [← itemToOrders_rest h0, hbudget, hint, heq, Option.bind_eq_bind, Option.bind_some,
    Option.pure_def]
  by_cases hb : nitems = budget.toNat
  · rw [if_pos hb]
    exact ⟨fun _ => rfl, fun h => absurd (.inl hb) h⟩
  · rw [if_neg hb]
    constructor
    · intro h
      rw [if_pos (h.resolve_left hb)]
    · intro h
      rw [if_neg fun hr => h (.inr hr)]

end Reserved

/-- **The rule is met except where one level alone admits the request**: the test of a level leaves
    the loop over the levels and not the switch. -/
theorem reserved_rule_iff {st : State} {dim cur nitems : Nat}
    (hcur : getCurrentNodeNum dim = some cur)
    (htop : 0 ≤ st.tables.phyGroupLvl cur ∧ st.tables.phyGroupLvl cur ≤ maxGroupLvls)
    (h0 : 0 < nitems) (h62 : nitems < 2 ^ 62) :
    ReservedExact st dim cur nitems ↔
      (WholeLevel st cur nitems →
        (∃ budget, nodeBudget st .unmovable dim = some budget ∧ nitems = budget.toNat) ∨
          ∃ o, nitems = 2 ^ o) := by
  obtain ⟨budget, hbudget⟩ := nodeBudget_some hcur htop.1 .unmovable
  obtain ⟨haccept, hrefuse⟩ := preprocess_reserved h0 h62 hbudget
  have hne : (nitems : Int) ≠ refusedSize := by
    unfold refusedSize
    omega
  constructor
  · rintro ⟨budget', psize, hb', hp, hrule, -⟩ hlevel
    rw [hbudget, Option.some.injEq] at hb'
    subst hb'
    by_cases hc : BudgetOrPower budget nitems
    · exact hc.imp (fun hb => ⟨budget, hbudget, hb⟩) id
    · rw [hrefuse hc, Option.some.injEq] at hp
      exact absurd ((hrule.mpr (.inr (.inl hlevel))).symm.trans hp.symm) hne
  · intro h
    -- the alternative of the levels adds nothing
    have hcond : ReservedRule st cur budget nitems ↔ BudgetOrPower budget nitems := by
      constructor
      · rintro (hb | hlevel | ho)
        · exact .inl hb
        · rcases h hlevel with ⟨budget', hb', e⟩ | ho
          · rw [hbudget, Option.some.injEq] at hb'
            exact .inl (hb' ▸ e)
          · exact .inr ho
        · exact .inr ho
      · exact fun hc => hc.imp id .inr
    by_cases hc : BudgetOrPower budget nitems
    · exact ⟨budget, nitems, hbudget, haccept hc, iff_of_true rfl (hcond.mpr hc),
        fun hno => absurd (hcond.mpr hc) hno⟩
    · exact ⟨budget, refusedSize, hbudget, hrefuse hc,
        iff_of_false (Ne.symm hne) (fun hr => hc (hcond.mp hr)), fun _ => rfl⟩

/-- Level 1 with one UNMOVABLE block of its unit, level 2 with one of order 0 and one of order 1. -/
def unevenReserved : State :=
  let one := oneBlock (.groupCell (.phy 0 1) .unmovable 0) 0
  let two := (one.pushTail (.groupCell (.phy 0 2) .unmovable 0) (2 ^ 18)).countInc
    (.groupCell (.phy 0 2) .unmovable 0)
  (two.pushTail (.groupCell (.phy 0 2) .unmovable 1) (2 ^ 18 + 2 ^ 10)).countInc
    (.groupCell (.phy 0 2) .unmovable 1)

/-- A power of two is accepted whatever the levels hold. -/
theorem reserved_rule_512 : ReservedExact unevenReserved dimTime 0 512 :=
  (reserved_rule_iff rfl (by decide) (by decide) (by decide)).mpr fun _ => .inr ⟨9, rfl⟩

/-- 1536 descriptors are all that level 2 has, and are refused. -/
theorem reserved_level_refused :
    WholeLevel unevenReserved 0 1536 ∧ ¬ ReservedExact unevenReserved dimTime 0 1536 := by
  have hlevel : WholeLevel unevenReserved 0 1536 := ⟨2, by decide, by decide, by decide⟩
  refine ⟨hlevel, ?_⟩
  rintro ⟨budget, psize, -, hpsize, hrule, -⟩
  have hcode : preprocessNodeStructAlloc unevenReserved .physicalReserved 1536 .unmovable dimTime =
      some refusedSize := by decide
  rw [hcode, Option.some.injEq] at hpsize
  have hsize := hrule.mpr (.inr (.inl hlevel))
  rw [← hpsize] at hsize
  exact absurd hsize (by decide)

/-! ## 3. The watermark -/

/-- The descriptors counted free on the first `n` of the nodes from `dimBase`. -/
def nodesFree (st : State) (dimBase n : Nat) : Nat :=
  ∑ i ∈ Finset.range n, (st.nodes (.phy (dimBase + i))).nrFreeitems.toNat

/-- The reserve a class may draw on, on the node it is served from. -/
def reserveOf (st : State) (mt : MigrationType) (dim : Nat) : Option Nat :=
  match mt with
  | .lrutype => (getCurrentNodeNum dim).map fun cur =>
      (st.counts (.lruCacheCell (.phy cur) archCurrCpuNum)).toNat
  | .unmovable => (getCurrentNodeNum dim).map fun cur =>
      ∑ lvl ∈ Finset.range groupLvlNum, listed st (.phy cur lvl) lvl .unmovable 0
  | _ => some 0

/-- The test returns, and says whether the nodes and the reserve hold the request. -/
def WatermarkExact (st : State) (mt : MigrationType) (dim nitems : Nat) : Prop :=
  ∃ suff reserve, budgetSufficient st nitems mt dim = some suff ∧
    reserveOf st mt dim = some reserve ∧
    (suff = true ↔ nitems ≤ nodesFree st (dim * nodeLvlNum) nodeLvlNum + reserve)

/-- The reserve that is read, as a `long`: the cache count of the dimension's last node, the budget of the
    levels from the top one to level 2. -/
def readReserve (st : State) (mt : MigrationType) (dim : Nat) : Option Int :=
  match mt with
  | .lrutype =>
      some (st.counts (.lruCacheCell (.phy (dim * nodeLvlNum + nodeLvlNum - 1)) archCurrCpuNum)).toInt
  | .unmovable => (nodeBudget st .unmovable dim).map BitVec.toInt
  | _ => some 0

/-- The request is below what the nodes have, or at most what they have with the smaller of the two
    reserves, or more than they have with the larger. -/
def ReserveRight (st : State) (mt : MigrationType) (dim nitems : Nat) : Prop :=
  let free := nodesFree st (dim * nodeLvlNum) nodeLvlNum
  ∃ reserve, reserveOf st mt dim = some reserve ∧ (nitems < free ∨
    ∃ read, readReserve st mt dim = some read ∧
      ((nitems : Int) ≤ free + min read reserve ∨ free + max read reserve < (nitems : Int)))

section Watermark

variable {st : State} {mt : MigrationType} {dim nitems : Nat}

/-- A difference of two counts below `2 ^ 62`, as a `long`. -/
theorem toInt_sub_ofNat {a b : Nat} (ha : a < 2 ^ 62) (hb : b < 2 ^ 62) :
    (BitVec.ofNat 64 a - BitVec.ofNat 64 b).toInt = (a : Int) - b := by
  rw [BitVec.toInt_eq_toNat_cond, BitVec.toNat_sub, BitVec.toNat_ofNat, BitVec.toNat_ofNat]
  split <;> omega

theorem nodesFree_succ (dimBase n : Nat) : nodesFree st dimBase (n + 1) =
    nodesFree st dimBase n + (st.nodes (.phy (dimBase + n))).nrFreeitems.toNat :=
  Finset.sum_range_succ _ _

/-- **The loop over the nodes**: the difference, or the early exit once a node is more than enough. -/
theorem missingAfter_eq (hn : nitems < 2 ^ 62) (dimBase : Nat) :
    ∀ n, nodesFree st dimBase n < 2 ^ 62 →
      missingAfter st dimBase n (BitVec.ofNat 64 nitems) =
        if nodesFree st dimBase n ≤ nitems then
          some (BitVec.ofNat 64 nitems - BitVec.ofNat 64 (nodesFree st dimBase n))
        else none := by
  intro n
  induction n with
  | zero =>
      intro _
      rw [nodesFree, Finset.sum_range_zero, if_pos (Nat.zero_le _)]
      exact congrArg some (BitVec.sub_zero _).symm
  | succ n ih =>
      intro hs
      have hsucc : nodesFree st dimBase (n + 1) = nodesFree st dimBase n +
          (st.nodes (.phy (dimBase + n))).nrFreeitems.toNat := nodesFree_succ dimBase n
      rw [missingAfter, ih (by omega)]
      by_cases hle : nodesFree st dimBase n ≤ nitems
      · have hword : BitVec.ofNat 64 nitems - BitVec.ofNat 64 (nodesFree st dimBase n) -
            (st.nodes (.phy (dimBase + n))).nrFreeitems =
            BitVec.ofNat 64 nitems - BitVec.ofNat 64 (nodesFree st dimBase (n + 1)) := by
          rw [hsucc, BitVec.ofNat_add, BitVec.ofNat_toNat, BitVec.setWidth_eq, BitVec.sub_sub]
        simp only [if_pos hle, Option.bind_eq_bind, Option.bind_some, hword, toInt_sub_ofNat hn hs]
        by_cases hlt : nitems < nodesFree st dimBase (n + 1)
        · rw [if_pos (by omega), if_neg (Nat.not_le.mpr hlt)]
        · rw [if_neg (by omega), if_pos (Nat.le_of_not_lt hlt)]
      · rw [if_neg hle, if_neg (by omega)]
        rfl

/-- **The test as a comparison**, with the reserve as it is read. -/
theorem budgetSufficient_eq (hn : nitems < 2 ^ 62)
    (hs : nodesFree st (dim * nodeLvlNum) nodeLvlNum < 2 ^ 62) :
    budgetSufficient st nitems mt dim =
      if nitems < nodesFree st (dim * nodeLvlNum) nodeLvlNum then some true
      else (readReserve st mt dim).map fun read =>
        decide ((nitems : Int) - nodesFree st (dim * nodeLvlNum) nodeLvlNum ≤ read) := by
  unfold budgetSufficient
  simp only [BitVec.ofInt_natCast, missingAfter_eq hn _ _ hs]
  by_cases hlt : nitems < nodesFree st (dim * nodeLvlNum) nodeLvlNum
  · rw [if_pos hlt, if_neg (Nat.not_le.mpr hlt)]
  · rw [if_neg hlt, if_pos (Nat.le_of_not_lt hlt)]
    simp only [toInt_sub_ofNat hn hs]
    cases mt with
    | unmovable =>
        unfold readReserve
        rw [Option.map_map, Option.map_eq_bind]
        rfl
    | _ => rfl

/-- **The watermark is exact where the two reserves agree on the request**: below both, or above. -/
theorem watermark_exact_iff (hn : nitems < 2 ^ 62)
    (hs : nodesFree st (dim * nodeLvlNum) nodeLvlNum < 2 ^ 62) :
    WatermarkExact st mt dim nitems ↔ ReserveRight st mt dim nitems := by
  unfold WatermarkExact ReserveRight
  rw [budgetSufficient_eq hn hs]
  by_cases hlt : nitems < nodesFree st (dim * nodeLvlNum) nodeLvlNum
  · rw [if_pos hlt]
    constructor
    · rintro ⟨-, reserve, -, hreserve, -⟩
      exact ⟨reserve, hreserve, .inl hlt⟩
    · rintro ⟨reserve, hreserve, -⟩
      exact ⟨true, reserve, rfl, hreserve, iff_of_true rfl (by omega)⟩
  · -- the test asks whether the reserve that is read has what is missing
    rw [if_neg hlt]
    constructor
    · rintro ⟨suff, reserve, hsuff, hreserve, hiff⟩
      obtain ⟨read, hread, rfl⟩ := Option.map_eq_some_iff.mp hsuff
      rw [decide_eq_true_iff] at hiff
      exact ⟨reserve, hreserve, .inr ⟨read, hread, by omega⟩⟩
    · rintro ⟨reserve, hreserve, h⟩
      obtain ⟨read, hread, hbounds⟩ := h.resolve_left hlt
      refine ⟨_, reserve, congrArg _ hread, hreserve, decide_eq_true_iff.trans ?_⟩
      omega

/-- A class without a reserve reads none. -/
theorem reserveRight_of_none (h : mt ≠ .lrutype) (h' : mt ≠ .unmovable) :
    ReserveRight st mt dim nitems := by
  have hbounds : (nitems : Int) ≤ nodesFree st (dim * nodeLvlNum) nodeLvlNum + min 0 ((0 : Nat) : Int) ∨
      nodesFree st (dim * nodeLvlNum) nodeLvlNum + max 0 ((0 : Nat) : Int) < (nitems : Int) := by
    omega
  cases mt with
  | lrutype => exact absurd rfl h
  | unmovable => exact absurd rfl h'
  | _ => exact ⟨0, rfl, .inr ⟨0, rfl, hbounds⟩⟩

/-- The budget is what the levels from the top one to level 2 list. -/
theorem nodeBudget_listed {cur : Nat} (hcur : getCurrentNodeNum dim = some cur)
    (htop : 0 ≤ st.tables.phyGroupLvl cur) (hc : ∀ lvl < maxGroupLvls, Counted st (.phy cur lvl) mt) :
    nodeBudget st mt dim = some (BitVec.ofNat 64
      (∑ lvl ∈ Finset.Ico (st.tables.phyGroupLvl cur).toNat maxGroupLvls,
        listed st (.phy cur lvl) lvl mt 0)) := by
  have hsum : ((List.range' (st.tables.phyGroupLvl cur).toNat
      (maxGroupLvls - (st.tables.phyGroupLvl cur).toNat)).map fun lvl =>
        nodeBudgetLvl st cur mt lvl).sum =
      ∑ lvl ∈ Finset.Ico (st.tables.phyGroupLvl cur).toNat maxGroupLvls,
        nodeBudgetLvl st cur mt lvl := (Multiset.sum_coe _).symm
  unfold nodeBudget budgetLevels
  simp only [hcur, if_neg (Int.not_lt.mpr htop), Option.bind_eq_bind, Option.bind_some, hsum]
  rw [← BitVec.natCast_eq_ofNat, Nat.cast_sum]
  refine congrArg some (Finset.sum_congr rfl fun lvl hlvl => ?_)
  rw [Finset.mem_Ico] at hlvl
  exact groupBudget_eq (hc lvl hlvl.2) lvl 0

/-- **The UNMOVABLE watermark, by the lists**: right up to what the levels above level 3 add to the
    nodes, and beyond what level 3 would add. -/
theorem watermark_unmovable_lists {cur : Nat} (hn : nitems < 2 ^ 62)
    (hs : nodesFree st (dim * nodeLvlNum) nodeLvlNum < 2 ^ 62)
    (hcur : getCurrentNodeNum dim = some cur) (htop : 0 ≤ st.tables.phyGroupLvl cur)
    (hc : ∀ lvl < maxGroupLvls, Counted st (.phy cur lvl) .unmovable)
    (hfits : ∑ lvl ∈ Finset.range groupLvlNum, listed st (.phy cur lvl) lvl .unmovable 0 < 2 ^ 63) :
    WatermarkExact st .unmovable dim nitems ↔
      nitems ≤ nodesFree st (dim * nodeLvlNum) nodeLvlNum +
        ∑ lvl ∈ Finset.Ico (st.tables.phyGroupLvl cur).toNat maxGroupLvls,
          listed st (.phy cur lvl) lvl .unmovable 0 ∨
      nodesFree st (dim * nodeLvlNum) nodeLvlNum +
        ∑ lvl ∈ Finset.range groupLvlNum, listed st (.phy cur lvl) lvl .unmovable 0 < nitems := by
  have hle : ∑ lvl ∈ Finset.Ico (st.tables.phyGroupLvl cur).toNat maxGroupLvls,
        listed st (.phy cur lvl) lvl .unmovable 0 ≤
      ∑ lvl ∈ Finset.range groupLvlNum, listed st (.phy cur lvl) lvl .unmovable 0 :=
    Finset.sum_le_sum_of_subset fun lvl hlvl =>
      Finset.mem_range.mpr ((Finset.mem_Ico.mp hlvl).2.trans (by decide))
  have hreserve : reserveOf st .unmovable dim =
      some (∑ lvl ∈ Finset.range groupLvlNum, listed st (.phy cur lvl) lvl .unmovable 0) :=
    congrArg (Option.map _) hcur
  have hlong : (BitVec.ofNat 64 (∑ lvl ∈ Finset.Ico (st.tables.phyGroupLvl cur).toNat maxGroupLvls,
      listed st (.phy cur lvl) lvl .unmovable 0)).toInt =
      (∑ lvl ∈ Finset.Ico (st.tables.phyGroupLvl cur).toNat maxGroupLvls,
        listed st (.phy cur lvl) lvl .unmovable 0 : Nat) := by
    rw [BitVec.toInt_eq_toNat_cond, BitVec.toNat_ofNat, Nat.mod_eq_of_lt (by omega), if_pos (by omega)]
  have hread : readReserve st .unmovable dim = some
      ((∑ lvl ∈ Finset.Ico (st.tables.phyGroupLvl cur).toNat maxGroupLvls,
        listed st (.phy cur lvl) lvl .unmovable 0 : Nat) : Int) := by
    show (nodeBudget st .unmovable dim).map BitVec.toInt = _
    rw [nodeBudget_listed hcur htop hc, Option.map_some, hlong]
  rw [watermark_exact_iff hn hs]
  unfold ReserveRight
  simp only [hreserve, hread, Option.some.injEq, exists_eq_left']
  omega

end Watermark

/-- One descriptor in the cache of the first memory node, and nothing else free. -/
def cachedItem : State := oneBlock (.lruCacheCell (.phy nodeLvlNum) archCurrCpuNum) 0

/-- Of a dimension where nothing is free at all, a movable request of one is not met. -/
theorem watermark_exact_empty :
    WatermarkExact cachedItem .movable dimMemory 1 :=
  (watermark_exact_iff (by decide) (by decide)).mpr (reserveRight_of_none (by decide) (by decide))

/-- The one cached descriptor is not seen: the cache asked is that of the last node. -/
theorem watermark_last_node : ¬ WatermarkExact cachedItem .lrutype dimMemory 1 := by
  rintro ⟨suff, reserve, hsuff, hreserve, hiff⟩
  have hcode : budgetSufficient cachedItem (1 : Nat) .lrutype dimMemory = some false := by decide
  have hone : reserveOf cachedItem .lrutype dimMemory = some 1 := by decide
  rw [hcode, Option.some.injEq] at hsuff
  rw [hone, Option.some.injEq] at hreserve
  subst hsuff hreserve
  exact Bool.false_ne_true (hiff.mpr (Nat.le_add_left _ _))

end TensorAlloc
