/-
  File:      TensorAlloc/Split.lean
  Subject:   What a split puts back and what a removal takes, exactly.

  * `Releases` -- one item an order, each with its count, and nothing else;
  * `splitGroupMigration_exact_iff` -- the items released are the buddies, and tile the block with the
    part kept, as long as the largest half is below `2 ^ 31` descriptors;
  * `FirstFit` -- the item the search looks at, by the lists it goes through;
  * `removeGroupMigration_exact_iff` -- the removal is exact where no half falls on a listed
    descriptor.
-/
import TensorAlloc.Base.DyadicBlocks
import TensorAlloc.Remove

namespace TensorAlloc

open DyadicBlocks

/-! ## 1. The pieces of a split -/

/-- The lists of the orders from `orderMin` to `orderMax` gained one item each, `half k` the one of the
    order `k`, and their counts one; every other list and count is as it was. -/
structure Releases (st st' : State) (group : Group) (mt : MigrationType) (orderMin orderMax : Nat)
    (half : Nat → Item) : Prop where
  gained : ∀ k, orderMin ≤ k → k < orderMax →
    st'.lists (.groupCell group mt k) = half k :: st.lists (.groupCell group mt k) ∧
      st'.counts (.groupCell group mt k) = st.counts (.groupCell group mt k) + 1
  others : ∀ h, (∀ k, orderMin ≤ k → k < orderMax → h ≠ .groupCell group mt k) →
    st'.lists h = st.lists h ∧ st'.counts h = st.counts h

/-- **The split is exact**, with the descriptors indexed from `base` and the block at the index `idx`:
    the half of order `k` is the buddy at `idx ^^^ 2 ^ (k + s)`, at a multiple of its size, and the
    halves and the part kept tile the block. -/
def SplitExact (st st' : State) (group : Group) (item : Item) (lvl orderMin orderMax : Nat)
    (mt : MigrationType) (base : Int) (idx : Nat) : Prop :=
  let s := splitShift mt lvl
  ∃ half : Nat → Item, Releases st st' group mt orderMin orderMax half ∧
    (∀ k, orderMin ≤ k → k < orderMax →
      (half k : Int) - base = (idx ^^^ 2 ^ (k + s) : Nat) ∧ 2 ^ (k + s) ∣ idx ^^^ 2 ^ (k + s)) ∧
    itemIsPresent (st'.items item).flags = true ∧ getItemOrder (st'.items item).flags = orderMin ∧
    Tiles (⟨idx, orderMin + s⟩ ::ₘ
      ∑ k ∈ Finset.Ico orderMin orderMax, {⟨((half k : Int) - base).toNat, k + s⟩}) ⟨idx, orderMax + s⟩

section Split

variable {group : Group} {item : Item} {lvl orderMin orderMax : Nat} {mt : MigrationType}

theorem splitGroupMigration_releases (st : State) (group : Group) (item : Item)
    (lvl orderMin orderMax : Nat) (mt : MigrationType) :
    Releases st (splitGroupMigration st group item lvl orderMin orderMax mt) group mt orderMin orderMax
      (halfAt mt lvl item) where
  gained k h1 h2 := by
    have hp : splitPieces group item lvl orderMin mt (orderMax - orderMin) (.groupCell group mt k) =
        [halfAt mt lvl item k] := by
      rw [splitPieces_cell, if_pos (by omega)]
    simp only [splitGroupMigration, State.modFlags_lists, State.modFlags_counts, splitLoop_lists,
      splitLoop_counts, hp]
    exact ⟨rfl, rfl⟩
  others h hh := by
    have hp : splitPieces group item lvl orderMin mt (orderMax - orderMin) h = [] := by
      cases h with
      | groupCell g t k =>
          refine if_neg fun hc => ?_
          obtain ⟨rfl, rfl, h1, h2⟩ := hc
          exact hh k h1 (by omega) rfl
      | _ => rfl
    simp only [splitGroupMigration, State.modFlags_lists, State.modFlags_counts, splitLoop_lists,
      splitLoop_counts, hp]
    exact ⟨rfl, BitVec.add_zero _⟩

/-- What the split leaves at the block itself. -/
theorem splitGroupMigration_kept (st : State) (ho : orderMin ≤ maxItemOrder) :
    itemIsPresent ((splitGroupMigration st group item lvl orderMin orderMax mt).items item).flags =
        true ∧
      getItemOrder ((splitGroupMigration st group item lvl orderMin orderMax mt).items item).flags =
        orderMin := by
  rw [maxItemOrder_eq] at ho
  unfold splitGroupMigration
  simp [ItemField.offset, Nat.mod_eq_of_lt (show orderMin < 16 by omega)]

/-- From `2 ^ 31` descriptors on no half goes where the block ends. -/
theorem halfAt_misses {k : Nat} (h : 31 ≤ k + splitShift mt lvl) (item : Nat) :
    halfAt mt lvl item k ≠ item + 2 ^ (k + splitShift mt lvl) := by
  have hpos := Nat.two_pow_pos (k + splitShift mt lvl)
  rcases Nat.eq_or_lt_of_le h with e | hlt
  · exact halfAt_31_ne e.symm item (Nat.le_of_eq e.symm)
  · rw [halfAt_eq_32 hlt]
    exact Nat.ne_of_lt (Nat.lt_add_of_pos_right hpos)

section Exact

variable {base : Int} {idx : Nat}

/-- Small halves lie where the buddies are. -/
theorem splitExact_of_lt (st : State) (group : Group) (hle : orderMin ≤ orderMax)
    (hmax : orderMax ≤ maxItemOrder) (hidx : (item : Int) - base = idx)
    (ha : 2 ^ (orderMax + splitShift mt lvl) ∣ idx)
    (h : orderMin = orderMax ∨ orderMax - 1 + splitShift mt lvl < 31) :
    SplitExact st (splitGroupMigration st group item lvl orderMin orderMax mt) group item lvl orderMin
      orderMax mt base idx := by
  have hat : ∀ k, orderMin ≤ k → k < orderMax →
      (halfAt mt lvl item k : Int) - base = (idx + 2 ^ (k + splitShift mt lvl) : Nat) := by
    intro k h1 h2
    rw [halfAt_of_lt (by omega)]
    push_cast
    omega
  have hbuddy : ∀ k, k < orderMax →
      idx ^^^ 2 ^ (k + splitShift mt lvl) = idx + 2 ^ (k + splitShift mt lvl) := fun k hk =>
    (lower_buddy (show k + splitShift mt lvl < orderMax + splitShift mt lvl by omega) ha).1
  obtain ⟨hp, ho⟩ := @splitGroupMigration_kept group item lvl orderMin orderMax mt st
    (Nat.le_trans hle hmax)
  refine ⟨halfAt mt lvl item, splitGroupMigration_releases .., fun k h1 h2 => ?_, hp, ho, ?_⟩
  · rw [hat k h1 h2, hbuddy k h2]
    refine ⟨rfl, Nat.dvd_add (Nat.dvd_trans (Nat.pow_dvd_pow 2 ?_) ha) (Nat.dvd_refl _)⟩
    exact Nat.add_le_add_right (Nat.le_of_lt h2) _
  · have hsum : ∑ k ∈ Finset.Ico orderMin orderMax,
        ({⟨((halfAt mt lvl item k : Int) - base).toNat, k + splitShift mt lvl⟩} : Multiset Block) =
          ∑ k ∈ Finset.Ico orderMin orderMax,
            {⟨idx + 2 ^ (k + splitShift mt lvl), k + splitShift mt lvl⟩} := by
      refine Finset.sum_congr rfl fun k hk => ?_
      rw [hat k (Finset.mem_Ico.mp hk).1 (Finset.mem_Ico.mp hk).2, Int.toNat_natCast]
    show Tiles (_ ::ₘ _) _
    rw [hsum]
    exact tiles_halves idx (splitShift mt lvl) hle

/-- A half of `2 ^ 31` descriptors or more was to lie where the block ends, and does not. -/
theorem not_splitExact_of_le (st : State) (group : Group) (hlt : orderMin < orderMax)
    (hidx : (item : Int) - base = idx) (ha : 2 ^ (orderMax + splitShift mt lvl) ∣ idx)
    (h : 31 ≤ orderMax - 1 + splitShift mt lvl) :
    ¬ SplitExact st (splitGroupMigration st group item lvl orderMin orderMax mt) group item lvl orderMin
      orderMax mt base idx := by
  intro hS
  obtain ⟨half, hR, hbuddy, -⟩ := hS
  have hrel := splitGroupMigration_releases st group item lvl orderMin orderMax mt
  have h1 : orderMin ≤ orderMax - 1 := by omega
  have h2 : orderMax - 1 < orderMax := by omega
  have hhalf : half (orderMax - 1) = halfAt mt lvl item (orderMax - 1) := by
    have e := ((hR.gained _ h1 h2).1).symm.trans (hrel.gained _ h1 h2).1
    exact (List.cons.inj e).1
  have hup := (lower_buddy (show orderMax - 1 + splitShift mt lvl < orderMax + splitShift mt lvl
    by omega) ha).1
  have hend := (hbuddy _ h1 h2).1
  rw [hhalf, hup, Int.natCast_add] at hend
  refine halfAt_misses h item (Int.natCast_inj.mp ?_)
  rw [Int.natCast_add]
  omega

end Exact

end Split

/-- **A split is exact exactly when its largest half is below `2 ^ 31` descriptors**: always but on
    level 0, for the types other than MOVABLE. -/
theorem splitGroupMigration_exact_iff (st : State) (group : Group) (item : Item) (lvl : Nat)
    {orderMin orderMax : Nat} (mt : MigrationType) {base : Int} {idx : Nat}
    (hle : orderMin ≤ orderMax) (hmax : orderMax ≤ maxItemOrder) (hidx : (item : Int) - base = idx)
    (ha : 2 ^ (orderMax + splitShift mt lvl) ∣ idx) :
    SplitExact st (splitGroupMigration st group item lvl orderMin orderMax mt) group item lvl orderMin
        orderMax mt base idx ↔
      orderMin = orderMax ∨ orderMax - 1 + splitShift mt lvl < 31 := by
  refine ⟨fun h => ?_, splitExact_of_lt st group hle hmax hidx ha⟩
  by_contra hc
  rw [not_or] at hc
  exact not_splitExact_of_le st group (by omega) hidx ha (by omega) h

/-- A RECLAIMABLE block of level 1 at descriptor `2 ^ 26`, cut from order 8 to order 0. -/
theorem split_level1 :
    SplitExact zeroed (splitGroupMigration zeroed (.phy 0 1) (2 ^ 26) 1 0 8 .reclaimable) (.phy 0 1)
      (2 ^ 26) 1 0 8 .reclaimable 0 (2 ^ 26) :=
  (splitGroupMigration_exact_iff zeroed (.phy 0 1) (2 ^ 26) 1 .reclaimable (by decide) (by decide) rfl
    (by decide)).mpr (.inr (by decide))

/-- On level 0, from order 6 to order 5, the size `2 ^ 32` is 0 in an `int`: the half released is the
    block itself. -/
theorem split_releases_kept :
    (splitGroupMigration zeroed (.phy 0 0) 0 0 5 6 .reclaimable).lists
        (.groupCell (.phy 0 0) .reclaimable 5) = [0] ∧
      ¬ SplitExact zeroed (splitGroupMigration zeroed (.phy 0 0) 0 0 5 6 .reclaimable) (.phy 0 0) 0 0 5
        6 .reclaimable 0 0 :=
  ⟨by decide +kernel, not_splitExact_of_le zeroed (.phy 0 0) (by decide) rfl (by decide) (by decide)⟩

/-! ## 2. The item a removal takes -/

/-- What the search stops at: for the sparse type order 0 is skipped for a table, and of its items
    those with a parent are passed over. -/
def Eligible (st : State) (mt : MigrationType) (isTable : Bool) (k : Nat) (i : Item) : Prop :=
  mt = .sparseMovable → k = 0 → isTable = false ∧ (st.items i).prev = none

/-- **First fit**: `item` is the first eligible item, after `l₁`, of the list of order `oi`, the least of
    the orders searched that has one. -/
structure FirstFit (st : State) (group : Group) (lvl order : Nat) (mt : MigrationType) (isTable : Bool)
    (oi : Nat) (l₁ : List Item) (item : Item) (l₂ : List Item) : Prop where
  below : ∃ m, maxOrderOf st (st.nodeOf group).dim lvl mt = some m ∧ oi < m
  ge : order ≤ oi
  list : st.lists (.groupCell group mt oi) = l₁ ++ item :: l₂
  eligible : Eligible st mt isTable oi item
  passed : ∀ i ∈ l₁, ¬ Eligible st mt isTable oi i
  least : ∀ k, order ≤ k → k < oi → ∀ i ∈ st.lists (.groupCell group mt k),
    ¬ Eligible st mt isTable k i

/-- The lists of the group and type: linked, counted, and below each block only descriptors on no
    list. -/
structure BlockLists (st : State) (group : Group) (lvl : Nat) (mt : MigrationType) : Prop where
  linked : st.Linked
  counted : ∀ k, st.counts (.groupCell group mt k) =
    BitVec.ofNat 64 (st.lists (.groupCell group mt k)).length
  interior : ∀ k, ∀ i ∈ st.lists (.groupCell group mt k), ∀ d, i < d →
    d < i + 2 ^ (k + splitShift mt lvl) → (st.items d).onList = none
  cap : ∀ m, maxOrderOf st (st.nodeOf group).dim lvl mt = some m → m ≤ maxItemOrder + 1

section Search

variable {st : State} {group : Group} {lvl order oi : Nat} {mt : MigrationType} {isTable : Bool}
  {item : Item} {l₁ l₂ : List Item}

theorem eligible_iff {k : Nat} {i : Item} : Eligible st mt isTable k i ↔
    ¬ (mt = .sparseMovable ∧ isTable = true ∧ k = 0) ∧ eligible st mt k i = true := by
  unfold Eligible eligible
  by_cases hmt : mt = .sparseMovable
  · by_cases hk : k = 0
    · cases isTable <;> simp [hmt, hk]
    · simp [hk]
  · simp [hmt]

theorem searchList_eq_none {k : Nat} : searchList st group mt isTable k = none ↔
    ∀ i ∈ st.lists (.groupCell group mt k), ¬ Eligible st mt isTable k i := by
  simp only [eligible_iff]
  unfold searchList
  split
  · next h => simp [h]
  · next h => simp [h]

theorem searchList_eq_some {k : Nat} : searchList st group mt isTable k = some item ↔
    ∃ l₁ l₂, st.lists (.groupCell group mt k) = l₁ ++ item :: l₂ ∧ Eligible st mt isTable k item ∧
      ∀ i ∈ l₁, ¬ Eligible st mt isTable k i := by
  simp only [eligible_iff]
  unfold searchList
  split
  · next h => simp [h]
  · next h =>
      rw [List.find?_eq_some_iff_append]
      constructor
      · intro hf
        obtain ⟨he, l₁, l₂, hl, hp⟩ := hf
        exact ⟨l₁, l₂, hl, ⟨h, he⟩, fun i hi hc => by simpa [hc.2] using hp i hi⟩
      · intro hf
        obtain ⟨l₁, l₂, hl, he, hp⟩ := hf
        refine ⟨he.2, l₁, l₂, hl, fun i hi => ?_⟩
        cases hc : eligible st mt k i with
        | false => rfl
        | true => exact absurd ⟨h, hc⟩ (hp i hi)

/-- The search stops at the first fit. -/
theorem firstFit_of_search {m : Nat} (hm : maxOrderOf st (st.nodeOf group).dim lvl mt = some m)
    (h : searchOrders st group mt isTable (m - order) order = some (oi, item)) :
    ∃ l₁ l₂, FirstFit st group lvl order mt isTable oi l₁ item l₂ := by
  obtain ⟨h1, h2, h3, h4⟩ := searchOrders_eq_some.mp h
  obtain ⟨l₁, l₂, hl, he, hp⟩ := searchList_eq_some.mp h3
  exact ⟨l₁, l₂, ⟨m, hm, by omega⟩, h1, hl, he, hp,
    fun k hk1 hk2 => searchList_eq_none.mp (h4 k hk1 hk2)⟩

theorem FirstFit.search (hF : FirstFit st group lvl order mt isTable oi l₁ item l₂) {m : Nat}
    (hm : maxOrderOf st (st.nodeOf group).dim lvl mt = some m) :
    searchOrders st group mt isTable (m - order) order = some (oi, item) := by
  obtain ⟨m', hm', hlt⟩ := hF.below
  rw [hm, Option.some.injEq] at hm'
  subst hm'
  refine searchOrders_eq_some.mpr ⟨hF.ge, by omega, ?_, fun k h1 h2 => ?_⟩
  · exact searchList_eq_some.mpr ⟨l₁, l₂, hF.list, hF.eligible, hF.passed⟩
  · exact searchList_eq_none.mpr (hF.least k h1 h2)

theorem FirstFit.mem (hF : FirstFit st group lvl order mt isTable oi l₁ item l₂) :
    item ∈ st.lists (.groupCell group mt oi) := by
  rw [hF.list]
  exact List.mem_append_right _ List.mem_cons_self

end Search

/-! ## 3. What a removal leaves -/

/-- **The removal of `item` is exact**; the blocks gained are of the array, none lies before it. -/
structure RemovedExact (st st' : State) (group : Group) (lvl order : Nat) (mt : MigrationType)
    (oi : Nat) (l₁ : List Item) (item : Item) (l₂ : List Item) : Prop where
  linked : st'.Linked
  off : (st'.items item).onList = none
  present : itemIsPresent (st'.items item).flags = true
  orderSet : getItemOrder (st'.items item).flags = order
  gained : ∀ k, order ≤ k → k < oi → ∃ half : Item,
    st'.lists (.groupCell group mt k) = half :: st.lists (.groupCell group mt k) ∧
      st'.counts (.groupCell group mt k) = st.counts (.groupCell group mt k) + 1
  within : ∀ k, order ≤ k → k < oi → 0 ≤ item + splitSize mt lvl k
  lost : st'.lists (.groupCell group mt oi) = l₁ ++ l₂ ∧
    st'.counts (.groupCell group mt oi) = st.counts (.groupCell group mt oi) - 1
  others : ∀ h, (∀ k, order ≤ k → k ≤ oi → h ≠ .groupCell group mt k) →
    st'.lists h = st.lists h ∧ st'.counts h = st.counts h
  counted : ∀ k, st'.counts (.groupCell group mt k) =
    BitVec.ofNat 64 (st'.lists (.groupCell group mt k)).length
  sum : ∑ k ∈ Finset.range (maxItemOrder + 1), (st'.lists (.groupCell group mt k)).length * 2 ^ k +
      2 ^ order =
    ∑ k ∈ Finset.range (maxItemOrder + 1), (st.lists (.groupCell group mt k)).length * 2 ^ k

/-- The halves from `2 ^ 31` descriptors on: there is one at most, as many descriptors lie before the block,
    and it falls on one on no list. -/
def LargeHalfClear (st : State) (lvl order : Nat) (mt : MigrationType) (oi : Nat) (item : Item) :
    Prop :=
  ∀ k, order ≤ k → k < oi → 31 ≤ k + splitShift mt lvl →
    k + splitShift mt lvl = 31 ∧ 2 ^ 31 ≤ item ∧ (st.items (item - 2 ^ 31)).onList = none

theorem sum_Ico_two_pow {a c : Nat} (h : a ≤ c) : ∑ k ∈ Finset.Ico a c, 2 ^ k + 2 ^ a = 2 ^ c := by
  induction c, h using Nat.le_induction with
  | base => simp
  | succ c hc ih =>
      rw [Finset.sum_Ico_succ_top hc, pow_succ]
      omega

section Removal

variable {st st' : State} {group : Group} {lvl order oi : Nat} {mt : MigrationType} {isTable : Bool}
  {item : Item} {l₁ l₂ : List Item}

/-- With clear large halves every half falls on a descriptor on no list. -/
theorem halves_clear_iff (hB : BlockLists st group lvl mt)
    (hF : FirstFit st group lvl order mt isTable oi l₁ item l₂) :
    (∀ k, order ≤ k → k < oi →
      0 ≤ item + splitSize mt lvl k ∧ (st.items (halfAt mt lvl item k)).onList = none) ↔
      LargeHalfClear st lvl order mt oi item := by
  constructor
  · intro h k h1 h2 h31
    obtain ⟨hin, hk⟩ := h k h1 h2
    rcases Nat.eq_or_lt_of_le h31 with e | hlt
    · unfold splitSize at hin
      rw [← e, intOf_bit_31] at hin
      have hi : 2 ^ 31 ≤ item := Int.ofNat_le.mp (by omega)
      rw [halfAt_eq_31 e.symm hi] at hk
      exact ⟨e.symm, hi, hk⟩
    · rw [halfAt_eq_32 hlt, (hB.linked.mem item _).mpr hF.mem] at hk
      cases hk
  · intro h k h1 h2
    rcases Nat.lt_or_ge (k + splitShift mt lvl) 31 with hlt | hge
    · have hpos := Nat.two_pow_pos (k + splitShift mt lvl)
      have hup : 2 ^ (k + splitShift mt lvl) < 2 ^ (oi + splitShift mt lvl) :=
        Nat.pow_lt_pow_right (by decide) (Nat.add_lt_add_right h2 _)
      refine ⟨?_, ?_⟩
      · unfold splitSize
        rw [intOf_bit_of_lt hlt]
        exact Int.add_nonneg (Int.natCast_nonneg _) (Int.le_of_lt (Int.pow_pos (by decide)))
      · rw [halfAt_of_lt hlt]
        exact hB.interior oi item hF.mem _ (Nat.lt_add_of_pos_right hpos) (Nat.add_lt_add_left hup _)
    · obtain ⟨e, hi, hn⟩ := h k h1 h2 hge
      refine ⟨?_, ?_⟩
      · have hcast := Int.ofNat_le.mpr hi
        unfold splitSize
        rw [e, intOf_bit_31]
        omega
      · rw [halfAt_eq_31 e hi]
        exact hn

/-- The lists after the removal. -/
theorem removed_lists (hB : BlockLists st group lvl mt)
    (hF : FirstFit st group lvl order mt isTable oi l₁ item l₂)
    (he : st' = splitGroupMigration (st.takeOff (.groupCell group mt oi) item) group item lvl order oi
      mt) :
    (∀ k, order ≤ k → k < oi →
      st'.lists (.groupCell group mt k) =
          halfAt mt lvl item k :: st.lists (.groupCell group mt k) ∧
        st'.counts (.groupCell group mt k) = st.counts (.groupCell group mt k) + 1) ∧
    (st'.lists (.groupCell group mt oi) = l₁ ++ l₂ ∧
      st'.counts (.groupCell group mt oi) = st.counts (.groupCell group mt oi) - 1) ∧
    ∀ h, (∀ k, order ≤ k → k ≤ oi → h ≠ .groupCell group mt k) →
      st'.lists h = st.lists h ∧ st'.counts h = st.counts h := by
  have hrel := splitGroupMigration_releases (st.takeOff (.groupCell group mt oi) item) group item lvl
    order oi mt
  rw [← he] at hrel
  have hoff : ∀ h, h ≠ .groupCell group mt oi →
      (st.takeOff (.groupCell group mt oi) item).lists h = st.lists h ∧
        (st.takeOff (.groupCell group mt oi) item).counts h = st.counts h := by
    intro h hne
    simp [State.takeOff, hne]
  have hcell : ∀ k, k < oi → ListHead.groupCell group mt k ≠ .groupCell group mt oi := by
    intro k hk e
    injection e
    omega
  refine ⟨fun k h1 h2 => ?_, ?_, fun h hh => ?_⟩
  · rw [(hrel.gained k h1 h2).1, (hrel.gained k h1 h2).2, (hoff _ (hcell k h2)).1,
      (hoff _ (hcell k h2)).2]
    exact ⟨rfl, rfl⟩
  · obtain ⟨e1, e2⟩ := hrel.others (.groupCell group mt oi) fun k _ h2 e => hcell k h2 e.symm
    have hnd := hB.linked.nodup (.groupCell group mt oi)
    rw [hF.list] at hnd
    have hne : item ∉ l₁ := fun hm => (List.nodup_append.mp hnd).2.2 item hm item List.mem_cons_self rfl
    rw [e1, e2]
    simp only [State.takeOff, State.countDec_lists, State.countDec_counts, State.modItem_lists,
      State.modItem_counts, State.setList_lists, State.setList_counts, if_true, hF.list]
    exact ⟨by rw [List.erase_append_right _ hne, List.erase_cons_head], trivial⟩
  · obtain ⟨e1, e2⟩ := hrel.others h fun k h1 h2 => hh k h1 (Nat.le_of_lt h2)
    rw [e1, e2]
    exact hoff h (hh oi hF.ge (Nat.le_refl _))

/-- One item more on each list between the two orders and one less on the upper one: the lists hold
    `2 ^ order` less. -/
theorem sum_lengths {f f' : Nat → Nat} (hge : order ≤ oi) (hoi : oi ≤ maxItemOrder)
    (hgain : ∀ k, order ≤ k → k < oi → f' k = f k + 1) (hlost : f' oi + 1 = f oi)
    (hother : ∀ k, k < order ∨ oi < k → f' k = f k) :
    ∑ k ∈ Finset.range (maxItemOrder + 1), f' k * 2 ^ k + 2 ^ order =
      ∑ k ∈ Finset.range (maxItemOrder + 1), f k * 2 ^ k := by
  have hstep : ∀ k, f' k * 2 ^ k + (if k = oi then 2 ^ k else 0) =
      f k * 2 ^ k + if k ∈ Finset.Ico order oi then 2 ^ k else 0 := by
    intro k
    simp only [Finset.mem_Ico]
    by_cases hk : k = oi
    · subst hk
      rw [if_pos rfl, if_neg (by omega), ← hlost, Nat.add_mul, Nat.one_mul, Nat.add_zero]
    · rw [if_neg hk]
      split
      · next h =>
          rw [hgain k h.1 h.2, Nat.add_mul, Nat.one_mul, Nat.add_zero]
      · next h => rw [hother k (by omega)]
  have hsum : ∑ k ∈ Finset.range (maxItemOrder + 1), f' k * 2 ^ k +
      ∑ k ∈ Finset.range (maxItemOrder + 1), (if k = oi then 2 ^ k else 0) =
        ∑ k ∈ Finset.range (maxItemOrder + 1), f k * 2 ^ k +
          ∑ k ∈ Finset.range (maxItemOrder + 1), if k ∈ Finset.Ico order oi then 2 ^ k else 0 := by
    rw [← Finset.sum_add_distrib, ← Finset.sum_add_distrib]
    exact Finset.sum_congr rfl fun k _ => hstep k
  have hsub : Finset.Ico order oi ⊆ Finset.range (maxItemOrder + 1) := fun k hk => by
    rw [Finset.mem_Ico] at hk
    rw [Finset.mem_range]
    omega
  rw [Finset.sum_ite_eq' (Finset.range (maxItemOrder + 1)) oi,
    if_pos (Finset.mem_range.mpr (by omega)), Finset.sum_ite_mem,
    Finset.inter_eq_right.mpr hsub] at hsum
  have := sum_Ico_two_pow hge
  omega

/-- Unlinked halves off the block are listed and nothing is listed twice. -/
theorem splitLoop_linked (group : Group) (item : Item) (lvl orderMin : Nat) (mt : MigrationType)
    {n : Nat} (hL : st.Linked) (hne : ∀ k < n, halfAt mt lvl item (orderMin + k) ≠ item)
    (hfree : ∀ k < n, (st.items (halfAt mt lvl item (orderMin + k))).onList = none) :
    (splitLoop group item lvl orderMin mt n st).Linked := by
  induction n generalizing st with
  | zero => exact hL
  | succ n ih =>
      have hlt : ∀ k < n, k < n + 1 := fun k hk => Nat.lt_succ_of_lt hk
      rw [splitLoop]
      refine ih ?_ (fun k hk => hne k (hlt k hk)) fun k hk => ?_
      · exact ((hL.pushHead (hfree n (Nat.lt_succ_self n)) _).modFlags _ _).countInc _
      · rw [split2_items, if_neg]
        · exact hfree k (hlt k hk)
        · intro e
          have := halfAt_inj (hne k (hlt k hk)) (hne n (Nat.lt_succ_self n)) e
          omega

/-- With clear halves the removal is exact. -/
theorem removedExact_of_clear (hB : BlockLists st group lvl mt)
    (hF : FirstFit st group lvl order mt isTable oi l₁ item l₂)
    (hclear : ∀ k, order ≤ k → k < oi →
      0 ≤ item + splitSize mt lvl k ∧ (st.items (halfAt mt lvl item k)).onList = none)
    (he : st' = splitGroupMigration (st.takeOff (.groupCell group mt oi) item) group item lvl order oi
      mt) :
    RemovedExact st st' group lvl order mt oi l₁ item l₂ := by
  obtain ⟨hgain, hlost, hother⟩ := removed_lists hB hF he
  have ho := (hB.linked.mem item _).mpr hF.mem
  obtain ⟨m, hm, hlt⟩ := hF.below
  have hoi : oi ≤ maxItemOrder := Nat.le_of_lt_succ (Nat.lt_of_lt_of_le hlt (hB.cap m hm))
  have hge := hF.ge
  -- the block is listed, so no half falls on it
  have hne : ∀ k, order ≤ k → k < oi → halfAt mt lvl item k ≠ item := by
    intro k h1 h2 e
    have := (hclear k h1 h2).2
    rw [e, ho] at this
    cases this
  have hoff : ∀ j, j ≠ item →
      (st.takeOff (.groupCell group mt oi) item).items j = st.items j := by
    intro j hj
    simp [State.takeOff, hj]
  have hLoff : (st.takeOff (.groupCell group mt oi) item).Linked :=
    (hB.linked.listDel (listDel_of ho)).countDec _
  have hlen : ∀ k, k < order ∨ oi < k →
      st'.lists (.groupCell group mt k) = st.lists (.groupCell group mt k) ∧
        st'.counts (.groupCell group mt k) = st.counts (.groupCell group mt k) := by
    intro k hk
    refine hother _ fun k' h1 h2 e => ?_
    injection e
    omega
  have hlostlen : (st'.lists (.groupCell group mt oi)).length + 1 =
      (st.lists (.groupCell group mt oi)).length := by
    rw [hlost.1, hF.list, List.length_append, List.length_append, List.length_cons, Nat.add_assoc]
  obtain ⟨hp, hord⟩ := @splitGroupMigration_kept group item lvl order oi mt
    (st.takeOff (.groupCell group mt oi) item) (Nat.le_trans hge hoi)
  refine ⟨?_, ?_, ?_, ?_, fun k h1 h2 => ⟨_, hgain k h1 h2⟩, fun k h1 h2 => (hclear k h1 h2).1, hlost,
    hother, fun k => ?_, ?_⟩
  · rw [he]
    unfold splitGroupMigration
    refine State.Linked.modFlags (splitLoop_linked group item lvl order mt hLoff (fun k hk => ?_)
      fun k hk => ?_) _ _
    · exact hne _ (by omega) (by omega)
    · rw [hoff _ (hne _ (by omega) (by omega))]
      exact (hclear _ (by omega) (by omega)).2
  · rw [he, splitGroupMigration, State.modFlags_items, if_pos rfl,
      splitLoop_items_other _ _ _ _ _ fun k hk => Ne.symm (hne (order + k) (by omega) (by omega))]
    simp [State.takeOff]
  · rw [he]
    exact hp
  · rw [he]
    exact hord
  · rcases Nat.lt_or_ge k order with hk | hk
    · rw [(hlen k (.inl hk)).1, (hlen k (.inl hk)).2]
      exact hB.counted k
    · rcases Nat.lt_trichotomy k oi with hk' | rfl | hk'
      · rw [(hgain k hk hk').1, (hgain k hk hk').2, hB.counted k, List.length_cons, BitVec.ofNat_add]
        rfl
      · rw [hlost.2, hB.counted k, ← hlostlen, BitVec.ofNat_add]
        exact BitVec.add_sub_cancel _ _
      · rw [(hlen k (.inr hk')).1, (hlen k (.inr hk')).2]
        exact hB.counted k
  · refine sum_lengths hge hoi (fun k h1 h2 => ?_) hlostlen fun k hk => ?_
    · rw [(hgain k h1 h2).1, List.length_cons]
    · rw [(hlen k hk).1]

/-- An exact removal put every half at a descriptor that was on no list. -/
theorem RemovedExact.clear (hB : BlockLists st group lvl mt)
    (hF : FirstFit st group lvl order mt isTable oi l₁ item l₂)
    (he : st' = splitGroupMigration (st.takeOff (.groupCell group mt oi) item) group item lvl order oi
      mt) (hR : RemovedExact st st' group lvl order mt oi l₁ item l₂) :
    ∀ k, order ≤ k → k < oi →
      0 ≤ item + splitSize mt lvl k ∧ (st.items (halfAt mt lvl item k)).onList = none := by
  obtain ⟨hgain, -, -⟩ := removed_lists hB hF he
  intro k h1 h2
  refine ⟨hR.within k h1 h2, ?_⟩
  set p := halfAt mt lvl item k with hp
  have hlist := (hgain k h1 h2).1
  have hon := (hR.linked.mem p (.groupCell group mt k)).mpr (by rw [hlist]; exact List.mem_cons_self)
  have hpne : p ≠ item := by
    intro e
    rw [e, hR.off] at hon
    cases hon
  cases hl : (st.items p).onList with
  | none => rfl
  | some h =>
      -- it stays on that list, and is now on the list of order `k` as well
      have hmem := (hB.linked.mem p h).mp hl
      by_cases hk : h = .groupCell group mt k
      · subst hk
        have hnd := hR.linked.nodup (.groupCell group mt k)
        rw [hlist] at hnd
        exact absurd hmem (List.nodup_cons.mp hnd).1
      · have hstill : p ∈ st'.lists h := by
          rw [he, remove_lists]
          refine List.mem_append_right _ ?_
          split
          · exact (List.mem_erase_of_ne hpne).mpr hmem
          · exact hmem
        rw [(hR.linked.mem p h).mpr hstill, Option.some.injEq] at hon
        exact absurd hon hk

/-! ## 4. The removal as a whole -/

/-- The block looked at is at no multiple of the level's unit: the call gives up. -/
def Misplaced (st : State) (lvl : Nat) (mt : MigrationType) (item : Item) : Prop :=
  mt ≠ .sparseMovable ∧ itemToIdx st item % 2 ^ functionItemLvl groupOrderNumShift lvl ≠ 0

/-- **First fit, exact, all or nothing**: NULL leaves the globals as they are; an item is the first fit,
    and its removal exact. -/
def RemoveMeets (st : State) (group : Group) (lvl order : Nat) (mt : MigrationType) (isTable : Bool) :
    Prop :=
  ∃ st' r, removeGroupMigration st group lvl order mt isTable = some (st', r) ∧
    match r with
    | none => st' = st
    | some item => ∃ oi l₁ l₂, FirstFit st group lvl order mt isTable oi l₁ item l₂ ∧
        RemovedExact st st' group lvl order mt oi l₁ item l₂

/-- What the call does with the first fit. -/
theorem FirstFit.remove (hL : st.Linked)
    (hF : FirstFit st group lvl order mt isTable oi l₁ item l₂) :
    (Misplaced st lvl mt item →
      removeGroupMigration st group lvl order mt isTable = some (st, none)) ∧
    (¬ Misplaced st lvl mt item → removeGroupMigration st group lvl order mt isTable =
      some (splitGroupMigration (st.takeOff (.groupCell group mt oi) item) group item lvl order oi mt,
        some item)) := by
  obtain ⟨m, hm, -⟩ := hF.below
  have hs := hF.search hm
  have ho := (hL.mem item _).mpr hF.mem
  unfold removeGroupMigration
  simp only [hm, hs, Option.bind_eq_bind, Option.bind_some, listDel_of ho]
  exact ⟨fun h => if_pos h, fun h => if_neg h⟩

/-- Without one it gives up. -/
theorem removeGroupMigration_of_none {m : Nat}
    (hm : maxOrderOf st (st.nodeOf group).dim lvl mt = some m)
    (hs : searchOrders st group mt isTable (m - order) order = none) :
    removeGroupMigration st group lvl order mt isTable = some (st, none) := by
  unfold removeGroupMigration
  simp only [hm, hs, Option.bind_eq_bind, Option.bind_some]
  rfl

end Removal

theorem maxOrderOf_isSome {st : State} {dim : Nat} (lvl : Nat) (mt : MigrationType)
    (h : (getCurrentNodeNum dim).isSome) : ∃ m, maxOrderOf st dim lvl mt = some m := by
  obtain ⟨cur, hcur⟩ := Option.isSome_iff_exists.mp h
  unfold maxOrderOf
  split
  · exact ⟨_, rfl⟩
  · exact ⟨_, by rw [hcur]; rfl⟩

/-- **When a removal is exact**: unless the first fit is misplaced, its halves of `2 ^ 31` descriptors or
    more must fall on a descriptor on no list. There are none but on level 0, from order 5 on, for the
    types other than MOVABLE. -/
theorem removeGroupMigration_meets_iff {st : State} {group : Group} {lvl : Nat} {mt : MigrationType}
    (hB : BlockLists st group lvl mt) (hdim : (getCurrentNodeNum (st.nodeOf group).dim).isSome)
    (order : Nat) (isTable : Bool) :
    RemoveMeets st group lvl order mt isTable ↔
      ∀ oi l₁ item l₂, FirstFit st group lvl order mt isTable oi l₁ item l₂ →
        Misplaced st lvl mt item ∨ LargeHalfClear st lvl order mt oi item := by
  obtain ⟨m, hm⟩ := @maxOrderOf_isSome st _ lvl mt hdim
  cases hs : searchOrders st group mt isTable (m - order) order with
  | none =>
      refine ⟨fun _ oi l₁ item l₂ hF => ?_, fun _ => ⟨st, none, removeGroupMigration_of_none hm hs, rfl⟩⟩
      rw [hF.search hm] at hs
      cases hs
  | some found =>
      obtain ⟨oi, item⟩ := found
      obtain ⟨l₁, l₂, hF⟩ := firstFit_of_search hm hs
      obtain ⟨hmis, hrun⟩ := hF.remove hB.linked
      have hsame : ∀ {oi' l₁' item' l₂'}, FirstFit st group lvl order mt isTable oi' l₁' item' l₂' →
          oi = oi' ∧ item = item' := by
        intro oi' l₁' item' l₂' hF'
        rw [hF'.search hm] at hs
        simpa [eq_comm] using hs
      constructor
      · intro h oi' l₁' item' l₂' hF'
        obtain ⟨rfl, rfl⟩ := hsame hF'
        by_cases hmp : Misplaced st lvl mt item
        · exact .inl hmp
        · obtain ⟨st', r, hr, hcase⟩ := h
          rw [hrun hmp, Option.some.injEq, Prod.mk.injEq] at hr
          obtain ⟨rfl, rfl⟩ := hr
          obtain ⟨oi', l₁'', l₂'', hF'', hR⟩ := hcase
          obtain ⟨rfl, -⟩ := hsame hF''
          exact .inr ((halves_clear_iff hB hF'').mp (hR.clear hB hF'' rfl))
      · intro h
        by_cases hmp : Misplaced st lvl mt item
        · exact ⟨st, none, hmis hmp, rfl⟩
        · have hclear := (h oi l₁ item l₂ hF).resolve_left hmp
          exact ⟨_, some item, hrun hmp, oi, l₁, l₂, hF,
            removedExact_of_clear hB hF ((halves_clear_iff hB hF).mpr hclear) rfl⟩

/-- Below level 0, and for MOVABLE, no half is that large. -/
theorem largeHalfClear_of_level {st : State} {lvl order oi : Nat} {mt : MigrationType} {item : Item}
    (h : mt = .sparseMovable ∨ 1 ≤ lvl) (hoi : oi ≤ maxItemOrder) :
    LargeHalfClear st lvl order mt oi item := by
  have hs : splitShift mt lvl ≤ 18 := by
    unfold splitShift
    split
    · exact Nat.zero_le _
    · next hmt =>
        have := h.resolve_left hmt
        unfold functionItemLvl groupOrderNumShift
        simp only [groupLvlNum_eq]
        omega
  intro k _ hk hge
  rw [maxItemOrder_eq] at hoi
  omega

/-- A node whose level `lvl` holds one block, of order `k` from descriptor 0. -/
def freeBlock (lvl : Nat) (mt : MigrationType) (k : Nat) : State :=
  { oneBlock (.groupCell (.phy 0 lvl) mt k) 0 with
    tables := { zeroed.tables with phyGroupOrder := fun _ => 9 } }

theorem freeBlock_lists (lvl : Nat) (mt : MigrationType) (k : Nat) :
    BlockLists (freeBlock lvl mt k) (.phy 0 lvl) lvl mt where
  linked := (oneBlock_linked _ _).congr rfl fun _ => rfl
  counted o := by
    have hl := oneBlock_lists (.groupCell (.phy 0 lvl) mt k) (.groupCell (.phy 0 lvl) mt o) 0
    have hc := oneBlock_counts (.groupCell (.phy 0 lvl) mt k) (.groupCell (.phy 0 lvl) mt o) 0
    show (oneBlock _ _).counts _ = BitVec.ofNat 64 ((oneBlock _ _).lists _).length
    rw [hl, hc]
    split <;> rfl
  interior o i hi d hd _ := by
    have hne : d ≠ 0 := Nat.ne_of_gt (Nat.lt_of_le_of_lt (Nat.zero_le i) hd)
    show ((oneBlock _ _).items d).onList = none
    simp [oneBlock, hne, zeroed]
  cap m hm := by
    unfold maxOrderOf at hm
    split at hm
    · cases hm
      decide
    · rw [Option.map_eq_some_iff] at hm
      obtain ⟨cur, -, rfl⟩ := hm
      split <;> simp [freeBlock]

/-- A RECLAIMABLE block of level 1, cut down to order 0. -/
theorem freeBlock_removed : RemoveMeets (freeBlock 1 .reclaimable 7) (.phy 0 1) 1 0 .reclaimable false :=
  (removeGroupMigration_meets_iff (freeBlock_lists 1 .reclaimable 7) rfl 0 false).mpr
    fun _ _ _ _ hF => by
      obtain ⟨m, hm, hlt⟩ := hF.below
      have := (freeBlock_lists 1 .reclaimable 7).cap m hm
      exact .inr (largeHalfClear_of_level (.inr (Nat.le_refl 1)) (by omega))

/-- Cutting a RECLAIMABLE block of level 0 from order 6 to order 5 puts the block handed out on the list
    of order 5. -/
theorem freeBlock_stays : BlockLists (freeBlock 0 .reclaimable 6) (.phy 0 0) 0 .reclaimable ∧
    (∃ st', removeGroupMigration (freeBlock 0 .reclaimable 6) (.phy 0 0) 0 5 .reclaimable false =
      some (st', some 0) ∧ st'.lists (.groupCell (.phy 0 0) .reclaimable 5) = [0]) ∧
    ¬ RemoveMeets (freeBlock 0 .reclaimable 6) (.phy 0 0) 0 5 .reclaimable false := by
  have hrun : ∃ st', removeGroupMigration (freeBlock 0 .reclaimable 6) (.phy 0 0) 0 5 .reclaimable
      false = some (st', some 0) ∧ st'.lists (.groupCell (.phy 0 0) .reclaimable 5) = [0] :=
    ⟨_, rfl, by decide +kernel⟩
  refine ⟨freeBlock_lists 0 .reclaimable 6, hrun, fun hM => ?_⟩
  obtain ⟨st', hr, hl⟩ := hrun
  obtain ⟨st'', r, hr', hcase⟩ := hM
  rw [hr, Option.some.injEq, Prod.mk.injEq] at hr'
  obtain ⟨rfl, rfl⟩ := hr'
  obtain ⟨oi, l₁, l₂, -, hR⟩ := hcase
  have hon := (hR.linked.mem 0 (.groupCell (.phy 0 0) .reclaimable 5)).mpr
    (by rw [hl]; exact List.mem_singleton.mpr rfl)
  rw [hR.off] at hon
  cases hon

end TensorAlloc
