/-
  File:      TensorAlloc/SequenceSplit.lean
  Subject:   `sequence_split_group_migration`: a chosen position carved out of a free block.

  * `sequenceSplitLoop` -- each step keeps the upper half, also where the target is in the lower one,
    and the offset is never re-based;
  * `splitSum` -- how far the block walks: what the halves sum up to, as `int`s;
  * **`sequence_split_exact_iff`** -- the carving is right only where there is nothing to carve.
-/
import Mathlib.Algebra.Order.Ring.Int
import TensorAlloc.Split

namespace TensorAlloc

open DyadicBlocks

/-! ## 1. The loop -/

/-- `&item[size]`; `none` below the first address. -/
def itemBy (item : Item) (size : Int) : Option Item :=
  if 0 ≤ item + size then some (item + size).toNat else none

/-- The loop of `sequence_split_group_migration`, from `order_min + n` down to `order_min`, with the
    item it ends at. The writes are those of `split2_group_migration` to `free`. -/
def sequenceSplitLoop (group : Group) (lvl orderMin : Nat) (migrationType : MigrationType)
    (relIdx : Int) : Nat → Item → State → Option (Item × State)
  | 0, item, st => some (item, st)
  | n + 1, item, st => do
      let present ← itemBy item (splitSize migrationType lvl (orderMin + n))
      let rel := (present : Int) - item
      let free := if rel < relIdx then item else present
      sequenceSplitLoop group lvl orderMin migrationType relIdx n present
        (split2GroupMigration st group free 0 (orderMin + n) migrationType lvl)

/-- `sequence_split_group_migration`. -/
def sequenceSplitGroupMigration (st : State) (group : Group) (item : Item)
    (lvl orderMin orderMax : Nat) (migrationType : MigrationType) (relIdx : Int) : Option State := do
  let (item, st) ←
    sequenceSplitLoop group lvl orderMin migrationType relIdx (orderMax - orderMin) item st
  let free ← itemBy item relIdx
  pure (st.modFlags free fun flags =>
    setItemDim (setItemFreeidx (setItemSection (setItemNode (setItemOrder (setItemPresent flags)
      orderMin) (st.nodeOf group).nodeId) lvl) (2 ^ functionItem groupOrderNumShift))
      (st.nodeOf group).dim)

/-- The call for an offset: `rel_idx` is an `int`. -/
def sequenceSplitAt (st : State) (group : Group) (item : Item) (lvl orderMin orderMax : Nat)
    (migrationType : MigrationType) (d : Nat) : Option State :=
  sequenceSplitGroupMigration st group item lvl orderMin orderMax migrationType
    (intOf (BitVec.ofNat 64 d))

/-- **The block at the offset `d` is carved out**: it alone is marked, the lists of the orders below the
    block's gained one item each, and these and the block chosen tile the whole. -/
def SequenceExact (st st' : State) (group : Group) (item : Item) (lvl orderMin orderMax : Nat)
    (mt : MigrationType) (d : Nat) : Prop :=
  let s := splitShift mt lvl
  ∃ free : Nat → Item, Releases st st' group mt orderMin orderMax free ∧
    (∀ k, orderMin ≤ k → k < orderMax → item ≤ free k) ∧
    itemIsPresent (st'.items (item + d)).flags = true ∧
    getItemOrder (st'.items (item + d)).flags = orderMin ∧
    (∀ j, j ≠ item + d → itemIsPresent (st'.items j).flags = true →
      itemIsPresent (st.items j).flags = true) ∧
    (st'.items (item + d)).onList = none ∧
    Tiles (⟨d, orderMin + s⟩ ::ₘ
      ∑ k ∈ Finset.Ico orderMin orderMax, {⟨free k - item, k + s⟩}) ⟨0, orderMax + s⟩

/-- The descriptors of a block are on no list, and none is in use. -/
def FreeWhole (st : State) (item : Item) (log : Nat) : Prop :=
  ∀ j, item ≤ j → j < item + 2 ^ log →
    itemIsPresent (st.items j).flags = false ∧ (st.items j).onList = none

/-! ## 2. Where the loop ends -/

/-- The distance the block walks over `n` orders. -/
def splitSum (mt : MigrationType) (lvl orderMin n : Nat) : Int :=
  ∑ j ∈ Finset.range n, splitSize mt lvl (orderMin + j)

section Walk

variable {mt : MigrationType} {lvl orderMin : Nat}

theorem splitSize_eq (k : Nat) : splitSize mt lvl k =
    if k + splitShift mt lvl < 31 then 2 ^ (k + splitShift mt lvl)
    else if k + splitShift mt lvl = 31 then -2 ^ 31 else 0 := by
  unfold splitSize
  split
  · next h => exact intOf_bit_of_lt h
  · next h =>
      split
      · next e => rw [e, intOf_bit_31]; rfl
      · next e => exact intOf_bit_of_le (by omega)

/-- **The distance**: what the halves are below `2 ^ 31` descriptors, the lowest block's size downwards
    beyond, nothing from `2 ^ 32` on. -/
theorem splitSum_eq (n : Nat) : splitSum mt lvl orderMin n =
    if orderMin + splitShift mt lvl + n ≤ 31 then
      2 ^ (orderMin + splitShift mt lvl + n) - 2 ^ (orderMin + splitShift mt lvl)
    else if orderMin + splitShift mt lvl ≤ 31 then -2 ^ (orderMin + splitShift mt lvl) else 0 := by
  have hindex : ∀ j, orderMin + j + splitShift mt lvl = orderMin + splitShift mt lvl + j :=
    fun j => Nat.add_right_comm _ _ _
  induction n with
  | zero =>
      unfold splitSum
      rw [Finset.sum_range_zero, Nat.add_zero]
      split
      · exact (Int.sub_self _).symm
      · rfl
  | succ n ih =>
      have hsucc : splitSum mt lvl orderMin (n + 1) =
          splitSum mt lvl orderMin n + splitSize mt lvl (orderMin + n) :=
        Finset.sum_range_succ _ _
      rw [hsucc, ih, splitSize_eq, hindex]
      rcases Nat.lt_trichotomy (orderMin + splitShift mt lvl + n) 31 with h | h | h
      · rw [if_pos (by omega), if_pos h, if_pos (by omega), ← Nat.add_assoc, pow_succ]
        omega
      · rw [if_pos (by omega), if_neg (by omega), if_pos h, if_neg (by omega), if_pos (by omega), h]
        omega
      · rw [if_neg (show ¬ orderMin + splitShift mt lvl + n ≤ 31 by omega),
          if_neg (show ¬ orderMin + splitShift mt lvl + n < 31 by omega),
          if_neg (show ¬ orderMin + splitShift mt lvl + n = 31 by omega),
          if_neg (show ¬ orderMin + splitShift mt lvl + (n + 1) ≤ 31 by omega), Int.add_zero]

/-- A walk of no distance at all, short of 32 bits, has no step. -/
theorem splitSum_eq_zero {n : Nat} (hn : 0 < n) :
    splitSum mt lvl orderMin n = 0 ↔ 32 ≤ orderMin + splitShift mt lvl := by
  have hpos : (0 : Int) < 2 ^ (orderMin + splitShift mt lvl) :=
    Int.pow_pos (by decide)
  have hlt : (2 : Int) ^ (orderMin + splitShift mt lvl) < 2 ^ (orderMin + splitShift mt lvl + n) :=
    pow_lt_pow_right₀ (by decide) (by omega)
  rw [splitSum_eq]
  split
  · omega
  · split <;> omega

/-- The distance is short of `2 ^ 32`. -/
theorem splitSum_lt (n : Nat) :
    -2 ^ 32 < splitSum mt lvl orderMin n ∧ splitSum mt lvl orderMin n < 2 ^ 32 := by
  have hpow : ∀ {e : Nat}, e ≤ 31 → (2 : Int) ^ e ≤ 2 ^ 31 := fun h =>
    pow_le_pow_right₀ (by decide) h
  have hpos : ∀ e : Nat, (0 : Int) < 2 ^ e := fun e => Int.pow_pos (by decide)
  rw [splitSum_eq]
  split
  · next h =>
      have h1 := hpow h
      have h2 := hpos (orderMin + splitShift mt lvl + n)
      have h3 := hpow (Nat.le_trans (Nat.le_add_right _ n) h)
      have h4 := hpos (orderMin + splitShift mt lvl)
      omega
  · split
    · next h =>
        have h1 := hpow h
        have h2 := hpos (orderMin + splitShift mt lvl)
        omega
    · decide

end Walk

/-! ## 3. What the loop leaves of the items -/

section Loop

variable {group : Group} {lvl orderMin : Nat} {mt : MigrationType} {relIdx : Int}

theorem itemBy_some {item j : Item} {size : Int} (h : itemBy item size = some j) :
    (j : Int) = item + size := by
  unfold itemBy at h
  split at h
  · next h0 =>
      obtain rfl := Option.some.inj h
      exact Int.toNat_of_nonneg h0
  · cases h

theorem itemBy_zero (item : Item) : itemBy item 0 = some item := by
  unfold itemBy
  rw [Int.add_zero, if_pos (Int.natCast_nonneg item), Int.toNat_natCast]

theorem putBack_present (group : Group) (mt : MigrationType) (nodeId lvl k : Nat) (x : ItemStruct) :
    itemIsPresent (putBack group mt nodeId lvl k x).flags = false := by
  simp [putBack, ItemField.offset]

/-- An item put on a list is not in use, and stays on a list. -/
theorem split2_item (st : State) (free : Item) (k : Nat) (j : Item) :
    (itemIsPresent ((split2GroupMigration st group free 0 k mt lvl).items j).flags = true →
      itemIsPresent (st.items j).flags = true) ∧
    ((st.items j).onList ≠ none ∨ j = free →
      ((split2GroupMigration st group free 0 k mt lvl).items j).onList ≠ none) := by
  have hat : itemAt free 0 = free := by
    rw [itemAt_of_nonneg (by omega), Int.add_zero, Int.toNat_natCast]
  rw [split2_items, hat]
  by_cases hj : j = free
  · simp only [if_pos hj, putBack_present]
    exact ⟨fun h => absurd h Bool.false_ne_true, fun _ => Option.some_ne_none _⟩
  · simp only [if_neg hj]
    exact ⟨id, fun h => h.resolve_right hj⟩

/-- **The loop**: how far it walks, and that it marks nothing and takes nothing off a list. -/
theorem sequenceSplitLoop_spec {n : Nat} {item item' : Item} {st st' : State}
    (h : sequenceSplitLoop group lvl orderMin mt relIdx n item st = some (item', st')) :
    (item' : Int) = item + splitSum mt lvl orderMin n ∧
      ∀ j, (itemIsPresent (st'.items j).flags = true → itemIsPresent (st.items j).flags = true) ∧
        ((st.items j).onList ≠ none → (st'.items j).onList ≠ none) := by
  induction n generalizing item st with
  | zero =>
      obtain ⟨rfl, rfl⟩ := Prod.mk.inj (Option.some.inj h)
      exact ⟨(Int.add_zero _).symm, fun j => ⟨id, id⟩⟩
  | succ n ih =>
      obtain ⟨present, hpresent, h⟩ := Option.bind_eq_some_iff.mp h
      obtain ⟨hwalk, hitems⟩ := ih h
      have hstep := itemBy_some hpresent
      have hsum : splitSum mt lvl orderMin (n + 1) =
          splitSum mt lvl orderMin n + splitSize mt lvl (orderMin + n) := Finset.sum_range_succ _ _
      refine ⟨by omega, fun j => ?_⟩
      obtain ⟨hp, ho⟩ := @split2_item group lvl mt st
        (if (present : Int) - item < relIdx then item else present) (orderMin + n) j
      exact ⟨fun hj => hp ((hitems j).1 hj), fun hj => (hitems j).2 (ho (.inl hj))⟩

/-- Where the sizes are cut to 0 the block itself is put on a list. -/
theorem sequenceSplitLoop_stays {n : Nat} {item item' : Item} {st st' : State} (hn : 0 < n)
    (hwide : 32 ≤ orderMin + splitShift mt lvl)
    (h : sequenceSplitLoop group lvl orderMin mt relIdx n item st = some (item', st')) :
    (st'.items item).onList ≠ none := by
  obtain ⟨n, rfl⟩ := Nat.exists_eq_add_of_le' hn
  have hsize : splitSize mt lvl (orderMin + n) = 0 := by
    rw [splitSize_eq, if_neg (by omega), if_neg (by omega)]
  rw [sequenceSplitLoop, hsize, itemBy_zero] at h
  simp only [Option.bind_eq_bind, Option.bind_some, ite_self] at h
  exact ((sequenceSplitLoop_spec h).2 item).2
    ((split2_item st item (orderMin + n) item).2 (.inr rfl))

end Loop

/-! ## 4. The carving -/

section Carving

variable {st : State} {group : Group} {item : Item} {lvl orderMin orderMax d : Nat}
  {mt : MigrationType}

/-- An offset as an `int` is the offset up to a multiple of `2 ^ 32`. -/
theorem intOf_ofNat (d : Nat) : ∃ q : Int, intOf (BitVec.ofNat 64 d) = d - q * 2 ^ 32 ∧
    -2 ^ 31 ≤ intOf (BitVec.ofNat 64 d) ∧ intOf (BitVec.ofNat 64 d) < 2 ^ 31 := by
  have hlow : ((BitVec.ofNat 64 d).setWidth 32).toNat = d % 2 ^ 32 := by
    rw [BitVec.toNat_setWidth, BitVec.toNat_ofNat]
    omega
  unfold intOf
  rw [BitVec.toInt_eq_toNat_cond, hlow]
  split
  · exact ⟨d / 2 ^ 32, by omega, by omega, by omega⟩
  · exact ⟨d / 2 ^ 32 + 1, by omega, by omega, by omega⟩

/-- Of a block that is not split nothing is carved: the offset is 0. -/
theorem sequenceExact_whole (hmax : orderMin ≤ maxItemOrder)
    (hfree : FreeWhole st item (orderMin + splitShift mt lvl)) :
    ∃ st', sequenceSplitAt st group item lvl orderMin orderMin mt 0 = some st' ∧
      SequenceExact st st' group item lvl orderMin orderMin mt 0 := by
  have hrun : sequenceSplitAt st group item lvl orderMin orderMin mt 0 =
      some (st.modFlags item fun flags =>
        setItemDim (setItemFreeidx (setItemSection (setItemNode (setItemOrder (setItemPresent flags)
          orderMin) (st.nodeOf group).nodeId) lvl) (2 ^ functionItem groupOrderNumShift))
          (st.nodeOf group).dim) := by
    have hzero : intOf (BitVec.ofNat 64 0) = 0 := rfl
    unfold sequenceSplitAt sequenceSplitGroupMigration
    rw [Nat.sub_self, sequenceSplitLoop, hzero]
    simp only [Option.bind_eq_bind, Option.bind_some, itemBy_zero]
    rfl
  have hoff := (hfree item (Nat.le_refl _) (Nat.lt_add_of_pos_right (Nat.two_pow_pos _))).2
  rw [maxItemOrder_eq] at hmax
  refine ⟨_, hrun, fun _ => item, ⟨fun k h1 h2 => by omega, fun h _ => ⟨rfl, rfl⟩⟩,
    fun k h1 h2 => by omega, ?_, ?_, fun j hj => ?_, ?_, ?_⟩
  · simp [ItemField.offset]
  · simp [ItemField.offset, Nat.mod_eq_of_lt (show orderMin < 16 by omega)]
  · rw [State.modFlags_items, if_neg (by simpa using hj)]
    exact id
  · rw [Nat.add_zero, State.modFlags_items, if_pos rfl]
    exact hoff
  · show Tiles (_ ::ₘ _) _
    rw [Finset.Ico_self, Finset.sum_empty, Multiset.cons_zero]
    exact tiles_self _

/-- **A block that is split is never carved right**: the mark is put as far beyond the target as the block
    walked. -/
theorem not_sequenceExact (hlt : orderMin < orderMax)
    (hfree : FreeWhole st item (orderMax + splitShift mt lvl))
    (hd : 2 ^ (orderMin + splitShift mt lvl) ∣ d) (hin : d < 2 ^ (orderMax + splitShift mt lvl))
    {st' : State} (h : sequenceSplitAt st group item lvl orderMin orderMax mt d = some st') :
    ¬ SequenceExact st st' group item lvl orderMin orderMax mt d := by
  rintro ⟨free, -, -, hpresent, -, -, hoff, -⟩
  obtain ⟨⟨item', st₁⟩, hloop, h⟩ := Option.bind_eq_some_iff.mp h
  obtain ⟨marked, hmarked, h⟩ := Option.bind_eq_some_iff.mp h
  obtain rfl := Option.some.inj h
  obtain ⟨hwalk, hitems⟩ := sequenceSplitLoop_spec hloop
  -- the target is marked by the last writes, if at all
  have hat : item + d = marked := by
    by_contra hne
    rw [State.modFlags_items, if_neg hne] at hpresent
    have hst := ((hitems (item + d)).1 hpresent)
    rw [(hfree (item + d) (Nat.le_add_right _ _) (Nat.add_lt_add_left hin _)).1] at hst
    cases hst
  have hdist : (item : Int) + d = marked := by
    rw [← hat]
    exact (Int.natCast_add item d).symm
  obtain ⟨q, hq, hlow, hhigh⟩ := intOf_ofNat d
  have hmark : (marked : Int) = item' + intOf (BitVec.ofNat 64 d) := itemBy_some hmarked
  obtain ⟨hsum1, hsum2⟩ := @splitSum_lt mt lvl orderMin (orderMax - orderMin)
  -- what the block walked is a multiple of `2 ^ 32`, and less
  have hzero : splitSum mt lvl orderMin (orderMax - orderMin) = 0 := by omega
  have hwide := (splitSum_eq_zero (Nat.sub_pos_of_lt hlt)).mp hzero
  obtain ⟨c, rfl⟩ := Nat.dvd_trans (Nat.pow_dvd_pow 2 hwide) hd
  have hd0 : 2 ^ 32 * c = 0 := by omega
  have hstays := sequenceSplitLoop_stays (Nat.sub_pos_of_lt hlt) hwide hloop
  rw [hd0, Nat.add_zero, modFlags_onList] at hoff
  exact hstays hoff

end Carving

/-- **The carving is right exactly where there is nothing to carve.** -/
theorem sequence_split_exact_iff {st : State} {group : Group} {item : Item}
    {lvl orderMin orderMax d : Nat} {mt : MigrationType} (hle : orderMin ≤ orderMax)
    (hmax : orderMax ≤ maxItemOrder) (hfree : FreeWhole st item (orderMax + splitShift mt lvl))
    (hd : 2 ^ (orderMin + splitShift mt lvl) ∣ d) (hin : d < 2 ^ (orderMax + splitShift mt lvl)) :
    (∃ st', sequenceSplitAt st group item lvl orderMin orderMax mt d = some st' ∧
      SequenceExact st st' group item lvl orderMin orderMax mt d) ↔ orderMin = orderMax := by
  constructor
  · rintro ⟨st', hrun, hexact⟩
    by_contra hne
    exact not_sequenceExact (Nat.lt_of_le_of_ne hle hne) hfree hd hin hrun hexact
  · rintro rfl
    obtain rfl : d = 0 := Nat.eq_zero_of_dvd_of_lt hd hin
    exact sequenceExact_whole hmax hfree

theorem zeroed_freeWhole (item : Item) (log : Nat) : FreeWhole zeroed item log :=
  fun _ _ _ => ⟨(by decide : itemIsPresent 0#64 = false), rfl⟩

/-- A MOVABLE block of order 3, taken whole. -/
theorem sequence_split_whole : ∃ st', sequenceSplitAt zeroed (.phy 0 3) 0 3 3 3 .movable 0 = some st' ∧
    SequenceExact zeroed st' (.phy 0 3) 0 3 3 3 .movable 0 :=
  (sequence_split_exact_iff (Nat.le_refl 3) (by decide) (zeroed_freeWhole 0 _) (Nat.dvd_zero _)
    (by decide)).mpr rfl

/-- The lower half of a block of order 1 is asked for: the upper one is marked, and listed. -/
theorem sequence_split_marks_listed :
    (∃ st', sequenceSplitAt zeroed (.phy 0 3) 0 3 0 1 .movable 0 = some st' ∧
      itemIsPresent (st'.items 0).flags = false ∧ itemIsPresent (st'.items 1).flags = true ∧
      st'.lists (.groupCell (.phy 0 3) .movable 0) = [1]) ∧
    ¬ ∃ st', sequenceSplitAt zeroed (.phy 0 3) 0 3 0 1 .movable 0 = some st' ∧
      SequenceExact zeroed st' (.phy 0 3) 0 3 0 1 .movable 0 := by
  refine ⟨⟨_, rfl, by decide +kernel, by decide +kernel, by decide +kernel⟩, ?_⟩
  rintro ⟨st', hrun, hexact⟩
  exact not_sequenceExact (by decide) (zeroed_freeWhole 0 _) (Nat.dvd_zero _) (by decide) hrun hexact

end TensorAlloc
