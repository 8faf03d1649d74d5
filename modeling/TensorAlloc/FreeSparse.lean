/-
  File:      TensorAlloc/FreeSparse.lean
  Subject:   Allocating from a sparse group and freeing again.

  * `SparseState` -- the group: its free blocks by their heads, and no two free buddies left apart
    below the cap;
  * `Regathered` -- the invariant of the merge that undoes a split: at order `j` the halves below `j`
    are back, those from `j` on are still on their lists;
  * `Around` -- a merge stays around the item it started from;
  * **`sparse_alloc_free`** -- as written the free does not return; with the list as the list it ends
    with the free blocks and counts as they were exactly where the item taken was no table.
-/
import TensorAlloc.Base.DyadicBlocks
import TensorAlloc.Free

namespace TensorAlloc

open DyadicBlocks

/-! ## 1. The group -/

/-- The descriptor from which the indices of the group's items count: the start of
    `phy_item_struct` at the node number their five-bit field holds. -/
def sparseOrigin (st : State) (group : Group) : Item :=
  st.tables.phyItemStruct ((st.nodeOf group).nodeId % 2 ^ ItemField.node.offset)

/-- The order from which merging stops: 7 on level 0, 8 elsewhere. -/
def sparseCap (lvl : Nat) : Nat := if lvl = 0 then maxItemOrder - 1 else maxItemOrder

/-- `item_is_present` of a descriptor, as a number. -/
def presentBit (st : State) (i : Item) : Nat := field .present (st.items i).flags

/-- A sparse group:

    * `head` -- a linked item that is not present heads an aligned free block of its list's order (the
      other linked items are tables);
    * `interior` -- inside a free block no descriptor is linked;
    * `heads` -- in the array of a free block every linked descriptor that is not present is on a
      list of the group;
    * `coalesced` -- no two free buddies of one order below the cap. -/
structure SparseState (st : State) (group : Group) (lvl : Nat) : Prop where
  linked : st.Linked
  head : ∀ k, ∀ i ∈ st.lists (.groupCell group .movable k), presentBit st i = 0 →
    sparseOrigin st group ≤ i ∧ 2 ^ k ∣ i - sparseOrigin st group ∧
      getItemOrder (st.items i).flags = k
  interior : ∀ k, ∀ i ∈ st.lists (.groupCell group .movable k), presentBit st i = 0 →
    ∀ d, 0 < d → d < 2 ^ k → (st.items (i + d)).onList = none
  heads : ∀ k, ∀ i ∈ st.lists (.groupCell group .movable k), presentBit st i = 0 →
    ∀ y, (i - sparseOrigin st group) / 2 ^ functionItem groupRangeNumShift =
        y / 2 ^ functionItem groupRangeNumShift →
      (st.items (sparseOrigin st group + y)).onList.isSome →
      presentBit st (sparseOrigin st group + y) = 0 →
      ∃ k', sparseOrigin st group + y ∈ st.lists (.groupCell group .movable k')
  coalesced : ∀ k < sparseCap lvl, ∀ i ∈ st.lists (.groupCell group .movable k),
    presentBit st i = 0 →
    ¬ (sparseOrigin st group + ((i - sparseOrigin st group) ^^^ 2 ^ k) ∈
        st.lists (.groupCell group .movable k) ∧
      presentBit st (sparseOrigin st group + ((i - sparseOrigin st group) ^^^ 2 ^ k)) = 0)

/-- A free block: its head, on the list of its order. -/
def FreeAt (st : State) (group : Group) (k : Nat) (i : Item) : Prop :=
  i ∈ st.lists (.groupCell group .movable k) ∧ presentBit st i = 0

/-- The same free blocks and the same counts. -/
structure SameFree (st st' : State) (group : Group) : Prop where
  free : ∀ k i, FreeAt st' group k i ↔ FreeAt st group k i
  counts : ∀ k, st'.counts (.groupCell group .movable k) = st.counts (.groupCell group .movable k)

/-- The same free blocks and tables on every list, and the same counts. -/
structure SameLists (st st' : State) (group : Group) : Prop where
  lists : ∀ k, (st'.lists (.groupCell group .movable k)).Perm (st.lists (.groupCell group .movable k))
  present : ∀ k, ∀ i ∈ st.lists (.groupCell group .movable k), presentBit st' i = presentBit st i
  counts : ∀ k, st'.counts (.groupCell group .movable k) = st.counts (.groupCell group .movable k)

theorem SameLists.sameFree {st st' : State} {group : Group} (h : SameLists st st' group) :
    SameFree st st' group := by
  refine ⟨fun k i => ?_, h.counts⟩
  unfold FreeAt
  rw [(h.lists k).mem_iff]
  exact and_congr_right fun hi => by rw [h.present k i hi]

/-! ## 2. The split undone -/

theorem splitPieces_bot (group : Group) (x : Item) (lvl j n : Nat) (h : ListHead) :
    splitPieces group x lvl j .movable (n + 1) h =
      (if h = .groupCell group .movable j then [halfAt .movable lvl x j] else []) ++
        splitPieces group x lvl (j + 1) .movable n h := by
  cases h with
  | groupCell g t k =>
      simp only [splitPieces, ListHead.groupCell.injEq]
      by_cases hg : g = group ∧ t = .movable
      · obtain ⟨rfl, rfl⟩ := hg
        by_cases hk : k = j
        · subst hk
          simp
        · have : j ≤ k ∧ k < j + (n + 1) ↔ j + 1 ≤ k ∧ k < j + 1 + n := by omega
          simp [hk, this]
      · have h1 : ¬ (g = group ∧ t = .movable ∧ j ≤ k ∧ k < j + (n + 1)) := fun h => hg ⟨h.1, h.2.1⟩
        have h2 : ¬ (g = group ∧ t = .movable ∧ j + 1 ≤ k ∧ k < j + 1 + n) :=
          fun h => hg ⟨h.1, h.2.1⟩
        have h3 : ¬ (g = group ∧ t = .movable ∧ k = j) := fun h => hg ⟨h.1, h.2.1⟩
        rw [if_neg h1, if_neg h2, if_neg h3, List.append_nil]
  | _ => simp [splitPieces]

/-- A half as the split leaves it passes both tests of the merge. -/
theorem putBack_buddy (group : Group) (nodeId lvl : Nat) {k : Nat} (hk : k ≤ maxItemOrder)
    (x : ItemStruct) :
    itemIsBuddy (putBack group .movable nodeId lvl k x) k = true ∧
      buddyIsValid .movable (putBack group .movable nodeId lvl k x) = true := by
  simp only [maxItemOrder_eq] at hk
  constructor
  · simp [itemIsBuddy, putBack, ItemField.offset, Nat.mod_eq_of_lt (show k < 16 by omega)]
  · simp [buddyIsValid, putBack, itemStateToMigration, itemStates]

/-- What the free keeps while it takes the halves back: `x` was allocated at order `ord0` from the
    list of order `oi`, in the state `st`. -/
structure Regathered (st : State) (group : Group) (x : Item) (lvl ord0 oi : Nat) (st1 : State)
    (v : MergeVars) : Prop where
  item : v.item = x
  idx : v.idx = x - sparseOrigin st group
  orderIndex : v.orderIndex = v.order
  ge : ord0 ≤ v.order
  le : v.order ≤ oi
  lists : ∀ h, st1.lists h = splitPieces group x lvl v.order .movable (oi - v.order) h ++
    if h = .groupCell group .movable oi then (st.lists h).erase x else st.lists h
  counts : ∀ h, st1.counts h = (st.counts h - if h = .groupCell group .movable oi then 1 else 0) +
    BitVec.ofNat 64 (splitPieces group x lvl v.order .movable (oi - v.order) h).length
  whole : partlyFree (st1.items x) = false
  pieces : ∀ k, v.order ≤ k → k < oi → st1.items (x + 2 ^ k) =
    putBack group .movable (st.nodeOf group).nodeId lvl k (st.items (x + 2 ^ k))
  others : ∀ i, i ≠ x → (∀ k, ord0 ≤ k → k < oi → i ≠ x + 2 ^ k) → st1.items i = st.items i

section Sparse

variable {st st1 : State} {group : Group} {x : Item} {lvl ord0 oi : Nat} {v : MergeVars}

theorem two_pow_ne {j k : Nat} (h : j ≠ k) (x : Nat) : x + 2 ^ j ≠ x + 2 ^ k :=
  fun e => h (Nat.pow_right_injective (Nat.le_refl 2) (Nat.add_left_cancel e))

theorem add_two_pow_ne (k x : Nat) : x + 2 ^ k ≠ x := by
  have := Nat.two_pow_pos k
  omega

/-- **Step: below the order it was split from, the merge takes the next half back.** -/
theorem Regathered.step (hR : Regathered st group x lvl ord0 oi st1 v) (top : Bool)
    (hoi : oi < maxItemOrder)
    (ha : 2 ^ oi ∣ x - sparseOrigin st group) (hlt : v.order < oi) :
    ∃ st2 v2, mergeStep group .movable maxItemOrder top st1 v = some (st2, v2, none) ∧
      v2.order = v.order + 1 ∧ Regathered st group x lvl ord0 oi st2 v2 := by
  simp only [maxItemOrder_eq] at hoi ⊢
  obtain ⟨hup, hpair⟩ := lower_buddy hlt ha
  have hpage : v.item + nextBuddyIdx v.idx v.orderIndex - v.idx = x + 2 ^ v.order := by
    rw [hR.item, hR.orderIndex, hR.idx, nextBuddyIdx, hup, ← Nat.add_assoc, Nat.add_right_comm]
    exact Nat.add_sub_cancel _ _
  have hcomb : combinedItem v (nextBuddyIdx v.idx v.orderIndex) = x := by
    rw [combinedItem, hR.item, hR.orderIndex, hR.idx, nextBuddyIdx, hpair]
    exact Nat.add_sub_cancel _ _
  have hne : x + 2 ^ v.order ≠ x := add_two_pow_ne v.order x
  have hbuddy := putBack_buddy group (st.nodeOf group).nodeId lvl
    (show v.order ≤ maxItemOrder by simp only [maxItemOrder_eq]; omega) (st.items (x + 2 ^ v.order))
  obtain ⟨⟨st2, v2, e⟩, hs⟩ := mergeStep_total group .movable 8 top st1 v
  have hsub : orderSub 8 1 = 7 := rfl
  have hpst : (st1.modFlags v.item clearItemPresent).items (x + 2 ^ v.order) =
      putBack group .movable (st.nodeOf group).nodeId lvl v.order (st.items (x + 2 ^ v.order)) := by
    rw [State.modFlags_items, hR.item, if_neg hne]
    exact hR.pieces v.order (Nat.le_refl _) hlt
  rcases mergeStep_cases hs with ⟨h1, -⟩ | ⟨-, rfl, -, -, h1⟩ | ⟨-, -, rfl, -, -, h1⟩ |
    ⟨-, -, -, rfl, -, -, -, hm⟩
  · omega
  · exfalso
    rcases h1 with h1 | ⟨-, h1⟩ | h1
    · cases h1
    · omega
    · rw [partlyFree_clearPresent, hR.item, hR.whole] at h1
      cases h1
  · rw [hpage, hpst] at h1
    exact absurd hbuddy h1
  · have hitems : ∀ i, i ≠ x + 2 ^ v.order → i ≠ x → st2.items i = st1.items i := by
      intro i h1 h2
      rw [mergeBuddy_others hm i (by rw [hpage]; exact h1) (by rw [hR.item]; exact h2),
        State.modFlags_items, hR.item, if_neg h2]
    rw [hpage] at hm
    obtain ⟨l, hl, hlists⟩ := mergeBuddy_lists hm
    have hcell : l = .groupCell group .movable v.order := by
      rw [hpst] at hl
      exact (Option.some.inj hl).symm
    subst hcell
    have hcounts := mergeBuddy_counts hm
    have hfree := (mergeBuddy_freeidx hm (by rw [hR.item]; exact hne)).2 (by rw [hcomb, hR.item])
    obtain ⟨-, -, rfl, -⟩ := mergeBuddy_eq hm
    have hn : oi - v.order = oi - (v.order + 1) + 1 := by omega
    have hge := hR.ge
    refine ⟨st2, _, hs, rfl, hcomb, ?_, ?_, Nat.le_succ_of_le hge, hlt, fun h => ?_, fun h => ?_,
      ?_,
      fun k h1 h2 => ?_, fun i h1 h2 => ?_⟩
    · show nextBuddyIdx v.idx v.orderIndex &&& v.idx = _
      rw [hR.orderIndex, hR.idx]
      exact hpair
    · show v.orderIndex + 1 = v.order + 1
      rw [hR.orderIndex]
    · show st2.lists h = splitPieces group x lvl (v.order + 1) .movable (oi - (v.order + 1)) h ++ _
      rw [hlists, State.modFlags_lists, hR.lists, hR.lists, hn, splitPieces_bot, splitPieces_bot,
        halfAt_movable (by simp only [maxItemOrder_eq]; omega)]
      by_cases hh : h = .groupCell group .movable v.order
      · rw [if_pos hh, if_pos rfl, List.singleton_append, List.cons_append, List.erase_cons_head,
          hh]
      · rw [if_neg hh, if_neg hh, List.nil_append]
    · show st2.counts h = _ +
        BitVec.ofNat 64 (splitPieces group x lvl (v.order + 1) .movable (oi - (v.order + 1)) h).length
      rw [hcounts, State.modFlags_counts, hR.counts, hn, splitPieces_bot]
      by_cases hh : h = .groupCell group .movable v.order
      · rw [if_pos hh, if_pos hh, List.singleton_append, List.length_cons, BitVec.ofNat_add,
          show BitVec.ofNat 64 1 = 1 from rfl]
        ring
      · rw [if_neg hh, if_neg hh, List.nil_append, sub_zero]
    · rw [hcomb] at hfree
      unfold partlyFree getItemFreeidx
      rw [hfree]
      rfl
    · have h1' : v.order + 1 ≤ k := h1
      rw [hitems _ (two_pow_ne (by omega) x) (add_two_pow_ne k x)]
      exact hR.pieces k (by omega) h2
    · rw [hitems i (h2 v.order hge hlt) h1]
      exact hR.others i h1 h2

/-- Run: the merge reaches the order the block was split from. -/
theorem Regathered.run (top : Bool) (hoi : oi < maxItemOrder)
    (ha : 2 ^ oi ∣ x - sparseOrigin st group) {n m : Nat}
    (hR : Regathered st group x lvl ord0 oi st1 v) (hn : oi = v.order + n) :
    ∃ st2 v2, Regathered st group x lvl ord0 oi st2 v2 ∧ v2.order = oi ∧
      mergeLoop group .movable maxItemOrder top (n + m) st1 v =
        mergeLoop group .movable maxItemOrder top m st2 v2 := by
  induction n generalizing st1 v with
  | zero => exact ⟨st1, v, hR, hn.symm, by rw [Nat.zero_add]⟩
  | succ n ih =>
      obtain ⟨st2, v2, hs, ho, hR2⟩ := hR.step top hoi ha (by omega)
      obtain ⟨st3, v3, hR3, ho3, hrun⟩ := ih hR2 (by omega)
      refine ⟨st3, v3, hR3, ho3, ?_⟩
      rw [show n + 1 + m = n + m + 1 by omega, mergeLoop, hs]
      exact hrun

/-- The split leaves what the merge starts from. -/
theorem Regathered.start (hlt : ord0 ≤ oi) (hcap : oi ≤ maxItemOrder) {v : MergeVars} (hi : v.item = x)
    (hx : v.idx = x - sparseOrigin st group) (ho : v.order = ord0) (hoi : v.orderIndex = v.order) :
    Regathered st group x lvl ord0 oi
      (splitGroupMigration (st.takeOff (.groupCell group .movable oi) x) group x lvl ord0 oi .movable)
      v := by
  have hoff : ∀ i, i ≠ x → (st.takeOff (.groupCell group .movable oi) x).items i = st.items i := by
    intro i hne
    simp [State.takeOff, hne]
  have hsplit : ∀ i, i ≠ x →
      (splitGroupMigration (st.takeOff (.groupCell group .movable oi) x) group x lvl ord0 oi
        .movable).items i = (splitLoop group x lvl ord0 .movable (oi - ord0)
          (st.takeOff (.groupCell group .movable oi) x)).items i := by
    intro i hne
    rw [splitGroupMigration, State.modFlags_items, if_neg hne]
  refine ⟨hi, hx, hoi, ho.ge, ho.le.trans hlt, fun h => ?_, fun h => ?_, ?_, fun k h1 h2 => ?_,
    fun i h1 h2 => ?_⟩
  · rw [remove_lists, ho]
  · rw [ho]
    simp only [splitGroupMigration, State.modFlags_counts, splitLoop_counts, State.takeOff,
      State.countDec_counts, State.modItem_counts, State.setList_counts]
    congr 1
    split
    · next e => rw [e]
    · exact (sub_zero _).symm
  · unfold partlyFree
    simp [splitGroupMigration, ItemField.offset]
  · obtain ⟨k, rfl⟩ := Nat.exists_eq_add_of_le (ho ▸ h1)
    have hhalf : ∀ k, k < oi - ord0 → halfAt .movable lvl x (ord0 + k) = x + 2 ^ (ord0 + k) :=
      fun k hk => halfAt_movable (by omega) x
    have hat := splitLoop_items_at group x lvl ord0 .movable (show k < oi - ord0 by omega)
      (fun k' hk' hne => by
        rw [hhalf k' hk', hhalf k (by omega)]
        exact two_pow_ne (by omega) x)
      (st.takeOff (.groupCell group .movable oi) x)
    rw [hhalf k (by omega)] at hat
    rw [hsplit _ (add_two_pow_ne _ x), hat, hoff _ (add_two_pow_ne _ x)]
    rfl
  · rw [hsplit i h1, splitLoop_items_other, hoff i h1]
    intro k hk
    rw [halfAt_movable (by omega)]
    exact h2 (ord0 + k) (Nat.le_add_right _ _) (by omega)

/-- A buddy within the array has the array's number. -/
theorem buddy_div {X k : Nat} (hk : k < 9) : (X ^^^ 2 ^ k) / 2 ^ 9 = X / 2 ^ 9 := by
  have hz : 2 ^ k / 2 ^ 9 = 0 := Nat.div_eq_of_lt (Nat.pow_lt_pow_right (by decide) hk)
  rw [← Nat.shiftRight_eq_div_pow, Nat.shiftRight_xor_distrib, Nat.shiftRight_eq_div_pow,
    Nat.shiftRight_eq_div_pow, hz, Nat.xor_zero]

/-- **At the order it was split from the block meets no free buddy**: the group was coalesced. -/
theorem Regathered.leave (hS : SparseState st group lvl)
    (hx : x ∈ st.lists (.groupCell group .movable oi)) (hp : presentBit st x = 0)
    (hoi : oi < maxItemOrder) (hR : Regathered st group x lvl ord0 oi st1 v) (ho : v.order = oi) :
    ∃ v2 exit, mergeStep group .movable maxItemOrder (decide ((lvl : Int) = 0)) st1 v =
        some (st1.modFlags x clearItemPresent, v2, some exit) ∧ v2.item = x ∧ v2.order = oi ∧
      (exit = .done → v2.buddy.isSome = true) := by
  obtain ⟨hbase, halign, -⟩ := hS.head oi x hx hp
  obtain ⟨X, rfl⟩ := Nat.exists_eq_add_of_le hbase
  have hX : sparseOrigin st group + X - sparseOrigin st group = X := Nat.add_sub_cancel_left _ _
  rw [hX] at halign
  simp only [maxItemOrder_eq] at hoi ⊢
  have hsub : orderSub 8 1 = 7 := rfl
  obtain ⟨⟨st2, v2, e⟩, hs⟩ :=
    mergeStep_total group .movable 8 (decide ((lvl : Int) = 0)) st1 v
  rw [hs]
  rcases mergeStep_cases hs with ⟨h1, -⟩ | ⟨-, rfl, rfl, rfl, -⟩ | ⟨-, -, rfl, rfl, rfl, -⟩ |
    ⟨-, -, htop, rfl, -, hb, hv, -⟩
  · omega
  · rw [hR.item]
    exact ⟨_, _, rfl, hR.item, ho, fun hc => by cases hc⟩
  · rw [hR.item]
    exact ⟨_, _, rfl, rfl, ho, fun _ => rfl⟩
  · exfalso
    have hnot := buddy_start_not_mem halign
    have hpage : v.item + nextBuddyIdx v.idx v.orderIndex - v.idx =
        sparseOrigin st group + (X ^^^ 2 ^ oi) := by
      rw [hR.item, hR.orderIndex, hR.idx, ho, hX, nextBuddyIdx]
      exact shift_page _ _ _
    have hitem : (st1.modFlags v.item clearItemPresent).items
        (sparseOrigin st group + (X ^^^ 2 ^ oi)) =
          st.items (sparseOrigin st group + (X ^^^ 2 ^ oi)) := by
      have hne : sparseOrigin st group + (X ^^^ 2 ^ oi) ≠ sparseOrigin st group + X := by
        intro h
        rw [Nat.add_left_cancel h] at hnot
        exact hnot (start_mem ⟨X, oi⟩)
      rw [State.modFlags_items, hR.item, if_neg hne]
      refine hR.others _ hne fun k _ hk h => ?_
      rw [Nat.add_assoc] at h
      rw [Nat.add_left_cancel h, mem_mk] at hnot
      have := Nat.two_pow_pos k
      have := Nat.pow_lt_pow_right (show 1 < 2 by decide) hk
      omega
    rw [hpage, hitem] at hb hv
    simp only [itemIsBuddy, itemIsPresent_eq, Bool.and_eq_true, Bool.not_eq_true',
      decide_eq_false_iff_not, ne_eq, not_not, decide_eq_true_eq] at hb
    simp only [buddyIsValid, Bool.and_eq_true] at hv
    obtain ⟨k', hk'⟩ := hS.heads oi _ hx hp (X ^^^ 2 ^ oi)
      (by rw [hX]; exact (buddy_div (by omega)).symm) hv.1 hb.1
    obtain ⟨-, -, hord⟩ := hS.head k' _ hk' hb.1
    have hkk : k' = oi := by
      have := hb.2
      omega
    subst hkk
    have hcap : k' < sparseCap lvl := by
      unfold sparseCap
      simp only [maxItemOrder_eq]
      split
      · next h0 =>
          have : k' ≠ 7 := fun e => htop ⟨by simp [h0], by omega⟩
          omega
      · omega
    refine hS.coalesced k' hcap _ hx hp ?_
    rw [hX]
    exact ⟨hk', hb.1⟩

/-- What is freed is what was split off, at its order. -/
theorem Regathered.taken (hL : st.Linked) {order : Nat} {isTable : Bool} {st' : State}
    (h : removeGroupMigration st group lvl order .sparseMovable isTable = some (st', some x)) :
    ∃ oi, order ≤ oi ∧ oi < maxItemOrder ∧ x ∈ st.lists (.groupCell group .movable oi) ∧
      Regathered st group x lvl order oi st' ⟨x, x - sparseOrigin st group, order, order, none⟩ ∧
      getItemNode (st'.items x).flags = (st.nodeOf group).nodeId % 2 ^ ItemField.node.offset ∧
      st'.tables = st.tables := by
  obtain ⟨m, oi, hm, h1, h2, h3, -, rfl⟩ := removeGroupMigration_some hL h
  have hoi : oi < maxItemOrder := by
    simp only [maxOrderOf, if_true, Option.some.injEq, functionItem_range] at hm
    simp only [maxItemOrder_eq]
    omega
  refine ⟨oi, h1, hoi, searchList_mem h3, Regathered.start h1 (Nat.le_of_lt hoi) rfl rfl rfl rfl, ?_, ?_⟩
  · simp [splitGroupMigration]
    rfl
  · simp [splitGroupMigration, State.takeOff]

/-- **The merge gathers the block and leaves**, at the order it was split from. -/
theorem Regathered.mergeLoop (hS : SparseState st group lvl)
    (hx : x ∈ st.lists (.groupCell group .movable oi)) (hp : presentBit st x = 0)
    (hoi : oi < maxItemOrder) (hR : Regathered st group x lvl ord0 oi st1 v)
    (hle : v.order ≤ oi) :
    ∃ st2 v2 v3 exit, Regathered st group x lvl ord0 oi st2 v2 ∧ v2.order = oi ∧
      mergeLoop group .movable maxItemOrder (decide ((lvl : Int) = 0)) mergeBound st1 v =
        some (st2.modFlags x clearItemPresent, v3, exit) ∧ v3.item = x ∧ v3.order = oi ∧
      (exit = .done → v3.buddy.isSome = true) := by
  obtain ⟨-, halign, -⟩ := hS.head oi x hx hp
  obtain ⟨st2, v2, hR2, ho2, hrun⟩ := hR.run (decide ((lvl : Int) = 0)) hoi halign
    (n := oi - v.order) (m := mergeBound - (oi - v.order)) (Nat.add_sub_cancel' hle).symm
  obtain ⟨v3, exit, hstep, hi3, ho3, hdone⟩ := hR2.leave hS hx hp hoi ho2
  refine ⟨st2, v2, v3, exit, hR2, ho2, ?_, hi3, ho3, hdone⟩
  have hb : mergeBound = oi - v.order + (mergeBound - (oi - v.order)) := by
    show 65 = oi - v.order + (65 - (oi - v.order))
    simp only [maxItemOrder_eq] at hoi
    omega
  have hb' : mergeBound - (oi - v.order) = (64 - (oi - v.order)) + 1 := by
    show 65 - (oi - v.order) = _
    simp only [maxItemOrder_eq] at hoi
    omega
  rw [hb, hrun, hb', TensorAlloc.mergeLoop, hstep]

/-- The gathered block back on its list is the group as it was. -/
theorem Regathered.sameLists (hS : SparseState st group lvl)
    (hx : x ∈ st.lists (.groupCell group .movable oi)) (hp : presentBit st x = 0)
    (hR : Regathered st group x lvl ord0 oi st1 v) (ho : v.order = oi) {v' : MergeVars}
    (hi' : v'.item = x) (ho' : v'.order = oi) {tail : Bool} {st3 : State}
    (h3 : insertFreed .listFirst group .movable lvl tail (st1.modFlags x clearItemPresent) v' =
      some st3) : SameLists st st3 group := by
  have hl0 : ∀ h, splitPieces group x lvl v.order .movable (oi - v.order) h = [] := by
    intro h
    rw [ho, Nat.sub_self]
    cases h <;> simp only [splitPieces]
    rw [if_neg (by omega)]
  have hlists := insertFreed_lists h3
  have hcounts := insertFreed_counts h3
  obtain ⟨hitems, hpres⟩ := insertFreed_items h3
  rw [ho', hi'] at hlists
  rw [ho'] at hcounts
  rw [hi'] at hitems hpres
  refine ⟨fun k => (hlists _).trans ?_, fun k i hi => ?_, fun k => ?_⟩
  · rw [State.modFlags_lists, hR.lists, hl0, List.nil_append]
    split
    · next e =>
        rw [e]
        exact (List.perm_cons_erase hx).symm
    · exact List.Perm.refl _
  · unfold presentBit
    by_cases hix : i = x
    · subst hix
      rw [hpres]
      exact (show field .present _ = 0 by simp).trans hp.symm
    · rw [hitems i hix, State.modFlags_items, if_neg hix, hR.others i hix]
      intro j _ hj e
      subst e
      have hlink := (hS.linked.mem _ _).mpr hi
      rw [hS.interior oi x hx hp (2 ^ j) (Nat.two_pow_pos j)
        (Nat.pow_lt_pow_right (by decide) hj)] at hlink
      cases hlink
  · rw [hcounts, State.modFlags_counts, hR.counts, hl0, List.length_nil]
    split
    · show _ - 1 + BitVec.ofNat 64 0 + 1 = _
      rw [show BitVec.ofNat 64 0 = 0 from rfl]
      ring
    · show _ - 0 + BitVec.ofNat 64 0 + 0 = _
      rw [show BitVec.ofNat 64 0 = 0 from rfl]
      ring

end Sparse

/-! ## 3. A table taken for a block -/

/-- The block that the merge is at: it has the item it started from in it, and is not present once the
    loop cannot clear the flag any more. -/
structure Around (base x : Item) (st : State) (v : MergeVars) : Prop where
  item : v.item = base + v.idx
  index : v.orderIndex = v.order
  le : v.item ≤ x
  lt : x < v.item + 2 ^ v.order
  present : orderSub maxItemOrder 1 < v.order → presentBit st v.item = 0

section Taken

variable {st st1 st' : State} {group : Group} {x base : Item} {lvl order : Nat} {v v' : MergeVars}
  {top : Bool}

theorem clearPresent_bit (st : State) (i : Item) : presentBit (st.modFlags i clearItemPresent) i = 0 := by
  simp [presentBit]

/-- Step: the pair starts at the item or its buddy, at most a block below. -/
theorem Around.step (h : Around base x st v)
    (hs : mergeStep group .movable maxItemOrder top st v = some (st', v', none)) :
    Around base x st' v' := by
  rcases mergeStep_cases hs with ⟨-, -, -, he⟩ | ⟨-, -, -, he, -⟩ | ⟨-, -, -, he, -⟩ |
    ⟨-, -, -, -, -, hb, -, hm⟩
  · cases he
  · cases he
  · cases he
  · have hbit := mergeBuddy_present hm (combinedItem v (nextBuddyIdx v.idx v.orderIndex))
    have hpage : v.item + nextBuddyIdx v.idx v.orderIndex - v.idx =
        base + nextBuddyIdx v.idx v.orderIndex := by
      rw [h.item]
      exact shift_page _ _ _
    have hat : combinedItem v (nextBuddyIdx v.idx v.orderIndex) =
        base + (nextBuddyIdx v.idx v.orderIndex &&& v.idx) := by
      unfold combinedItem
      rw [h.item]
      exact shift_page _ _ _
    -- neither the item, cleared, nor the buddy is present
    have habsent : presentBit (st.modFlags v.item clearItemPresent)
        (combinedItem v (nextBuddyIdx v.idx v.orderIndex)) = 0 := by
      rcases combinedItem_cases v v.orderIndex with e | e
      · rw [e]
        exact clearPresent_bit st v.item
      · rw [e]
        simp only [itemIsBuddy, itemIsPresent_eq, Bool.and_eq_true, Bool.not_eq_true',
          decide_eq_false_iff_not, ne_eq, not_not] at hb
        exact hb.1
    obtain ⟨-, -, rfl, -⟩ := mergeBuddy_eq hm
    have hle := h.le
    have hlt := h.lt
    rw [h.item] at hle hlt
    have hpow : 2 ^ (v.order + 1) = 2 ^ v.order + 2 ^ v.order := by rw [Nat.pow_succ, Nat.mul_two]
    have hand : nextBuddyIdx v.idx v.orderIndex &&& v.idx ≤ v.idx := Nat.and_le_right
    have hback : v.idx ≤ (nextBuddyIdx v.idx v.orderIndex &&& v.idx) + 2 ^ v.order := by
      unfold nextBuddyIdx
      rcases xor_land_cases v.idx v.orderIndex with e | e
      · rw [e]
        exact Nat.le_add_right _ _
      · rw [e, h.index]
        exact le_xor_two_pow _ _
    refine ⟨hat, congrArg (· + 1) h.index, ?_, ?_, fun _ => hbit.trans habsent⟩
    · rw [hat]
      exact Nat.le_trans (Nat.add_le_add_left hand _) hle
    · rw [hat, hpow]
      calc x < base + v.idx + 2 ^ v.order := hlt
        _ ≤ base + ((nextBuddyIdx v.idx v.orderIndex &&& v.idx) + 2 ^ v.order) + 2 ^ v.order :=
            Nat.add_le_add_right (Nat.add_le_add_left hback _) _
        _ = _ := by rw [← Nat.add_assoc, Nat.add_assoc]

/-- Run: where the loop leaves, the block is around the item and not present. -/
theorem Around.run {n : Nat} {exit : MergeExit} (h : Around base x st v)
    (hl : mergeLoop group .movable maxItemOrder top n st v = some (st', v', exit)) :
    v'.item ≤ x ∧ x < v'.item + 2 ^ v'.order ∧ presentBit st' v'.item = 0 := by
  refine mergeLoop_rule (Around base x) (fun st v _ => v.item ≤ x ∧ x < v.item + 2 ^ v.order ∧
    presentBit st v.item = 0) (fun h hs => h.step hs) (fun {st v st' v' exit} h hs => ?_) hl h
  rcases mergeStep_cases hs with ⟨hlt, rfl, rfl, -⟩ | ⟨-, rfl, rfl, -⟩ | ⟨-, -, rfl, -, rfl, -⟩ |
    ⟨-, -, -, he, -⟩
  · exact ⟨h.le, h.lt, h.present hlt⟩
  · exact ⟨h.le, h.lt, clearPresent_bit st v'.item⟩
  · exact ⟨h.le, h.lt, clearPresent_bit st v.item⟩
  · cases he

/-- No round of a sparse free is followed by one on the next level. -/
theorem freeLoop_sparse {dim pid orderIndex : Nat} {buddy : Option (Nat × Item)} {st'' : State} {i : Item}
    (h : freeLoop .listFirst dim pid .sparseMovable lvl group st' x order orderIndex buddy =
      some (st'', i)) :
    freePass .listFirst dim pid group .sparseMovable lvl st' x order orderIndex buddy =
      some (st'', .inserted i) := by
  rcases freeLoop_cases h with hp | ⟨st1, v1, lvl', -, hp, -⟩
  · exact hp
  · obtain ⟨_, _, _, _, _, exit, -, -, -, -, hl⟩ := freePass_cases hp
    cases exit with
    | direct =>
        unfold leavePass at hl
        obtain ⟨_, -, he⟩ := Option.map_eq_some_iff.mp hl
        cases he
    | done =>
        simp only [leavePass, Option.bind_eq_bind, Option.bind_eq_some_iff] at hl
        obtain ⟨tail, -, hl⟩ := hl
        rw [if_neg fun hc => hc.2.2 rfl] at hl
        obtain ⟨_, -, he⟩ := Option.map_eq_some_iff.mp hl
        cases he

/-- **A free leaves a free block around the item.** -/
theorem freed_around (horder : order < maxItemOrder) {st'' : State} {i : Item}
    (h : freeGroupMigration .listFirst st' x group lvl order .sparseMovable = some (st'', i)) :
    ∃ k, FreeAt st'' group k i ∧ i ≤ x ∧ x < i + 2 ^ k := by
  unfold freeGroupMigration at h
  obtain ⟨idx, m, topLvl, st1, v, exit, hidx, hm, -, hloop, hleave⟩ := freePass_cases (freeLoop_sparse h)
  obtain rfl : maxItemOrder = m := Option.some.inj hm
  have hbase : x = st'.tables.phyItemStruct (getItemNode (st'.items x).flags) + idx := by
    unfold itemToRelIdx at hidx
    split at hidx
    · next hle =>
        obtain rfl := Option.some.inj hidx
        exact (Nat.add_sub_cancel' hle).symm
    · cases hidx
  have hstart : Around (st'.tables.phyItemStruct (getItemNode (st'.items x).flags)) x st'
      ⟨x, idx, order, order, none⟩ :=
    ⟨hbase, rfl, Nat.le_refl x, Nat.lt_add_of_pos_right (Nat.two_pow_pos _), fun hgt => by
      have hsub : orderSub maxItemOrder 1 = 7 := rfl
      rw [hsub] at hgt
      simp only [maxItemOrder_eq] at horder
      exact absurd horder (Nat.not_lt.mpr hgt)⟩
  obtain ⟨hle, hlt, hbit⟩ := hstart.run hloop
  rcases leavePass_cases hleave with ⟨tail, hins, he⟩ | ⟨-, -, -, he⟩
  · obtain rfl : i = v.item := PassEnd.inserted.inj he
    refine ⟨v.order, ⟨?_, (insertFreed_items hins).2.trans hbit⟩, hle, hlt⟩
    rw [(insertFreed_lists hins _).mem_iff, if_pos rfl]
    exact List.mem_cons_self
  · cases he

end Taken

/-- **Allocating from a sparse group and freeing again.** As written the free does not return; with the
    list as the list it ends with the same free blocks and counts exactly where the item taken was not
    present, no table: then with the same tables on the lists too. -/
theorem sparse_alloc_free {st st' : State} {group : Group} {x : Item} {lvl order : Nat} {isTable : Bool}
    (hS : SparseState st group lvl)
    (h : removeGroupMigration st group lvl order .sparseMovable isTable = some (st', some x)) :
    freeGroupMigration .written st' x group lvl order .sparseMovable = none ∧
      ((∃ st'' i, freeGroupMigration .listFirst st' x group lvl order .sparseMovable = some (st'', i) ∧
        SameFree st st'' group) ↔ presentBit st x = 0) ∧
      (presentBit st x = 0 → ∃ st'' i,
        freeGroupMigration .listFirst st' x group lvl order .sparseMovable = some (st'', i) ∧
          SameLists st st'' group) := by
  have hback : presentBit st x = 0 → ∃ st'' i,
      freeGroupMigration .listFirst st' x group lvl order .sparseMovable = some (st'', i) ∧
        SameLists st st'' group := by
    intro hp
    obtain ⟨oi, hle, hoi, hx, hR, hpid, htables⟩ := Regathered.taken hS.linked h
    obtain ⟨hbase, -, -⟩ := hS.head oi x hx hp
    obtain ⟨st2, v2, v3, exit, hR2, ho2, hloop, hi3, ho3, hdone⟩ := hR.mergeLoop hS hx hp hoi hle
    obtain ⟨tail, st3, hst3, hleave⟩ := leavePass_stays group .movable lvl maxItemOrder
      (st2.modFlags x clearItemPresent) (fun he _ => hdone he) fun _ => .inr rfl
    refine ⟨st3, x, ?_, hR2.sameLists hS hx hp ho2 hi3 ho3 hst3⟩
    have hidx : itemToRelIdx st' x ((st.nodeOf group).nodeId % 2 ^ ItemField.node.offset) =
        some (x - sparseOrigin st group) := by
      unfold itemToRelIdx
      rw [htables]
      exact if_pos hbase
    unfold freeGroupMigration
    refine freeLoop_inserted ?_
    rw [if_pos rfl, hpid, freePass_of hidx (if_pos rfl) (if_pos rfl) hloop]
    rw [hi3] at hleave
    exact hleave
  refine ⟨freeGroupMigration_written st' x group lvl order _, ⟨?_, fun hp => ?_⟩, hback⟩
  · rintro ⟨st'', i, hfree, hsame⟩
    by_contra hp
    obtain ⟨oi, hoi, hlast, hx, -, -, -⟩ := Regathered.taken hS.linked h
    obtain ⟨k, hi, hle, hlt⟩ := freed_around (Nat.lt_of_le_of_lt hoi hlast) hfree
    obtain ⟨hi, hpi⟩ := (hsame.free k i).mp hi
    obtain ⟨d, rfl⟩ := Nat.exists_eq_add_of_le hle
    -- a free block that was there has no other linked descriptor in it
    rcases Nat.eq_zero_or_pos d with rfl | hd
    · exact hp hpi
    · have hlink := (hS.linked.mem _ _).mpr hx
      rw [hS.interior k i hi hpi d hd (Nat.lt_of_add_lt_add_left hlt)] at hlink
      cases hlink
  · obtain ⟨st'', i, hfree, hsame⟩ := hback hp
    exact ⟨st'', i, hfree, hsame.sameFree⟩

/-! ## 4. One free pair -/

/-- A sparse group of level 1 with one free block, of order 1, from descriptor 0. -/
def sparsePair : State :=
  (oneBlock (.groupCell (.vir 0 1) .movable 1) 0).modFlags 0 fun flags => setItemOrder flags 1

theorem sparsePair_mem {k : Nat} {i : Item}
    (h : i ∈ sparsePair.lists (.groupCell (.vir 0 1) .movable k)) : k = 1 ∧ i = 0 := by
  have hl : sparsePair.lists (.groupCell (.vir 0 1) .movable k) =
      (oneBlock (.groupCell (.vir 0 1) .movable 1) 0).lists (.groupCell (.vir 0 1) .movable k) := rfl
  rw [hl, oneBlock_lists] at h
  split at h
  · next e =>
      injection e with _ _ hk
      exact ⟨hk, List.mem_singleton.mp h⟩
  · cases h

theorem sparsePair_onList {i : Item} (h : (sparsePair.items i).onList.isSome) : i = 0 := by
  by_contra hne
  simp [sparsePair, oneBlock, zeroed, hne] at h

theorem sparsePair_state : SparseState sparsePair (.vir 0 1) 1 where
  linked := (oneBlock_linked _ _).modFlags 0 _
  head k i h _ := by
    obtain ⟨rfl, rfl⟩ := sparsePair_mem h
    exact ⟨Nat.le_refl 0, ⟨0, rfl⟩, by decide +kernel⟩
  interior k i h _ d hd _ := by
    obtain ⟨rfl, rfl⟩ := sparsePair_mem h
    rw [Nat.zero_add]
    cases ho : (sparsePair.items d).onList with
    | none => rfl
    | some l => exact absurd (sparsePair_onList (i := d) (by rw [ho]; rfl)) (Nat.ne_of_gt hd)
  heads k i h _ y _ ho _ := by
    obtain ⟨rfl, rfl⟩ := sparsePair_mem h
    refine ⟨1, ?_⟩
    rw [sparsePair_onList ho]
    exact h
  coalesced k _ i h _ hc := by
    obtain ⟨rfl, rfl⟩ := sparsePair_mem h
    have := (sparsePair_mem hc.1).2
    revert this
    decide

/-- The pair after its first descriptor was taken: the second is free, of order 0. -/
def sparsePairSplit : State :=
  splitGroupMigration (sparsePair.takeOff (.groupCell (.vir 0 1) .movable 1) 0) (.vir 0 1) 0 1 0 1
    .movable

theorem sparsePair_alloc :
    removeGroupMigration sparsePair (.vir 0 1) 1 0 .sparseMovable true =
      some (sparsePairSplit, some 0) := rfl

/-- The pair is split and gathered again. -/
theorem sparsePair_back :
    freeGroupMigration .written sparsePairSplit 0 (.vir 0 1) 1 0 .sparseMovable = none ∧
      ∃ st'' i, freeGroupMigration .listFirst sparsePairSplit 0 (.vir 0 1) 1 0 .sparseMovable =
        some (st'', i) ∧ SameLists sparsePair st'' (.vir 0 1) := by
  obtain ⟨hwritten, -, hback⟩ := sparse_alloc_free sparsePair_state sparsePair_alloc
  exact ⟨hwritten, hback (by decide +kernel)⟩

/-- With the list as the list a root table, present and without a parent, is taken for a block and comes
    back as one. -/
example :
    let root := (oneBlock (.groupCell (.vir 0 0) .movable 0) 0).modFlags 0 setItemPresent
    presentBit root 0 = 1 ∧
      ((removeGroupMigration root (.vir 0 0) 0 0 .sparseMovable false).bind fun p =>
        (freeGroupMigration .listFirst p.1 0 (.vir 0 0) 0 0 .sparseMovable).map fun q =>
          (p.2, q.1.lists (.groupCell (.vir 0 0) .movable 0), presentBit q.1 0)) =
            some (some 0, [0], 0) := by
  decide +kernel

/-- The free that should give the pair back writes through the links of the unlinked descriptor. -/
theorem sparsePair_faults : SparseState sparsePair (.vir 0 1) 1 ∧
    removeGroupMigration sparsePair (.vir 0 1) 1 0 .sparseMovable true =
      some (sparsePairSplit, some 0) ∧
    (sparsePairSplit.items 0).onList = none ∧
    freeGroupMigration .written sparsePairSplit 0 (.vir 0 1) 1 0 .sparseMovable = none :=
  ⟨sparsePair_state, sparsePair_alloc, rfl, freeGroupMigration_written _ _ _ _ _ _⟩

end TensorAlloc
