/-
  File:      TensorAlloc/Reuse.lean
  Subject:   Whether a sparse block that was freed can be allocated again.

  * `SparseTakes` -- the buddies that the state before lets the merge take; it takes just these
    (`sparse_free_listed`);
  * `Reusable` -- alone on the lists of its group, the block serves every request up to its order;
  * **`freed_reusable_iff`** -- a block under a table keeps its back pointer, which at order 0 is the
    mark of a table, and a block of order 8 is on a list that no search looks at.
-/
import TensorAlloc.Listed
import TensorAlloc.SparseSearch

namespace TensorAlloc

/-! ## 1. When a free block serves -/

/-- The free block `i` of order `r` can be allocated: where nothing else is on the lists of the group,
    every request up to its order gets an item. -/
def Reusable (st : State) (group : Group) (lvl : Nat) (i : Item) (r : Nat) : Prop :=
  ∀ s : State, s.items i = st.items i →
    (∀ k, s.lists (.groupCell group .sparseMovable k) = if k = r then [i] else []) →
    ∀ q ≤ r, ∃ s' j, removeGroupMigration s group lvl q .sparseMovable false = some (s', some j)

section Alone

variable {st s : State} {group : Group} {lvl r q : Nat} {i : Item}

/-- The state with the group's lists emptied but for the block. -/
def State.alone (st : State) (group : Group) (i : Item) (r : Nat) : State :=
  { st with lists := fun
      | .groupCell g t k =>
          if g = group ∧ t = .sparseMovable then if k = r then [i] else []
          else st.lists (.groupCell g t k)
      | h => st.lists h }

theorem alone_lists (st : State) (group : Group) (i : Item) (r k : Nat) :
    (st.alone group i r).lists (.groupCell group .sparseMovable k) = if k = r then [i] else [] :=
  if_pos ⟨rfl, rfl⟩

/-- What the search sees of a block that is alone. -/
theorem searchList_alone
    (hl : ∀ k, s.lists (.groupCell group .sparseMovable k) = if k = r then [i] else []) (k : Nat) :
    searchList s group .sparseMovable false k =
      if k = r ∧ (r ≠ 0 ∨ (s.items i).prev = none) then some i else none := by
  unfold searchList
  rw [if_neg (by simp), hl]
  by_cases hk : k = r
  · subst hk
    rw [if_pos rfl, List.find?_singleton]
    refine if_congr ?_ rfl rfl
    simp [eligible]
  · rw [if_neg hk, if_neg fun h => hk h.1]
    rfl

/-- **A free block serves exactly when its list is searched and it does not look like a table.** -/
theorem reusable_iff {l : ListHead} (hon : (st.items i).onList = some l) :
    Reusable st group lvl i r ↔ r < maxItemOrder ∧ (r ≠ 0 ∨ (st.items i).prev = none) := by
  have hmax : ∀ s : State, maxOrderOf s (s.nodeOf group).dim lvl .sparseMovable = some maxItemOrder :=
    fun s => if_pos rfl
  constructor
  · intro h
    obtain ⟨s', j, hr⟩ := h (st.alone group i r) rfl (alone_lists st group i r) r (Nat.le_refl r)
    obtain ⟨-, hj⟩ | ⟨m, oi, x, st1, hm, hs, -, -, -, -⟩ := removeGroupMigration_cases hr
    · cases hj
    · obtain rfl := Option.some.inj ((hmax _).symm.trans hm)
      obtain ⟨hge, hlt, hfound, -⟩ := searchOrders_eq_some.mp hs
      rw [searchList_alone (alone_lists st group i r)] at hfound
      split at hfound
      · next hc => exact ⟨by omega, hc.2⟩
      · cases hfound
  · rintro ⟨hlow, hplain⟩ s hi hl q hq
    have hs : searchOrders s group .sparseMovable false (maxItemOrder - q) q = some (r, i) := by
      refine searchOrders_eq_some.mpr ⟨hq, by omega, ?_, fun k _ hk => ?_⟩
      · rw [searchList_alone hl, if_pos ⟨rfl, by rw [hi]; exact hplain⟩]
      · rw [searchList_alone hl, if_neg fun hc => Nat.ne_of_lt hk hc.1]
    unfold removeGroupMigration
    rw [hmax]
    simp only [Option.bind_eq_bind, Option.bind_some, hs, ne_eq, not_true_eq_false, false_and, if_false,
      listDel_of (hi ▸ hon)]
    exact ⟨_, _, rfl⟩

end Alone

/-! ## 2. The block under its table -/

/-- The merge of a sparse free of `item` takes its `n`-th buddy, judged by the state before. -/
def SparseTakes (st : State) (item : Item) (lvl order n : Nat) : Prop :=
  TakesBuddy st (st.tables.phyItemStruct (getItemNode (st.items item).flags))
    (item - st.tables.phyItemStruct (getItemNode (st.items item).flags)) order .sparseMovable
    maxItemOrder (lvl = 0) order n

section Reuse

/-- A buddy on no list is not taken. -/
theorem not_sparseTakes {st : State} {item : Item} {lvl order n : Nat}
    (h : buddyIsValid .sparseMovable (st.items
      (st.tables.phyItemStruct (getItemNode (st.items item).flags) +
        mergedBuddy (item - st.tables.phyItemStruct (getItemNode (st.items item).flags)) order n)) =
      false) : ¬ SparseTakes st item lvl order n := by
  intro ht
  rw [ht.valid] at h
  cases h

variable {st st' : State} {group : Group} {lvl order : Nat} {mt : MigrationType} {item i : Item}

/-- **The allocation gives the block the word read at its rounded address.** -/
theorem forwardRemove_prev {env : StreamEnv} {st1 : State} {dim fuel : Nat} {isVirtual : Bool}
    (hg : sparseGroup env.pg dim isVirtual lvl = some group)
    (hown : removeGroupMigration st group lvl order mt false = some (st1, some item))
    (h : forwardRemoveGroupSparse env (fuel + 1) st lvl mt order dim isVirtual =
      some (st', some item)) :
    env.itemarrayPrev st1 item = some (st'.items item).prev := by
  rw [forwardRemoveGroupSparse_own hg hown, Option.map_eq_some_iff] at h
  obtain ⟨st2, he, heq⟩ := h
  obtain rfl := (Prod.mk.inj heq).1
  obtain ⟨prev, hword, he⟩ := Option.bind_eq_some_iff.mp he
  have hcharged : TablesCharged (fun _ => True) _ st2 :=
    mergeGroupSparseTable_charged (fun _ _ _ _ => trivial) he
  rw [hcharged.prev, State.modItem_items, if_pos rfl]
  exact hword

/-- **The sparse free lists the block at the order its merge reaches.** -/
theorem sparse_free_listed
    (h : freeGroupMigration .listFirst st item group lvl order .sparseMovable = some (st', i)) :
    ∃ n, (st'.items i).onList = some (.groupCell group .sparseMovable (order + n)) ∧
      i ∈ st'.lists (.groupCell group .sparseMovable (order + n)) ∧ (n = 0 → i = item) ∧
      (∀ m < n, SparseTakes st item lvl order m) ∧ ¬ SparseTakes st item lvl order n := by
  obtain ⟨idx, maxOrder, topLvl, st1, v, exit, hidx, hmax, htop, hloop, hleave⟩ :=
    freePass_cases (freeGroupMigration_round h)
  obtain rfl : maxItemOrder = maxOrder := Option.some.inj hmax
  obtain rfl : 0 = topLvl := Option.some.inj htop
  unfold itemToRelIdx at hidx
  split at hidx
  · next hle =>
      obtain rfl := Option.some.inj hidx
      have hitem := Nat.add_sub_cancel' hle
      obtain ⟨n, hA, hall, hnot⟩ := mergeLoop_absorbed hitem hloop
      rw [show (decide ((lvl : Int) = 0) = true) = (lvl = 0) from propext (by simp)] at hall hnot
      rcases leavePass_cases hleave with ⟨tail, hi, he⟩ | ⟨-, -, -, he⟩
      · cases he
        refine ⟨n, ?_, ?_, fun hn => ?_, hall, hnot⟩
        · rw [insertFreed_head hi, hA.ord]
        · rw [(insertFreed_lists hi _).mem_iff, ← hA.ord, if_pos rfl]
          exact List.mem_cons_self
        · rw [hA.item, hn]
          exact hitem
      · cases he
  · cases hidx

variable {env : StreamEnv} {st0 stR st1 : State} {dim fuel : Nat} {isVirtual : Bool}

/-- **When a freed sparse block can be allocated again.** As written the free does not return. With
    the list as the list the block is lost if it is a single descriptor that read a table at its rounded
    address and finds no buddy, and if it grows to order 8. -/
theorem freed_reusable_iff (hg : sparseGroup env.pg dim isVirtual lvl = some group)
    (hown : removeGroupMigration st0 group lvl order .sparseMovable false = some (stR, some item))
    (halloc : forwardRemoveGroupSparse env (fuel + 1) st0 lvl .sparseMovable order dim isVirtual =
      some (st1, some item))
    (hheld : (st.items item).prev = (st1.items item).prev) :
    freeGroupMigration .written st item group lvl order .sparseMovable = none ∧
      ∀ st' i, freeGroupMigration .listFirst st item group lvl order .sparseMovable =
          some (st', i) →
        ∃ r, (st'.items i).onList = some (.groupCell group .sparseMovable r) ∧
          i ∈ st'.lists (.groupCell group .sparseMovable r) ∧
          (Reusable st' group lvl i r ↔
            (order ≠ 0 ∨ env.itemarrayPrev stR item = some none ∨
              SparseTakes st item lvl order 0) ∧
            ¬ ∀ n, order + n < maxItemOrder → SparseTakes st item lvl order n) := by
  refine ⟨freeGroupMigration_written st item group lvl order _, fun st' i hfree => ?_⟩
  obtain ⟨n, hon, hmem, hself, htaken, hstop⟩ := sparse_free_listed hfree
  refine ⟨order + n, hon, hmem, (reusable_iff hon).trans (and_comm.trans (and_congr ?_ ?_))⟩
  · -- only at order 0 is the back pointer read, and there nothing was merged
    have hprev : n = 0 → env.itemarrayPrev stR item = some (st'.items i).prev := by
      intro hn
      rw [hself hn, (freeGroupMigration_keeps hfree).tree.prev, hheld]
      exact forwardRemove_prev hg hown halloc
    rcases Nat.eq_zero_or_pos n with rfl | hpos
    · rw [hprev rfl, Option.some.injEq, Nat.add_zero, or_iff_left hstop]
    · exact iff_of_true (.inl (by omega)) (.inr (.inr (htaken 0 hpos)))
  · constructor
    · intro hlow hall
      exact hstop (hall n hlow)
    · intro hnot
      by_contra hge
      exact hnot fun m hm => htaken m (by omega)

end Reuse

/-! ## 3. One block under a table -/

/-- A process group is given, and no slice is left for a new array. The descriptors lie from 0x7000 on:
    the array 512 is at 0x10000, which its first descriptors are rounded down to. -/
def noSlices : StreamEnv where
  pg := .given
  transform := id
  sliceAlloc _ _ := none
  sequenceForward _ _ _ _ _ _ := none
  sporadicPeriod _ := 0
  itemarrayPrev := itemarrayPrevAt 0x7000#64

/-- The free block `i` of order `k` in the array 512 of level 1, whose table is 0, with 3 free. -/
def underTable (k : Nat) (i : Item) : State :=
  let st := (oneBlock (.groupCell (.vir 0 1) .sparseMovable k) i).pushTail
    (.groupCell (.vir 0 0) .sparseMovable 0) 0
  ((st.countInc (.groupCell (.vir 0 0) .sparseMovable 0)).modFlags 0 fun flags =>
    setItemPresent (setItemFreeidx flags 3)).modItem 512 fun x => { x with prev := some 0 }

/-- Its first descriptor off the lists. -/
def takenUnder (k : Nat) (i : Item) : State :=
  splitGroupMigration ((underTable k i).takeOff (.groupCell (.vir 0 1) .sparseMovable k) i) (.vir 0 1)
    i 1 0 k .sparseMovable

/-- The same, entered in the table. -/
def heldUnder (k : Nat) (i : Item) : State :=
  ((takenUnder k i).modItem i fun x => { x with prev := some 0 }).setFreeidx 0 2#32

theorem underTable_held {k : Nat} {i : Item}
    (hp : itemarrayPrevAt 0x7000#64 (takenUnder k i) i = some (some 0))
    (hn : nrFreeidxs ((takenUnder k i).modItem i fun x => { x with prev := some 0 }) 0 = 3#32)
    (hr : removeGroupMigration (underTable k i) (.vir 0 1) 1 0 .sparseMovable false =
      some (takenUnder k i, some i)) :
    forwardRemoveGroupSparse noSlices 1 (underTable k i) 1 .sparseMovable 0 dimTime true =
      some (heldUnder k i, some i) := by
  have hfree : sparseTableFree ((takenUnder k i).modItem i fun x => { x with prev := some 0 }) 0 0 =
      (heldUnder k i, true) := by
    unfold sparseTableFree
    rw [hn]
    rfl
  have henter : enterTable noSlices.itemarrayPrev noSlices.pg (takenUnder k i) i 1 0 .sparseMovable dimTime
      true = some (heldUnder k i) := by
    unfold enterTable
    rw [show noSlices.itemarrayPrev (takenUnder k i) i = some (some 0) from hp, Option.bind_eq_bind,
      Option.bind_some, mergeGroupSparseTable, hfree]
    rfl
  rw [forwardRemoveGroupSparse_own rfl hr, henter]
  rfl

theorem pairUnder_taken : removeGroupMigration (underTable 1 514) (.vir 0 1) 1 0 .sparseMovable false =
    some (takenUnder 1 514, some 514) := rfl

theorem singleUnder_taken : removeGroupMigration (underTable 0 513) (.vir 0 1) 1 0 .sparseMovable false =
    some (takenUnder 0 513, some 513) := rfl

/-- Half of a pair is taken: given back it merges with the other half, and is no table then. -/
theorem pairUnder_reusable : ∃ st' i r,
    freeGroupMigration .listFirst (heldUnder 1 514) 514 (.vir 0 1) 1 0 .sparseMovable =
        some (st', i) ∧
      (st'.items i).onList = some (.groupCell (.vir 0 1) .sparseMovable r) ∧
      Reusable st' (.vir 0 1) 1 i r := by
  obtain ⟨⟨st', i⟩, hfree⟩ := @freeGroupMigration_returns (heldUnder 1 514) .sparseMovable 1 (.vir 0 1)
    514 0 ⟨Nat.zero_le 514, fun hne => absurd rfl hne⟩
  obtain ⟨r, hon, -, hiff⟩ := (freed_reusable_iff (sparseGroup_time 1) pairUnder_taken
    (underTable_held (by decide +kernel) (by decide +kernel) pairUnder_taken) rfl).2 st' i hfree
  have htakes : SparseTakes (heldUnder 1 514) 514 1 0 0 :=
    ⟨by decide, by decide, by decide, by decide +kernel, by decide +kernel, by decide +kernel⟩
  -- the next buddy is the array's first descriptor, which is on no list
  have hnext : ¬ SparseTakes (heldUnder 1 514) 514 1 0 1 := not_sparseTakes (by decide +kernel)
  exact ⟨st', i, r, hfree, hon, hiff.mpr ⟨.inr (.inr htakes), fun hall => hnext (hall 1 (by decide))⟩⟩

/-- A single descriptor is taken and given back: it finds no buddy, and passes for a table. -/
theorem singleUnder_lost : ∃ stR st st',
    removeGroupMigration (underTable 0 513) (.vir 0 1) 1 0 .sparseMovable false =
        some (stR, some 513) ∧
      forwardRemoveGroupSparse noSlices 1 (underTable 0 513) 1 .sparseMovable 0 dimTime true =
        some (st, some 513) ∧
      freeGroupMigration .listFirst st 513 (.vir 0 1) 1 0 .sparseMovable = some (st', 513) ∧
      (st'.items 513).onList = some (.groupCell (.vir 0 1) .sparseMovable 0) ∧
      ¬ Reusable st' (.vir 0 1) 1 513 0 := by
  have hheld := @underTable_held 0 513 (by decide +kernel) (by decide +kernel) singleUnder_taken
  obtain ⟨⟨st', i⟩, hfree⟩ := @freeGroupMigration_returns (heldUnder 0 513) .sparseMovable 1 (.vir 0 1)
    513 0 ⟨Nat.zero_le 513, fun hne => absurd rfl hne⟩
  obtain ⟨n, hon, -, hself, htaken, -⟩ := sparse_free_listed hfree
  have halone : ¬ SparseTakes (heldUnder 0 513) 513 1 0 0 := not_sparseTakes (by decide +kernel)
  have hn : n = 0 := by
    by_contra hne
    exact halone (htaken 0 (Nat.pos_of_ne_zero hne))
  subst hn
  obtain rfl := hself rfl
  refine ⟨_, _, st', singleUnder_taken, hheld, hfree, hon, fun hR => ?_⟩
  have hprev : (st'.items 513).prev = some 0 := (freeGroupMigration_keeps hfree).tree.prev 513
  rcases ((reusable_iff hon).mp hR).2 with h0 | h0
  · exact h0 rfl
  · rw [hprev] at h0
    cases h0

end TensorAlloc
