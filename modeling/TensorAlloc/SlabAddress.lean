/-
  File:      TensorAlloc/SlabAddress.lean
  Subject:   The address of a slab slot: encoded by `heap_alloc`, decoded by `heap_free`.

  * `slotRange`, `heapSlot` -- what the two compute; `fillSlot_range` and `heapFreeSlot_eq` read
    them off the functions;
  * `AddressWindows` -- as `NodeWindows`, but a window may reach the end of the addresses;
  * `pageBase` -- a page's address as a number, from which everything follows by arithmetic;
  * **`slab_address_iff`** -- a slot is identified by its address, except in a window that ends with
    the last address: its end wraps to 0 and the search passes it over.
-/
import TensorAlloc.Slab
import TensorAlloc.Windows

namespace TensorAlloc

/-! ## 1. Encoding and decoding -/

/-- The range `heap_alloc` returns for a slot of a page. -/
def slotRange (st : State) (slice : Nat) (item : Item) (idx : Nat) : Nat :=
  (itemToRange st item + idx * (st.tables.slices slice).bsize) % 2 ^ 64

/-- The page and the slot `heap_free` finds for a range. -/
def heapSlot (st : State) (rangeBase : Nat) : Option (Item × Nat) := do
  let item ← rangeToItem st rangeBase dimMemory
  let slice ← (st.items item).sliceHead
  pure (item, rangeBase % fixedItemSize / (← slotSize st slice))

/-- Writing a page's slots leaves its address. -/
theorem itemToRange_modItem {st : State} {item i : Item} {f : ItemStruct → ItemStruct}
    (hf : (f (st.items i)).flags = (st.items i).flags) :
    itemToRange (st.modItem i f) item = itemToRange st item := by
  unfold itemToRange itemToIdx
  rw [st.modItem_keeps item ItemStruct.flags hf]
  rfl

/-- **`heap_alloc` returns the range of the first clear slot.** -/
theorem fillSlot_range {st st' : State} {slice a : Nat} {item : Item}
    (h : fillSlot st slice item = some (st', .ok a)) :
    a = slotRange st slice item (findFirstZeroBit (st.items item).sliceRef
      (fixedItemSize / (st.tables.slices slice).bsize)) := by
  unfold fillSlot claimSlot at h
  obtain ⟨bsize, hbsize, h⟩ := Option.bind_eq_some_iff.mp h
  obtain rfl := slotSize_some hbsize
  obtain ⟨st₁, -, h⟩ := Option.bind_eq_some_iff.mp h
  obtain ⟨st₂, -, h⟩ := Option.bind_eq_some_iff.mp h
  obtain rfl := Except.ok.inj (congrArg Prod.snd (Option.some.inj h))
  unfold slotRange
  split
  · rw [itemToRange_modItem rfl]
  · rfl

/-- **`heap_free` clears the slot found**, if it is set. -/
theorem heapFreeSlot_eq (st : State) (rangeBase : Nat) :
    heapFreeSlot st rangeBase = (heapSlot st rangeBase).bind fun q =>
      (st.items q.1).sliceHead.bind fun slice =>
        if isSetBit q.2 (st.items q.1).sliceRef = false then some (.done st errInvalidArgs)
        else emptySlot (st.modItem q.1 fun x => { x with sliceRef := clearBit q.2 x.sliceRef })
          slice q.1 := by
  unfold heapFreeSlot heapSlot
  cases hitem : rangeToItem st rangeBase dimMemory with
  | none => rfl
  | some item =>
      cases hhead : (st.items item).sliceHead with
      | none => simp only [hhead, Option.bind_eq_bind, Option.bind_some, Option.bind_none]
      | some slice =>
          simp only [Option.bind_eq_bind, Option.bind_some, hhead]
          cases slotSize st slice with
          | none => rfl
          | some bsize => simp only [Option.bind_some, Option.pure_def, hhead]

/-! ## 2. Pages in windows -/

/-- The windows of a dimension, up to the last address. -/
structure AddressWindows (st : State) (dim : Nat) : Prop where
  aligned : ∀ i < nodeLvlNum, fixedItemSize ∣ (st.nodes (.phy (pnodeAt dim i))).offset ∧
    fixedItemSize ∣ (st.nodes (.phy (pnodeAt dim i))).size
  inside : ∀ i < nodeLvlNum, (st.nodes (.phy (pnodeAt dim i))).offset +
    (st.nodes (.phy (pnodeAt dim i))).size ≤ 2 ^ 64
  disjoint : ∀ i < nodeLvlNum, ∀ j < nodeLvlNum, i ≠ j → ∀ a,
    ¬ (Holds st (pnodeAt dim i) a ∧ Holds st (pnodeAt dim j) a)

/-- The descriptor `rel` of the `i`-th memory node, whose number it names. -/
structure PageAt (st : State) (i rel : Nat) (item : Item) : Prop where
  node : i < nodeLvlNum
  below : rel < (st.nodes (.phy (pnodeAt dimMemory i))).size / fixedItemSize
  place : item = st.tables.phyItemStruct (pnodeAt dimMemory i) + rel
  named : getItemNode (st.items item).flags = pnodeAt dimMemory i

/-- The address of a page, as a number. -/
def pageBase (st : State) (i rel : Nat) : Nat :=
  (st.nodes (.phy (pnodeAt dimMemory i))).offset + rel * fixedItemSize

section Pages

variable {st : State} {i rel : Nat} {item : Item}

/-- A page is aligned, and inside its window. -/
theorem pageBase_inside (hw : AddressWindows st dimMemory) (h : PageAt st i rel item) :
    fixedItemSize ∣ pageBase st i rel ∧
      (st.nodes (.phy (pnodeAt dimMemory i))).offset ≤ pageBase st i rel ∧
      pageBase st i rel + fixedItemSize ≤ (st.nodes (.phy (pnodeAt dimMemory i))).offset +
        (st.nodes (.phy (pnodeAt dimMemory i))).size := by
  obtain ⟨hoff, size, hsize⟩ := hw.aligned i h.node
  have hrel := h.below
  rw [hsize, Nat.mul_div_cancel_left _ (show 0 < fixedItemSize by decide)] at hrel
  refine ⟨Nat.dvd_add hoff (Nat.dvd_mul_left _ _), Nat.le_add_right _ _, ?_⟩
  unfold pageBase
  rw [hsize, fixedItemSize_eq]
  omega

/-- **`item_to_range` is the page's address.** -/
theorem itemToRange_page (hw : AddressWindows st dimMemory) (h : PageAt st i rel item) :
    itemToRange st item = pageBase st i rel := by
  obtain ⟨offset, hoffset⟩ := (hw.aligned i h.node).1
  have hend := hw.inside i h.node
  have hpage := (pageBase_inside hw h).2.2
  have hpow : (2 : Int) ^ groupOrderNumShift = 4096 := rfl
  unfold itemToRange itemToIdx idxToRange
  rw [h.named, h.place, hpow]
  unfold pageBase rangeToIdx groupOrderNumShift at *
  rw [fixedItemSize_eq] at *
  rw [hoffset] at hpage ⊢
  rw [hoffset] at hend
  dsimp only
  omega

/-- The node whose window is searched for the page index: the window must not end with the last
    address. -/
theorem scanned_holds (hw : AddressWindows st dimMemory) {j n : Nat} (hj : j < nodeLvlNum)
    (h1 : rangeToIdx (st.nodes (.phy (pnodeAt dimMemory j))).offset ≤ n)
    (h2 : n < rangeToIdx (((st.nodes (.phy (pnodeAt dimMemory j))).offset +
      (st.nodes (.phy (pnodeAt dimMemory j))).size) % 2 ^ 64)) :
    Holds st (pnodeAt dimMemory j) (n * fixedItemSize) := by
  rcases Nat.lt_or_eq_of_le (hw.inside j hj) with hlt | heq
  · rw [Nat.mod_eq_of_lt hlt] at h2
    exact holds_page (hw.aligned j hj).1 h1 h2
  · rw [heq, Nat.mod_self] at h2
    exact absurd h2 (Nat.not_lt_zero n)

/-- **The search for an address of the page**: the page, or nothing. -/
theorem rangeToItem_page (hw : AddressWindows st dimMemory) (h : PageAt st i rel item) {a : Nat}
    (ha : a / fixedItemSize = pageBase st i rel / fixedItemSize) :
    rangeToItem st a dimMemory =
      if (st.nodes (.phy (pnodeAt dimMemory i))).offset +
        (st.nodes (.phy (pnodeAt dimMemory i))).size = 2 ^ 64 then none else some item := by
  obtain ⟨⟨page, hpage⟩, hlow, hhigh⟩ := pageBase_inside hw h
  obtain ⟨⟨offset, hoffset⟩, size, hsize⟩ := hw.aligned i h.node
  have hidx : rangeToIdx a = page := by
    show a / fixedItemSize = page
    rw [ha, hpage, Nat.mul_div_cancel_left _ (show 0 < fixedItemSize by decide)]
  have hholds : Holds st (pnodeAt dimMemory i) (page * fixedItemSize) := by
    rw [Nat.mul_comm, ← hpage]
    exact ⟨hlow, by rw [fixedItemSize_eq] at hhigh; omega⟩
  -- no other node's window answers
  have hother : ∀ j < nodeLvlNum, j ≠ i →
      ¬ (rangeToIdx (st.nodes (.phy (pnodeAt dimMemory j))).offset ≤ page ∧
        page < rangeToIdx (((st.nodes (.phy (pnodeAt dimMemory j))).offset +
          (st.nodes (.phy (pnodeAt dimMemory j))).size) % 2 ^ 64)) := by
    rintro j hj hne ⟨h1, h2⟩
    exact hw.disjoint j hj i h.node hne _ ⟨scanned_holds hw hj h1 h2, hholds⟩
  unfold rangeToItem
  rw [hidx]
  by_cases hwrap : (st.nodes (.phy (pnodeAt dimMemory i))).offset +
      (st.nodes (.phy (pnodeAt dimMemory i))).size = 2 ^ 64
  · rw [if_pos hwrap, Option.map_eq_none_iff]
    unfold idxToRelIdx
    refine List.findSome?_eq_none_iff.mpr fun j hj => if_neg fun hin => ?_
    rw [List.mem_range] at hj
    by_cases hji : j = i
    · subst hji
      change _ ∧ _ < rangeToIdx (((st.nodes (.phy (pnodeAt dimMemory j))).offset +
        (st.nodes (.phy (pnodeAt dimMemory j))).size) % 2 ^ 64) at hin
      rw [hwrap, Nat.mod_self] at hin
      exact absurd hin.2 (Nat.not_lt_zero _)
    · exact hother j hj hji hin
  · have hend := Nat.lt_of_le_of_ne (hw.inside i h.node) hwrap
    have hrel : page - rangeToIdx (st.nodes (.phy (pnodeAt dimMemory i))).offset = rel := by
      unfold pageBase at hpage
      rw [hoffset] at hpage ⊢
      show page - fixedItemSize * offset / fixedItemSize = rel
      rw [Nat.mul_div_cancel_left _ (show 0 < fixedItemSize by decide)]
      rw [fixedItemSize_eq] at hpage
      omega
    have hscan : idxToRelIdx st page dimMemory = some (pnodeAt dimMemory i, rel) := by
      unfold idxToRelIdx
      refine findSome?_of_unique (List.mem_range.mpr h.node) ?_ fun j hj hne =>
        if_neg (hother j (List.mem_range.mp hj) hne)
      dsimp only
      rw [← hrel]
      refine if_pos ⟨?_, ?_⟩
      · show (st.nodes (.phy (pnodeAt dimMemory i))).offset / fixedItemSize ≤ page
        rw [hpage] at hlow
        rw [fixedItemSize_eq] at hlow ⊢
        omega
      · show page < ((st.nodes (.phy (pnodeAt dimMemory i))).offset +
          (st.nodes (.phy (pnodeAt dimMemory i))).size) % 2 ^ 64 / fixedItemSize
        rw [Nat.mod_eq_of_lt hend]
        rw [hpage] at hhigh
        rw [fixedItemSize_eq] at hhigh ⊢
        omega
    rw [if_neg hwrap, hscan, h.place]
    rfl

/-- Two pages at one address are one page. -/
theorem pageBase_inj (hw : AddressWindows st dimMemory) {i' rel' : Nat} {item' : Item}
    (h : PageAt st i rel item) (h' : PageAt st i' rel' item')
    (he : pageBase st i rel = pageBase st i' rel') : item = item' := by
  obtain ⟨-, hlow, hhigh⟩ := pageBase_inside hw h
  obtain ⟨-, hlow', hhigh'⟩ := pageBase_inside hw h'
  have hpos : 0 < fixedItemSize := by decide
  have hi : i = i' := by
    by_contra hne
    exact hw.disjoint i h.node i' h'.node hne (pageBase st i rel)
      ⟨⟨hlow, by omega⟩, ⟨he ▸ hlow', by omega⟩⟩
  subst hi
  have hrel : rel = rel' := Nat.eq_of_mul_eq_mul_right hpos (Nat.add_left_cancel he)
  rw [h.place, h'.place, hrel]

end Pages

/-! ## 3. Slots -/

/-- The slot's range leads back to it, lies in its page, and meets no other slot's. -/
structure SlotIdentified (st : State) (slice : Nat) (item : Item) (idx : Nat) : Prop where
  found : heapSlot st (slotRange st slice item idx) = some (item, idx)
  inside : itemToRange st item ≤ slotRange st slice item idx ∧
    slotRange st slice item idx + (st.tables.slices slice).bsize ≤
      itemToRange st item + fixedItemSize
  apart : ∀ i' rel' item' idx', PageAt st i' rel' item' →
    idx' < fixedItemSize / (st.tables.slices slice).bsize → (item, idx) ≠ (item', idx') →
    slotRange st slice item idx + (st.tables.slices slice).bsize ≤ slotRange st slice item' idx' ∨
      slotRange st slice item' idx' + (st.tables.slices slice).bsize ≤ slotRange st slice item idx

section Slots

variable {st : State} {slice i rel idx : Nat} {item : Item}

/-- A page with a slot has slots of some size. -/
theorem bsize_pos {bsize : Nat} (hidx : idx < fixedItemSize / bsize) : 0 < bsize := by
  refine Nat.pos_of_ne_zero fun e => ?_
  rw [e, Nat.div_zero] at hidx
  exact Nat.not_lt_zero idx hidx

/-- A slot ends before its page does. -/
theorem slot_end {bsize : Nat} (hidx : idx < fixedItemSize / bsize) :
    idx * bsize + bsize ≤ fixedItemSize := by
  calc idx * bsize + bsize = (idx + 1) * bsize := (Nat.succ_mul idx bsize).symm
    _ ≤ fixedItemSize / bsize * bsize := Nat.mul_le_mul_right bsize hidx
    _ ≤ fixedItemSize := Nat.div_mul_le_self _ _

/-- **The range of a slot as a number**: nothing wraps. -/
theorem slotRange_page (hw : AddressWindows st dimMemory) (h : PageAt st i rel item)
    (hidx : idx < fixedItemSize / (st.tables.slices slice).bsize) :
    slotRange st slice item idx =
      pageBase st i rel + idx * (st.tables.slices slice).bsize := by
  have hslot := slot_end hidx
  have hpos := bsize_pos hidx
  have hpage := (pageBase_inside hw h).2.2
  have hend := hw.inside i h.node
  unfold slotRange
  rw [itemToRange_page hw h]
  exact Nat.mod_eq_of_lt (by omega)

/-- Two slots meet in no byte. -/
theorem slots_apart (hw : AddressWindows st dimMemory) (h : PageAt st i rel item)
    (hidx : idx < fixedItemSize / (st.tables.slices slice).bsize) {i' rel' idx' : Nat} {item' : Item}
    (h' : PageAt st i' rel' item') (hidx' : idx' < fixedItemSize / (st.tables.slices slice).bsize)
    (hne : (item, idx) ≠ (item', idx')) :
    slotRange st slice item idx + (st.tables.slices slice).bsize ≤ slotRange st slice item' idx' ∨
      slotRange st slice item' idx' + (st.tables.slices slice).bsize ≤
        slotRange st slice item idx := by
  rw [slotRange_page hw h hidx, slotRange_page hw h' hidx']
  have hslot := slot_end hidx
  have hslot' := slot_end hidx'
  obtain ⟨page, hpage⟩ := (pageBase_inside hw h).1
  obtain ⟨page', hpage'⟩ := (pageBase_inside hw h').1
  rw [hpage, hpage']
  rw [fixedItemSize_eq] at *
  rcases Nat.lt_trichotomy page page' with hlt | heq | hgt
  · exact .inl (by omega)
  · -- one page, two slots
    have hitem := pageBase_inj hw h h' (by rw [hpage, hpage', heq])
    have hidxne : idx ≠ idx' := fun e => hne (by rw [hitem, e])
    rcases Nat.lt_or_gt_of_ne hidxne with hlt | hgt
    · have := Nat.mul_le_mul_right (st.tables.slices slice).bsize (Nat.succ_le_of_lt hlt)
      rw [Nat.succ_mul] at this
      exact .inl (by omega)
    · have := Nat.mul_le_mul_right (st.tables.slices slice).bsize (Nat.succ_le_of_lt hgt)
      rw [Nat.succ_mul] at this
      exact .inr (by omega)
  · exact .inr (by omega)

/-- **What `heap_free` finds for the range of a slot**: the slot, or no page. -/
theorem heapSlot_page (hw : AddressWindows st dimMemory) (h : PageAt st i rel item)
    (hhead : (st.items item).sliceHead = some slice)
    (hidx : idx < fixedItemSize / (st.tables.slices slice).bsize) :
    heapSlot st (slotRange st slice item idx) =
      if (st.nodes (.phy (pnodeAt dimMemory i))).offset +
        (st.nodes (.phy (pnodeAt dimMemory i))).size = 2 ^ 64 then none else some (item, idx) := by
  have hslot := slot_end hidx
  obtain ⟨page, hpage⟩ := (pageBase_inside hw h).1
  have hrange := slotRange_page hw h hidx
  have hmin := bsize_pos hidx
  have hlt : idx * (st.tables.slices slice).bsize < fixedItemSize := by omega
  have hpos : 0 < fixedItemSize := by decide
  have hdiv : slotRange st slice item idx / fixedItemSize = pageBase st i rel / fixedItemSize := by
    rw [hrange, hpage, Nat.mul_add_div hpos, Nat.div_eq_of_lt hlt, Nat.mul_div_cancel_left _ hpos,
      Nat.add_zero]
  have hmod : slotRange st slice item idx % fixedItemSize / (st.tables.slices slice).bsize = idx := by
    rw [hrange, hpage, Nat.mul_add_mod, Nat.mod_eq_of_lt hlt, Nat.mul_div_cancel _ hmin]
  unfold heapSlot
  rw [rangeToItem_page hw h hdiv]
  split
  · rfl
  · simp only [hhead, slotSize_of hmin, hmod, Option.bind_eq_bind, Option.bind_some, Option.pure_def]

end Slots

/-- **Slab addresses identify their slot, except in a window that ends with the last address**, for
    slots of any size. -/
theorem slab_address_iff {st : State} {slice i rel idx : Nat} {item : Item}
    (hw : AddressWindows st dimMemory) (h : PageAt st i rel item)
    (hhead : (st.items item).sliceHead = some slice)
    (hidx : idx < fixedItemSize / (st.tables.slices slice).bsize) :
    SlotIdentified st slice item idx ↔
      (st.nodes (.phy (pnodeAt dimMemory i))).offset +
        (st.nodes (.phy (pnodeAt dimMemory i))).size ≠ 2 ^ 64 := by
  have hfound := heapSlot_page hw h hhead hidx
  constructor
  · intro hs hend
    rw [if_pos hend, hs.found] at hfound
    cases hfound
  · intro hend
    rw [if_neg hend] at hfound
    refine ⟨hfound, ?_, fun i' rel' item' idx' h' hidx' hne => slots_apart hw h hidx h' hidx' hne⟩
    rw [slotRange_page hw h hidx, itemToRange_page hw h]
    have hslot := slot_end hidx
    exact ⟨Nat.le_add_right _ _, by omega⟩

/-- One page at an address, descriptor 0 of node 16, cut into 4 slots of 1000 bytes. -/
def slabPage (offset : Nat) : State :=
  (initSlice (initNode zeroed 16 offset 4096) 0 1000 64).modItem 0 fun x =>
    { x with flags := setItemNode x.flags 16, sliceHead := some 0 }

theorem slabPage_windows {offset : Nat} (halign : 4096 ∣ offset) (hend : offset + 4096 ≤ 2 ^ 64) :
    AddressWindows (slabPage offset) dimMemory := by
  have hfirst : ((slabPage offset).nodes (.phy (pnodeAt dimMemory 0))).offset = offset ∧
      ((slabPage offset).nodes (.phy (pnodeAt dimMemory 0))).size = 4096 := ⟨rfl, rfl⟩
  have hrest : ∀ k, k ≠ 0 → ((slabPage offset).nodes (.phy (pnodeAt dimMemory k))).offset = 0 ∧
      ((slabPage offset).nodes (.phy (pnodeAt dimMemory k))).size = 0 := by
    intro k hk
    have hne : (NodeRef.phy (pnodeAt dimMemory k)) ≠ .phy 16 := by
      intro e
      have h16 : pnodeAt dimMemory k = 16 := NodeRef.phy.inj e
      exact hk (Nat.add_right_cancel (h16.trans (Nat.zero_add 16).symm))
    have hnode : (slabPage offset).nodes (.phy (pnodeAt dimMemory k)) =
        zeroed.nodes (.phy (pnodeAt dimMemory k)) := Function.update_of_ne hne _ _
    rw [hnode]
    exact ⟨rfl, rfl⟩
  refine ⟨fun k _ => ?_, fun k _ => ?_, fun k _ j _ hkj a h => ?_⟩
  · by_cases hk : k = 0
    · subst hk
      rw [hfirst.1, hfirst.2]
      exact ⟨halign, Nat.dvd_refl _⟩
    · rw [(hrest k hk).1, (hrest k hk).2]
      exact ⟨Nat.dvd_zero _, Nat.dvd_zero _⟩
  · by_cases hk : k = 0
    · subst hk
      rw [hfirst.1, hfirst.2]
      exact hend
    · rw [(hrest k hk).1, (hrest k hk).2]
      exact Nat.zero_le _
  · -- of two nodes one has an empty window
    obtain ⟨h1, h2⟩ := h
    unfold Holds at h1 h2
    by_cases hk : k = 0
    · rw [(hrest j fun e => hkj (hk.trans e.symm)).1, (hrest j fun e => hkj (hk.trans e.symm)).2] at h2
      omega
    · rw [(hrest k hk).1, (hrest k hk).2] at h1
      omega

theorem slabPage_page (offset : Nat) : PageAt (slabPage offset) 0 0 0 where
  node := by decide
  below := (by decide : 0 < 4096 / fixedItemSize)
  place := rfl
  named := (by decide : getItemNode (setItemNode (zeroed.items 0).flags 16) = 16)

/-- Slot 3 of a page at 2 GiB, at byte 3000. -/
theorem slab_address_2GiB : SlotIdentified (slabPage 0x80000000) 0 0 3 :=
  (slab_address_iff (slabPage_windows (by decide) (by decide)) (slabPage_page _) rfl
    (by decide)).mpr (by decide)

/-- The last page of the address space is not found. -/
theorem slab_address_last_page : AddressWindows (slabPage 0xfffffffffffff000) dimMemory ∧
    ¬ SlotIdentified (slabPage 0xfffffffffffff000) 0 0 3 := by
  refine ⟨slabPage_windows (by decide) (by decide), fun h => ?_⟩
  have hnone : heapSlot (slabPage 0xfffffffffffff000)
      (slotRange (slabPage 0xfffffffffffff000) 0 0 3) = none := by decide
  rw [h.found] at hnone
  cases hnone

end TensorAlloc
