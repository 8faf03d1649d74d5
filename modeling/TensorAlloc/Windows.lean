/-
  File:      TensorAlloc/Windows.lean
  Subject:   Physical index translation: from an index to its node and descriptor, and back.

  * `idxToItem`, `idxToPnode` -- the first of the dimension's 16 nodes whose window holds the index;
    the comparison reads the `long` index as unsigned;
  * `NodeWindows` -- the windows of a dimension: page-aligned, not wrapping, pairwise disjoint;
  * `idx_translation` -- NULL exactly outside every window; else the one owner and the descriptor
    that translates back to the index.
-/
import TensorAlloc.Init

namespace TensorAlloc

/-! ## 1. The lookups -/

/-- `idx_to_item`; `none` is NULL. -/
def idxToItem (st : State) (idx : Word) (dim : Nat) : Option Item :=
  (idxToRelIdx st idx.toNat dim).map fun r => st.tables.phyItemStruct r.1 + r.2

/-- `idx_to_pnode`: the number of the node. -/
def idxToPnode (st : State) (idx : Word) (dim : Nat) : Option Nat :=
  (idxToRelIdx st idx.toNat dim).map Prod.fst

/-- The number of the `i`-th node of a dimension. -/
def pnodeAt (dim i : Nat) : Nat := i + dim * nodeLvlNum

/-- The window of a node holds the address. -/
def Holds (st : State) (nu a : Nat) : Prop :=
  (st.nodes (.phy nu)).offset ≤ a ∧ a < (st.nodes (.phy nu)).offset + (st.nodes (.phy nu)).size

/-- The window of a node holds the index, the `long` it is. -/
def InWindow (st : State) (nu : Nat) (idx : Word) : Prop :=
  (rangeToIdx (st.nodes (.phy nu)).offset : Int) ≤ idx.toInt ∧
    idx.toInt < rangeToIdx ((st.nodes (.phy nu)).offset + (st.nodes (.phy nu)).size)

/-- The windows of a dimension. A window may be empty; none reaches the last page, where `offset + size`
    is 0 again. -/
structure NodeWindows (st : State) (dim : Nat) : Prop where
  aligned : ∀ i < nodeLvlNum, fixedItemSize ∣ (st.nodes (.phy (pnodeAt dim i))).offset ∧
    fixedItemSize ∣ (st.nodes (.phy (pnodeAt dim i))).size
  noWrap : ∀ i < nodeLvlNum, (st.nodes (.phy (pnodeAt dim i))).offset +
    (st.nodes (.phy (pnodeAt dim i))).size < 2 ^ 64
  disjoint : ∀ i < nodeLvlNum, ∀ j < nodeLvlNum, i ≠ j → ∀ a,
    ¬ (Holds st (pnodeAt dim i) a ∧ Holds st (pnodeAt dim j) a)

/-! ## 2. The scan -/

/-- A scan with one hit finds it. -/
theorem findSome?_of_unique {α β : Type*} {f : α → Option β} {l : List α} {a : α} {b : β}
    (ha : a ∈ l) (hf : f a = some b) (hu : ∀ c ∈ l, c ≠ a → f c = none) :
    l.findSome? f = some b := by
  induction l with
  | nil => cases ha
  | cons c l ih =>
      rw [List.findSome?_cons]
      by_cases hc : c = a
      · rw [hc, hf]
      · rw [hu c List.mem_cons_self hc]
        exact ih (List.mem_of_ne_of_mem (Ne.symm hc) ha) fun d hd =>
          hu d (List.mem_cons_of_mem c hd)

section Scan

variable {st : State} {dim i : Nat} {idx : Word}

/-- The unsigned comparisons of the scan are the window of the signed index: a negative index reads
    above every window. -/
theorem inWindow_iff {nu : Nat}
    (hw : (st.nodes (.phy nu)).offset + (st.nodes (.phy nu)).size < 2 ^ 64) :
    InWindow st nu idx ↔ rangeToIdx (st.nodes (.phy nu)).offset ≤ idx.toNat ∧
      idx.toNat < rangeToIdx (((st.nodes (.phy nu)).offset + (st.nodes (.phy nu)).size) % 2 ^ 64) := by
  rw [Nat.mod_eq_of_lt hw]
  unfold InWindow rangeToIdx groupOrderNumShift
  have hlt := idx.isLt
  rw [BitVec.toInt_eq_toNat_cond]
  split <;> omega

/-- A page index in a window is the index of an address of it. -/
theorem holds_page {nu n : Nat} (hw : fixedItemSize ∣ (st.nodes (.phy nu)).offset)
    (h1 : rangeToIdx (st.nodes (.phy nu)).offset ≤ n)
    (h2 : n < rangeToIdx ((st.nodes (.phy nu)).offset + (st.nodes (.phy nu)).size)) :
    Holds st nu (n * fixedItemSize) := by
  obtain ⟨q, hq⟩ := hw
  unfold Holds
  unfold rangeToIdx groupOrderNumShift at h1 h2
  rw [fixedItemSize_eq] at hq ⊢
  omega

/-- **One window at most holds an index.** -/
theorem NodeWindows.unique (hw : NodeWindows st dim) (hi : i < nodeLvlNum) {j : Nat}
    (hj : j < nodeLvlNum) (h1 : InWindow st (pnodeAt dim i) idx)
    (h2 : InWindow st (pnodeAt dim j) idx) : j = i := by
  by_contra hne
  have hpage : ∀ k < nodeLvlNum, InWindow st (pnodeAt dim k) idx →
      Holds st (pnodeAt dim k) (idx.toNat * fixedItemSize) := by
    intro k hk h
    obtain ⟨ha, hb⟩ := (inWindow_iff (hw.noWrap k hk)).mp h
    rw [Nat.mod_eq_of_lt (hw.noWrap k hk)] at hb
    exact holds_page (hw.aligned k hk).1 ha hb
  exact hw.disjoint j hj i hi hne _ ⟨hpage j hj h2, hpage i hi h1⟩

/-- **The scan finds the owner.** -/
theorem NodeWindows.scan (hw : NodeWindows st dim) (hi : i < nodeLvlNum)
    (h : InWindow st (pnodeAt dim i) idx) :
    idxToRelIdx st idx.toNat dim =
      some (pnodeAt dim i, idx.toNat - rangeToIdx (st.nodes (.phy (pnodeAt dim i))).offset) := by
  unfold idxToRelIdx
  refine findSome?_of_unique (List.mem_range.mpr hi) (if_pos ((inWindow_iff (hw.noWrap i hi)).mp h))
    fun j hj hne => if_neg fun hin => hne ?_
  rw [List.mem_range] at hj
  exact hw.unique hi hj h ((inWindow_iff (hw.noWrap j hj)).mpr hin)

/-- The scan finds nothing outside the windows. -/
theorem NodeWindows.scan_none (hw : NodeWindows st dim) :
    idxToRelIdx st idx.toNat dim = none ↔
      ∀ i < nodeLvlNum, ¬ InWindow st (pnodeAt dim i) idx := by
  constructor
  · intro h i hi hin
    rw [hw.scan hi hin] at h
    cases h
  · intro h
    unfold idxToRelIdx
    rw [List.findSome?_eq_none_iff]
    intro i hi
    rw [List.mem_range] at hi
    exact if_neg fun hin => h i hi ((inWindow_iff (hw.noWrap i hi)).mpr hin)

end Scan

/-! ## 3. There and back -/

/-- The descriptor of an index of its owner's window translates back. -/
theorem itemToIdx_of_window {st : State} {nu : Nat} {idx : Word}
    (hw : (st.nodes (.phy nu)).offset + (st.nodes (.phy nu)).size < 2 ^ 64)
    (h : InWindow st nu idx) {item : Item}
    (hitem : item = st.tables.phyItemStruct nu +
      (idx.toNat - rangeToIdx (st.nodes (.phy nu)).offset))
    (hnode : getItemNode (st.items item).flags = nu) : itemToIdx st item = idx.toInt := by
  have hnat := ((inWindow_iff hw).mp h).1
  have h0 := h.1
  unfold itemToIdx
  rw [hnode, hitem]
  dsimp only
  rw [BitVec.toInt_eq_toNat_cond] at h0 ⊢
  have hlt := idx.isLt
  split at h0 <;> split <;> omega

/-- **Physical index translation is exact and reversible.** -/
theorem idx_translation {st : State} {dim : Nat} (hw : NodeWindows st dim) :
    (∀ idx : Word,
      (idxToItem st idx dim = none ↔ ∀ i < nodeLvlNum, ¬ InWindow st (pnodeAt dim i) idx) ∧
      (idxToPnode st idx dim = none ↔ ∀ i < nodeLvlNum, ¬ InWindow st (pnodeAt dim i) idx)) ∧
    (∀ idx : Word, ∀ i < nodeLvlNum, InWindow st (pnodeAt dim i) idx →
      (∀ j < nodeLvlNum, InWindow st (pnodeAt dim j) idx → j = i) ∧
      idxToPnode st idx dim = some (pnodeAt dim i) ∧
      ∃ item, idxToItem st idx dim = some item ∧
        item = st.tables.phyItemStruct (pnodeAt dim i) +
          (idx.toNat - rangeToIdx (st.nodes (.phy (pnodeAt dim i))).offset) ∧
        (getItemNode (st.items item).flags = pnodeAt dim i → itemToIdx st item = idx.toInt)) ∧
    ∀ i < nodeLvlNum, ∀ r, Holds st (pnodeAt dim i) r →
      ∃ item, rangeToItem st r dim = some item ∧
        (getItemNode (st.items item).flags = pnodeAt dim i →
          itemToRange st item = r / fixedItemSize * fixedItemSize) := by
  refine ⟨fun idx => ⟨?_, ?_⟩, fun idx i hi h => ⟨fun j hj => hw.unique hi hj h, ?_, ?_⟩,
    fun i hi r hr => ?_⟩
  · rw [idxToItem, Option.map_eq_none_iff, hw.scan_none]
  · rw [idxToPnode, Option.map_eq_none_iff, hw.scan_none]
  · rw [idxToPnode, hw.scan hi h]
    rfl
  · refine ⟨_, ?_, rfl, itemToIdx_of_window (hw.noWrap i hi) h rfl⟩
    rw [idxToItem, hw.scan hi h]
    rfl
  · -- the index of the address, which fits a word
    have hnw := hw.noWrap i hi
    have hlt : rangeToIdx r < 2 ^ 64 := by
      have := hr.2
      unfold rangeToIdx groupOrderNumShift
      omega
    have hidx : (BitVec.ofNat 64 (rangeToIdx r)).toNat = rangeToIdx r := Nat.mod_eq_of_lt hlt
    have hin : InWindow st (pnodeAt dim i) (BitVec.ofNat 64 (rangeToIdx r)) := by
      rw [inWindow_iff hnw, hidx, Nat.mod_eq_of_lt hnw]
      obtain ⟨⟨p, hp⟩, ⟨q, hq⟩⟩ := hw.aligned i hi
      obtain ⟨h1, h2⟩ := hr
      unfold rangeToIdx groupOrderNumShift
      rw [fixedItemSize_eq] at hp hq
      omega
    have hscan := hw.scan hi hin
    rw [hidx] at hscan
    refine ⟨_, by rw [rangeToItem, hscan]; rfl, fun hnode => ?_⟩
    have hback := itemToIdx_of_window hnw hin (by rw [hidx]) hnode
    unfold itemToRange
    rw [hback]
    unfold idxToRange
    rw [BitVec.toInt_eq_toNat_of_lt, hidx]
    · have h2 := hr.2
      unfold rangeToIdx groupOrderNumShift
      rw [fixedItemSize_eq]
      omega
    · rw [hidx]
      have h2 := hr.2
      unfold rangeToIdx groupOrderNumShift
      omega

/-- The windows of the memory dimension with one node of 1 GiB at 2 GiB, the others empty. -/
theorem oneWindow : NodeWindows (initNode zeroed 16 0x80000000 0x40000000) dimMemory where
  aligned := by decide
  noWrap := by decide
  disjoint i hi j hj hij a h := by
    have hempty : ∀ k < nodeLvlNum, k ≠ 0 →
        ((initNode zeroed 16 0x80000000 0x40000000).nodes (.phy (pnodeAt dimMemory k))).size = 0 := by
      decide
    obtain ⟨hi', hj'⟩ := h
    unfold Holds at hi' hj'
    by_cases h0 : i = 0
    · rw [hempty j hj (by omega)] at hj'
      omega
    · rw [hempty i hi h0] at hi'
      omega

/-- The index of 2 GiB is in the window of node 16, and its descriptor is found. -/
theorem idx_translation_node16 :
    ∃ item, idxToItem (initNode zeroed 16 0x80000000 0x40000000) 0x80000#64 dimMemory = some item ∧
      item = (0x80000 : Nat) - rangeToIdx 0x80000000 := by
  obtain ⟨-, h, -⟩ := idx_translation oneWindow
  obtain ⟨-, -, item, h1, h2, -⟩ := h 0x80000#64 0 (by decide) (by unfold InWindow; decide)
  exact ⟨item, h1, by rw [h2]; decide⟩

end TensorAlloc
