/-
  File:      TensorAlloc/SparseRuns.lean
  Subject:   A sparse group under any run of allocations and frees.

  * `SparseNode` -- the group: its item arrays, each divided into free blocks and blocks handed out, the
    free ones canonical in the sense of `Canonical`;
  * `Cut`, `SparseNode.take` -- an allocation halves a free block;
  * `Freeing`, `SparseNode.give` -- a free never gets stuck, and gathers;
  * **`sparse_history`** -- the free blocks depend on the blocks handed out only, not on the order in
    which they were.
-/
import TensorAlloc.Base.CoalescedSet
import TensorAlloc.FreeArray
import TensorAlloc.Region

namespace TensorAlloc

open DyadicBlocks

/-! ## 1. The group and what is handed out -/

/-- The blocks handed out that start in the array at `base`, from its first descriptor. -/
def arrayHeld (base : Item) (held : List (Item × Nat)) : Multiset Block :=
  ((held.filter fun p => base ≤ p.1 ∧ p.1 < base + arraySize).map fun p => ⟨p.1 - base, p.2⟩ :
    List Block)

/-- The array, divided. -/
def arrayDivision (st : State) (group : Group) (base : Item) (held : List (Item × Nat)) : Division :=
  ⟨(freeArray st group base).val, arrayHeld base held⟩

/-- A block of order `order` as an allocation hands it out. -/
structure HandedOut (st : State) (group : Group) (i : Item) (order : Nat) : Prop where
  small : order < maxItemOrder
  present : presentBit st i = 1
  unlinked : (st.items i).onList = none
  movable : itemStateToMigration (getItemState (st.items i).flags) = some .sparseMovable
  node : getItemNode (st.items i).flags = (st.nodeOf group).nodeId % 2 ^ ItemField.node.offset

/-- How often the array's blocks, free and handed out, hold its descriptor `d`. -/
def timesHeld (st : State) (group : Group) (base : Item) (held : List (Item × Nat)) (d : Nat) : Nat :=
  cover ((arrayDivision st group base held).free + (arrayDivision st group base held).live) d

/-- The group of level `lvl` with its item arrays `bases`, the blocks `held` handed out:

    * `home` -- what is on its lists and not present is in one of the arrays;
    * `tables` -- what is present there is a table;
    * `clear` -- a table lies in no block;
    * `whole` -- in a block no descriptor is partly free. -/
structure SparseNode (st : State) (group : Group) (lvl : Nat) (bases : Item → Prop)
    (held : List (Item × Nat)) : Prop where
  linked : st.Linked
  array : ∀ base, bases base →
    sparseOrigin st group ≤ base ∧ arraySize ∣ base - sparseOrigin st group
  entries : ∀ base, bases base → Entries st group base
  home : ∀ k, ∀ i ∈ st.lists (.groupCell group .movable k), presentBit st i = 0 →
    ∃ base, bases base ∧ base ≤ i ∧ i < base + arraySize
  tables : ∀ k, ∀ i ∈ st.lists (.groupCell group .movable k), presentBit st i ≠ 0 →
    k = 0 ∧ (st.items i).prev ≠ none
  clear : ∀ base, bases base → ∀ d, 0 < timesHeld st group base held d →
    presentBit st (base + d) ≠ 0 → (st.items (base + d)).onList = none
  whole : ∀ base, bases base → ∀ d, 0 < timesHeld st group base held d → Whole (st.items (base + d))
  canonical : ∀ base, bases base → Canonical (sparseCap lvl) (freeArray st group base)
  apart : ∀ base, bases base → ∀ d, timesHeld st group base held d ≤ 1
  handed : ∀ p ∈ held, HandedOut st group p.1 p.2 ∧
    ∃ base, bases base ∧ base ≤ p.1 ∧ p.1 < base + arraySize ∧ 2 ^ p.2 ∣ p.1 - base

section Facts

variable {st st' : State} {group : Group} {lvl : Nat} {bases : Item → Prop} {held : List (Item × Nat)}
  {base base' i : Item} {order d d' : Nat} {b : Block}

theorem arrayHeld_cons_in (h1 : base ≤ i) (h2 : i < base + arraySize) :
    arrayHeld base ((i, order) :: held) = ⟨i - base, order⟩ ::ₘ arrayHeld base held := by
  unfold arrayHeld
  rw [List.filter_cons, if_pos (decide_eq_true ⟨h1, h2⟩)]
  rfl

theorem arrayHeld_cons_out (h : ¬ (base ≤ i ∧ i < base + arraySize)) :
    arrayHeld base ((i, order) :: held) = arrayHeld base held := by
  unfold arrayHeld
  rw [List.filter_cons, if_neg (by rw [decide_eq_true_eq]; exact h)]

theorem arrayHeld_perm {held' : List (Item × Nat)} (h : held.Perm held') :
    arrayHeld base held = arrayHeld base held' :=
  Multiset.coe_eq_coe.mpr ((h.filter _).map _)

theorem mem_arrayHeld {p : Item × Nat} (hp : p ∈ held) (h1 : base ≤ p.1) (h2 : p.1 < base + arraySize) :
    (⟨p.1 - base, p.2⟩ : Block) ∈ arrayHeld base held :=
  Multiset.mem_coe.mpr (List.mem_map.mpr ⟨p, List.mem_filter.mpr ⟨hp, decide_eq_true ⟨h1, h2⟩⟩, rfl⟩)

/-- A free block, by the link of its head. -/
theorem mem_freeArray_onList (hL : st.Linked) : b ∈ freeArray st group base ↔
    b.start < arraySize ∧ b.log ≤ maxItemOrder ∧
      (st.items (base + b.start)).onList = some (.groupCell group .movable b.log) ∧
      presentBit st (base + b.start) = 0 := by
  rw [mem_freeArray, hL.mem]

/-- Arrays that count from one origin are apart. -/
theorem array_base {o x y : Nat} (hx : o ≤ x) (hy : o ≤ y) (hx' : arraySize ∣ x - o)
    (hy' : arraySize ∣ y - o) (hd : d < arraySize) (hd' : d' < arraySize) (he : x + d = y + d') :
    x = y := by
  rw [arraySize_eq] at hx' hy' hd hd'
  omega

/-- Two arrays have no descriptor in common. -/
theorem SparseNode.array_unique (h : SparseNode st group lvl bases held) (hb : bases base)
    (hb' : bases base') (hd : d < arraySize) (hd' : d' < arraySize) (he : base + d = base' + d') :
    base = base' := by
  obtain ⟨h1, h2⟩ := h.array base hb
  obtain ⟨h1', h2'⟩ := h.array base' hb'
  exact array_base h1 h1' h2 h2' hd hd' he

/-- A block that starts in the array and is aligned ends in it. -/
theorem lt_of_aligned {x : Nat} (hx : x < arraySize) (ho : b.log ≤ maxItemOrder) (ha : b.Aligned)
    (hs : b.start = x) (hd : d ∈ b) : d < arraySize := by
  subst hs
  have hsize : (2 : Nat) ^ b.log ∣ arraySize := Nat.pow_dvd_pow 2 (by
    rw [maxItemOrder_eq] at ho
    show b.log ≤ 9
    omega)
  obtain ⟨q, hq⟩ := ha
  obtain ⟨n, hn⟩ := hsize
  have hlt : q < n := by
    rw [hq, hn] at hx
    exact Nat.lt_of_mul_lt_mul_left hx
  have hle : 2 ^ b.log * (q + 1) ≤ 2 ^ b.log * n := Nat.mul_le_mul_left _ hlt
  rw [Nat.mul_succ, ← hq, ← hn] at hle
  exact Nat.lt_of_lt_of_le hd.2 hle

/-- A free block's descriptors are the array's. -/
theorem SparseNode.free_lt (h : SparseNode st group lvl bases held) (hb : bases base)
    (hm : b ∈ freeArray st group base) (hd : d ∈ b) : d < arraySize := by
  obtain ⟨h1, h2, -, -⟩ := mem_freeArray.mp hm
  exact lt_of_aligned h1 h2 ((h.canonical base hb).aligned b hm) rfl hd

theorem timesHeld_free (hm : b ∈ freeArray st group base) (hd : d ∈ b) :
    0 < timesHeld st group base held d :=
  cover_pos.mpr ⟨b, Multiset.mem_add.mpr (.inl hm), hd⟩

/-- **Inside a free block nothing is linked.** -/
theorem SparseNode.interior (h : SparseNode st group lvl bases held) (hb : bases base)
    (hm : b ∈ freeArray st group base) (hd : d ∈ b) (hne : d ≠ b.start) :
    (st.items (base + d)).onList = none := by
  cases ho : (st.items (base + d)).onList with
  | none => rfl
  | some l =>
      exfalso
      by_cases hp : presentBit st (base + d) = 0
      · obtain ⟨k, hk, rfl, -⟩ := (h.entries base hb).heads d (h.free_lt hb hm hd) l ho hp
        have hin : (⟨d, k⟩ : Block) ∈ freeArray st group base :=
          (mem_freeArray_onList h.linked).mpr ⟨h.free_lt hb hm hd, hk, ho, hp⟩
        have := (h.canonical base hb).apart.eq_of_mem hm hin hd (start_mem ⟨d, k⟩)
        exact hne (by rw [this])
      · rw [h.clear base hb d (timesHeld_free hm hd) hp] at ho
        cases ho

/-- A block handed out has no descriptor of a free one. -/
theorem SparseNode.handed_apart (h : SparseNode st group lvl bases held) (hb : bases base)
    (hm : b ∈ freeArray st group base) {p : Item × Nat} (hp : p ∈ held) (hd : d ∈ b) :
    base + d ≠ p.1 := by
  intro e
  have hlt := h.free_lt hb hm hd
  have hap : Apart ((freeArray st group base).val + arrayHeld base held) := h.apart base hb
  refine hap.not_both hm hd (mem_arrayHeld hp (e ▸ Nat.le_add_right _ _)
    (e ▸ Nat.add_lt_add_left hlt base)) ?_
  have hself := start_mem (⟨p.1 - base, p.2⟩ : Block)
  rwa [← e, Nat.add_sub_cancel_left] at hself ⊢

end Facts

/-! ## 2. One operation -/

/-- What an operation on the array at `base` leaves alone: the descriptors outside it, and what is
    linked and present. -/
structure ArrayStep (st st' : State) (group : Group) (base : Item) : Prop where
  entries : Entries st' group base
  tables : st'.tables = st.tables
  nodes : st'.nodes = st.nodes
  drift : st'.drift = st.drift
  out : ∀ i, (∀ d < arraySize, i ≠ base + d) → st'.items i = st.items i
  kept : ∀ i, (st'.items i).onList ≠ none → presentBit st' i ≠ 0 → st'.items i = st.items i
  whole : ∀ i, Whole (st.items i) → Whole (st'.items i)

/-- What operations leave of the group:

    * `reach` -- each array is divided by takes and gives;
    * `stuck` -- a free block of the last order stays where it is. -/
structure SparseStepped (st st' : State) (group : Group) (lvl : Nat) (bases : Item → Prop)
    (held held' : List (Item × Nat)) : Prop where
  node : SparseNode st' group lvl bases held'
  tables : st'.tables = st.tables
  nodes : st'.nodes = st.nodes
  drift : st'.drift = st.drift
  reach : ∀ base, bases base →
    (arrayDivision st group base held).Reach (arrayDivision st' group base held')
  stuck : ∀ base, bases base → ∀ b ∈ freeArray st group base, b.log = maxItemOrder →
    b ∈ freeArray st' group base

section Steps

variable {st st' st'' : State} {group : Group} {lvl : Nat} {bases : Item → Prop}
  {held held' held'' : List (Item × Nat)} {base base' i : Item} {order oi X d : Nat}

theorem SparseStepped.refl (h : SparseNode st group lvl bases held) :
    SparseStepped st st group lvl bases held held :=
  ⟨h, rfl, rfl, rfl, fun _ _ => .refl, fun _ _ _ hb _ => hb⟩

theorem SparseStepped.trans (h : SparseStepped st st' group lvl bases held held')
    (h' : SparseStepped st' st'' group lvl bases held' held'') :
    SparseStepped st st'' group lvl bases held held'' where
  node := h'.node
  tables := h'.tables.trans h.tables
  nodes := h'.nodes.trans h.nodes
  drift := h'.drift.trans h.drift
  reach base hb := (h.reach base hb).trans (h'.reach base hb)
  stuck base hb b hm hk := h'.stuck base hb b (h.stuck base hb b hm hk) hk

/-- The other arrays are outside. -/
theorem ArrayStep.other (hS : ArrayStep st st' group base) (h : SparseNode st group lvl bases held)
    (hb : bases base) (hb' : bases base') (hne : base' ≠ base) (hd : d < arraySize) :
    st'.items (base' + d) = st.items (base' + d) :=
  hS.out _ fun _ hd' e => hne (h.array_unique hb' hb hd hd' e)

theorem ArrayStep.freeArray_other (hS : ArrayStep st st' group base)
    (h : SparseNode st group lvl bases held) (hb : bases base) (hb' : bases base') (hne : base' ≠ base) :
    freeArray st' group base' = freeArray st group base' := by
  ext b
  rw [mem_freeArray_onList h.linked, mem_freeArray_onList hS.entries.linked]
  unfold presentBit
  refine and_congr_right fun hlt => ?_
  rw [hS.other h hb hb' hne hlt]

/-- **The group after an operation on one array**, which cut or gave back a block there. -/
theorem SparseNode.stepped (h : SparseNode st group lvl bases held) (hb : bases base)
    (hS : ArrayStep st st' group base) (hC : Canonical (sparseCap lvl) (freeArray st' group base))
    (hstep : (arrayDivision st group base held).Step (arrayDivision st' group base held'))
    (hheld : ∀ base', bases base' → base' ≠ base → arrayHeld base' held' = arrayHeld base' held)
    (hhanded : ∀ p ∈ held', HandedOut st' group p.1 p.2 ∧
      ∃ base, bases base ∧ base ≤ p.1 ∧ p.1 < base + arraySize ∧ 2 ^ p.2 ∣ p.1 - base)
    (hstuck : ∀ b ∈ freeArray st group base, b.log = maxItemOrder → b ∈ freeArray st' group base) :
    SparseStepped st st' group lvl bases held held' := by
  have horigin : sparseOrigin st' group = sparseOrigin st group := by
    unfold sparseOrigin State.nodeOf
    rw [hS.tables, hS.nodes]
  have hdivision : ∀ base', bases base' → base' ≠ base →
      arrayDivision st' group base' held' = arrayDivision st group base' held := by
    intro base' hb' hne
    unfold arrayDivision
    rw [hS.freeArray_other h hb hb' hne, hheld base' hb' hne]
  have hcover : ∀ base', bases base' → ∀ d,
      timesHeld st' group base' held' d = timesHeld st group base' held d := by
    intro base' hb' d
    unfold timesHeld
    by_cases hne : base' = base
    · rw [hne]
      exact hstep.cover d
    · rw [hdivision base' hb' hne]
  refine ⟨{
    linked := hS.entries.linked
    array := fun base' hb' => by rw [horigin]; exact h.array base' hb'
    entries := fun base' hb' => ?_
    home := fun k i hi hp => ?_
    tables := fun k i hi hp => ?_
    clear := fun base' hb' d hd hp => ?_
    whole := fun base' hb' d hd =>
      hS.whole _ (h.whole base' hb' d (by rwa [← hcover base' hb' d]))
    canonical := fun base' hb' => ?_
    apart := fun base' hb' d => by rw [hcover base' hb' d]; exact h.apart base' hb' d
    handed := hhanded }, hS.tables, hS.nodes, hS.drift, fun base' hb' => ?_, fun base' hb' => ?_⟩
  · by_cases hne : base' = base
    · rw [hne]
      exact hS.entries
    · refine ⟨hS.entries.linked, fun X hX l hl hp => ?_⟩
      have hsame := hS.other h hb hb' hne hX
      unfold presentBit at hp
      rw [hsame] at hl hp ⊢
      exact (h.entries base' hb').heads X hX l hl hp
  · by_cases hin : ∃ d < arraySize, i = base + d
    · obtain ⟨d, hd, rfl⟩ := hin
      exact ⟨base, hb, Nat.le_add_right _ _, Nat.add_lt_add_left hd _⟩
    · have hsame := hS.out i fun d hd e => hin ⟨d, hd, e⟩
      have hon := (hS.entries.linked.mem _ _).mpr hi
      unfold presentBit at hp
      rw [hsame] at hon hp
      exact h.home k i ((h.linked.mem _ _).mp hon) hp
  · have hon := (hS.entries.linked.mem _ _).mpr hi
    have hsame := hS.kept i (by rw [hon]; exact Option.some_ne_none _) hp
    unfold presentBit at hp
    rw [hsame] at hon hp ⊢
    exact h.tables k i ((h.linked.mem _ _).mp hon) hp
  · by_contra hon
    have hsame := hS.kept _ hon hp
    unfold presentBit at hp
    rw [hsame] at hon hp
    exact hon (h.clear base' hb' d (by rwa [← hcover base' hb' d]) hp)
  · by_cases hne : base' = base
    · rw [hne]
      exact hC
    · rw [hS.freeArray_other h hb hb' hne]
      exact h.canonical base' hb'
  · by_cases hne : base' = base
    · rw [hne]
      exact .single hstep
    · rw [hdivision base' hb' hne]
  · by_cases hne : base' = base
    · rw [hne]
      exact hstuck
    · rw [hS.freeArray_other h hb hb' hne]
      exact fun b hm _ => hm

end Steps

/-! ## 3. Allocating -/

/-- **A block of order `order` cut out of the free one of order `oi` at descriptor `X`.** -/
structure Cut (st st' : State) (group : Group) (lvl : Nat) (base : Item) (X order oi : Nat) : Prop where
  le : order ≤ oi
  lt : oi < maxItemOrder
  listed : (⟨X, oi⟩ : Block) ∈ freeArray st group base
  linked : st'.Linked
  tables : st'.tables = st.tables
  nodes : st'.nodes = st.nodes
  drift : st'.drift = st.drift
  handed : HandedOut st' group (base + X) order
  freeidx : getItemFreeidx (st'.items (base + X)).flags = arraySize
  pieces : ∀ k, order ≤ k → k < oi → st'.items (base + X + 2 ^ k) =
    putBack group .movable (st.nodeOf group).nodeId lvl k (st.items (base + X + 2 ^ k))
  others : ∀ i, i ≠ base + X → (∀ k, order ≤ k → k < oi → i ≠ base + X + 2 ^ k) →
    st'.items i = st.items i

section Take

variable {st st' : State} {group : Group} {lvl : Nat} {bases : Item → Prop}
  {held : List (Item × Nat)} {base i : Item} {order oi X d k : Nat}

/-- What the allocation finds is a free block. -/
theorem SparseNode.finds (h : SparseNode st group lvl bases held)
    {isTable : Bool} (hs : searchList st group .sparseMovable isTable oi = some i)
    (hoi : oi ≤ maxItemOrder) :
    ∃ base, bases base ∧ ∃ X, i = base + X ∧ (⟨X, oi⟩ : Block) ∈ freeArray st group base := by
  have hi : i ∈ st.lists (.groupCell group .movable oi) := searchList_mem hs
  have hp : presentBit st i = 0 := by
    by_contra hne
    obtain ⟨h0, hprev⟩ := h.tables oi i hi hne
    unfold searchList at hs
    split at hs
    · cases hs
    · have := List.find?_some hs
      simp [eligible, h0] at this
      exact hprev this
  obtain ⟨base, hb, h1, h2⟩ := h.home oi i hi hp
  obtain ⟨X, rfl⟩ := Nat.exists_eq_add_of_le h1
  exact ⟨base, hb, X, rfl, mem_freeArray.mpr ⟨Nat.lt_of_add_lt_add_left h2, hoi, hi, hp⟩⟩

/-- The halves are inside the block. -/
theorem half_mem (hk : k < oi) : X + 2 ^ k ∈ (⟨X, oi⟩ : Block) := by
  have := Nat.pow_lt_pow_right (show 1 < 2 by decide) hk
  exact mem_mk.mpr ⟨Nat.le_add_right _ _, Nat.add_lt_add_left this X⟩

/-- **An allocation cuts a free block.** -/
theorem SparseNode.cut (h : SparseNode st group lvl bases held) {isTable : Bool}
    (hr : removeGroupMigration st group lvl order .sparseMovable isTable = some (st', some i)) :
    ∃ base, bases base ∧ ∃ X oi, i = base + X ∧ Cut st st' group lvl base X order oi := by
  obtain ⟨m, oi, hm, hle, hlt, hs, -, rfl⟩ := removeGroupMigration_some h.linked hr
  have hoi : oi < maxItemOrder := by
    simp only [maxOrderOf, if_true, Option.some.injEq, functionItem_range] at hm
    simp only [maxItemOrder_eq]
    omega
  obtain ⟨base, hb, X, rfl, hf⟩ := h.finds hs (Nat.le_of_lt hoi)
  have hin : base + X ∈ st.lists (.groupCell group .sparseMovable oi) := (mem_freeArray.mp hf).2.2.1
  have hon := (h.linked.mem _ _).mpr hin
  have hR : Regathered st group (base + X) lvl order oi _ ⟨base + X, _, order, order, none⟩ :=
    Regathered.start hle (Nat.le_of_lt hoi) rfl rfl rfl rfl
  have hhalf : ∀ k, k < oi → halfAt .sparseMovable lvl (base + X) k = base + (X + 2 ^ k) := by
    intro k hk
    rw [halfAt_movable (Nat.le_of_lt (Nat.lt_trans hk hoi)), Nat.add_assoc]
  have hclear : ∀ k, k < oi → (st.items (base + (X + 2 ^ k))).onList = none := fun k hk =>
    h.interior hb hf (half_mem hk) (Nat.ne_of_gt (Nat.lt_add_of_pos_right (Nat.two_pow_pos k)))
  have hoff : (st.takeOff (.groupCell group .sparseMovable oi) (base + X)).Linked :=
    (h.linked.listDel (listDel_of hon)).countDec _
  obtain ⟨hlinked, hsame⟩ := @splitGroup_linked _ lvl .sparseMovable (base + X) group order oi hle hoff
    (fun k _ hk => by rw [hhalf k hk, ← Nat.add_assoc]; exact add_two_pow_ne k _)
    (fun k _ hk => by
      rw [hhalf k hk]
      have hne : base + (X + 2 ^ k) ≠ base + X := by rw [← Nat.add_assoc]; exact add_two_pow_ne k _
      simp only [State.takeOff, State.countDec_items, State.modItem_items, State.setList_items, if_neg hne]
      exact hclear k hk)
  -- the head keeps the state bits it had on the list
  obtain ⟨k, -, -, hhead⟩ := (h.entries base hb).heads X (h.free_lt hb hf (start_mem _)) _ hon
    (mem_freeArray.mp hf).2.2.2
  have hstate := hhead.movable
  have hbefore : ((splitLoop group (base + X) lvl order .sparseMovable (oi - order)
      (st.takeOff (.groupCell group .sparseMovable oi) (base + X))).items (base + X)).flags =
        (st.items (base + X)).flags := by
    rw [splitLoop_items_other]
    · simp [State.takeOff]
    · intro k hk
      rw [hhalf _ (by omega), ← Nat.add_assoc]
      exact (add_two_pow_ne _ _).symm
  have htables : (splitGroupMigration (st.takeOff (.groupCell group .sparseMovable oi) (base + X)) group
      (base + X) lvl order oi .sparseMovable).tables = st.tables := by
    simp [splitGroupMigration, State.takeOff]
  have hnodes : (splitGroupMigration (st.takeOff (.groupCell group .sparseMovable oi) (base + X)) group
      (base + X) lvl order oi .sparseMovable).nodes = st.nodes := by
    simp [splitGroupMigration, State.takeOff]
  refine ⟨base, hb, X, oi, rfl, hle, hoi, hf, hlinked, htables, hnodes, ?_, ⟨?_, ?_, ?_, ?_, ?_⟩, ?_,
    hR.pieces, hR.others⟩
  · exact (splitGroupMigration_releases _ _ _ _ _ _ _).drift.trans (takeOff_drift hin)
  · exact Nat.lt_of_le_of_lt hle hoi
  · unfold presentBit
    simp [splitGroupMigration, ItemField.offset]
  · rw [hsame]
    simp [State.takeOff]
  · simpa [splitGroupMigration, hbefore] using hstate
  · unfold State.nodeOf
    rw [htables, hnodes]
    simp [splitGroupMigration]
    rfl
  · simp [splitGroupMigration, ItemField.offset]

/-- What a cut leaves of a descriptor: it is the head, the first of a half, or as it was. -/
theorem Cut.cases (hC : Cut st st' group lvl base X order oi) (i : Item) : i = base + X ∨
    (∃ k, order ≤ k ∧ k < oi ∧ i = base + X + 2 ^ k ∧
      st'.items i = putBack group .movable (st.nodeOf group).nodeId lvl k (st.items i)) ∨
    (i ≠ base + X ∧ (∀ k, order ≤ k → k < oi → i ≠ base + X + 2 ^ k) ∧ st'.items i = st.items i) := by
  by_cases hX : i = base + X
  · exact .inl hX
  · by_cases hk : ∃ k, order ≤ k ∧ k < oi ∧ i = base + X + 2 ^ k
    · obtain ⟨k, h1, h2, rfl⟩ := hk
      exact .inr (.inl ⟨k, h1, h2, rfl, hC.pieces k h1 h2⟩)
    · have hno : ∀ k, order ≤ k → k < oi → i ≠ base + X + 2 ^ k :=
        fun k h1 h2 e => hk ⟨k, h1, h2, e⟩
      exact .inr (.inr ⟨hX, hno, hC.others i hX hno⟩)

/-- **The free blocks after a cut**: the block gave way to its halves. -/
theorem Cut.freeArray (hC : Cut st st' group lvl base X order oi)
    (h : SparseNode st group lvl bases held) (hb : bases base) : freeArray st' group base =
      (freeArray st group base).erase ⟨X, oi⟩ ∪ halves X order oi := by
  have hap := (h.canonical base hb).apart
  ext b
  obtain ⟨x, n⟩ := b
  rw [Finset.mem_union, Finset.mem_erase, mem_halves, mem_freeArray_onList hC.linked]
  rcases hC.cases (base + x) with e | ⟨k, h1, h2, e, hput⟩ | ⟨hne, hno, hsame⟩
  · obtain rfl : x = X := Nat.add_left_cancel e
    constructor
    · intro hl
      rw [hC.handed.unlinked] at hl
      cases hl.2.2.1
    · rintro (⟨hne, hin⟩ | hhalf)
      · exact absurd (hap.eq_of_mem hin hC.listed (start_mem ⟨x, n⟩) (start_mem ⟨x, oi⟩)) hne
      · exact absurd hhalf.2.2.symm (add_two_pow_ne n x)
  · obtain rfl : x = X + 2 ^ k := Nat.add_left_cancel (e.trans (Nat.add_assoc _ _ _))
    have hmem := half_mem (X := X) h2
    unfold presentBit
    rw [hput]
    constructor
    · intro hl
      have hkn : k = n := (ListHead.groupCell.inj (Option.some.inj hl.2.2.1)).2.2
      subst hkn
      exact .inr ⟨h1, h2, rfl⟩
    · rintro (⟨-, hin⟩ | hhalf)
      · have hon := ((mem_freeArray_onList h.linked).mp hin).2.2.1
        rw [h.interior hb hC.listed hmem (add_two_pow_ne k X)] at hon
        cases hon
      · have hkn : k = n := Nat.pow_right_injective (Nat.le_refl 2) (Nat.add_left_cancel hhalf.2.2)
        subst hkn
        refine ⟨h.free_lt hb hC.listed hmem, Nat.le_of_lt (Nat.lt_trans h2 hC.lt), rfl, ?_⟩
        simp [putBack]
  · unfold presentBit
    rw [hsame, ← presentBit, ← mem_freeArray_onList h.linked]
    constructor
    · exact fun hin => .inl ⟨fun e => hne (by rw [(Block.mk.inj e).1]), hin⟩
    · rintro (hin | ⟨h1, h2, e⟩)
      · exact hin.2
      · exact absurd (by rw [show x = X + 2 ^ n from e, Nat.add_assoc]) (hno n h1 h2)

theorem Cut.arrayStep (hC : Cut st st' group lvl base X order oi)
    (h : SparseNode st group lvl bases held) (hb : bases base) : ArrayStep st st' group base where
  entries := by
    refine ⟨hC.linked, fun x hx l hl hp => ?_⟩
    rcases hC.cases (base + x) with e | ⟨k, h1, h2, e, hput⟩ | ⟨hne, hno, hsame⟩
    · rw [e, hC.handed.unlinked] at hl
      cases hl
    · have hk : k ≤ maxItemOrder := Nat.le_of_lt (Nat.lt_trans h2 hC.lt)
      obtain rfl : x = X + 2 ^ k := Nat.add_left_cancel (e.trans (Nat.add_assoc _ _ _))
      have hw : Whole (st.items (base + (X + 2 ^ k))) :=
        h.whole base hb _ (timesHeld_free hC.listed (half_mem h2))
      rw [hput] at hl ⊢
      refine ⟨k, hk, (Option.some.inj hl).symm, ?_, ?_, ?_⟩
      · rw [maxItemOrder_eq] at hk
        simp [putBack, ItemField.offset, Nat.mod_eq_of_lt (show k < 16 by omega)]
      · simp [putBack, itemStateToMigration, itemStates]
      · unfold Whole at hw ⊢
        simpa [putBack] using hw
    · unfold presentBit at hp
      rw [hsame] at hl hp ⊢
      exact (h.entries base hb).heads x hx l hl hp
  tables := hC.tables
  nodes := hC.nodes
  drift := hC.drift
  out i hi := by
    rcases hC.cases i with e | ⟨k, -, h2, e, -⟩ | ⟨-, -, hsame⟩
    · exact absurd e (hi X (h.free_lt hb hC.listed (start_mem _)))
    · exact absurd (e.trans (Nat.add_assoc _ _ _)) (hi _ (h.free_lt hb hC.listed (half_mem h2)))
    · exact hsame
  kept i hon hp := by
    rcases hC.cases i with e | ⟨k, -, -, -, hput⟩ | ⟨-, -, hsame⟩
    · rw [e, hC.handed.unlinked] at hon
      exact absurd rfl hon
    · unfold presentBit at hp
      rw [hput] at hp
      exact absurd (by simp [putBack]) hp
    · exact hsame
  whole i hw := by
    rcases hC.cases i with e | ⟨k, -, -, -, hput⟩ | ⟨-, -, hsame⟩
    · rw [e]
      exact .inr hC.freeidx
    · rw [hput]
      unfold Whole at hw ⊢
      simpa [putBack] using hw
    · rwa [hsame]

/-- **An allocation keeps the group**: one block more is handed out. -/
theorem SparseNode.take (h : SparseNode st group lvl bases held) {isTable : Bool}
    (hr : removeGroupMigration st group lvl order .sparseMovable isTable = some (st', some i)) :
    SparseStepped st st' group lvl bases held ((i, order) :: held) := by
  obtain ⟨base, hb, X, oi, rfl, hC⟩ := h.cut hr
  have hcan := h.canonical base hb
  have hfree := hC.freeArray h hb
  have hlt := h.free_lt hb hC.listed (start_mem _)
  have hX : 2 ^ oi ∣ X := hcan.aligned _ hC.listed
  have hwithin : base + X < base + arraySize := Nat.add_lt_add_left hlt _
  refine h.stepped hb (hC.arrayStep h hb) ?_ ?_ (fun base' hb' hne => ?_) (fun p hp => ?_)
    fun b hm hk => ?_
  · rw [hfree]
    exact hcan.take hC.listed hC.le
  · unfold arrayDivision
    rw [hfree, arrayHeld_cons_in (Nat.le_add_right _ _) hwithin, Nat.add_sub_cancel_left]
    exact take_step hcan.apart hC.listed hC.le
  · refine arrayHeld_cons_out fun hin => hne ?_
    obtain ⟨d, hd⟩ := Nat.exists_eq_add_of_le hin.1
    refine h.array_unique hb' hb (d := d) ?_ hlt hd.symm
    have := hin.2
    rw [hd] at this
    exact Nat.lt_of_add_lt_add_left this
  · rcases List.mem_cons.mp hp with rfl | hp
    · refine ⟨hC.handed, base, hb, Nat.le_add_right _ _, hwithin, ?_⟩
      rw [Nat.add_sub_cancel_left]
      exact (Nat.pow_dvd_pow 2 hC.le).trans hX
    · obtain ⟨hH, hplace⟩ := h.handed p hp
      have hsame : st'.items p.1 = st.items p.1 := by
        refine hC.others _ (fun e => ?_) fun k _ h2 e => ?_
        · exact h.handed_apart hb hC.listed hp (start_mem _) e.symm
        · exact h.handed_apart hb hC.listed hp (half_mem h2) (e.trans (Nat.add_assoc _ _ _)).symm
      refine ⟨⟨hH.small, ?_, ?_, ?_, ?_⟩, hplace⟩
      · unfold presentBit
        rw [hsame]
        exact hH.present
      · rw [hsame]
        exact hH.unlinked
      · rw [hsame]
        exact hH.movable
      · unfold State.nodeOf
        rw [hsame, hC.tables, hC.nodes]
        exact hH.node
  · rw [hfree]
    refine Finset.mem_union_left _ (Finset.mem_erase.mpr ⟨?_, hm⟩)
    rintro rfl
    exact absurd hk (Nat.ne_of_lt hC.lt)

end Take

/-! ## 4. Freeing -/

/-- What the merge keeps beside `Gathering`, from the state `st0` in which `item` is freed: it writes
    nothing but `item` and heads of free blocks, and what is still linked it has not written. -/
structure Freeing (st0 : State) (base : Item) (lvl : Nat) (item : Item) (st : State) (v : MergeVars) :
    Prop where
  tables : st.tables = st0.tables
  nodes : st.nodes = st0.nodes
  drift : st.drift = st0.drift
  out : ∀ i, (∀ d < arraySize, i ≠ base + d) → st.items i = st0.items i
  linked : ∀ i, (st.items i).onList ≠ none → st.items i = st0.items i
  touched : ∀ i, st.items i = st0.items i ∨ i = item ∨ (st0.items i).onList ≠ none
  head : v.item = item ∨ (st0.items v.item).onList ≠ none
  whole : ∀ i, Whole (st0.items i) → Whole (st.items i)
  movable : itemStateToMigration (getItemState (st.items v.item).flags) = some .sparseMovable
  capped : v.order ≤ sparseCap lvl

section Give

variable {st0 st st' : State} {group : Group} {lvl : Nat} {bases : Item → Prop}
  {held : List (Item × Nat)} {base item : Item} {order A X Y : Nat} {given : Block}
  {v v' : MergeVars} {exit : MergeExit} {tail : Bool}

theorem Freeing.clear (h : Freeing st0 base lvl item st v) (hG : Gathering st0 group base A given st Y v) :
    Freeing st0 base lvl item (st.modFlags v.item clearItemPresent) v := by
  have hitems : ∀ i, i ≠ v.item → (st.modFlags v.item clearItemPresent).items i = st.items i :=
    fun i hi => by rw [State.modFlags_items, if_neg hi]
  refine ⟨h.tables, h.nodes, (drift_congr rfl rfl).trans h.drift, fun i hi => ?_, fun i hi => ?_,
    fun i => ?_, h.head, fun i hi => ?_, ?_, h.capped⟩
  · rw [hitems i (by rw [hG.item]; exact hi Y hG.inArray)]
    exact h.out i hi
  · rw [modFlags_onList] at hi
    rw [hitems i ?_]
    · exact h.linked i hi
    · rintro rfl
      rw [hG.item] at hi
      exact hi hG.unlinked
  · by_cases hi : i = v.item
    · rw [hi]
      exact .inr h.head
    · rw [hitems i hi]
      exact h.touched i
  · have hw := h.whole i hi
    unfold Whole at hw ⊢
    rw [State.modFlags_items]
    split
    · next e => simpa [← e] using hw
    · exact hw
  · rw [State.modFlags_items, if_pos rfl]
    simpa using h.movable

/-- A merge leaves `freeidx` or clears it. -/
theorem mergeBuddy_whole {mt : MigrationType} {y : Nat} {page : Item}
    (hm : mergeBuddy st group mt v y page = some (st', v')) (i : Item) (hw : Whole (st.items i)) :
    Whole (st'.items i) := by
  obtain ⟨st1, hd, -, rfl⟩ := mergeBuddy_eq hm
  obtain ⟨l, -, rfl⟩ := listDel_some hd
  unfold Whole at hw ⊢
  simp only [State.modFlags_items, State.countDec_items, State.modItem_items, State.setList_items]
  split <;> split <;> split <;> simp_all

/-- The class of the pair's head. -/
theorem mergeBuddy_movable {mt : MigrationType} {y : Nat} {page : Item}
    (hm : mergeBuddy st group mt v y page = some (st', v')) (hne : page ≠ v.item)
    (hcomb : combinedItem v y = v.item ∨ combinedItem v y = page)
    (hpage : itemStateToMigration (getItemState (st.items page).flags) = some .sparseMovable) :
    itemStateToMigration (getItemState (st'.items v'.item).flags) = some .sparseMovable := by
  obtain ⟨st1, hd, rfl, rfl⟩ := mergeBuddy_eq hm
  obtain ⟨l, -, rfl⟩ := listDel_some hd
  rcases hcomb with e | e
  · simp [e, Ne.symm hne, itemStateToMigration, itemStates]
  · simpa [e, hne] using hpage

/-- **One merge.** -/
theorem Freeing.merge (h : Freeing st0 base lvl item st v) (hG : Gathering st0 group base A given st Y v)
    (hA : arraySize ∣ A) (hgiven : given.Aligned) (hcap : v.order < sparseCap lvl)
    (hb : itemIsBuddy (st.items (base + (Y ^^^ 2 ^ v.order))) v.order = true)
    (hv : buddyIsValid .sparseMovable (st.items (base + (Y ^^^ 2 ^ v.order))) = true)
    (hm : mergeBuddy st group .sparseMovable v (nextBuddyIdx v.idx v.orderIndex)
      (v.item + nextBuddyIdx v.idx v.orderIndex - v.idx) = some (st', v')) :
    Freeing st0 base lvl item st' v' := by
  obtain ⟨hpage, hcomb, -⟩ := hG.page hA hgiven
  obtain ⟨hstart, hdiff⟩ := pair_cases (hG.run.aligned hgiven)
  have hT := hG.taken hA hgiven hb hv hm
  rw [hpage] at hm
  -- the buddy was on its list when the free began
  have hon0 : (st0.items (base + (Y ^^^ 2 ^ v.order))).onList ≠ none := by
    rw [← h.linked _ (by rw [hT.onList]; exact Option.some_ne_none _), hT.onList]
    exact Option.some_ne_none _
  have hne : base + (Y ^^^ 2 ^ v.order) ≠ v.item := by
    rw [hG.item]
    exact fun e => hdiff (Nat.add_left_cancel e)
  have hhead : combinedItem v (nextBuddyIdx v.idx v.orderIndex) = v.item ∨
      combinedItem v (nextBuddyIdx v.idx v.orderIndex) = base + (Y ^^^ 2 ^ v.order) := by
    rw [hcomb, hG.item]
    rcases hstart with e | e
    · exact .inl (by rw [e])
    · exact .inr (by rw [e])
  have hclass : itemStateToMigration (getItemState (st.items (base + (Y ^^^ 2 ^ v.order))).flags) =
      some .sparseMovable := by
    simp only [buddyIsValid, Bool.and_eq_true] at hv
    exact of_decide_eq_true hv.2
  have hmovable := mergeBuddy_movable hm hne hhead hclass
  have hwhole := mergeBuddy_whole hm
  obtain ⟨-, -, rfl, -⟩ := mergeBuddy_eq hm
  refine ⟨hT.off.tables.trans h.tables, hT.off.nodes.trans h.nodes, ?_, fun i hi => ?_, fun i hi => ?_,
    fun i => ?_, ?_, fun i hi => hwhole i (h.whole i hi), hmovable, hcap⟩
  · rw [← h.drift]
    funext l
    have hcount := hT.counts l
    have hlist := hT.off.lists l
    by_cases hl : l = .groupCell group .movable v.order
    · rw [if_pos hl] at hcount hlist
      have hin := (hG.entries.linked.mem _ _).mp hT.onList
      rw [hl] at hcount hlist ⊢
      refine drift_loss ?_ hcount
      rw [hlist, List.length_erase_of_mem hin]
      exact Nat.sub_add_cancel (List.length_pos_of_mem hin)
    · rw [if_neg hl] at hlist
      rw [if_neg (by exact hl), sub_zero] at hcount
      unfold State.drift
      rw [hcount, hlist]
  · rw [hT.others i (hi _ (buddy_lt hG.le hG.inArray)) (hi _ hG.inArray)]
    exact h.out i hi
  · have h1 : i ≠ base + (Y ^^^ 2 ^ v.order) := by
      rintro rfl
      exact hi hT.off.page
    have h2 : i ≠ base + Y := by
      rintro rfl
      exact hi (hT.off.head.trans hG.unlinked)
    rw [hT.others i h1 h2] at hi ⊢
    exact h.linked i hi
  · by_cases h1 : i = base + (Y ^^^ 2 ^ v.order)
    · rw [h1]
      exact .inr (.inr hon0)
    · by_cases h2 : i = base + Y
      · rw [h2, ← hG.item]
        exact .inr h.head
      · rw [hT.others i h1 h2]
        exact h.touched i
  · rcases hhead with e | e
    · show combinedItem v _ = item ∨ (st0.items (combinedItem v _)).onList ≠ none
      rw [e]
      exact h.head
    · show combinedItem v _ = item ∨ (st0.items (combinedItem v _)).onList ≠ none
      rw [e]
      exact .inr hon0

/-- **Step: a round of the inner loop.** -/
theorem Freeing.step {e : Option MergeExit} (h : Freeing st0 base lvl item st v)
    (hG : Gathering st0 group base A given st Y v) (hA : arraySize ∣ A) (hgiven : given.Aligned)
    (hs : mergeStep group .sparseMovable maxItemOrder (decide ((lvl : Int) = 0)) st v =
      some (st', v', e)) : Freeing st0 base lvl item st' v' := by
  have hsub : orderSub maxItemOrder 1 = maxItemOrder - 1 := rfl
  have hC := h.clear hG
  have hGC := hG.clear
  have hpage := (hG.page hA hgiven).1
  rcases mergeStep_cases hs with ⟨-, rfl, rfl, -⟩ | ⟨-, rfl, rfl, -⟩ | ⟨-, -, rfl, -, rfl, -⟩ |
    ⟨h1, -, htop, -, -, hb, hv, hm⟩
  · exact h
  · exact hC
  · exact ⟨hC.tables, hC.nodes, hC.drift, hC.out, hC.linked, hC.touched, hC.head, hC.whole, hC.movable,
      hC.capped⟩
  · rw [hpage] at hb hv
    refine hC.merge hGC hA hgiven ?_ hb hv hm
    unfold sparseCap
    split
    · next h0 =>
        have : v.order ≠ orderSub maxItemOrder 1 := fun e => htop ⟨decide_eq_true (by exact_mod_cast h0), e⟩
        omega
    · simp only [maxItemOrder_eq] at hsub h1 ⊢
      omega

/-- What is freed into the array, and the loop that begins with it. -/
theorem Freeing.start (hlvl : order ≤ sparseCap lvl)
    (hmov : itemStateToMigration (getItemState (st.items (base + X)).flags) = some .sparseMovable) :
    Freeing st base lvl (base + X) st ⟨base + X, A + X, order, order, none⟩ :=
  ⟨rfl, rfl, rfl, fun _ _ => rfl, fun _ _ => rfl, fun _ => .inl rfl, .inl rfl, fun _ h => h, hmov, hlvl⟩

/-- Run: the inner loop ends in a gathered block, and keeps the rest. -/
theorem Freeing.loop (h : Freeing st0 base lvl item st v) (hG : Gathering st0 group base A given st Y v)
    (hA : arraySize ∣ A) (hgiven : given.Aligned) :
    ∃ st' Y' v' exit, mergeLoop group .sparseMovable maxItemOrder (decide ((lvl : Int) = 0)) mergeBound
        st v = some (st', v', exit) ∧ Collected st0 group base A given lvl st' Y' v' exit ∧
      Freeing st0 base lvl item st' v' := by
  have hle := hG.le
  obtain ⟨⟨st', v', exit⟩, hs⟩ := mergeLoop_total group .sparseMovable (decide ((lvl : Int) = 0))
    (show 1 ≤ maxItemOrder by decide) (Nat.le_succ _) st v
    (show maxItemOrder < v.order + mergeBound by show 8 < v.order + 65; omega) (by decide)
  have hC : ∃ Y', Collected st0 group base A given lvl st' Y' v' exit ∧
      Freeing st0 base lvl item st' v' := by
    refine mergeLoop_rule
      (fun s w => ∃ Y', Gathering st0 group base A given s Y' w ∧ Freeing st0 base lvl item s w)
      (fun s w exit => ∃ Y', Collected st0 group base A given lvl s Y' w exit ∧
        Freeing st0 base lvl item s w)
      (fun ⟨Y, hG, hF⟩ hstep => ?_) (fun ⟨Y, hG, hF⟩ hstep => ?_) hs ⟨Y, hG, h⟩
    · have hF' := hF.step hG hA hgiven hstep
      rcases hG.step hA hgiven hstep with ⟨-, Y', hG', -⟩ | ⟨_, he, -⟩
      · exact ⟨Y', hG', hF'⟩
      · cases he
    · have hF' := hF.step hG hA hgiven hstep
      rcases hG.step hA hgiven hstep with ⟨he, -⟩ | ⟨_, he, hG'⟩
      · cases he
      · cases he
        exact ⟨Y, hG', hF'⟩
  obtain ⟨Y', hC, hF⟩ := hC
  exact ⟨st', Y', v', exit, hs, hC, hF⟩

/-- The links after the insertion. -/
theorem insertFreed_linked (hL : st.Linked) (hun : (st.items v.item).onList = none)
    (hi : insertFreed .listFirst group .sparseMovable lvl tail st v = some st') : st'.Linked := by
  rw [insertFreed_listFirst, Option.some.injEq] at hi
  subst hi
  cases tail
  · exact ((hL.pushHead hun _).modFlags _ _).countInc _
  · exact ((hL.pushTail hun _).modFlags _ _).countInc _

/-- The insertion writes neither nodes nor tables. -/
theorem insertFreed_tables (hi : insertFreed .listFirst group .sparseMovable lvl tail st v = some st') :
    st'.tables = st.tables ∧ st'.nodes = st.nodes := by
  rw [insertFreed_listFirst, Option.some.injEq] at hi
  subst hi
  cases tail <;> exact ⟨rfl, rfl⟩

theorem insertFreed_drift (hi : insertFreed .listFirst group .sparseMovable lvl tail st v = some st') :
    st'.drift = st.drift := by
  funext l
  have hl := (insertFreed_lists hi l).length_eq
  have hc := insertFreed_counts hi l
  by_cases h : l = .groupCell group .sparseMovable v.order
  · rw [if_pos h] at hl hc
    exact drift_gain hl hc
  · rw [if_neg h] at hl hc
    rw [add_zero] at hc
    unfold State.drift
    rw [hl, hc]

/-- **The block listed**: what the free did to the array. -/
theorem Freeing.arrayStep (h : Freeing st0 base lvl item st v)
    (hC : Collected st0 group base A given lvl st Y v exit)
    (hi : insertFreed .listFirst group .sparseMovable lvl tail st v = some st') :
    ArrayStep st0 st' group base := by
  have hG := hC.gathering
  have hun : (st.items v.item).onList = none := by
    rw [hG.item]
    exact hG.unlinked
  have hlinked := insertFreed_linked hG.entries.linked hun hi
  have hhead := insertFreed_head hi
  obtain ⟨htables, hnodes⟩ := insertFreed_tables hi
  obtain ⟨hitems, hpres⟩ := insertFreed_items hi
  have hwhole : ∀ i, Whole (st.items i) → Whole (st'.items i) := by
    intro i hw
    by_cases e : i = v.item
    · rw [e] at hw ⊢
      rw [hhead]
      unfold Whole at hw ⊢
      simpa using hw
    · rwa [hitems i e]
  refine ⟨⟨hlinked, fun x hx l hl hp => ?_⟩, htables.trans h.tables, hnodes.trans h.nodes,
    (insertFreed_drift hi).trans h.drift, fun i hi => ?_, fun i hon hp => ?_,
    fun i hw => hwhole i (h.whole i hw)⟩
  · by_cases e : base + x = v.item
    · rw [e] at hl ⊢
      have hle := hG.le
      refine ⟨v.order, hle, ?_, ?_, ?_, hwhole _ (by rw [hG.item]; exact hG.whole)⟩
      · rw [hhead] at hl
        exact (Option.some.inj hl).symm
      · rw [hhead]
        rw [maxItemOrder_eq] at hle
        simp [ItemField.offset, Nat.mod_eq_of_lt (show v.order < 16 by omega)]
      · rw [hhead]
        simpa using h.movable
    · unfold presentBit at hp
      rw [hitems _ e] at hl hp ⊢
      exact hG.entries.heads x hx l hl hp
  · rw [hitems i (by rw [hG.item]; exact hi Y hG.inArray)]
    exact h.out i hi
  · have e : i ≠ v.item := by
      rintro rfl
      unfold presentBit at hp
      rw [hpres, hG.item] at hp
      exact hp hC.absent
    rw [hitems i e] at hon ⊢
    exact h.linked i hon

/-- What the free writes of a descriptor on no list is the freed one's. -/
theorem Freeing.unlinked (h : Freeing st0 base lvl item st v)
    (hi : insertFreed .listFirst group .sparseMovable lvl tail st v = some st') {i : Item}
    (hun : (st0.items i).onList = none) (hne : i ≠ item) : st'.items i = st0.items i := by
  rw [(insertFreed_items hi).1 i]
  · rcases h.touched i with e | e | e
    · exact e
    · exact absurd e hne
    · exact absurd hun e
  · rintro rfl
    rcases h.head with e | e
    · exact hne e
    · exact e hun

end Give

section Give

variable {st : State} {group : Group} {lvl : Nat} {bases : Item → Prop} {held : List (Item × Nat)}
  {base : Item} {order X : Nat}

/-- A block handed out lies in one of the arrays, apart from the free blocks and the others. -/
theorem SparseNode.allocated (h : SparseNode st group lvl bases held) (hb : bases base)
    (hp : (base + X, order) ∈ held) (hX : X < arraySize) (ha : 2 ^ order ∣ X) :
    Allocated st group base X order ∧
      itemStateToMigration (getItemState (st.items (base + X)).flags) = some .sparseMovable := by
  obtain ⟨hH, -⟩ := h.handed _ hp
  obtain ⟨h1, h2⟩ := h.array base hb
  have hnode : st.tables.phyItemStruct (getItemNode (st.items (base + X)).flags) =
      sparseOrigin st group := by
    rw [hH.node]
    rfl
  have hheld : (⟨X, order⟩ : Block) ∈ arrayHeld base held := by
    have := mem_arrayHeld hp (Nat.le_add_right base X) (Nat.add_lt_add_left hX base)
    rwa [Nat.add_sub_cancel_left] at this
  have hap : Apart ((freeArray st group base).val + arrayHeld base held) := h.apart base hb
  refine ⟨⟨hX, hH.small, ha, fun d hd => ?_, hH.present, hH.unlinked, ?_, hnode.symm ▸ h1,
    hnode.symm ▸ h2⟩, hH.movable⟩
  · by_contra hpos
    obtain ⟨b, hm, hdb⟩ := cover_pos.mp (Nat.pos_of_ne_zero hpos)
    exact hap.not_both hm hdb hheld hd
  · exact h.whole base hb X (cover_pos.mpr ⟨⟨X, order⟩, Multiset.mem_add.mpr (.inr hheld), start_mem _⟩)

/-- **A free keeps the group**, and always returns: one block less is handed out. -/
theorem SparseNode.give {i : Item} (h : SparseNode st group lvl bases held) (hp : (i, order) ∈ held) :
    ∃ st' i', freeGroupMigration .listFirst st i group lvl order .sparseMovable = some (st', i') ∧
      SparseStepped st st' group lvl bases held (held.erase (i, order)) := by
  obtain ⟨hH, base, hb, h1, h2, ha⟩ := h.handed _ hp
  obtain ⟨X, rfl⟩ := Nat.exists_eq_add_of_le h1
  have hX : X < arraySize := Nat.lt_of_add_lt_add_left h2
  rw [Nat.add_sub_cancel_left] at ha
  obtain ⟨hB, hmov⟩ := h.allocated hb hp hX ha
  have hcan := h.canonical base hb
  obtain ⟨A, hA⟩ : ∃ A, A = base - st.tables.phyItemStruct (getItemNode (st.items (base + X)).flags) :=
    ⟨_, rfl⟩
  have hbelow := hB.below
  have hA9 : arraySize ∣ A := hA ▸ hB.origin
  have hcap : order ≤ sparseCap lvl := by
    have hlt := hB.small
    unfold sparseCap
    split
    · exact Nat.le_sub_one_of_lt hlt
    · exact Nat.le_of_lt hlt
  obtain ⟨st1, Y, v, exit, hloop, hG, hF⟩ := (Freeing.start (A := A) hcap hmov).loop
    (Gathering.start (h.entries base hb) hB A) hA9 hB.aligned
  obtain ⟨tail, st', hins, hleave⟩ := leavePass_stays group .sparseMovable lvl maxItemOrder st1
    hG.buddy fun _ => .inr rfl
  have hidx : itemToRelIdx st (base + X) (getItemNode (st.items (base + X)).flags) = some (A + X) := by
    unfold itemToRelIdx
    rw [if_pos (Nat.le_add_right_of_le hbelow), Nat.sub_add_comm hbelow, hA]
  refine ⟨st', v.item, ?_, ?_⟩
  · unfold freeGroupMigration
    refine freeLoop_inserted ?_
    rw [if_pos rfl, freePass_of hidx (if_pos rfl) (if_pos rfl) hloop]
    exact hleave
  · have hfree := hG.freeArray hins
    have hrun := hG.gathering.run
    have hnot : (⟨Y, v.order⟩ : Block) ∉ freeArray st1 group base :=
      not_mem_freeArray hG.gathering.entries hG.gathering.unlinked
    have hperm := List.perm_cons_erase hp
    have hheld : arrayHeld base held = ⟨X, order⟩ ::ₘ arrayHeld base (held.erase (base + X, order)) := by
      rw [arrayHeld_perm hperm, arrayHeld_cons_in (Nat.le_add_right _ _) h2, Nat.add_sub_cancel_left]
    have hstep := hF.arrayStep hG hins
    refine h.stepped hb hstep ?_ ?_ (fun base' hb' hne => ?_) (fun p hmem => ?_) fun b hm hk => ?_
    · rw [hfree]
      exact hcan.give hrun hB.aligned hB.apart hnot hG.last hF.capped
    · unfold arrayDivision
      rw [hfree, hheld]
      exact hrun.give_step hB.aligned hnot
    · rw [arrayHeld_perm hperm]
      refine (arrayHeld_cons_out fun hin => hne ?_).symm
      obtain ⟨d, hd⟩ := Nat.exists_eq_add_of_le hin.1
      refine h.array_unique hb' hb (d := d) ?_ hX hd.symm
      have := hin.2
      rw [hd] at this
      exact Nat.lt_of_add_lt_add_left this
    · have hp' := List.mem_of_mem_erase hmem
      obtain ⟨hH', hplace⟩ := h.handed p hp'
      have hne : p.1 ≠ base + X := by
        intro e
        have hap : Apart ((⟨X, order⟩ ::ₘ 0) + arrayHeld base (held.erase (base + X, order))) := by
          have hall : Apart ((freeArray st group base).val + arrayHeld base held) := h.apart base hb
          refine hall.of_le ?_
          rw [hheld, Multiset.cons_add, zero_add]
          exact Multiset.le_add_left _ _
        refine hap.not_both (Multiset.mem_cons_self _ _) (start_mem ⟨X, order⟩)
          (mem_arrayHeld hmem (e ▸ Nat.le_add_right _ _) (e ▸ h2)) ?_
        rw [e, Nat.add_sub_cancel_left]
        exact start_mem ⟨X, p.2⟩
      have hsame := hF.unlinked hins hH'.unlinked hne
      refine ⟨⟨hH'.small, ?_, ?_, ?_, ?_⟩, hplace⟩
      · unfold presentBit
        rw [hsame]
        exact hH'.present
      · rw [hsame]
        exact hH'.unlinked
      · rw [hsame]
        exact hH'.movable
      · unfold State.nodeOf
        rw [hsame, hstep.tables, hstep.nodes]
        exact hH'.node
    · rw [hfree]
      exact Finset.mem_insert_of_mem (hrun.keeps hm (hk ▸ hG.gathering.le))

end Give

/-! ## 5. Runs -/

/-- What a user of the group asks for. -/
inductive SparseOp
  | alloc (order : Nat) (isTable : Bool)
  | free (i : Item) (order : Nat)

/-- One request: an allocation that finds a block hands it out; what is freed is a block handed out. -/
def sparseStep (r : Reading) (group : Group) (lvl : Nat) (x : State × List (Item × Nat)) :
    SparseOp → Option (State × List (Item × Nat))
  | .alloc order isTable =>
      (removeGroupMigration x.1 group lvl order .sparseMovable isTable).map fun y =>
        (y.1, match y.2 with
          | none => x.2
          | some i => (i, order) :: x.2)
  | .free i order =>
      if (i, order) ∈ x.2 then
        (freeGroupMigration r x.1 i group lvl order .sparseMovable).map fun y =>
          (y.1, x.2.erase (i, order))
      else some x

def sparseRun (r : Reading) (group : Group) (lvl : Nat) (x : State × List (Item × Nat))
    (ops : List SparseOp) : Option (State × List (Item × Nat)) :=
  ops.foldlM (sparseStep r group lvl) x

section Runs

variable {st : State} {group : Group} {lvl : Nat} {bases : Item → Prop} {held held' : List (Item × Nat)}
  {base : Item} {x x' : State × List (Item × Nat)} {op : SparseOp} {r : Reading} {order : Nat}

/-- The removal from a sparse group always returns. -/
theorem removeGroupMigration_total (hL : st.Linked) (isTable : Bool) :
    ∃ y, removeGroupMigration st group lvl order .sparseMovable isTable = some y := by
  unfold removeGroupMigration
  simp only [maxOrderOf, if_true, Option.bind_eq_bind, Option.bind_some]
  split
  · exact ⟨_, rfl⟩
  · next oi i hs =>
      obtain ⟨-, -, hin, -⟩ := searchOrders_eq_some.mp hs
      rw [listDel_of ((hL.mem _ _).mpr (searchList_mem hin))]
      exact ⟨_, rfl⟩

/-- What a free that returns leaves; as written none does. -/
theorem SparseNode.freed {i i' : Item} {st' : State} (h : SparseNode st group lvl bases held)
    (hp : (i, order) ∈ held)
    (hf : freeGroupMigration r st i group lvl order .sparseMovable = some (st', i')) :
    SparseStepped st st' group lvl bases held (held.erase (i, order)) := by
  cases r with
  | written =>
      rw [freeGroupMigration_written] at hf
      cases hf
  | listFirst =>
      obtain ⟨st1, i1, hg, hs⟩ := h.give hp
      obtain ⟨rfl, -⟩ := Prod.mk.inj (Option.some.inj (hg.symm.trans hf))
      exact hs

/-- **Step.** -/
theorem sparseStep_keeps (h : SparseNode x.1 group lvl bases x.2)
    (hs : sparseStep r group lvl x op = some x') :
    SparseStepped x.1 x'.1 group lvl bases x.2 x'.2 := by
  cases op with
  | alloc order isTable =>
      obtain ⟨⟨st', found⟩, hr, rfl⟩ := Option.map_eq_some_iff.mp hs
      cases found with
      | none =>
          rw [removeGroupMigration_none hr]
          exact .refl h
      | some i => exact h.take hr
  | free i order =>
      rw [sparseStep] at hs
      by_cases hp : (i, order) ∈ x.2
      · rw [if_pos hp] at hs
        obtain ⟨⟨st', i'⟩, hf, rfl⟩ := Option.map_eq_some_iff.mp hs
        exact h.freed hp hf
      · rw [if_neg hp] at hs
        obtain rfl := Option.some.inj hs
        exact .refl h

/-- Run. -/
theorem sparseRun_keeps {ops : List SparseOp} (h : SparseNode x.1 group lvl bases x.2)
    (hs : sparseRun r group lvl x ops = some x') :
    SparseStepped x.1 x'.1 group lvl bases x.2 x'.2 := by
  induction ops generalizing x with
  | nil =>
      obtain rfl := Option.some.inj hs
      exact .refl h
  | cons op ops ih =>
      rw [sparseRun, List.foldlM_cons] at hs
      obtain ⟨y, hy, hs⟩ := Option.bind_eq_some_iff.mp hs
      have hstep := sparseStep_keeps h hy
      exact hstep.trans (ih hstep.node hs)

/-- With the list as the list no request gets stuck. -/
theorem sparseRun_total (h : SparseNode x.1 group lvl bases x.2) (ops : List SparseOp) :
    ∃ x', sparseRun .listFirst group lvl x ops = some x' := by
  induction ops generalizing x with
  | nil => exact ⟨x, rfl⟩
  | cons op ops ih =>
      obtain ⟨y, hy⟩ : ∃ y, sparseStep .listFirst group lvl x op = some y := by
        cases op with
        | alloc order isTable =>
            obtain ⟨y, hy⟩ := @removeGroupMigration_total x.1 group lvl order h.linked isTable
            exact ⟨_, by rw [sparseStep, hy]; rfl⟩
        | free i order =>
            by_cases hp : (i, order) ∈ x.2
            · obtain ⟨st', i', hf, -⟩ := h.give hp
              exact ⟨_, by rw [sparseStep, if_pos hp, hf]; rfl⟩
            · exact ⟨x, if_neg hp⟩
      obtain ⟨x', hx'⟩ := ih (sparseStep_keeps h hy).node
      exact ⟨x', by rw [sparseRun, List.foldlM_cons, hy]; exact hx'⟩

/-- **The free blocks do not depend on the order of the requests.** As written a free does not return;
    with the list as the list no request gets stuck. Every run that returns keeps each array divided, and
    two runs after which the same descriptors are handed out leave the same free blocks. -/
theorem sparse_history (hN : SparseNode st group lvl bases held) :
    (∀ i order, (i, order) ∈ held → sparseStep .written group lvl (st, held) (.free i order) = none) ∧
      (∀ ops, ∃ x', sparseRun .listFirst group lvl (st, held) ops = some x') ∧
      (∀ r ops x', sparseRun r group lvl (st, held) ops = some x' →
        SparseStepped st x'.1 group lvl bases held x'.2) ∧
      ∀ r₁ r₂ ops₁ ops₂ x₁ x₂, sparseRun r₁ group lvl (st, held) ops₁ = some x₁ →
        sparseRun r₂ group lvl (st, held) ops₂ = some x₂ → ∀ base, bases base →
          (∀ d, cover (arrayHeld base x₁.2) d = cover (arrayHeld base x₂.2) d) →
            freeArray x₁.1 group base = freeArray x₂.1 group base := by
  refine ⟨fun i order hp => ?_, fun ops => sparseRun_total hN ops, fun r ops x' hr => sparseRun_keeps hN hr,
    fun r₁ r₂ ops₁ ops₂ x₁ x₂ h₁ h₂ base hb hd => ?_⟩
  · rw [sparseStep, if_pos hp, freeGroupMigration_written]
    rfl
  · have hs₁ := sparseRun_keeps hN h₁
    have hs₂ := sparseRun_keeps hN h₂
    refine (hs₁.node.canonical base hb).unique (hs₂.node.canonical base hb) fun d => ?_
    -- no run moves a descriptor, so what is not handed out is free
    have hc₁ := Division.cover_of_reach (hs₁.reach base hb) d
    have hc₂ := Division.cover_of_reach (hs₂.reach base hb) d
    rw [cover_add] at hc₁ hc₂
    have hlive : cover (arrayDivision x₁.1 group base x₁.2).live d =
        cover (arrayDivision x₂.1 group base x₂.2).live d := hd d
    rw [hlive] at hc₁
    exact Nat.add_right_cancel (hc₁.trans hc₂.symm)

end Runs

theorem sparsePair_freeArray : freeArray sparsePair (.vir 0 1) 0 = {⟨0, 1⟩} := by
  ext b
  rw [mem_freeArray, Finset.mem_singleton, Nat.zero_add]
  constructor
  · rintro ⟨-, -, hin, -⟩
    obtain ⟨hk, hx⟩ := sparsePair_mem hin
    obtain ⟨x, k⟩ := b
    dsimp only at hk hx
    rw [hk, hx]
  · rintro rfl
    exact ⟨by decide, by decide, by decide, by decide +kernel⟩

/-- Of `sparsePair` every descriptor is absent, its `freeidx` 0. -/
theorem sparsePair_flags (i : Item) :
    presentBit sparsePair i = 0 ∧ getItemFreeidx (sparsePair.items i).flags = 0 := by
  unfold presentBit
  by_cases hi : i = 0
  · subst hi
    exact ⟨by decide +kernel, by decide +kernel⟩
  · rw [sparsePair, State.modFlags_items, if_neg hi]
    simp only [oneBlock, zeroed, State.countInc_items, State.pushTail_items, if_neg hi]
    exact ⟨by decide +kernel, by decide +kernel⟩

theorem sparsePair_node : SparseNode sparsePair (.vir 0 1) 1 (· = 0) [] where
  linked := sparsePair_state.linked
  array base hb := by
    subst hb
    exact ⟨Nat.le_refl 0, ⟨0, rfl⟩⟩
  entries base hb := by
    subst hb
    refine ⟨sparsePair_state.linked, fun x _ l hl _ => ?_⟩
    have hx : 0 + x = 0 := sparsePair_onList (by rw [hl]; rfl)
    rw [hx] at hl ⊢
    exact ⟨1, by decide, (Option.some.inj hl).symm, by decide +kernel, by decide +kernel,
      .inl (sparsePair_flags 0).2⟩
  home k i hi _ := ⟨0, rfl, Nat.zero_le i, by rw [(sparsePair_mem hi).2]; decide⟩
  tables k i _ hp := absurd (sparsePair_flags i).1 hp
  clear base _ d _ hp := absurd (sparsePair_flags (base + d)).1 hp
  whole base _ d _ := .inl (sparsePair_flags (base + d)).2
  canonical base hb := by
    subst hb
    rw [sparsePair_freeArray]
    refine ⟨?_, (tiles_self ⟨0, 1⟩).apart, ?_, ?_⟩
    · simp only [Finset.mem_singleton, forall_eq]
      exact ⟨0, rfl⟩
    · intro b hb _
      rw [Finset.mem_singleton] at hb ⊢
      subst hb
      decide
    · simp only [Finset.mem_singleton, forall_eq]
      decide
  apart base hb d := by
    subst hb
    show cover ((freeArray sparsePair (.vir 0 1) 0).val + 0) d ≤ 1
    rw [sparsePair_freeArray, add_zero]
    exact (tiles_self ⟨0, 1⟩).apart d
  handed p hp := by cases hp

/-- The pair, taken and given back in whatever order. -/
theorem sparsePair_history :
    (∀ ops, ∃ x', sparseRun .listFirst (.vir 0 1) 1 (sparsePair, []) ops = some x') ∧
      ∀ r₁ r₂ ops₁ ops₂ x₁ x₂, sparseRun r₁ (.vir 0 1) 1 (sparsePair, []) ops₁ = some x₁ →
        sparseRun r₂ (.vir 0 1) 1 (sparsePair, []) ops₂ = some x₂ →
          (∀ d, cover (arrayHeld 0 x₁.2) d = cover (arrayHeld 0 x₂.2) d) →
            freeArray x₁.1 (.vir 0 1) 0 = freeArray x₂.1 (.vir 0 1) 0 :=
  have h := sparse_history sparsePair_node
  ⟨h.2.1, fun r₁ r₂ ops₁ ops₂ x₁ x₂ h₁ h₂ => h.2.2.2 r₁ r₂ ops₁ ops₂ x₁ x₂ h₁ h₂ 0 rfl⟩

end TensorAlloc
