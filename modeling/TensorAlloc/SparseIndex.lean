/-
  File:      TensorAlloc/SparseIndex.lean
  Subject:   The sparse tree: its items by path, the index of an item, and back.

  * `ProcessGroup` -- what `get_current_process_group` returns. The stub returns NULL, and then
    every function here faults; `given` is a process group with its nodes;
  * `Reached` -- the items of the tree by their positions, the deepest position first;
  * `itemToIdxSparse`, `idxToItemSparse` -- up through `prev`, down through `next`. The address
    translation of `item_to_range_transform` is a parameter;
  * `sparse_index_inverse_iff` -- the index counts the root position with the wrong sign, and the
    way back always stops on level 2: inverse exactly there, below the first root item.
-/
import TensorAlloc.Dequeue

namespace TensorAlloc

/-! ## 1. The process group -/

/-- What `get_current_process_group` may return. -/
inductive ProcessGroup where
  | null | given
  deriving DecidableEq, Repr

/-- `get_current_process_group`. -/
def getCurrentProcessGroup : ProcessGroup := .null

/-- `PROCESS_GROUP_NODE_NU`, through the pointer. -/
def ProcessGroup.node (pg : ProcessGroup) (nu : Nat) : Option NodeRef :=
  match pg with
  | .null => none
  | .given => some (.vir nu)

/-- `get_vnode_num` reads the stub's process group. -/
theorem getVnodeNum_eq (nu : Nat) : getVnodeNum nu = getCurrentProcessGroup.node nu := rfl

/-- `get_current_vnode_num`, the same switch as `get_current_node_num`. -/
def getCurrentVnodeNum (dimType : Nat) : Option Nat := getCurrentNodeNum dimType

/-- `PROCESS_GROUP_GROUP_ROOT`: `none` is a fault, `some none` a NULL root. -/
def processGroupGroupRoot (pg : ProcessGroup) (st : State) (dim : Nat) : Option (Option Item) := do
  let nu ← getCurrentVnodeNum dim
  let node ← pg.node nu
  pure (st.nodes node).sparseItemRoot

/-! ## 2. Up and down the tree -/

/-- `item_to_rel_idx_sparse`: counted from the array the parent's `next` points to. -/
def itemToRelIdxSparse (st : State) (item : Item) : Option Int := do
  let prev ← (st.items item).prev
  let next ← (st.items prev).next
  pure ((item : Int) - next)

/-- The loop of `item_to_idx_sparse`: up to the item with no `prev`, with the index so far. `fuel`
    bounds the `while`. -/
def climb (st : State) : Nat → Item → Nat → Word → Option (Item × Nat × Word)
  | 0, item, shift, idx => if (st.items item).prev = none then some (item, shift, idx) else none
  | fuel + 1, item, shift, idx =>
      match (st.items item).prev with
      | none => some (item, shift, idx)
      | some prev => do
          let rel ← itemToRelIdxSparse st item
          climb st fuel prev (shift + (maxItemRange + 1)) (idx ||| BitVec.ofInt 64 rel <<< shift)

/-- `item_to_idx_sparse`. The difference of the root turn is taken from the item to the root. -/
def itemToIdxSparse (pg : ProcessGroup) (fuel : Nat) (st : State) (item : Item) : Option Word := do
  let dim := getItemDim (st.items item).flags
  let lvl := getItemSection (st.items item).flags
  let root ← processGroupGroupRoot pg st dim
  let (item, shift, idx) ← climb st fuel item (functionItemLvl groupRangeNumShift lvl) 0#64
  -- the difference with a NULL root is no index
  let root ← root
  pure (idx ||| BitVec.ofInt 64 ((root : Int) - item) <<< shift)

/-- `item_to_range_transform`: NULL for NULL, else the item's range as a pointer. -/
def itemToRangeTransform (transform : Item → Item) (item : Option Item) : Option Item :=
  item.map transform

/-- The loop of `idx_to_rel_idx_sparse` over `n` levels from `level`: the item found and the index
    in its array. `none` is ERR_FAULT, which leaves the caller's item unset. -/
def descend (transform : Item → Item) (st : State) (endlvl : Nat) :
    Nat → Nat → Word → Option Item → Word → Option (Option Item × Word)
  | 0, _, _, temp, idxIndex => some (temp, idxIndex)
  | n + 1, level, idx, temp, _ => do
      let blockShift := functionItemLvl groupRangeNumShift level
      let idxIndex := idx.sshiftRight blockShift
      let tempRoot ← itemToRangeTransform transform temp
      let temp := (tempRoot + idxIndex.toInt).toNat
      if endlvl = level then pure (some temp, idxIndex)
      else do
        let next ← (st.items temp).next
        descend transform st endlvl n (level + 1) (idx &&& (bit blockShift - 1#64)) (some next)
          idxIndex

/-- `idx_to_rel_idx_sparse`. -/
def idxToRelIdxSparse (pg : ProcessGroup) (transform : Item → Item) (st : State) (idx : Word)
    (dim endlvl : Nat) : Option (Option Item × Word) := do
  let root ← processGroupGroupRoot pg st dim
  descend transform st endlvl maxGroupLvls 0 idx root 0#64

/-- `idx_to_item_sparse`; `none` where its item is never set. -/
def idxToItemSparse (pg : ProcessGroup) (transform : Item → Item) (st : State) (idx : Word)
    (dim : Nat) : Option Item := do
  let (item, _) ← idxToRelIdxSparse pg transform st idx dim (maxGroupLvls - 1)
  item

/-! ## 3. The tree -/

/-- How many items an array has. -/
def arrayItems : Nat := 2 ^ (maxItemRange + 1)

@[simp] theorem arrayItems_eq : arrayItems = 512 := rfl

/-- The item at the end of a path of positions from the root array, the last position first. -/
inductive Reached (st : State) (root : Item) : List Nat → Item → Prop
  | root {i : Nat} (hi : i < arrayItems) : Reached st root [i] (root + i)
  | child {path : List Nat} {table array : Item} {i : Nat} (ht : Reached st root path table)
      (hn : (st.items table).next = some array) (hi : i < arrayItems) :
      Reached st root (i :: path) (array + i)

/-- A sparse tree of four levels: the items of the root array have no parent, those of a table's
    array the table. -/
structure SparseTree (st : State) (root : Item) : Prop where
  rootPrev : ∀ i < arrayItems, (st.items (root + i)).prev = none
  childPrev : ∀ {path table array}, Reached st root path table → path.length < groupLvlNum →
    (st.items table).next = some array → ∀ i < arrayItems, (st.items (array + i)).prev = some table

/-- `i_0 * 2^27 + i_1 * 2^18 + …`, the positions of a path from level 0 on. -/
def pathIdx : Nat → List Nat → Nat
  | _, [] => 0
  | lvl, i :: path => i * 2 ^ (9 * (3 - lvl)) + pathIdx (lvl + 1) path

section Tree

variable {st : State} {root item : Item} {path path' : List Nat}

theorem Reached.ne_nil (h : Reached st root path item) : path ≠ [] := by
  cases h <;> exact List.cons_ne_nil _ _

/-- **An item has one path.** -/
theorem Reached.path_unique (hT : SparseTree st root) (h : Reached st root path item)
    (h' : Reached st root path' item) (hl : path.length ≤ groupLvlNum)
    (hl' : path'.length ≤ groupLvlNum) : path = path' := by
  induction h generalizing path' with
  | @root i hi =>
      have hprev := hT.rootPrev i hi
      obtain ⟨x, hx⟩ : ∃ x, x = root + i := ⟨_, rfl⟩
      rw [← hx] at h' hprev
      cases h' with
      | @root j hj => rw [Nat.add_left_cancel hx]
      | @child q t a j ht hn hj =>
          rw [hT.childPrev ht (Nat.lt_of_succ_le hl') hn j hj] at hprev
          cases hprev
  | @child p t a i ht hn hi ih =>
      have hprev := hT.childPrev ht (Nat.lt_of_succ_le hl) hn i hi
      obtain ⟨x, hx⟩ : ∃ x, x = a + i := ⟨_, rfl⟩
      rw [← hx] at h' hprev
      cases h' with
      | @root j hj =>
          rw [hT.rootPrev j hj] at hprev
          cases hprev
      | @child q t' a' j ht' hn' hj =>
          rw [hT.childPrev ht' (Nat.lt_of_succ_le hl') hn' j hj, Option.some.injEq] at hprev
          subst hprev
          rw [hn, Option.some.injEq] at hn'
          subst hn'
          rw [Nat.add_left_cancel hx,
            ih ht' (Nat.le_of_succ_le hl) (Nat.le_of_succ_le hl')]

/-! ## 4. Up -/

/-- What the loop adds to the index: the positions below the root, from `shift` up. -/
def climbed : List Nat → Nat → Nat
  | [], _ => 0
  | [_], _ => 0
  | i :: path, shift => i * 2 ^ shift + climbed path (shift + 9)

/-- An item and its array: the relative index is the position. -/
theorem itemToRelIdxSparse_child {table array : Item} {i : Nat}
    (hp : (st.items (array + i)).prev = some table) (hn : (st.items table).next = some array) :
    itemToRelIdxSparse st (array + i) = some i := by
  unfold itemToRelIdxSparse
  rw [hp, Option.bind_eq_bind, Option.bind_some, hn]
  show some (((array + i : Nat) : Int) - array) = some (i : Int)
  rw [Nat.cast_add, Int.add_comm, Int.add_sub_cancel]

/-- **The loop climbs to the root array**, with every position on the way in its place. -/
theorem climb_reached (hT : SparseTree st root) (h : Reached st root path item)
    (hl : path.length ≤ groupLvlNum) (fuel shift : Nat) (idx : Word)
    (hf : path.length ≤ fuel + 1) (hidx : idx.toNat < 2 ^ shift)
    (hs : shift + 9 * path.length ≤ 64) :
    ∃ i w, i < arrayItems ∧ path.getLast? = some i ∧
      climb st fuel item shift idx = some (root + i, shift + 9 * (path.length - 1), w) ∧
      w.toNat = idx.toNat + climbed path shift ∧
      w.toNat < 2 ^ (shift + 9 * (path.length - 1)) := by
  induction h generalizing fuel shift idx with
  | @root i hi =>
      refine ⟨i, idx, hi, rfl, ?_, rfl, hidx⟩
      cases fuel with
      | zero => exact if_pos (hT.rootPrev i hi)
      | succ fuel =>
          rw [climb, hT.rootPrev i hi]
          rfl
  | @child path table array i ht hn hi ih =>
      have hprev := hT.childPrev ht (Nat.lt_of_succ_le hl) hn i hi
      obtain ⟨j, path', rfl⟩ := List.exists_cons_of_ne_nil ht.ne_nil
      simp only [List.length_cons] at hl hf hs
      cases fuel with
      | zero => omega
      | succ fuel =>
          obtain ⟨hw, hlt⟩ := BitField.toNat_or_shiftLeft hidx (c := 9) hi (by omega)
          obtain ⟨i0, w, h1, h2, h3, h4, h5⟩ := ih
            (by rw [groupLvlNum_eq]; simp only [List.length_cons, groupLvlNum_eq] at hl ⊢; omega)
            fuel (shift + 9) (idx ||| BitVec.ofNat 64 i <<< shift)
            (by simp only [List.length_cons]; omega) (by rw [hw]; exact hlt)
            (by simp only [List.length_cons]; omega)
          have hshift : shift + 9 + 9 * ((j :: path').length - 1) =
              shift + 9 * ((i :: j :: path').length - 1) := by
            simp only [List.length_cons]
            omega
          rw [hshift] at h3 h5
          refine ⟨i0, w, h1, h2, ?_, ?_, h5⟩
          · rw [climb, hprev]
            dsimp only
            rw [itemToRelIdxSparse_child hprev hn]
            exact h3
          · rw [h4, hw]
            exact Nat.add_assoc _ _ _

/-- A path is at most four positions: its index is the root position and what the loop adds. -/
theorem pathIdx_reverse {i : Nat} (hl : path.length ≤ groupLvlNum) (hi : path.getLast? = some i) :
    pathIdx 0 path.reverse = i * 2 ^ 27 + climbed path (9 * (4 - path.length)) := by
  match path, hl, hi with
  | [a], _, hi =>
      obtain rfl : a = i := Option.some.inj hi
      simp [pathIdx, climbed]
  | [a, b], _, hi =>
      obtain rfl : b = i := Option.some.inj hi
      simp [pathIdx, climbed]
  | [a, b, c], _, hi =>
      obtain rfl : c = i := Option.some.inj hi
      simp [pathIdx, climbed]
      omega
  | [a, b, c, d], _, hi =>
      obtain rfl : d = i := Option.some.inj hi
      simp [pathIdx, climbed]
      omega

/-- The root turn subtracts the root position: the sum is right for position 0 only. -/
theorem root_turn {w : Word} {i : Nat} (hw : w.toNat < 2 ^ 27) (hi : i < arrayItems) :
    (w ||| BitVec.ofInt 64 (-(i : Int)) <<< 27 = BitVec.ofNat 64 (i * 2 ^ 27 + w.toNat)) ↔ i = 0 := by
  rw [arrayItems_eq] at hi
  rw [BitField.or_shiftLeft hw, ← BitVec.toNat_inj, BitVec.toNat_add, BitVec.toNat_shiftLeft,
    BitVec.toNat_ofNat, Nat.shiftLeft_eq, BitVec.toNat_ofInt]
  rcases Nat.eq_zero_or_pos i with rfl | hpos
  · simp
  · have hneg : ((-(i : Int)) % (2 ^ 64 : Nat)).toNat = 2 ^ 64 - i := by omega
    rw [hneg]
    constructor
    · intro h
      omega
    · intro h
      omega

/-- **The index of an item**, from the root on down. -/
theorem itemToIdxSparse_reached (hT : SparseTree st root) (h : Reached st root path item)
    (hl : path.length ≤ groupLvlNum)
    (hsec : getItemSection (st.items item).flags = path.length - 1)
    (hr : processGroupGroupRoot .given st (getItemDim (st.items item).flags) = some (some root))
    {fuel : Nat} (hf : path.length ≤ fuel + 1) :
    ∃ idx, itemToIdxSparse .given fuel st item = some idx ∧
      (idx = BitVec.ofNat 64 (pathIdx 0 path.reverse) ↔ path.getLast? = some 0) := by
  have hpos := List.length_pos_of_ne_nil h.ne_nil
  rw [groupLvlNum_eq] at hl
  have hshift : functionItemLvl groupRangeNumShift (path.length - 1) = 9 * (4 - path.length) := by
    rw [show groupRangeNumShift = groupOrderNumShift from rfl, functionItemLvl_eq (by omega)]
    omega
  obtain ⟨i, w, hi, hlast, hclimb, hw, hlt⟩ := climb_reached hT h (by rw [groupLvlNum_eq]; exact hl)
    fuel (9 * (4 - path.length)) 0#64 hf (Nat.two_pow_pos _) (by omega)
  rw [show 9 * (4 - path.length) + 9 * (path.length - 1) = 27 by omega] at hclimb hlt
  rw [show (0#64).toNat = 0 from rfl, Nat.zero_add] at hw
  refine ⟨w ||| BitVec.ofInt 64 (-(i : Int)) <<< 27, ?_, ?_⟩
  · unfold itemToIdxSparse
    dsimp only
    rw [hr, hsec, hshift]
    show (climb st fuel item (9 * (4 - path.length)) 0#64).bind _ = _
    rw [hclimb]
    show some (w ||| BitVec.ofInt 64 ((root : Int) - (root + i : Nat)) <<< 27) = _
    rw [Nat.cast_add, show (root : Int) - (root + i) = -i by omega]
  · rw [pathIdx_reverse (by rw [groupLvlNum_eq]; exact hl) hlast, ← hw, root_turn hlt hi, hlast,
      Option.some.injEq]

/-! ## 5. Down -/

/-- The arithmetic shift of an index that is not negative. -/
theorem toInt_sshiftRight {idx : Word} (shift : Nat) (hlt : idx.toNat < 2 ^ 63) :
    (idx.sshiftRight shift).toInt = (idx.toNat / 2 ^ shift : Nat) := by
  have hmsb : idx.msb = false := by
    rw [BitVec.msb_eq_decide]
    exact decide_eq_false (by omega)
  have hnat : (idx >>> shift).toNat = idx.toNat / 2 ^ shift := by
    rw [BitVec.toNat_ushiftRight, Nat.shiftRight_eq_div_pow]
  have hle := Nat.div_le_self idx.toNat (2 ^ shift)
  rw [BitVec.sshiftRight_eq_of_msb_false hmsb, BitVec.toInt_eq_toNat_of_lt (by omega), hnat]

/-- One level of the way down: the position is the top of the index, the rest goes on. -/
theorem descend_step (st : State) {transform : Item → Item} (htr : ∀ i, transform i = i)
    (endlvl n level : Nat) (idx : Word) (array : Item) (last : Word) (hlt : idx.toNat < 2 ^ 63)
    (hs : functionItemLvl groupRangeNumShift level < 64) :
    ∃ idx' last' : Word, idx'.toNat = idx.toNat % 2 ^ functionItemLvl groupRangeNumShift level ∧
      descend transform st endlvl (n + 1) level idx (some array) last =
        (let temp := array + idx.toNat / 2 ^ functionItemLvl groupRangeNumShift level
        if endlvl = level then some (some temp, last')
        else (st.items temp).next.bind fun next =>
          descend transform st endlvl n (level + 1) idx' (some next) last') := by
  have hindex := toInt_sshiftRight (functionItemLvl groupRangeNumShift level) hlt
  refine ⟨idx &&& (bit (functionItemLvl groupRangeNumShift level) - 1#64),
    idx.sshiftRight (functionItemLvl groupRangeNumShift level), BitField.toNat_and_mask hs, ?_⟩
  rw [descend]
  dsimp only [itemToRangeTransform, Option.map_some, Option.bind_eq_bind, Option.bind_some]
  rw [hindex, htr, ← Nat.cast_add, Int.toNat_natCast]
  rfl

/-- **The way down stops on level 2**: two tables, and a position in the second one's array. -/
theorem idxToItemSparse_eq {transform : Item → Item} (htr : ∀ i, transform i = i) {dim : Nat}
    (hr : processGroupGroupRoot .given st dim = some (some root)) {idx : Word}
    (hlt : idx.toNat < 2 ^ 36) :
    idxToItemSparse .given transform st idx dim =
      (st.items (root + idx.toNat / 2 ^ 27)).next.bind fun array =>
        (st.items (array + idx.toNat / 2 ^ 18 % 512)).next.map fun array' =>
          array' + idx.toNat / 2 ^ 9 % 512 := by
  unfold idxToItemSparse idxToRelIdxSparse
  rw [hr]
  obtain ⟨idx1, last1, h1, e1⟩ := descend_step st htr 2 2 0 idx root 0#64
    (Nat.lt_trans hlt (by decide)) (by decide)
  show (descend transform st 2 3 0 idx (some root) 0#64).bind _ = _
  rw [e1]
  dsimp only
  rw [if_neg (by decide)]
  show ((st.items (root + idx.toNat / 2 ^ 27)).next.bind _).bind _ = _
  rw [Option.bind_assoc]
  congr 1
  funext array
  have h1' : idx1.toNat = idx.toNat % 2 ^ 27 := h1
  obtain ⟨idx2, last2, h2, e2⟩ := descend_step st htr 2 1 1 idx1 array last1
    (by omega) (by decide)
  rw [e2]
  dsimp only
  rw [if_neg (by decide)]
  show ((st.items (array + idx1.toNat / 2 ^ 18)).next.bind _).bind _ = _
  rw [Option.bind_assoc, h1', show idx.toNat % 2 ^ 27 / 2 ^ 18 = idx.toNat / 2 ^ 18 % 512 by omega,
    Option.map_eq_bind]
  congr 1
  funext array'
  have h2' : idx2.toNat = idx1.toNat % 2 ^ 18 := h2
  obtain ⟨idx3, last3, -, e3⟩ := descend_step st htr 2 0 2 idx2 array' last2
    (by omega) (by decide)
  rw [e3]
  show some (array' + idx2.toNat / 2 ^ 9) = some (array' + idx.toNat / 2 ^ 9 % 512)
  rw [h2', h1', show idx.toNat % 2 ^ 27 % 2 ^ 18 / 2 ^ 9 = idx.toNat / 2 ^ 9 % 512 by omega]

/-- What the way down finds is on level 2. -/
theorem idxToItemSparse_reached {transform : Item → Item} (htr : ∀ i, transform i = i) {dim : Nat}
    (hr : processGroupGroupRoot .given st dim = some (some root)) (idx : Word)
    (hlt : idx.toNat < 2 ^ 36) (h : idxToItemSparse .given transform st idx dim = some item) :
    ∃ path, path.length = 3 ∧ Reached st root path item := by
  rw [idxToItemSparse_eq htr hr hlt, Option.bind_eq_some_iff] at h
  obtain ⟨array, ha, h⟩ := h
  rw [Option.map_eq_some_iff] at h
  obtain ⟨array', ha', rfl⟩ := h
  refine ⟨[_, _, _], rfl, .child (.child (.root ?_) ha ?_) ha' ?_⟩ <;> rw [arrayItems_eq] <;> omega

/-- An item on level 2 is found by its index. -/
theorem idxToItemSparse_level2 {transform : Item → Item} (htr : ∀ i, transform i = i) {dim : Nat}
    (hr : processGroupGroupRoot .given st dim = some (some root)) (h : Reached st root path item)
    (hl : path.length = 3) :
    idxToItemSparse .given transform st (BitVec.ofNat 64 (pathIdx 0 path.reverse)) dim =
      some item := by
  cases h with
  | root hi => simp at hl
  | @child path array' table' k ht hn hk =>
      cases ht with
      | root hi => simp at hl
      | @child path array table j ht hn' hj =>
          cases ht with
          | child ht _ _ => exact absurd (by simpa using hl) ht.ne_nil
          | @root i hi =>
              rw [arrayItems_eq] at hi hj hk
              have hidx : (BitVec.ofNat 64 (pathIdx 0 [k, j, i].reverse)).toNat =
                  i * 2 ^ 27 + j * 2 ^ 18 + k * 2 ^ 9 := by
                simp only [List.reverse_cons, List.reverse_nil, List.nil_append, List.cons_append,
                  pathIdx, BitVec.toNat_ofNat]
                omega
              rw [idxToItemSparse_eq htr hr (by rw [hidx]; omega), hidx,
                show (i * 2 ^ 27 + j * 2 ^ 18 + k * 2 ^ 9) / 2 ^ 27 = i by omega,
                show (i * 2 ^ 27 + j * 2 ^ 18 + k * 2 ^ 9) / 2 ^ 18 % 512 = j by omega,
                show (i * 2 ^ 27 + j * 2 ^ 18 + k * 2 ^ 9) / 2 ^ 9 % 512 = k by omega, hn',
                Option.bind_some, hn, Option.map_some]

theorem pathIdx_lt (h : Reached st root path item) (hl : path.length ≤ groupLvlNum) :
    pathIdx 0 path.reverse < 2 ^ 36 := by
  have hmem : ∀ i ∈ path, i < 512 := by
    clear hl
    induction h with
    | root hi => simpa using hi
    | child _ _ hi ih => simpa using ⟨hi, ih⟩
  match path, hl with
  | [], _ => simp [pathIdx]
  | [a], _ =>
      simp [pathIdx] at hmem ⊢
      omega
  | [a, b], _ =>
      simp [pathIdx] at hmem ⊢
      omega
  | [a, b, c], _ =>
      simp [pathIdx] at hmem ⊢
      omega
  | [a, b, c, d], _ =>
      simp [pathIdx] at hmem ⊢
      omega

/-- Encoding and decoding an item of the tree: the index is the sum of its path, and leads back. -/
def IndexInverse (pg : ProcessGroup) (transform : Item → Item) (fuel : Nat) (st : State)
    (path : List Nat) (item : Item) : Prop :=
  ∃ idx, itemToIdxSparse pg fuel st item = some idx ∧
    idx = BitVec.ofNat 64 (pathIdx 0 path.reverse) ∧
    idxToItemSparse pg transform st idx (getItemDim (st.items item).flags) = some item

/-- **Index and item are inverse on level 2 under the first root item, and nowhere else.** With the
    stub's process group the root is read through NULL. -/
theorem sparse_index_inverse_iff {transform : Item → Item} (htr : ∀ i, transform i = i)
    (hT : SparseTree st root) (h : Reached st root path item) (hl : path.length ≤ groupLvlNum)
    (hsec : getItemSection (st.items item).flags = path.length - 1)
    (hr : processGroupGroupRoot .given st (getItemDim (st.items item).flags) = some (some root))
    {fuel : Nat} (hf : path.length ≤ fuel + 1) :
    ¬ IndexInverse getCurrentProcessGroup transform fuel st path item ∧
      (IndexInverse .given transform fuel st path item ↔
        path.length = 3 ∧ path.getLast? = some 0) := by
  refine ⟨fun hi => ?_, fun hi => ?_, fun hi => ?_⟩
  · -- the root is a member of NULL, whatever the dimension
    obtain ⟨idx, h1, -, -⟩ := hi
    have hnull : processGroupGroupRoot .null st (getItemDim (st.items item).flags) = none := by
      unfold processGroupGroupRoot
      cases getCurrentVnodeNum (getItemDim (st.items item).flags) <;> rfl
    unfold itemToIdxSparse at h1
    dsimp only at h1
    rw [show getCurrentProcessGroup = .null from rfl, hnull] at h1
    cases h1
  · obtain ⟨idx, h1, h2, h3⟩ := hi
    obtain ⟨idx', h4, h5⟩ := itemToIdxSparse_reached hT h hl hsec hr hf
    rw [h1, Option.some.injEq] at h4
    subst h4
    refine ⟨?_, h5.mp h2⟩
    have hlt := pathIdx_lt h hl
    obtain ⟨path', hl', h'⟩ := idxToItemSparse_reached htr hr idx
      (by rw [h2, BitVec.toNat_ofNat, Nat.mod_eq_of_lt (Nat.lt_trans hlt (by decide))]; exact hlt) h3
    rw [h.path_unique hT h' hl (by rw [hl', groupLvlNum_eq]; decide), hl']
  · obtain ⟨idx, h4, h5⟩ := itemToIdxSparse_reached hT h hl hsec hr hf
    refine ⟨idx, h4, h5.mpr hi.2, ?_⟩
    rw [h5.mpr hi.2]
    exact idxToItemSparse_level2 htr hr h hi.1

end Tree

/-! ## 6. A small tree -/

/-- A root array at 0, the array of its first item at 512, and of that one's first item at 1024. -/
def smallTree : State :=
  { zeroed with
    items := fun i =>
      { zeroed.items i with
        flags := if i < 512 then 0#64
          else if i < 1024 then setItemSection 0#64 1 else setItemSection 0#64 2
        next := if i = 0 then some 512 else if i = 512 then some 1024 else none
        prev := if i < 512 then none else if i < 1024 then some 0 else some 512 }
    nodes := Function.update zeroed.nodes (.vir 0)
      { zeroed.nodes (.vir 0) with sparseItemRoot := some 0 } }

theorem smallTree_tree : SparseTree smallTree 0 where
  rootPrev i hi := by
    rw [arrayItems_eq] at hi
    show (if 0 + i < 512 then none else _) = none
    rw [if_pos (by omega)]
  childPrev {path table array} _ _ hn i hi := by
    rw [arrayItems_eq] at hi
    show (if array + i < 512 then none else if array + i < 1024 then some 0 else some 512) = _
    have hn' : (if table = 0 then some 512 else if table = 512 then some 1024 else none) =
        some array := hn
    by_cases h0 : table = 0
    · rw [if_pos h0] at hn'
      obtain rfl := Option.some.inj hn'
      rw [if_neg (Nat.not_lt.mpr (Nat.le_add_right 512 i)), if_pos (Nat.add_lt_add_left hi 512), h0]
    · rw [if_neg h0] at hn'
      by_cases h1 : table = 512
      · rw [if_pos h1] at hn'
        obtain rfl := Option.some.inj hn'
        have hge := Nat.le_add_right 1024 i
        rw [if_neg (Nat.not_lt.mpr (Nat.le_trans (by decide) hge)), if_neg (Nat.not_lt.mpr hge), h1]
      · rw [if_neg h1] at hn'
        cases hn'

theorem smallTree_leaf : Reached smallTree 0 [5, 0, 0] 1029 :=
  .child (.child (.root (by decide)) rfl (by decide)) rfl (by decide)

/-- Item 5 of the third array: its index is 5 blocks of level 2, and leads back. -/
theorem smallTree_inverse : IndexInverse .given id 3 smallTree [5, 0, 0] 1029 :=
  (sparse_index_inverse_iff (fun _ => rfl) smallTree_tree smallTree_leaf (by decide)
    (by decide +kernel) (by decide +kernel) (by decide)).2.mpr ⟨rfl, rfl⟩

/-- Item 1 of the root array: its index is a negative one. -/
theorem smallTree_not_inverse : SparseTree smallTree 0 ∧ Reached smallTree 0 [1] 1 ∧
    getItemSection (smallTree.items 1).flags = 0 ∧
    itemToIdxSparse .given 3 smallTree 1 = some (BitVec.ofInt 64 (-(2 ^ 27))) ∧
    ∀ pg, ¬ IndexInverse pg id 3 smallTree [1] 1 := by
  have hroot : processGroupGroupRoot .given smallTree (getItemDim (smallTree.items 1).flags) =
      some (some 0) := by decide +kernel
  have hreached : Reached smallTree 0 [1] 1 := .root (by decide)
  refine ⟨smallTree_tree, hreached, by decide +kernel, by decide +kernel, fun pg hi => ?_⟩
  obtain ⟨idx, h1, h2, -⟩ := hi
  cases pg with
  | null =>
      have hnone : itemToIdxSparse .null 3 smallTree 1 = none := by decide +kernel
      rw [hnone] at h1
      cases h1
  | given =>
      have hneg : itemToIdxSparse .given 3 smallTree 1 = some (BitVec.ofInt 64 (-(2 ^ 27))) := by
        decide +kernel
      rw [hneg, Option.some.injEq] at h1
      rw [← h1] at h2
      exact absurd h2 (by decide +kernel)

end TensorAlloc
