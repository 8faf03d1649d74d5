/-
  File:      TensorAlloc/Stream.lean
  Subject:   Stream allocations: `subscribe_group_sparse` and the item it selects.

  * `StreamEnv` -- what the functions over sparse groups are used with and this module leaves open: the
    process group, the address translation, the slice allocator, the sequencing of the free lists (taken
    to report success), the periods in the items and the word at a rounded address;
  * `sequenceRemoveGroupSparse` -- down the tree by the digits of the stream id, with a new array
    where there is none;
  * `streamRun` -- requests in a row at one node, with a GHOST list of the blocks they reserve;
  * `stream_blocks_iff` -- the id advances in base items and is cut to the level of the request:
    blocks follow each other exactly when no request cuts the id below the end of the one before.
-/
import TensorAlloc.Init
import TensorAlloc.SparseIndex

namespace TensorAlloc

/-! ## 1. The functions -/

/-- What the functions over sparse groups are used with. `sequenceForward` is the state after
    `sequence_forward_group_sparse`, `none` an error. -/
structure StreamEnv where
  pg : ProcessGroup
  transform : Item → Item
  sliceAlloc : State → NodeRef → Option (State × Item)
  sequenceForward : State → Item → Group → Nat → Nat → MigrationType → Option State
  sporadicPeriod : Item → Word
  itemarrayPrev : ItemarrayPrev

/-- The groups of a row: `&node->group[level]`. -/
def rowGroup (row : NodeRef) (lvl : Nat) : Group :=
  match row with
  | .phy nu => .phy nu lvl
  | .vir nu => .vir nu lvl
  | .entity => .entity lvl

/-- `new_group_slice`; `none` is NULL. -/
def newGroupSlice (env : StreamEnv) (st : State) (node : NodeRef) (lvl : Nat) :
    Option (State × Item) := do
  let (st, newItem) ← env.sliceAlloc st node
  let st := initItem st newItem
  if lvl = 0 ∧ (st.nodes node).sparseItemRoot = none then
    pure ({ st with
      nodes := Function.update st.nodes node
        { st.nodes node with sparseItemRoot := some newItem } }, newItem)
  else pure (st, newItem)

/-- `new_group_root` with no item: a new array, on the list of the largest order. -/
def newGroupRoot (env : StreamEnv) (st : State) (group : Group) (lvl : Nat) (mt : MigrationType) :
    Option (State × Item) := do
  let (st, item) ← newGroupSlice env st (st.tables.groupNode group) lvl
  let cell := ListHead.groupCell group mt maxItemRange
  pure ((st.pushTail cell item).countInc cell, item)

/-- `*_GROUP_ROOT` of the tree a request works on; the outer `none` is a fault. -/
def streamRoot (pg : ProcessGroup) (st : State) (dim : Nat) (isVirtual isEntry : Bool) :
    Option (Option Item) :=
  if isEntry then some (st.nodes .entity).sparseItemRoot
  else if isVirtual then processGroupGroupRoot pg st dim
  else (getCurrentNodeNum dim).map fun nu => (st.nodes (.phy nu)).sparseItemRoot

/-- `PROCESS_GROUP_NODE(dim)`, `get_current_pnode(dim)`. -/
def streamNode (pg : ProcessGroup) (dim : Nat) (isVirtual : Bool) : Option NodeRef :=
  if isVirtual then (getCurrentVnodeNum dim).bind pg.node else (getCurrentNodeNum dim).map .phy

/-- The shift of a level's unit. -/
def streamShift (isEntry : Bool) (level : Nat) : Nat :=
  if isEntry then functionItemLvlPrior groupPriorNumShift level
  else functionItemLvl groupRangeNumShift level

/-- The item array below a root; where there is none a new one, with the parent as its `prev`. -/
def streamArray (env : StreamEnv) (mt : MigrationType) (dim : Nat) (isVirtual : Bool) (st : State)
    (level : Nat) (root rootPrev : Option Item) : Option (State × Item) :=
  match itemToRangeTransform env.transform root with
  | some itemarray => some (st, itemarray)
  | none => do
      let node ← streamNode env.pg dim isVirtual
      let row ← (st.nodes node).group
      let (st, itemarray) ← newGroupRoot env st (rowGroup row level) level mt
      pure (st.modItem itemarray fun x => { x with prev := rootPrev }, itemarray)

/-- The links between a table and the item selected in its array. -/
def linkRoot (isEntry : Bool) (st : State) (itemarray root : Item) (rootPrev : Option Item) :
    State :=
  let st := st.modItem root fun x => { x with prev := rootPrev }
  match rootPrev with
  | none => st
  | some table =>
      (st.modItem table fun x => { x with next := some itemarray }).modFlags table fun flags =>
        setItemFreeidx flags (2 ^ if isEntry then groupPriorNumShift else maxItemRange + 1)

/-- The loop of `sequence_remove_group_sparse` over `n` levels from `level`. -/
def sequenceLevels (env : StreamEnv) (mt : MigrationType) (lvl dim : Nat)
    (isVirtual isEntry : Bool) :
    Nat → Nat → State → Word → Option Item → Option Item → Option (State × Item)
  | 0, _, st, _, root, _ => root.map fun item => (st, item)
  | n + 1, level, st, idx, root, rootPrev => do
      let blockShift := streamShift isEntry level
      let idxIndex := idx.sshiftRight blockShift
      let (st, itemarray) ← streamArray env mt dim isVirtual st level root rootPrev
      let item := (itemarray + idxIndex.toInt).toNat
      let st := linkRoot isEntry st itemarray item rootPrev
      if lvl = level then pure (st, item)
      else
        sequenceLevels env mt lvl dim isVirtual isEntry n (level + 1) st
          (idx &&& (bit blockShift - 1#64)) (st.items item).next (some item)

/-- `sequence_remove_group_sparse`; `none` is NULL or a fault. -/
def sequenceRemoveGroupSparse (env : StreamEnv) (st : State) (idx : Word) (mt : MigrationType)
    (lvl dim : Nat) (isVirtual isEntry : Bool) : Option (State × Item) := do
  let root ← streamRoot env.pg st dim isVirtual isEntry
  let first := if isEntry then 1 else 0
  sequenceLevels env mt lvl dim isVirtual isEntry (maxGroupLvls - first) first st idx root none

/-- `lastidx` of a first-time request: the stream id, or the order where it is 0. -/
def lastStreamIdx (st : State) (node : NodeRef) (order : Nat) : Word :=
  let id := (st.nodes node).sequeueStreamId
  if id = 0#64 then BitVec.ofNat 64 order else id

/-- `sequeue_stream_id += BIT(order + block_shift)`. -/
def State.advanceStream (st : State) (node : NodeRef) (order shift : Nat) : State :=
  { st with
    nodes := Function.update st.nodes node
      { st.nodes node with
        sequeueStreamId := (st.nodes node).sequeueStreamId + bit (order + shift) } }

/-- `subscribe_group_sparse`. The dimension is the item's, and the node's for a NULL item, which the
    source reads it through. `fuel` bounds the way up of a periodic item. -/
def subscribeGroupSparse (env : StreamEnv) (fuel : Nat) (st : State) (item : Option Item)
    (group : Group) (lvl order : Nat) (mt : MigrationType) (isVirtual isEntry : Bool) :
    Option (State × Item) := do
  let node := st.tables.groupNode group
  let blockShift := streamShift isEntry lvl
  let (lastidx, dim) ← match item with
    | some item =>
        if (env.sporadicPeriod item).setWidth 32 = 0#32 then none
        else (itemToIdxSparse env.pg fuel st item).map fun idx =>
          (idx + ((env.sporadicPeriod item).setWidth 32).signExtend 64,
            getItemDim (st.items item).flags)
    | none => some (lastStreamIdx st node order, (st.nodes node).dim)
  let (st, leaf) ← sequenceRemoveGroupSparse env st lastidx mt lvl dim isVirtual isEntry
  let st ← env.sequenceForward st leaf group lvl order mt
  pure (if isEntry then st else st.advanceStream node order blockShift, leaf)

/-! ## 2. Requests in a row -/

/-- A first-time request: its level and its order. -/
structure StreamRequest where
  level : Nat
  order : Nat
  deriving DecidableEq, Repr

/-- The shift of the request's level. -/
def StreamRequest.shift (q : StreamRequest) : Nat := functionItemLvl groupRangeNumShift q.level

/-- How many base items the request is for. -/
def StreamRequest.items (q : StreamRequest) : Nat := 2 ^ (q.order + q.shift)

/-- A request the allocator is made for. -/
def StreamRequest.Valid (q : StreamRequest) : Prop :=
  q.level < maxGroupLvls ∧ q.order ≤ maxItemRange

instance (q : StreamRequest) : Decidable q.Valid :=
  inferInstanceAs (Decidable (q.level < maxGroupLvls ∧ q.order ≤ maxItemRange))

/-- The block reserved for a request: first base item, and how many. -/
structure StreamBlock where
  start : Nat
  items : Nat
  deriving DecidableEq, Repr

/-- The block of a request at a stream id, which is cut to the request's level. -/
def StreamRequest.block (q : StreamRequest) (s : Nat) : StreamBlock :=
  { start := s / 2 ^ q.shift * 2 ^ q.shift, items := q.items }

/-- Two blocks with no base item in common. -/
def StreamBlock.Apart (b c : StreamBlock) : Prop :=
  b.start + b.items ≤ c.start ∨ c.start + c.items ≤ b.start

/-- The requests one after the other at a node, with the blocks they reserve. -/
def streamRun (env : StreamEnv) (fuel : Nat) (node : NodeRef) (isVirtual : Bool) :
    State → List StreamRequest → Option (State × List StreamBlock)
  | st, [] => some (st, [])
  | st, q :: qs => do
      let s := lastStreamIdx st node q.order
      let (st, _) ← subscribeGroupSparse env fuel st none (rowGroup node q.level) q.level q.order
        .sparseMovable isVirtual false
      let (st, blocks) ← streamRun env fuel node isVirtual st qs
      pure (st, q.block s.toNat :: blocks)

/-- When the requests follow each other, judged by the id before the first: a request leaves room
    for the id to advance, and the next one cuts no more off it than this one. -/
def Follows : Nat → List StreamRequest → Prop
  | _, [] => True
  | _, [_] => True
  | id, q :: q' :: qs =>
      id + q.items < 2 ^ 64 ∧ (id + q.items) % 2 ^ q'.shift ≤ (id + q.items) % 2 ^ q.shift ∧
        Follows (id + q.items) (q' :: qs)

/-! ## 3. What a request leaves alone -/

/-- The stream ids and the groups' nodes are as before. -/
structure SameStream (st st' : State) : Prop where
  ids : ∀ node, (st'.nodes node).sequeueStreamId = (st.nodes node).sequeueStreamId
  groupNode : st'.tables.groupNode = st.tables.groupNode

theorem SameStream.refl (st : State) : SameStream st st := ⟨fun _ => rfl, rfl⟩

theorem SameStream.trans {st st' st'' : State} (h : SameStream st st') (h' : SameStream st' st'') :
    SameStream st st'' :=
  ⟨fun node => (h'.ids node).trans (h.ids node), h'.groupNode.trans h.groupNode⟩

/-- The functions left open work on slices, lists and items only. -/
structure StreamEnv.Keeps (env : StreamEnv) : Prop where
  slice : ∀ {st node st' item}, env.sliceAlloc st node = some (st', item) → SameStream st st'
  forward : ∀ {st leaf group lvl order mt st'},
    env.sequenceForward st leaf group lvl order mt = some st' → SameStream st st'

section Frame

variable {env : StreamEnv} {st st' : State} {item : Item}

/-- A new root is a new slice, and at most the root of its node. -/
theorem newGroupRoot_slice {group : Group} {lvl : Nat} {mt : MigrationType}
    (h : newGroupRoot env st group lvl mt = some (st', item)) :
    ∃ node st1, env.sliceAlloc st node = some (st1, item) ∧ st'.tables = st1.tables ∧
      ∀ n, ∃ root, st'.nodes n = { st1.nodes n with sparseItemRoot := root } := by
  unfold newGroupRoot newGroupSlice at h
  rw [Option.bind_eq_bind, Option.bind_eq_some_iff] at h
  obtain ⟨⟨st2, item2⟩, h2, h⟩ := h
  rw [Option.bind_eq_some_iff] at h2
  obtain ⟨⟨st1, item1⟩, h1, h2⟩ := h2
  obtain ⟨rfl, rfl⟩ := Prod.mk.inj (Option.some.inj h)
  dsimp only at h2
  split at h2
  · obtain ⟨rfl, rfl⟩ := Prod.mk.inj (Option.some.inj h2)
    refine ⟨_, st1, h1, rfl, fun n => ?_⟩
    by_cases hn : n = st.tables.groupNode group
    · subst hn
      exact ⟨some item1, Function.update_self _ _ _⟩
    · exact ⟨_, Function.update_of_ne hn _ _⟩
  · obtain ⟨rfl, rfl⟩ := Prod.mk.inj (Option.some.inj h2)
    exact ⟨_, st1, h1, rfl, fun n => ⟨_, rfl⟩⟩

theorem newGroupRoot_same (henv : env.Keeps) {group : Group} {lvl : Nat} {mt : MigrationType}
    (h : newGroupRoot env st group lvl mt = some (st', item)) : SameStream st st' := by
  obtain ⟨node, st1, h1, htables, hnodes⟩ := newGroupRoot_slice h
  refine (henv.slice h1).trans ⟨fun n => ?_, by rw [htables]⟩
  obtain ⟨root, hn⟩ := hnodes n
  rw [hn]

theorem streamArray_same (henv : env.Keeps) {mt : MigrationType} {dim level : Nat}
    {isVirtual : Bool} {root rootPrev : Option Item}
    (h : streamArray env mt dim isVirtual st level root rootPrev = some (st', item)) :
    SameStream st st' := by
  unfold streamArray at h
  split at h
  · obtain ⟨rfl, rfl⟩ := Prod.mk.inj (Option.some.inj h)
    exact .refl st
  · simp only [Option.bind_eq_bind, Option.bind_eq_some_iff] at h
    obtain ⟨node, -, row, -, ⟨st1, item1⟩, h1, h⟩ := h
    obtain ⟨rfl, rfl⟩ := Prod.mk.inj (Option.some.inj h)
    exact (newGroupRoot_same henv h1).trans ⟨fun _ => rfl, rfl⟩

theorem linkRoot_same (isEntry : Bool) (st : State) (itemarray root : Item)
    (rootPrev : Option Item) : SameStream st (linkRoot isEntry st itemarray root rootPrev) := by
  unfold linkRoot
  cases rootPrev <;> exact ⟨fun _ => rfl, rfl⟩

theorem sequenceLevels_same (henv : env.Keeps) {mt : MigrationType} {lvl dim : Nat}
    {isVirtual isEntry : Bool} {n level : Nat} {idx : Word} {root rootPrev : Option Item}
    (h : sequenceLevels env mt lvl dim isVirtual isEntry n level st idx root rootPrev =
      some (st', item)) : SameStream st st' := by
  induction n generalizing level st idx root rootPrev with
  | zero =>
      rw [sequenceLevels, Option.map_eq_some_iff] at h
      obtain ⟨item', -, h⟩ := h
      obtain ⟨rfl, rfl⟩ := Prod.mk.inj h
      exact .refl st
  | succ n ih =>
      rw [sequenceLevels] at h
      simp only [Option.bind_eq_bind, Option.bind_eq_some_iff] at h
      obtain ⟨⟨st1, array⟩, h1, h⟩ := h
      have hstep := (streamArray_same henv h1).trans
        (linkRoot_same isEntry st1 array
          (array + (idx.sshiftRight (streamShift isEntry level)).toInt).toNat rootPrev)
      dsimp only at h
      split at h
      · obtain ⟨rfl, rfl⟩ := Prod.mk.inj (Option.some.inj h)
        exact hstep
      · exact hstep.trans (ih h)

/-- **The item selected is at the start of the block**: its position in the array the loop reaches on
    its level is the digit of that level, the id being one of the tree. -/
theorem sequenceLevels_position {mt : MigrationType} {lvl dim : Nat} {isVirtual : Bool}
    {n level : Nat} {idx : Word} {root rootPrev : Option Item} (hle : level ≤ lvl)
    (hlvl : lvl < maxGroupLvls)
    (hidx : idx.toNat < 2 ^ (functionItemLvl groupRangeNumShift level + 9))
    (hn : lvl < level + n)
    (h : sequenceLevels env mt lvl dim isVirtual false n level st idx root rootPrev =
      some (st', item)) :
    ∃ st1 st2 array root' rootPrev',
      streamArray env mt dim isVirtual st1 lvl root' rootPrev' = some (st2, array) ∧
        item = array + idx.toNat / 2 ^ functionItemLvl groupRangeNumShift lvl % arrayItems := by
  have hshift : ∀ k ≤ 3, functionItemLvl groupRangeNumShift k = (3 - k) * 9 := fun k hk =>
    functionItemLvl_eq hk
  rw [maxGroupLvls_eq] at hlvl
  induction n generalizing level st idx root rootPrev with
  | zero => omega
  | succ n ih =>
      have h36 : idx.toNat < 2 ^ 36 := by
        refine Nat.lt_of_lt_of_le hidx (Nat.pow_le_pow_right (by decide) ?_)
        rw [hshift level (by omega)]
        omega
      rw [sequenceLevels] at h
      simp only [Option.bind_eq_bind, Option.bind_eq_some_iff] at h
      obtain ⟨⟨st1, array⟩, harray, h⟩ := h
      dsimp only at h
      split at h
      · next e =>
          subst e
          obtain ⟨-, rfl⟩ := Prod.mk.inj (Option.some.inj h)
          refine ⟨_, _, array, _, _, harray, ?_⟩
          have hdig : idx.toNat / 2 ^ functionItemLvl groupRangeNumShift lvl < arrayItems := by
            rw [Nat.div_lt_iff_lt_mul (Nat.two_pow_pos _), Nat.mul_comm]
            exact Nat.pow_add 2 _ 9 ▸ hidx
          rw [Nat.mod_eq_of_lt hdig, streamShift, if_neg (by decide),
            toInt_sshiftRight _ (Nat.lt_trans h36 (by decide)), ← Nat.cast_add, Int.toNat_natCast]
      · next hne =>
          -- the rest of the index has the same digits further down
          have hmask : (idx &&& (bit (streamShift false level) - 1#64)).toNat =
              idx.toNat % 2 ^ functionItemLvl groupRangeNumShift level :=
            BitField.toNat_and_mask (by
              show functionItemLvl groupRangeNumShift level < 64
              rw [hshift level (by omega)]
              omega)
          obtain ⟨st2, st3, array', root', prev', harray', hitem⟩ := @ih _ (level + 1) _ _ _ (by omega)
            (by
              rw [hmask]
              refine Nat.lt_of_lt_of_le (Nat.mod_lt _ (Nat.two_pow_pos _)) (Nat.le_of_eq ?_)
              rw [hshift level (by omega), hshift (level + 1) (by omega)]
              congr 1
              omega)
            (by omega) h
          refine ⟨st2, st3, array', root', prev', harray', ?_⟩
          have hsplit : 2 ^ functionItemLvl groupRangeNumShift level =
              2 ^ functionItemLvl groupRangeNumShift lvl *
                2 ^ ((lvl - level) * 9) := by
            rw [← Nat.pow_add, hshift level (by omega), hshift lvl (by omega)]
            congr 1
            omega
          rw [hitem, hmask, hsplit, Nat.mod_mul_right_div_self, Nat.mod_mod_of_dvd]
          exact Nat.pow_dvd_pow 2 (show 9 ≤ (lvl - level) * 9 by omega)

/-- **What a first-time request does to the ids**: its node's advances, no other changes. -/
theorem subscribeGroupSparse_ids (henv : env.Keeps) {fuel lvl order : Nat} {group : Group}
    {mt : MigrationType} {isVirtual : Bool}
    (h : subscribeGroupSparse env fuel st none group lvl order mt isVirtual false =
      some (st', item)) :
    (st'.nodes (st.tables.groupNode group)).sequeueStreamId =
      (st.nodes (st.tables.groupNode group)).sequeueStreamId +
        bit (order + functionItemLvl groupRangeNumShift lvl) ∧
      st'.tables.groupNode = st.tables.groupNode := by
  unfold subscribeGroupSparse sequenceRemoveGroupSparse at h
  simp only [Option.bind_eq_bind, Option.bind_some, Option.bind_eq_some_iff] at h
  obtain ⟨⟨st1, leaf⟩, ⟨root, -, h1⟩, st2, h2, h⟩ := h
  obtain ⟨rfl, rfl⟩ := Prod.mk.inj (Option.some.inj h)
  have hS := (sequenceLevels_same henv h1).trans (henv.forward h2)
  refine ⟨?_, hS.groupNode⟩
  show (Function.update st2.nodes _ _ _).sequeueStreamId = _
  rw [Function.update_self, hS.ids]
  rfl

end Frame

/-! ## 4. The blocks of a run -/

/-- The blocks, by the ids: what a run reserves from the id before it. -/
def streamBlocks : Nat → List StreamRequest → List StreamBlock
  | _, [] => []
  | id, q :: qs => q.block id :: streamBlocks ((id + q.items) % 2 ^ 64) qs

section Blocks

variable {q q' : StreamRequest} {qs : List StreamRequest} {id : Nat}

theorem StreamRequest.Valid.shift (h : q.Valid) : 9 ≤ q.shift ∧ q.shift ≤ 27 := by
  have hl : q.level < 3 := h.1
  unfold StreamRequest.shift
  rw [show groupRangeNumShift = groupOrderNumShift from rfl, functionItemLvl_eq (by omega)]
  omega

/-- A request is for whole units of its level. -/
theorem StreamRequest.unit_dvd (q : StreamRequest) : 2 ^ q.shift ∣ q.items :=
  Nat.pow_dvd_pow 2 (Nat.le_add_left _ _)

/-- The order a request at id 0 starts from is below its level's unit. -/
theorem StreamRequest.Valid.block_zero (h : q.Valid) : q.block q.order = q.block 0 := by
  have ho : q.order ≤ 8 := h.2
  have hlt : q.order < 2 ^ q.shift :=
    Nat.lt_of_lt_of_le (show q.order < 2 ^ 9 by omega) (Nat.pow_le_pow_right (by decide) h.shift.1)
  unfold StreamRequest.block
  rw [Nat.div_eq_of_lt hlt, Nat.zero_div]

/-- A block ends where the next id, cut to its level, is. -/
theorem StreamRequest.block_end (q : StreamRequest) (id : Nat) :
    (q.block id).start + q.items = (id + q.items) / 2 ^ q.shift * 2 ^ q.shift := by
  obtain ⟨k, hk⟩ := q.unit_dvd
  show id / 2 ^ q.shift * 2 ^ q.shift + q.items = _
  rw [hk, Nat.add_mul_div_left _ _ (Nat.two_pow_pos _), Nat.add_mul, Nat.mul_comm k]

/-- **One block after the other.** -/
theorem follow_iff (id : Nat) (q' : StreamRequest) (h : q.Valid) :
    (q.block id).start + q.items ≤ (q'.block ((id + q.items) % 2 ^ 64)).start ↔
      id + q.items < 2 ^ 64 ∧ (id + q.items) % 2 ^ q'.shift ≤ (id + q.items) % 2 ^ q.shift := by
  have hunit : 2 ^ q.shift ≤ 2 ^ 27 := Nat.pow_le_pow_right (by decide) h.shift.2
  have hcut := Nat.div_add_mod (id + q.items) (2 ^ q.shift)
  rw [Nat.mul_comm] at hcut
  rw [q.block_end]
  show _ ≤ (id + q.items) % 2 ^ 64 / 2 ^ q'.shift * 2 ^ q'.shift ↔ _
  by_cases hw : id + q.items < 2 ^ 64
  · have hcut' := Nat.div_add_mod (id + q.items) (2 ^ q'.shift)
    rw [Nat.mul_comm] at hcut'
    rw [Nat.mod_eq_of_lt hw]
    omega
  · -- an id past the last word starts again from below
    have hmod := Nat.mod_lt (id + q.items) (Nat.two_pow_pos q.shift)
    have hle : (id + q.items) % 2 ^ 64 / 2 ^ q'.shift * 2 ^ q'.shift ≤ (id + q.items) % 2 ^ 64 :=
      Nat.div_mul_le_self _ _
    have hsub : (id + q.items) % 2 ^ 64 + 2 ^ 64 ≤ id + q.items := by omega
    constructor
    · intro hc
      omega
    · intro hc
      exact absurd hc.1 hw

/-- The blocks go on and on: each after all before it. -/
def InOrder (blocks : List StreamBlock) : Prop :=
  blocks.Pairwise StreamBlock.Apart ∧ (blocks.map StreamBlock.start).Pairwise (· < ·)

/-- **The blocks are in order exactly when the requests follow each other.** -/
theorem streamBlocks_inOrder_iff (hq : ∀ q ∈ qs, q.Valid) :
    InOrder (streamBlocks id qs) ↔ Follows id qs := by
  induction qs generalizing id with
  | nil => exact ⟨fun _ => trivial, fun _ => ⟨.nil, .nil⟩⟩
  | cons q qs ih =>
      have hq1 := hq q List.mem_cons_self
      have hitems : 0 < q.items := Nat.two_pow_pos _
      cases qs with
      | nil => exact ⟨fun _ => trivial, fun _ => by simp [InOrder, streamBlocks]⟩
      | cons q' qs =>
          have ih' := @ih ((id + q.items) % 2 ^ 64) fun p hp =>
            hq p (List.mem_cons_of_mem q hp)
          have hfollow := follow_iff id q' hq1
          rw [streamBlocks]
          unfold InOrder at ih' ⊢
          rw [List.pairwise_cons, List.map_cons, List.pairwise_cons, Follows]
          constructor
          · intro h
            obtain ⟨⟨hapart, h1⟩, hlt, h2⟩ := h
            have hhead := hapart (q'.block ((id + q.items) % 2 ^ 64)) List.mem_cons_self
            have hstart := hlt (q'.block ((id + q.items) % 2 ^ 64)).start List.mem_cons_self
            have hnext := hfollow.mp (hhead.resolve_right fun hc => by omega)
            refine ⟨hnext.1, hnext.2, ?_⟩
            rw [← Nat.mod_eq_of_lt hnext.1]
            exact ih'.mp ⟨h1, h2⟩
          · intro h
            obtain ⟨hw, hm, h⟩ := h
            have hnext := hfollow.mpr ⟨hw, hm⟩
            rw [← Nat.mod_eq_of_lt hw] at h
            obtain ⟨h1, h2⟩ := ih'.mpr h
            -- everything later starts no earlier than the next block
            have hlater : ∀ b ∈ streamBlocks ((id + q.items) % 2 ^ 64) (q' :: qs),
                (q.block id).start + q.items ≤ b.start := by
              intro b hb
              rw [streamBlocks, List.map_cons, List.pairwise_cons] at h2
              rcases List.mem_cons.mp hb with rfl | hb
              · exact hnext
              · exact Nat.le_trans hnext (Nat.le_of_lt (h2.1 b.start (List.mem_map_of_mem hb)))
            refine ⟨⟨fun b hb => .inl (hlater b hb), h1⟩, fun n hn => ?_, h2⟩
            obtain ⟨b, hb, rfl⟩ := List.mem_map.mp hn
            have := hlater b hb
            omega

end Blocks

/-! ## 5. Every run -/

section Run

variable {env : StreamEnv} {st st' : State} {node : NodeRef} {fuel : Nat} {isVirtual : Bool}
  {qs : List StreamRequest} {blocks : List StreamBlock}

/-- The blocks a run reserves are those of its ids. -/
theorem streamRun_blocks (henv : env.Keeps)
    (hnode : ∀ lvl < maxGroupLvls, st.tables.groupNode (rowGroup node lvl) = node)
    (hq : ∀ q ∈ qs, q.Valid)
    (h : streamRun env fuel node isVirtual st qs = some (st', blocks)) :
    blocks = streamBlocks (st.nodes node).sequeueStreamId.toNat qs := by
  induction qs generalizing st blocks with
  | nil => exact (Prod.mk.inj (Option.some.inj h)).2.symm
  | cons q qs ih =>
      have hq1 := hq q List.mem_cons_self
      rw [streamRun] at h
      simp only [Option.bind_eq_bind, Option.bind_eq_some_iff] at h
      obtain ⟨⟨st1, leaf⟩, h1, ⟨st2, rest⟩, h2, h⟩ := h
      obtain ⟨rfl, rfl⟩ := Prod.mk.inj (Option.some.inj h)
      obtain ⟨hid, hg⟩ := subscribeGroupSparse_ids henv h1
      rw [hnode q.level hq1.1] at hid
      have hrest := ih (fun lvl hl => by rw [hg]; exact hnode lvl hl)
        (fun p hp => hq p (List.mem_cons_of_mem q hp)) h2
      have hblock : q.block (lastStreamIdx st node q.order).toNat =
          q.block (st.nodes node).sequeueStreamId.toNat := by
        unfold lastStreamIdx
        dsimp only
        split
        · next e =>
            have ho : q.order ≤ 8 := hq1.2
            rw [e, BitVec.toNat_ofNat, Nat.mod_eq_of_lt (by omega)]
            exact hq1.block_zero
        · rfl
      have hnext : (st1.nodes node).sequeueStreamId.toNat =
          ((st.nodes node).sequeueStreamId.toNat + q.items) % 2 ^ 64 := by
        have ho : q.order ≤ 8 := hq1.2
        have hs := hq1.shift.2
        have hbit : (bit (q.order + q.shift)).toNat = q.items := toNat_bit (by omega)
        rw [hid, BitVec.toNat_add]
        exact congrArg (fun k => (_ + k) % 2 ^ 64) hbit
      rw [hrest, hnext, hblock]
      rfl

/-- **Stream blocks follow each other exactly when the requests do**: in every run of successful
    first-time requests at a node, whatever its id, levels and orders. -/
theorem stream_blocks_iff (henv : env.Keeps)
    (hnode : ∀ lvl < maxGroupLvls, st.tables.groupNode (rowGroup node lvl) = node)
    (hq : ∀ q ∈ qs, q.Valid)
    (h : streamRun env fuel node isVirtual st qs = some (st', blocks)) :
    InOrder blocks ↔ Follows (st.nodes node).sequeueStreamId.toNat qs := by
  rw [streamRun_blocks henv hnode hq h]
  exact streamBlocks_inOrder_iff hq

end Run

/-! ## 6. Two requests -/

/-- A physical time node at its first id, with a fresh array for every table. -/
def streamEnv : StreamEnv where
  pg := .null
  transform := id
  sliceAlloc st _ :=
    let arrays := ((List.range maxGroupLvls).map fun lvl =>
      (st.counts (.groupCell (.phy 0 lvl) .sparseMovable maxItemRange)).toNat).sum
    some (st, arrayItems * (arrays + 1))
  sequenceForward st _ _ _ _ _ := some st
  sporadicPeriod _ := 0#64
  itemarrayPrev := itemarrayPrevAt 0#64

theorem streamEnv_keeps : streamEnv.Keeps where
  slice h := by
    obtain ⟨rfl, -⟩ := Prod.mk.inj (Option.some.inj h)
    exact .refl _
  forward h := by
    obtain rfl := Option.some.inj h
    exact .refl _

/-- Node 0 as initialisation leaves it: stream id 256. -/
def streamStart : State := initGroupPernode (initNode zeroed 0 0 0) 0 0

/-- The finer level second: 2^18 items from 0, then 512 right after them. -/
theorem streamRun_follows : ∃ st', streamRun streamEnv 0 (.phy 0) false streamStart
      [⟨1, 0⟩, ⟨2, 0⟩] = some (st', [⟨0, 2 ^ 18⟩, ⟨2 ^ 18, 2 ^ 9⟩]) ∧
    (InOrder [⟨0, 2 ^ 18⟩, ⟨2 ^ 18, 2 ^ 9⟩] ↔ Follows 256 [⟨1, 0⟩, ⟨2, 0⟩]) := by
  have hrun : ∃ st', streamRun streamEnv 0 (.phy 0) false streamStart [⟨1, 0⟩, ⟨2, 0⟩] =
      some (st', [⟨0, 2 ^ 18⟩, ⟨2 ^ 18, 2 ^ 9⟩]) := ⟨_, rfl⟩
  obtain ⟨st', h⟩ := hrun
  exact ⟨st', h, stream_blocks_iff streamEnv_keeps (by decide) (by decide) h⟩

/-- The coarser level second: both blocks start from item 0. -/
theorem streamRun_overlaps : ∃ st', streamRun streamEnv 0 (.phy 0) false streamStart
      [⟨2, 0⟩, ⟨1, 0⟩] = some (st', [⟨0, 2 ^ 9⟩, ⟨0, 2 ^ 18⟩]) ∧
    (streamStart.nodes (.phy 0)).sequeueStreamId = 256#64 ∧
    ¬ InOrder [⟨0, 2 ^ 9⟩, ⟨0, 2 ^ 18⟩] := by
  refine ⟨_, rfl, by decide, fun h => ?_⟩
  have := h.2
  simp at this

end TensorAlloc
