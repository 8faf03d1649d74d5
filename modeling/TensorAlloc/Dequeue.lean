/-
  File:      TensorAlloc/Dequeue.lean
  Subject:   Giving blocks back: `dequeue_group_migration` and `find_group_reversed`.

  * `dequeueGroupMigration` -- with a GHOST list of the blocks it passed to
    `free_group_migration`, in order;
  * `findGroupReversed` -- the LRU cache, the sparse and the physical way back, with a ghost list of
    the blocks freed or cached. `get_current_process_group` returns NULL, so every access to a
    virtual node faults;
  * `dequeueGroupMigration_once` -- the head's flag is cleared before the loop tests it: the loop
    runs once, whatever hangs on the chain.
-/
import TensorAlloc.Compound
import TensorAlloc.FreeTotal

namespace TensorAlloc

/-! ## 1. The way back -/

/-- `nr_freeitems += nitems`. -/
def State.raiseFree (st : State) (node : NodeRef) (nitems : Word) : State :=
  { st with
    nodes := Function.update st.nodes node
      { st.nodes node with nrFreeitems := (st.nodes node).nrFreeitems + nitems } }

/-- `node_id`, cut to the nodes there are. -/
def blockNode (st : State) (item : Item) : Nat :=
  let nodeId := getItemNode (st.items item).flags
  if pnodeNum ≤ nodeId then 0 else nodeId

/-- `lvl_index`, cut to the levels there are. -/
def blockLvl (st : State) (item : Item) : Nat :=
  let lvlIndex := getItemSection (st.items item).flags
  if maxGroupLvls < lvlIndex then maxGroupLvls else lvlIndex

/-- `order_index`. -/
def blockOrder (st : State) (item : Item) : Nat := getItemOrder (st.items item).flags

/-- `nitems` of a block. -/
def blockItems (st : State) (item : Item) : Word :=
  bit (blockOrder st item + functionItemLvl groupOrderNumShift (blockLvl st item))

/-- `dequeue_group_migration`. `fuel` bounds the `do … while`. -/
def dequeueGroupMigration (r : Reading) (mt : MigrationType) :
    Nat → State → Item → Option (State × List Item)
  | 0, _, _ => none
  | fuel + 1, st, item => do
      let (st, removed) := compoundRemoveHead st item
      let tempPage := removed.getD item
      let nodeId := blockNode st tempPage
      let lvlIndex := blockLvl st tempPage
      let nitems := blockItems st tempPage
      let (st, _) ← freeGroupMigration r st tempPage (.phy nodeId lvlIndex) lvlIndex
        (blockOrder st tempPage) mt
      let st := if mt ≠ .unmovable then st.raiseFree (.phy nodeId) nitems else st
      if compoundItem st item then
        let (st, freed) ← dequeueGroupMigration r mt fuel st item
        pure (st, tempPage :: freed)
      else pure (st, [tempPage])

/-- `get_vnode_num`: a member of the process group `get_current_process_group` returns, NULL. -/
def getVnodeNum (_nu : Nat) : Option NodeRef := none

/-- `arch_curr_cpu_num`. -/
def archCurrCpuNum : Nat := 0

/-- `dequeue_group_prior`. -/
def dequeueGroupPrior (st : State) (item : Item) (mt : MigrationType) : Option State := do
  let level := getItemSection (st.items item).flags
  let order := getItemOrder (st.items item).flags
  let st ← listDel st item
  pure ((st.countDec (.groupCell (.entity level) mt order)).modFlags item fun flags =>
    clearItemNode (clearItemSection (clearItemOrder (clearItemPresent flags))))

/-- `dequeue_group_sparse`: an entry goes back through the entity group. Every other item goes
    through its virtual node, the member of a NULL process group. -/
def dequeueGroupSparse (st : State) (item : Item) (mt : MigrationType) : Option State :=
  if itemStates[getItemState (st.items item).flags]? = some .sparsePrior then
    dequeueGroupPrior st item mt
  else none

/-- `find_group_reversed`. -/
def findGroupReversed (r : Reading) (fuel : Nat) (st : State) (mt : MigrationType) (item : Item)
    (isVirtual : Bool) : Option (State × List Item) := do
  let nodeId := getItemNode (st.items item).flags
  let node ← if isVirtual then getVnodeNum nodeId else some (.phy nodeId)
  if mt = .lrutype then
    let cell := ListHead.lruCacheCell node archCurrCpuNum
    let st ← listAddHead r (.item item) (.head cell) st
    let st := st.countInc cell
    if (st.counts cell).toNat < lruCacheMaxItems then pure (st, [item])
    else
      -- the coldest item is freed in its place
      let tmp ← (st.lists cell).getLast?
      let st ← listDel st tmp
      let (st, freed) ← dequeueGroupMigration r mt fuel (st.countDec cell) tmp
      pure (st, item :: freed)
  else if mt = .sparseMovable then
    let st ← dequeueGroupSparse st item mt
    pure (st, [item])
  else dequeueGroupMigration r mt fuel st item

/-! ## 2. The loop runs once -/

section Once

variable {st st' : State} {mt : MigrationType} {head : Item} {blocks : List Item}

/-- The first iteration works on the head itself, flag set or not. -/
theorem compoundRemoveHead_getD (st : State) (head : Item) :
    (compoundRemoveHead st head).2.getD head = head := by
  unfold compoundRemoveHead
  split <;> rfl

theorem compoundRemoveHead_flags (st : State) (head i : Item) :
    ((compoundRemoveHead st head).1.items i).flags = (st.items i).flags := by
  unfold compoundRemoveHead
  split
  · rfl
  · dsimp only
    exact st.modItem_keeps i ItemStruct.flags rfl

theorem compoundRemoveHead_clear (st : State) (head : Item) :
    compoundItem (compoundRemoveHead st head).1 head = false := by
  unfold compoundRemoveHead
  split
  · assumption
  · unfold compoundItem
    rw [State.modItem_items, if_pos rfl]

theorem compoundRemoveHead_rest (st : State) (head : Item) :
    (compoundRemoveHead st head).1.nodes = st.nodes ∧
      (compoundRemoveHead st head).1.tables = st.tables ∧
      (compoundRemoveHead st head).1.lists = st.lists := by
  unfold compoundRemoveHead
  split <;> exact ⟨rfl, rfl, rfl⟩

/-- The globals once a block is back on its list: the free count of its node, raised. -/
def counted (mt : MigrationType) (head : Item) (before st : State) : State :=
  if mt ≠ .unmovable then st.raiseFree (.phy (blockNode before head)) (blockItems before head) else st

/-- **The loop runs once**: one call of `free_group_migration`, on the head. -/
theorem dequeueGroupMigration_once (r : Reading) (mt : MigrationType) (fuel : Nat) (st : State)
    (head : Item) :
    dequeueGroupMigration r mt (fuel + 1) st head =
      (freeGroupMigration r (compoundRemoveHead st head).1 head
        (.phy (blockNode st head) (blockLvl st head)) (blockLvl st head) (blockOrder st head) mt).map
          fun q => (counted mt head st q.1, [head]) := by
  have hnode : blockNode (compoundRemoveHead st head).1 head = blockNode st head := by
    unfold blockNode
    rw [compoundRemoveHead_flags]
  have hlvl : blockLvl (compoundRemoveHead st head).1 head = blockLvl st head := by
    unfold blockLvl
    rw [compoundRemoveHead_flags]
  have horder : blockOrder (compoundRemoveHead st head).1 head = blockOrder st head := by
    unfold blockOrder
    rw [compoundRemoveHead_flags]
  have hitems : blockItems (compoundRemoveHead st head).1 head = blockItems st head := by
    unfold blockItems
    rw [horder, hlvl]
  rw [dequeueGroupMigration]
  simp only [compoundRemoveHead_getD, hnode, hlvl, horder, hitems, Option.bind_eq_bind]
  cases hf : freeGroupMigration r (compoundRemoveHead st head).1 head
      (.phy (blockNode st head) (blockLvl st head)) (blockLvl st head) (blockOrder st head) mt with
  | none => rfl
  | some q =>
      obtain ⟨st1, i⟩ := q
      cases r with
      | written => rw [freeGroupMigration_written] at hf; cases hf
      | listFirst =>
          -- neither the free nor the counter touches the flag
          have hclear : compoundItem (counted mt head st st1) head = false := by
            have h1 := (freeGroupMigration_aside hf).head head
            have h2 := compoundRemoveHead_clear st head
            unfold compoundItem at h2 ⊢
            rw [← h2, ← h1]
            unfold counted
            split <;> rfl
          rw [Option.bind_some, Option.map_some]
          show (if compoundItem (counted mt head st st1) head = true then _ else _) = _
          rw [hclear]
          rfl

/-- Where a block of a chain can be freed. -/
def BlockPlace (st : State) (mt : MigrationType) (item : Item) : Prop :=
  FreePlace st (getItemNode (st.items item).flags)
    (st.nodeOf (.phy (blockNode st item) (blockLvl st item))).dim (blockLvl st item)
    (blockOrder st item) mt item

/-- **A block given back alone.** -/
theorem dequeueGroupMigration_returns (h : BlockPlace st mt head) (fuel : Nat) :
    ∃ st', dequeueGroupMigration .listFirst mt (fuel + 1) st head = some (st', [head]) ∧
      st'.nodes = (counted mt head st st).nodes := by
  obtain ⟨hn, ht, -⟩ := compoundRemoveHead_rest st head
  have hplace : FreePlace (compoundRemoveHead st head).1
      (getItemNode ((compoundRemoveHead st head).1.items head).flags)
      ((compoundRemoveHead st head).1.nodeOf (.phy (blockNode st head) (blockLvl st head))).dim
      (blockLvl st head) (blockOrder st head) mt head := by
    rw [compoundRemoveHead_flags]
    unfold State.nodeOf
    rw [hn, ht]
    exact ⟨by rw [ht]; exact h.base, by rw [ht]; exact h.level⟩
  obtain ⟨⟨st1, i⟩, hf⟩ := freeGroupMigration_returns hplace
  refine ⟨counted mt head st st1, ?_, ?_⟩
  · rw [dequeueGroupMigration_once, hf]
    rfl
  · have hnodes : st1.nodes = st.nodes := (freeGroupMigration_aside hf).nodes.trans hn
    unfold counted State.raiseFree
    split
    · dsimp only
      rw [hnodes]
    · exact hnodes

/-! ## 3. What is given back -/

/-- The blocks of one request: distinct, linked from the head, the head marked. -/
structure CompoundChain (st : State) (blocks : List Item) (head : Item) : Prop where
  first : blocks.head? = some head
  nodup : blocks.Nodup
  links : Chain st blocks
  flag : compoundItem st head = true

end Once

end TensorAlloc
