/-
  File:      TensorAlloc/Dispatch.lean
  Subject:   `dispatch_group`: one block for one request, from the LRU cache, the lists of its class or,
             by migration, the MOVABLE lists.

  * `Searches` -- the searches of the sparse side, the backward search and `lend` as what they
    return; the forward search of the physical lists is the code's own;
  * `dispatchGroup` -- the nested calls of `migrate_group` pass the flags of the older interface,
    `is_combined` and false: read as a `struct alloc_para` of these. `depth` bounds the nesting;
    two levels are all there is (`dispatchGroup_depth`);
  * `dispatched_class_iff` -- whether the state a block leaves with leads its free to its class.
-/
import TensorAlloc.Find

namespace TensorAlloc

/-! ## 1. The forward search -/

/-- `split_item_migration`. The lists of a type end with `MAX_IDX_NUM`: a write past them is
    undefined. -/
def splitItemMigration (st : State) (group : Group) (lvl order : Nat) (item : Item)
    (mt : MigrationType) : Option State :=
  if maxIdxNum < order - 1 then none
  else
    let st := split2GroupMigration st group item
      (intOf (bit (order - 1 + functionItemLvl groupOrderNumShift lvl))) (order - 1) mt lvl
    some (split2GroupMigration st group item 0 (order - 1) mt lvl)

/-- `forward_group_budget`, on the current node. -/
def forwardGroupBudget (st : State) (cur : Nat) (mt : MigrationType) : Nat → Nat → Option Int
  | 0, order =>
      if (0 : Int) < st.tables.phyGroupLvl cur then some 0
      else if groupBudget st (.phy cur 0) 0 mt order maxItemOrder ≠ 0 then some 0
      else if (-1 : Int) < st.tables.phyGroupLvl cur then some (-1)
      else none
  | index + 1, order =>
      if (index + 1 : Nat) < st.tables.phyGroupLvl cur then some (index + 1 : Nat)
      else if groupBudget st (.phy cur (index + 1)) (index + 1) mt order maxItemOrder ≠ 0 then
        some (index + 1 : Nat)
      else forwardGroupBudget st cur mt index 0

/-- The loop of `forward_remove_group_migration`, over `n` levels from `last_index` up: a unit of each
    level is split for the next. -/
def borrowLevels (cur : Nat) (mt : MigrationType) : Nat → Nat → State → Option State
  | 0, _, st => some st
  | n + 1, lastIndex, st => do
      let (st, item) ← removeGroupMigration st (.phy cur lastIndex) lastIndex 0 mt false
      let item ← item
      let st ← splitItemMigration st (.phy cur (lastIndex + 1)) (lastIndex + 1) groupOrderNumShift
        item mt
      borrowLevels cur mt n (lastIndex + 1) st

/-- `forward_remove_group_migration`. -/
def forwardRemoveGroupMigration (st : State) (reverseIndex : Nat) (mt : MigrationType)
    (order dim : Nat) : Option (State × Option Item) := do
  let cur ← getCurrentNodeNum dim
  let lastIndex ← forwardGroupBudget st cur mt reverseIndex order
  if lastIndex < st.tables.phyGroupLvl cur then pure (st, none)
  else
    let st ← borrowLevels cur mt (reverseIndex - lastIndex.toNat) lastIndex.toNat st
    removeGroupMigration st (.phy cur reverseIndex) reverseIndex order mt false

/-! ## 2. Dispatch -/

/-- `status_t`, the codes met here. -/
inductive Status where
  | noError | errNoMemory | errInvalidArgs
  deriving DecidableEq, Repr

/-- `struct alloc_para`, what `dispatch_group` reads of it. -/
structure DispatchPara extends AllocPara where
  isStream : Bool
  deriving DecidableEq, Repr

/-- `is_combined, false`, the flags of the nested calls. -/
def nestedPara (isCombined : Bool) : DispatchPara :=
  { isCombined := isCombined, isVirtual := false, isEntry := false, isStream := false }

/-- What a search returns: the globals and the item, NULL where it finds none; `none` where it does
    not return. The arguments are those of the calls, in their order. -/
structure Searches where
  stream : State → Nat → MigrationType → Nat → Nat → DispatchPara → Option (State × Option Item)
  prior : State → Nat → MigrationType → Nat → NodeRef → Option (State × Option Item)
  sparse : State → Nat → MigrationType → Nat → Nat → Bool → Option (State × Option Item)
  backward : State → Nat → MigrationType → Nat → Nat → Option (State × Option Item)
  lend : State → MigrationType → Nat → Nat → Bool → Option (State × Status × Option Item)

/-- `dispatch`: the globals, the code and what it writes to `*item_pptr`. -/
abbrev DispatchFn := State → NodeRef → Nat → MigrationType → Nat → DispatchPara →
  Option (State × Status × Option Item)

/-- The number of an enumerator. -/
def ItemState.number (state : ItemState) : Nat := itemStates.idxOf state

def State.setStatus (st : State) (node : NodeRef) (status : GroupStatus) : State :=
  { st with nodes := Function.update st.nodes node { st.nodes node with status := status } }

/-- `nr_freeitems -= nitems`. -/
def State.lowerFree (st : State) (node : NodeRef) (nitems : Word) : State :=
  { st with
    nodes := Function.update st.nodes node
      { st.nodes node with nrFreeitems := (st.nodes node).nrFreeitems - nitems } }

def State.setState (st : State) (item : Item) (state : ItemState) : State :=
  st.modFlags item fun flags => setItemState flags state.number

/-- The state `set_group_item_state` writes. -/
def groupItemState (compound : Bool) (mt : MigrationType) (para : DispatchPara) : ItemState :=
  if para.isStream then
    if para.isVirtual then .sparseVirtualStream else .sparsePhysicalStream
  else if mt = .sparseMovable then
    if para.isEntry then .sparsePrior else .sparseTypes
  else if compound then .movableComp else .movableNormal

/-- `set_group_item_state`. -/
def setGroupItemState (st : State) (item : Item) (mt : MigrationType) (para : DispatchPara) : State :=
  st.setState item (groupItemState (compoundItem st item) mt para)

/-- `block_shift`; `level` names no variable of `dispatch_group` and is read as `lvl`. -/
def dispatchShift (lvl : Nat) (mt : MigrationType) (para : DispatchPara) : Nat :=
  if para.isEntry then functionItemLvlPrior groupPriorNumShift lvl
  else functionItemLvl (if mt = .sparseMovable then groupRangeNumShift else groupOrderNumShift) lvl

/-- `final_dispatch`. -/
def finalDispatch (st : State) (node : NodeRef) (lvl : Nat) (mt : MigrationType) (order : Nat)
    (para : DispatchPara) (item : Item) : State :=
  let st := st.lowerFree node (if para.isEntry then 0 else bit (order + dispatchShift lvl mt para))
  setGroupItemState st item mt para

/-- The search of the forward modes. -/
def forwardSearch (s : Searches) (st : State) (node : NodeRef) (lvl : Nat) (mt : MigrationType)
    (order : Nat) (para : DispatchPara) : Option (State × Option Item) :=
  let dim := (st.nodes node).dim
  if mt = .sparseMovable then
    if para.isStream then s.stream st lvl mt order dim para
    else if para.isEntry then s.prior st lvl mt order node
    else s.sparse st lvl mt order dim para.isVirtual
  else forwardRemoveGroupMigration st lvl mt order dim

/-- `migrate_group`. The default branch leaves `tmp_item_ptr` unset. -/
def migrateGroup (s : Searches) (dispatch : DispatchFn) (st : State) (node : NodeRef)
    (order lvl : Nat) (type : MigrationType) (isCombined : Bool) :
    Option (State × Status × Option Item) :=
  match type with
  | .lrutype => do
      let (st, ret, item) ← dispatch st node lvl .movable order (nestedPara isCombined)
      if ret ≠ .noError then pure (st, ret, none)
      else
        let item ← item
        pure (st.setState item .lruCacheTypes, .noError, some item)
  | .unmovable => do
      let (st, ret, item) ← dispatch (st.setStatus node .onlyForward) node lvl .movable order
        (nestedPara isCombined)
      if ret ≠ .noError then pure (st, ret, none)
      else
        let item ← item
        pure (st.setState item .nomovableTypes, .noError, some item)
  | .movable => do
      let (st, ret, item) ← s.lend st .movable lvl order isCombined
      if ret ≠ .noError then pure (st, ret, none)
      else
        let item ← item
        pure (st.setState item .movableNode, .noError, some item)
  | .reclaimable => none

/-- `dispatch_group_migration`. `MIGRATION_SPARSE_MOVABLE` is `MIGRATION_MOVABLE`, so the last branch
    is never taken. -/
def dispatchGroupMigration (s : Searches) (dispatch : DispatchFn) (st : State) (node : NodeRef)
    (order lvl : Nat) (mt : MigrationType) (isCombined : Bool) :
    Option (State × Status × Option Item) :=
  if mt = .reclaimable ∨ mt = .sparseMovable then some (st, .errInvalidArgs, none)
  else if mt = .lrutype then migrateGroup s dispatch st node order lvl .lrutype isCombined
  else if mt = .unmovable then migrateGroup s dispatch st node order lvl .unmovable isCombined
  else do
    let (st, ret, item) ← dispatch (st.setStatus node .backward) node lvl mt order
      (nestedPara isCombined)
    if ret = .noError then pure (st, .noError, item)
    else
      let (st, ret, item) ← migrateGroup s dispatch st node order lvl .movable isCombined
      if ret = .noError then pure (st, .noError, item) else pure (st, .errNoMemory, none)

/-- The head of the LRU cache, for a request of its class. -/
def cachedHead (st : State) (node : NodeRef) (mt : MigrationType) : Option Item :=
  if mt = .lrutype then (st.lists (.lruCacheCell node archCurrCpuNum)).head? else none

/-- The body of `dispatch_group`, its nested calls as `dispatch`. -/
def dispatchStep (s : Searches) (dispatch : DispatchFn) : DispatchFn :=
  fun st node lvl mt order para =>
    match cachedHead st node mt with
    | some head => do
        let st ← listDel st head
        pure (st.countDec (.lruCacheCell node archCurrCpuNum), .noError, some head)
    | none =>
        let status := (st.nodes node).status
        if status = .backward then
          if para.isCombined = false then some (st, .errInvalidArgs, none)
          else do
            let (st, item) ← s.backward st lvl mt order (st.nodes node).dim
            match item with
            | some item => pure (finalDispatch (st.setStatus node .idle) node lvl mt order para item,
                .noError, some item)
            | none => pure (st, .errNoMemory, none)
        else do
          let (st, item) ← forwardSearch s st node lvl mt order para
          match item with
          | some item => pure (finalDispatch (st.setStatus node .forward) node lvl mt order para item,
              .noError, some item)
          | none =>
              if status = .onlyForward then pure (st, .errNoMemory, none)
              else dispatchGroupMigration s dispatch st node order lvl mt para.isCombined

/-- `dispatch_group`. -/
def dispatchGroup (s : Searches) : Nat → DispatchFn
  | 0 => fun _ _ _ _ _ _ => none
  | depth + 1 => dispatchStep s (dispatchGroup s depth)

/-! ## 3. What the forward search takes -/

section Forward

variable {st st' : State} {lvl order dim cur : Nat} {mt : MigrationType} {item : Option Item}

/-- The halves of a unit are of order 11: past the end of the lists. -/
theorem borrowLevels_faults (cur n lastIndex : Nat) (mt : MigrationType) (st : State) :
    borrowLevels cur mt (n + 1) lastIndex st = none := by
  have hsplit : ∀ st group lvl item, splitItemMigration st group lvl groupOrderNumShift item mt =
      none := fun _ _ _ _ => if_pos (by decide)
  rw [borrowLevels]
  simp only [hsplit, Option.bind_eq_bind, Option.bind_none, Option.bind_fun_none]

/-- **The forward search returns from its own level only**: what the lists of the level asked for give,
    or nothing. -/
theorem forwardRemove_cases
    (h : forwardRemoveGroupMigration st lvl mt order dim = some (st', item)) :
    (item = none ∧ st' = st) ∨ ∃ cur, getCurrentNodeNum dim = some cur ∧
      removeGroupMigration st (.phy cur lvl) lvl order mt false = some (st', item) := by
  unfold forwardRemoveGroupMigration at h
  simp only [Option.bind_eq_bind, Option.bind_eq_some_iff] at h
  obtain ⟨cur, hcur, last, -, h⟩ := h
  by_cases hlast : last < st.tables.phyGroupLvl cur
  · rw [if_pos hlast, Option.pure_def, Option.some.injEq, Prod.mk.injEq] at h
    exact .inl ⟨h.2.symm, h.1.symm⟩
  · rw [if_neg hlast, Option.bind_eq_some_iff] at h
    obtain ⟨st1, hb, h⟩ := h
    cases hn : lvl - last.toNat with
    | zero =>
        rw [hn, borrowLevels, Option.some.injEq] at hb
        rw [hb]
        exact .inr ⟨cur, hcur, h⟩
    | succ n =>
        rw [hn, borrowLevels_faults] at hb
        cases hb

theorem forwardRemove_none
    (h : forwardRemoveGroupMigration st lvl mt order dim = some (st', none)) : st' = st := by
  rcases forwardRemove_cases h with ⟨-, e⟩ | ⟨cur, -, h⟩
  · exact e
  · exact removeGroupMigration_none h

/-- The way up ends at the level asked for or above. -/
theorem forwardGroupBudget_le {last : Int}
    (h : forwardGroupBudget st cur mt lvl order = some last) : last ≤ lvl := by
  induction lvl generalizing order with
  | zero =>
      unfold forwardGroupBudget at h
      split at h
      · cases h; decide
      · split at h
        · cases h; decide
        · split at h
          · cases h; decide
          · cases h
  | succ n ih =>
      unfold forwardGroupBudget at h
      split at h
      · cases h; exact Int.le_refl _
      · split at h
        · cases h; exact Int.le_refl _
        · have := ih h
          omega

/-- It ends at the level asked for exactly when that level is searched. -/
theorem forwardGroupBudget_own (htop : st.tables.phyGroupLvl cur ≤ lvl) :
    (∃ last, forwardGroupBudget st cur mt lvl order = some last ∧ st.tables.phyGroupLvl cur ≤ last ∧
      lvl - last.toNat = 0) ↔ groupBudget st (.phy cur lvl) lvl mt order maxItemOrder ≠ 0 := by
  constructor
  · intro h
    obtain ⟨last, h, hle, hz⟩ := h
    cases lvl with
    | zero =>
        have hnot : ¬ (0 : Int) < st.tables.phyGroupLvl cur := Int.not_lt.mpr htop
        unfold forwardGroupBudget at h
        rw [if_neg hnot] at h
        split at h
        · assumption
        · split at h
          · cases h
            omega
          · cases h
    | succ n =>
        unfold forwardGroupBudget at h
        rw [if_neg (Int.not_lt.mpr htop)] at h
        split at h
        · assumption
        · have := forwardGroupBudget_le h
          omega
  · intro hb
    refine ⟨lvl, ?_, htop, by omega⟩
    cases lvl with
    | zero =>
        have hnot : ¬ (0 : Int) < st.tables.phyGroupLvl cur := Int.not_lt.mpr htop
        unfold forwardGroupBudget
        rw [if_neg hnot, if_pos hb]
        rfl
    | succ n =>
        unfold forwardGroupBudget
        rw [if_neg (Int.not_lt.mpr htop), if_pos hb]

/-- It ends at the first coarser level that has anything. -/
theorem forwardGroupBudget_coarser {L : Nat} (htop : st.tables.phyGroupLvl cur ≤ L)
    (hfound : groupBudget st (.phy cur L) L mt 0 maxItemOrder ≠ 0) (hlt : L < lvl)
    (hown : groupBudget st (.phy cur lvl) lvl mt order maxItemOrder = 0)
    (hbetween : ∀ l, L < l → l < lvl → groupBudget st (.phy cur l) l mt 0 maxItemOrder = 0) :
    forwardGroupBudget st cur mt lvl order = some (L : Int) := by
  induction lvl generalizing order with
  | zero => omega
  | succ n ih =>
      rw [forwardGroupBudget, if_neg (by omega), if_neg (fun h => h hown)]
      rcases Nat.eq_or_lt_of_le (Nat.le_of_lt_succ hlt) with rfl | hlt'
      · cases L with
        | zero =>
            have hnot : ¬ (0 : Int) < st.tables.phyGroupLvl cur := Int.not_lt.mpr htop
            rw [forwardGroupBudget, if_neg hnot, if_pos hfound]
            rfl
        | succ k => rw [forwardGroupBudget, if_neg (Int.not_lt.mpr htop), if_pos hfound]
      · exact ih hlt' (hbetween n hlt' (Nat.lt_succ_self n)) fun l h1 h2 => hbetween l h1 (by omega)

end Forward

/-! ## 4. The nested calls -/

section Nested

variable {s : Searches} {st st' : State} {node : NodeRef} {lvl order d : Nat} {mt : MigrationType}
  {para : DispatchPara} {ret : Status} {item : Option Item}

@[simp] theorem setStatus_status (st : State) (node : NodeRef) (status : GroupStatus) :
    ((st.setStatus node status).nodes node).status = status := by
  simp [State.setStatus]

/-- Only MOVABLE requests nest, and they nest no further. -/
theorem dispatchGroup_depth (s : Searches) (d : Nat) :
    dispatchGroup s (d + 2) = dispatchGroup s 2 := by
  have hmov : ∀ f g st node lvl order para, dispatchStep s f st node lvl .movable order para =
      dispatchStep s g st node lvl .movable order para := fun _ _ _ _ _ _ _ => rfl
  have hnest : ∀ f g : DispatchFn, (∀ st node lvl order para,
      f st node lvl .movable order para = g st node lvl .movable order para) →
      dispatchStep s f = dispatchStep s g := by
    intro f g hfg
    funext st node lvl mt order para
    have hm : ∀ st1, dispatchGroupMigration s f st1 node order lvl mt para.isCombined =
        dispatchGroupMigration s g st1 node order lvl mt para.isCombined := by
      intro st1
      cases mt <;> simp [dispatchGroupMigration, migrateGroup, hfg]
    unfold dispatchStep
    simp only [hm]
  exact hnest _ _ fun st node lvl order para => hmov _ _ st node lvl order para

/-- The body of the forward modes, off the cache. -/
theorem dispatch_forward (hc : cachedHead st node mt = none)
    (hb : (st.nodes node).status ≠ .backward) :
    dispatchGroup s (d + 1) st node lvl mt order para =
      (forwardSearch s st node lvl mt order para).bind fun
        | (st1, some item) => some (finalDispatch (st1.setStatus node .forward) node lvl mt order
            para item, .noError, some item)
        | (st1, none) => if (st.nodes node).status = .onlyForward then some (st1, .errNoMemory, none)
            else dispatchGroupMigration s (dispatchGroup s d) st1 node order lvl mt
              para.isCombined := by
  show dispatchStep s (dispatchGroup s d) st node lvl mt order para = _
  unfold dispatchStep
  simp only [hc, if_neg hb]
  cases forwardSearch s st node lvl mt order para with
  | none => rfl
  | some r =>
      obtain ⟨st1, item⟩ := r
      cases item <;> rfl

/-- The LRU shortcut. -/
theorem dispatch_cached {head : Item} (hc : cachedHead st node mt = some head) :
    dispatchGroup s (d + 1) st node lvl mt order para = (listDel st head).map fun st =>
      (st.countDec (.lruCacheCell node archCurrCpuNum), .noError, some head) := by
  show dispatchStep s (dispatchGroup s d) st node lvl mt order para = _
  unfold dispatchStep
  simp only [hc]
  cases listDel st head <;> rfl

/-- What a MOVABLE request of a forward mode comes to. -/
theorem dispatch_movable (hb : (st.nodes node).status ≠ .backward) :
    dispatchGroup s (d + 1) st node lvl .movable order para =
      (forwardSearch s st node lvl .movable order para).map fun
        | (st1, some item) => (finalDispatch (st1.setStatus node .forward) node lvl .movable order
            para item, .noError, some item)
        | (st1, none) => (st1, if (st.nodes node).status = .onlyForward then .errNoMemory
            else .errInvalidArgs, none) := by
  rw [dispatch_forward rfl hb]
  cases forwardSearch s st node lvl .movable order para with
  | none => rfl
  | some r =>
      obtain ⟨st1, item⟩ := r
      cases item with
      | some item => rfl
      | none =>
          simp only [Option.bind_some, Option.map_some, dispatchGroupMigration, or_true, if_true]
          split <;> rfl

/-- The state a migrated block is marked with. -/
def migratedState (mt : MigrationType) : ItemState :=
  if mt = .lrutype then .lruCacheTypes else .nomovableTypes

/-- The globals the nested call starts from: for an UNMOVABLE request the node may only search
    forward. -/
def migrateStart (st : State) (node : NodeRef) (mt : MigrationType) : State :=
  if mt = .unmovable then st.setStatus node .onlyForward else st

/-- The two classes filled from the MOVABLE lists. -/
theorem migrateGroup_eq (dispatch : DispatchFn) (hmt : mt = .lrutype ∨ mt = .unmovable)
    (isCombined : Bool) :
    dispatchGroupMigration s dispatch st node order lvl mt isCombined =
      (dispatch (migrateStart st node mt) node lvl .movable order (nestedPara isCombined)).bind
        fun (st, ret, item) => if ret ≠ .noError then some (st, ret, none)
          else item.map fun item => (st.setState item (migratedState mt), .noError, some item) := by
  have hmap : ∀ (st : State) (state : ItemState) (item : Option Item), (do
      let item ← item
      pure (st.setState item state, Status.noError, some item) : Option (State × Status × Option Item)) =
        item.map fun item => (st.setState item state, .noError, some item) := by
    intro st state item
    cases item <;> rfl
  rcases hmt with rfl | rfl
  · simp only [dispatchGroupMigration, reduceCtorEq, or_self, if_false, if_true, migrateGroup,
      migrateStart, migratedState, hmap]
    rfl
  · simp only [dispatchGroupMigration, reduceCtorEq, or_self, if_false, if_true, migrateGroup,
      migrateStart, migratedState, hmap]
    rfl

/-- The lists of these classes are searched by the code's own search: it writes nothing where it finds
    nothing. -/
theorem forwardSearch_none (hmt : mt = .lrutype ∨ mt = .unmovable)
    (h : forwardSearch s st node lvl mt order para = some (st', none)) : st' = st := by
  have hne : mt ≠ .sparseMovable := by rcases hmt with rfl | rfl <;> decide
  rw [forwardSearch, if_neg hne] at h
  exact forwardRemove_none h

/-- **What a migration comes to**: the MOVABLE request, its block marked with the class. -/
theorem dispatchGroupMigration_migrates (hmt : mt = .lrutype ∨ mt = .unmovable)
    (hb : (st.nodes node).status ≠ .backward) (isCombined : Bool) :
    dispatchGroupMigration s (dispatchGroup s (d + 1)) st node order lvl mt isCombined =
      (forwardSearch s (migrateStart st node mt) node lvl .movable order (nestedPara isCombined)).map
        fun
        | (st1, some item) => ((finalDispatch (st1.setStatus node .forward) node lvl .movable order
            (nestedPara isCombined) item).setState item (migratedState mt), .noError, some item)
        | (st1, none) => (st1, if ((migrateStart st node mt).nodes node).status = .onlyForward then
            .errNoMemory else .errInvalidArgs, none) := by
  have hb' : ((migrateStart st node mt).nodes node).status ≠ .backward := by
    unfold migrateStart
    split
    · rw [setStatus_status]
      exact GroupStatus.noConfusion
    · exact hb
  rw [migrateGroup_eq _ hmt, dispatch_movable hb']
  cases forwardSearch s (migrateStart st node mt) node lvl .movable order (nestedPara isCombined) with
  | none => rfl
  | some r =>
      obtain ⟨st1, item⟩ := r
      cases item with
      | some item => rfl
      | none =>
          simp only [Option.map_some, Option.bind_some]
          refine if_pos ?_
          split <;> decide

/-- **The three ways a request is served**: off the cache, by its own search, or from the MOVABLE
    lists. -/
theorem dispatch_served {i : Item}
    (h : dispatchGroup s (d + 2) st node lvl mt order para = some (st', .noError, some i))
    (hb : cachedHead st node mt = none → (st.nodes node).status ≠ .backward) :
    (cachedHead st node mt = some i ∧ ∃ st1, listDel st i = some st1 ∧
      st' = st1.countDec (.lruCacheCell node archCurrCpuNum)) ∨
    (cachedHead st node mt = none ∧
      ∃ st1, forwardSearch s st node lvl mt order para = some (st1, some i) ∧
        st' = finalDispatch (st1.setStatus node .forward) node lvl mt order para i) ∨
    (cachedHead st node mt = none ∧ (mt = .lrutype ∨ mt = .unmovable) ∧
      forwardSearch s st node lvl mt order para = some (st, none) ∧
      ∃ st1, forwardSearch s (migrateStart st node mt) node lvl .movable order
          (nestedPara para.isCombined) = some (st1, some i) ∧
        st' = (finalDispatch (st1.setStatus node .forward) node lvl .movable order
          (nestedPara para.isCombined) i).setState i (migratedState mt)) := by
  cases hc : cachedHead st node mt with
  | some head =>
      rw [dispatch_cached hc, Option.map_eq_some_iff] at h
      obtain ⟨st1, hd, he⟩ := h
      simp only [Prod.mk.injEq, Option.some.injEq, true_and] at he
      obtain ⟨rfl, rfl⟩ := he
      exact .inl ⟨rfl, st1, hd, rfl⟩
  | none =>
      have hb := hb hc
      rw [dispatch_forward hc hb, Option.bind_eq_some_iff] at h
      obtain ⟨⟨st1, item⟩, hs, h⟩ := h
      cases item with
      | some item =>
          simp only [Option.some.injEq, Prod.mk.injEq, true_and] at h
          obtain ⟨rfl, rfl⟩ := h
          exact .inr (.inl ⟨rfl, st1, hs, rfl⟩)
      | none =>
          dsimp only at h
          split at h
          · cases h
          · next hf =>
              have hmt : mt = .lrutype ∨ mt = .unmovable := by
                cases mt with
                | movable => cases h
                | unmovable => exact .inr rfl
                | reclaimable => cases h
                | lrutype => exact .inl rfl
              have hst : st1 = st := forwardSearch_none hmt hs
              subst hst
              rw [dispatchGroupMigration_migrates hmt hb, Option.map_eq_some_iff] at h
              obtain ⟨⟨st2, item⟩, hs', h⟩ := h
              refine .inr (.inr ⟨rfl, hmt, hs, ?_⟩)
              cases item with
              | none =>
                  simp only [Prod.mk.injEq] at h
                  cases h.2.2
              | some i' =>
                  simp only [Prod.mk.injEq, Option.some.injEq, true_and] at h
                  obtain ⟨rfl, rfl⟩ := h
                  exact ⟨st2, hs', rfl⟩

end Nested

/-! ## 5. The class of a block -/

section Class

variable {s : Searches} {st st' : State} {node : NodeRef} {lvl order d : Nat} {mt : MigrationType}
  {para : DispatchPara} {i : Item}

/-- The state written is the state read. -/
theorem setState_state (st : State) (i : Item) (state : ItemState) :
    getItemState ((st.setState i state).items i).flags = state.number := by
  rw [State.setState, State.modFlags_items, if_pos rfl]
  show field .state (withField .state _ state.number) = _
  rw [field_withField, if_pos rfl]
  exact Nat.mod_eq_of_lt (by cases state <;> decide)

/-- The class the free of an item goes to. -/
def freeClass (st : State) (i : Item) : Option MigrationType :=
  itemStateToMigration (getItemState (st.items i).flags)

theorem freeClass_setState (st : State) (i : Item) (state : ItemState) :
    freeClass (st.setState i state) i = itemStateToMigration state.number := by
  unfold freeClass
  rw [setState_state]

/-- Only a MOVABLE block that is no entry gets a state of its class from `set_group_item_state`. -/
theorem groupItemState_class (compound : Bool) (mt : MigrationType) (para : DispatchPara) :
    itemStateToMigration (groupItemState compound mt para).number = some mt ↔
      mt = .movable ∧ (para.isStream = true ∨ para.isEntry = false) := by
  unfold groupItemState
  cases para.isStream <;> cases para.isEntry <;> cases para.isVirtual <;> cases compound <;>
    cases mt <;> decide

/-- When a block goes back to the class it was asked for: off the cache it was cached with a state of
    the class; from the request's own search it is a MOVABLE block and no entry, or a MOVABLE
    stream. A migrated block always does. -/
def ClassKept (s : Searches) (st : State) (node : NodeRef) (lvl : Nat) (mt : MigrationType)
    (order : Nat) (para : DispatchPara) : Prop :=
  match cachedHead st node mt with
  | some head => freeClass st head = some .lrutype
  | none => (∃ st1 i, forwardSearch s st node lvl mt order para = some (st1, some i)) →
      mt = .movable ∧ (para.isStream = true ∨ para.isEntry = false)

/-- **When the state of a dispatched block leads back to its class.** -/
theorem dispatched_class_iff
    (h : dispatchGroup s (d + 2) st node lvl mt order para = some (st', .noError, some i))
    (hb : cachedHead st node mt = none → (st.nodes node).status ≠ .backward) :
    freeClass st' i = some mt ↔ ClassKept s st node lvl mt order para := by
  unfold ClassKept
  rcases dispatch_served h hb with ⟨hc, st1, hd, rfl⟩ | ⟨hc, st1, hs, rfl⟩ |
    ⟨hc, hmt, hs, st1, -, rfl⟩
  · have hlru : mt = .lrutype := by
      unfold cachedHead at hc
      split at hc
      · assumption
      · cases hc
    have hflags : freeClass (st1.countDec (.lruCacheCell node archCurrCpuNum)) i =
        freeClass st i := by
      obtain ⟨l, ho, rfl⟩ := listDel_some hd
      simp [freeClass]
    rw [hc, hflags, hlru]
  · rw [hc]
    have hclass : freeClass (finalDispatch (st1.setStatus node .forward) node lvl mt order para i) i =
        some mt ↔ mt = .movable ∧ (para.isStream = true ∨ para.isEntry = false) := by
      rw [finalDispatch, setGroupItemState, freeClass_setState]
      exact groupItemState_class _ mt para
    rw [hclass]
    exact ⟨fun h _ => h, fun h => h ⟨st1, i, hs⟩⟩
  · rw [hc, freeClass_setState]
    refine iff_of_true ?_ fun hown => ?_
    · rcases hmt with rfl | rfl <;> rfl
    · obtain ⟨st2, j, hown⟩ := hown
      rw [hs] at hown
      cases hown

end Class

/-- Searches that find nothing. -/
def noSearch : Searches where
  stream st _ _ _ _ _ := some (st, none)
  prior st _ _ _ _ := some (st, none)
  sparse st _ _ _ _ _ := some (st, none)
  backward st _ _ _ _ := some (st, none)
  lend st _ _ _ _ := some (st, .errNoMemory, none)

/-- The LRU cache of node 0 holds the item 0, cached with its own state. -/
def cachedOne : State :=
  (oneBlock (.lruCacheCell (.phy 0) 0) 0).setState 0 .lruCacheTypes

/-- Off the cache it goes back to the cache. -/
theorem cachedOne_class : ∃ st',
    dispatchGroup noSearch 2 cachedOne (.phy 0) 3 .lrutype 0 (nestedPara false) =
        some (st', .noError, some 0) ∧
      freeClass st' 0 = some .lrutype := by
  have h : dispatchGroup noSearch 2 cachedOne (.phy 0) 3 .lrutype 0 (nestedPara false) =
      some (_, .noError, some 0) := rfl
  refine ⟨_, h, (dispatched_class_iff (d := 0) h fun hc => ?_).mpr ?_⟩
  · cases hc
  · show freeClass cachedOne 0 = some .lrutype
    decide +kernel

/-- A RECLAIMABLE block of its own list leaves as a MOVABLE one. -/
theorem reclaimable_misclassed : ∃ st',
    dispatchGroup noSearch 2 (oneBlock (.groupCell (.phy 0 3) .reclaimable 0) 0) (.phy 0) 3
        .reclaimable 0 (nestedPara false) = some (st', .noError, some 0) ∧
      freeClass st' 0 = some .movable ∧ freeClass st' 0 ≠ some .reclaimable := by
  have h : (dispatchGroup noSearch 2 (oneBlock (.groupCell (.phy 0 3) .reclaimable 0) 0) (.phy 0) 3
      .reclaimable 0 (nestedPara false)).map (fun r => (r.2, freeClass r.1 0)) =
        some ((.noError, some 0), some .movable) := by decide +kernel
  obtain ⟨⟨st', r⟩, hrun, he⟩ := Option.map_eq_some_iff.mp h
  obtain ⟨rfl, hc⟩ := Prod.mk.inj he
  exact ⟨st', hrun, hc, by rw [hc]; decide⟩

end TensorAlloc
