/-
  File:      TensorAlloc/Alloc.lean
  Subject:   `node_struct_alloc`: the class of a request, its admission, and the loops of `find_group`
             over a callback that may not return.

  * `prepareNodeStructAlloc` -- the class and the flags; a purpose the switch does not name leaves the
    class unset;
  * `preprocessNodeStructAlloc` -- the count, or the refusal; `node_budget` is called with one argument
    for two and read with the dimension;
  * `findGroupOn_eq` -- over a callback that returns they are the loops of `findGroup`;
  * `nodeStructAlloc` -- a request without parameters (`paras` is NULL).
-/
import TensorAlloc.Dispatch
import TensorAlloc.SparseIndex

namespace TensorAlloc

/-! ## 1. The class of a request -/

/-- `enum item_func`. -/
inductive ItemFunc where
  | virtual | virtualGraps | virtualNormal | virtualDma | virtualMmio | virtualMmioEmul
  | virtualShare | virtualCache | virtualStream
  | physical | physicalUndefined | physicalCont | physicalDcont | physicalMmu | physicalObject
  | physicalDebug | physicalDevice | physicalReserved | physicalStream
  | entity
  deriving DecidableEq, Repr

/-- `prepare_node_struct_alloc`; `none` where `migration_type` stays unset. -/
def prepareNodeStructAlloc (nitems : Nat) (flags : ItemFunc) :
    Option (MigrationType × DispatchPara) :=
  let para : DispatchPara :=
    { isCombined := false, isVirtual := false, isEntry := false, isStream := false }
  if flags = .physicalDebug then some (.unmovable, para)
  else if flags = .physicalReserved then some (.unmovable, { para with isCombined := true })
  else if nitems = 1 ∧ flags ≠ .physicalStream ∧ flags ≠ .virtual ∧ flags ≠ .virtualStream ∧
      flags ≠ .entity then some (.lrutype, para)
  else
    match flags with
    | .physicalDcont => some (.movable, { para with isCombined := true })
    | .physicalCont | .physicalMmu | .physicalObject => some (.movable, para)
    | .physicalStream => some (.sparseMovable, { para with isStream := true })
    | .virtual => some (.sparseMovable, { para with isVirtual := true })
    | .virtualStream => some (.sparseMovable, { para with isVirtual := true, isStream := true })
    | .entity => some (.sparseMovable, { para with isEntry := true })
    | _ => none

/-! ## 2. Admission -/

def unmovMaxItems : Nat := 1024

/-- The levels from `phy_group_lvl` to below `MAX_GROUP_LVLS`. A top level below 0 indexes the groups
    before their array. -/
def budgetLevels (st : State) (cur : Nat) : Option (List Nat) :=
  let top := st.tables.phyGroupLvl cur
  if top < 0 then none else some (List.range' top.toNat (maxGroupLvls - top.toNat))

/-- `node_budget`. -/
def nodeBudget (st : State) (mt : MigrationType) (dim : Nat) : Option Word := do
  let cur ← getCurrentNodeNum dim
  pure ((← budgetLevels st cur).map fun lvl => nodeBudgetLvl st cur mt lvl).sum

/-- `ERR_INVALID_ARGS` as a count. -/
def refusedSize : Int := -8

/-- `preprocess_node_struct_alloc`, as the `ssize_t` it returns. -/
def preprocessNodeStructAlloc (st : State) (flags : ItemFunc) (nitems : Nat) (mt : MigrationType)
    (dim : Nat) : Option Int := do
  let accepted := (BitVec.ofNat 64 nitems).toInt
  match flags with
  | .physicalReserved =>
      if BitVec.ofNat 64 nitems = (← nodeBudget st mt dim) then pure accepted
      -- the loop over the levels only leaves itself
      else pure (if (itemToOrders nitems).2 = 0 then accepted else refusedSize)
  | .physicalDebug =>
      let nodeNitem ← nodeBudget st mt dim
      pure (if unmovMaxItems < nodeNitem.toNat ∨ unmovMaxItems < nitems then refusedSize
        else if (itemToOrders nitems).2 ≠ 0 then refusedSize else accepted)
  | .physicalCont | .physicalMmu | .physicalObject | .physicalStream | .virtual | .virtualStream =>
      pure (bit (itemToOrder nitems).1).toInt
  | _ => pure accepted

/-- The loop of `budget_sufficient`: what is missing after the nodes, `none` where one of them is more
    than enough. `nitems` is a `long`. -/
def missingAfter (st : State) (dimBase : Nat) : Nat → Word → Option Word
  | 0, nitems => some nitems
  | n + 1, nitems => do
      let nitems ← missingAfter st dimBase n nitems
      let nitems := nitems - (st.nodes (.phy (dimBase + n))).nrFreeitems
      if nitems.toInt < 0 then none else some nitems

/-- `budget_sufficient`. The cache asked for the rest is that of the last node. -/
def budgetSufficient (st : State) (nitems : Int) (mt : MigrationType) (dim : Nat) : Option Bool :=
  let dimBase := dim * nodeLvlNum
  match missingAfter st dimBase nodeLvlNum (BitVec.ofInt 64 nitems) with
  | none => some true
  | some missing => do
      let remaining ←
        if mt = .lrutype then
          pure (st.counts (.lruCacheCell (.phy (dimBase + nodeLvlNum - 1)) archCurrCpuNum))
        else if mt = .unmovable then nodeBudget st mt dim
        else pure 0
      pure (decide (missing.toInt ≤ remaining.toInt))

/-! ## 3. The loops of `find_group` -/

/-- The `dispatch` entry of the node chosen: level and order. -/
abbrev NodeDispatch := State → Nat → Nat → Option (State × Status × Option Item)

section Loops

variable (fuel : Nat) (dispatch : NodeDispatch) (para : AllocPara) (mt : MigrationType)

/-- The append after a dispatch. -/
def appendBlock (st : State) (tmp itemPtr : Item) : Option State :=
  if para.isCombined = true ∧ (itemPtr ≠ tmp ∨ compoundItem st tmp = false) then
    compoundAppend fuel st tmp itemPtr
  else some st

/-- The `do … while` over one digit, at most `n` rounds: the code, and `item_ptr`. -/
def groupDigit (level : Nat) :
    Nat → Nat → State → Option Item → Option (State × Status × Option Item)
  | 0, _, _, _ => none
  | n + 1, lvlNitem, st, itemPtr => do
      let (st, ret, tmp) ← dispatch st level (lvlOrderOf para lvlNitem).1
      if ret ≠ .noError then pure (st, ret, itemPtr)
      else
        let tmp ← tmp
        let st ← appendBlock fuel para st tmp (itemPtr.getD tmp)
        if (lvlOrderOf para lvlNitem).2 = 0 then pure (st, .noError, some (itemPtr.getD tmp))
        else groupDigit level n (lvlOrderOf para lvlNitem).2 st (some (itemPtr.getD tmp))

/-- The loop over `n` levels from `level`. -/
def groupLevels : Nat → Nat → Nat → State → Option Item → Option (State × Status × Option Item)
  | 0, _, _, st, itemPtr => some (st, .noError, itemPtr)
  | n + 1, level, nitems, st, itemPtr =>
      let blockSize := 2 ^ findShift para mt level
      if nitems / blockSize = 0 then groupLevels n (level + 1) (nitems % blockSize) st itemPtr
      else do
        let (st, ret, itemPtr) ← groupDigit fuel dispatch para level fuel (nitems / blockSize) st
          itemPtr
        if ret ≠ .noError then pure (st, ret, itemPtr)
        else groupLevels n (level + 1) (nitems % blockSize) st itemPtr

/-- `find_group` from `lvl` to below `lvl_end`, the blocks of a failed request given back. -/
def findGroupOn (r : Reading) (st : State) (nitems lvl lvlEnd : Nat) :
    Option (State × Status × Option Item) := do
  let level := if para.isEntry then lvl + 1 else lvl
  let (st, ret, itemPtr) ← groupLevels fuel dispatch para mt (lvlEnd - level) level nitems st none
  if ret = .noError then pure (st, .noError, itemPtr)
  else
    match itemPtr with
    | none => pure (st, .errNoMemory, none)
    | some item => do
        let (st, _) ← findGroupReversed r fuel st mt item para.isVirtual
        pure (st, .errNoMemory, none)

end Loops

/-- The callback always returns what `f` says: a code other than `NO_ERROR`, or a block. -/
def CallbackReturns (dispatch : NodeDispatch) (f : State → Nat → Nat → State × Option Item) : Prop :=
  ∀ st level order, ∃ ret item, dispatch st level order = some ((f st level order).1, ret, item) ∧
    match (f st level order).2 with
    | none => ret ≠ .noError
    | some i => ret = .noError ∧ item = some i

/-- Two runs of the loops in step: the globals and the item are the same, and so is whether a dispatch
    failed. -/
def InStep (p : Option (State × Status × Option Item)) (q : Option (FindVars × Bool)) : Prop :=
  match q with
  | none => p = none
  | some (v, ok) => ∃ ret, p = some (v.st, ret, v.itemPtr) ∧ (ret = .noError ↔ ok = true)

section Agree

variable {fuel : Nat} {dispatch : NodeDispatch} {f : State → Nat → Nat → State × Option Item}
  {para : AllocPara} {mt : MigrationType}

/-- Step: one digit. -/
theorem groupDigit_inStep (hf : CallbackReturns dispatch f) (level n lvlNitem : Nat) (v : FindVars) :
    InStep (groupDigit fuel dispatch para level n lvlNitem v.st v.itemPtr)
      (dispatchLoop fuel (fun _ => f) para level n lvlNitem v) := by
  induction n generalizing lvlNitem v with
  | zero => rfl
  | succ n ih =>
      obtain ⟨ret, item, hd, hans⟩ := hf v.st level (lvlOrderOf para lvlNitem).1
      unfold groupDigit dispatchLoop dispatchOne
      cases hq : f v.st level (lvlOrderOf para lvlNitem).1 with
      | mk st1 found =>
          rw [hq] at hd hans
          cases found with
          | none =>
              simp only [hd, hq, Option.bind_eq_bind, Option.bind_some, if_pos hans]
              exact ⟨ret, rfl, iff_of_false hans Bool.false_ne_true⟩
          | some tmp =>
              obtain ⟨rfl, rfl⟩ := hans
              simp only [hd, hq, Option.bind_eq_bind, Option.bind_some, if_neg (not_not.mpr rfl)]
              -- the append is the same call, on the same condition
              unfold appendBlock
              split
              · cases hc : compoundAppend fuel st1 tmp (v.itemPtr.getD tmp) with
                | none => rfl
                | some st2 =>
                    simp only [Option.bind_some, Option.map_some, Bool.true_eq_false, if_false]
                    split
                    · exact ⟨.noError, rfl, by simp⟩
                    · exact ih _ ⟨st2, _, some (v.itemPtr.getD tmp)⟩
              · simp only [Option.bind_some, Bool.true_eq_false, if_false]
                split
                · exact ⟨.noError, rfl, by simp⟩
                · exact ih _ ⟨st1, _, some (v.itemPtr.getD tmp)⟩

/-- Run: the loop over the levels. -/
theorem groupLevels_inStep (hf : CallbackReturns dispatch f) (n level nitems : Nat) (v : FindVars) :
    InStep (groupLevels fuel dispatch para mt n level nitems v.st v.itemPtr)
      (findLevels fuel (fun _ => f) para mt n level nitems v) := by
  induction n generalizing level nitems v with
  | zero => exact ⟨.noError, rfl, by simp⟩
  | succ n ih =>
      unfold groupLevels findLevels
      dsimp only
      split
      · exact ih _ _ v
      · have hdigit := @groupDigit_inStep fuel dispatch f para hf level fuel
          (nitems / 2 ^ findShift para mt level) v
        cases hq : dispatchLoop fuel (fun _ => f) para level fuel
            (nitems / 2 ^ findShift para mt level) v with
        | none =>
            rw [hq] at hdigit
            rw [show groupDigit _ _ _ _ _ _ _ _ = none from hdigit]
            rfl
        | some q =>
            obtain ⟨v1, ok⟩ := q
            rw [hq] at hdigit
            obtain ⟨ret, hp, hok⟩ := hdigit
            rw [hp]
            simp only [Option.bind_eq_bind, Option.bind_some]
            cases ok with
            | true =>
                rw [if_neg (not_not.mpr (hok.mpr rfl))]
                exact ih _ _ v1
            | false =>
                have hne : ret ≠ .noError := fun e => Bool.false_ne_true (hok.mp e)
                rw [if_pos hne]
                exact ⟨ret, rfl, hok⟩

/-- **The loops over a callback that may not return are those of `find_group`** where it does. -/
theorem findGroupOn_eq (hf : CallbackReturns dispatch f) (r : Reading) (st : State)
    (nitems lvl lvlEnd : Nat) :
    findGroupOn fuel dispatch para mt r st nitems lvl lvlEnd =
      (findGroup r fuel (fun _ => f) st nitems mt lvl lvlEnd para).map fun found =>
        (found.st, if found.ok then .noError else .errNoMemory, found.item) := by
  have hlevels := @groupLevels_inStep fuel dispatch f para mt hf
    (lvlEnd - if para.isEntry then lvl + 1 else lvl) (if para.isEntry then lvl + 1 else lvl) nitems
    ⟨st, [], none⟩
  unfold findGroupOn findGroup
  dsimp only
  cases hq : findLevels fuel (fun _ => f) para mt (lvlEnd - if para.isEntry then lvl + 1 else lvl)
      (if para.isEntry then lvl + 1 else lvl) nitems ⟨st, [], none⟩ with
  | none =>
      rw [hq] at hlevels
      rw [show groupLevels _ _ _ _ _ _ _ _ _ = none from hlevels]
      rfl
  | some q =>
      obtain ⟨v, ok⟩ := q
      rw [hq] at hlevels
      obtain ⟨ret, hp, hok⟩ := hlevels
      rw [hp]
      simp only [Option.bind_eq_bind, Option.bind_some, findExit]
      cases ok with
      | true =>
          rw [if_pos (hok.mpr rfl)]
          rfl
      | false =>
          rw [if_neg fun e => Bool.false_ne_true (hok.mp e), if_neg Bool.false_ne_true]
          cases v.itemPtr with
          | none => rfl
          | some item =>
              simp only [Option.map_map]
              cases findGroupReversed r fuel v.st mt item para.isVirtual <;> rfl

end Agree

/-! ## 4. The request -/

section Request

variable (r : Reading) (fuel : Nat) (dispatch : DispatchFn)

/-- `compound_group` of a physical request: `find_group` on the node of the dimension. A virtual
    request goes to the recent node of a process group, NULL. -/
def compoundGroup (st : State) (nitems : Nat) (mt : MigrationType) (para : DispatchPara)
    (dim : Nat) : Option (State × Status × Option Item) := do
  let cur ← getCurrentNodeNum dim
  if para.isVirtual then none
  else
    let top := if mt = .sparseMovable then 0 else st.tables.phyGroupLvl cur
    if top < 0 then none
    else
      findGroupOn fuel (fun st level order => dispatch st (.phy cur) level mt order para)
        para.toAllocPara mt r st nitems top.toNat groupLvlNum

/-- `node_struct_alloc` with `paras` NULL: an entry reads through it. -/
def nodeStructAlloc (st : State) (node : NodeRef) (nitems : Nat) (flags : ItemFunc) :
    Option (State × Status × Option Nat) := do
  if nitems = 0 ∧ flags ≠ .entity then pure (st, .errInvalidArgs, none)
  else
    let (mt, para) ← prepareNodeStructAlloc nitems flags
    let dim := (st.nodes node).dim
    let psize ← preprocessNodeStructAlloc st flags nitems mt dim
    if psize ≤ 0 then pure (st, .errInvalidArgs, none)
    else
      let suff ← if mt = .sparseMovable then pure true else budgetSufficient st psize mt dim
      if suff = false then pure (st, .errNoMemory, none)
      else if para.isEntry then none
      else
        let (st, ret, item) ← compoundGroup r fuel dispatch st psize.toNat mt para dim
        if ret ≠ .noError then pure (st, ret, none)
        else
          let item ← item
          if mt = .sparseMovable then
            let idx ← itemToIdxSparse getCurrentProcessGroup fuel st item
            pure (st, .noError, some (idxToRange idx.toInt))
          else pure (st, .noError, some (itemToRange st item))

end Request

end TensorAlloc
