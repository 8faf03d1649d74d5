/-
  File:      TensorAlloc/DebugLimit.lean
  Subject:   The limit on the UNMOVABLE items of run time: runs of `FUNC_PHYSICAL_DEBUG` allocations and
             of frees of their blocks.

  * `debugAlloc` -- `node_struct_alloc` of such a request, up to the range;
  * `debugItems` -- what the limit is about: allocated and not freed, or free on the UNMOVABLE lists;
  * `debugAlloc_dispatched` -- an admitted request is one dispatch of one block;
  * `dispatch_moves` -- from the UNMOVABLE lists it adds nothing to the limit, by migration all of it;
  * `debug_limited` -- so the limit holds where the requests migrated so far, less the blocks freed to
    another class, fit it.
-/
import TensorAlloc.AllocChain
import TensorAlloc.Counter

namespace TensorAlloc

/-! ## 1. Runs -/

/-- `decompose_group`: the blocks freed are GHOST. -/
def decomposeGroup (r : Reading) (fuel : Nat) (st : State) (item : Item) (isVirtual : Bool) :
    Option (State × Status × List Item) :=
  match freeClass st item with
  | none => some (st, .errInvalidArgs, [])
  | some mt => (findGroupReversed r fuel st mt item isVirtual).map fun q => (q.1, .noError, q.2)

/-- `dispatch_group`, the MOVABLE lists searched by the code's own cycle. -/
def chainDispatch (s : Searches) (env : ChainEnv) (k : Nat) : DispatchFn :=
  dispatchGroup { s with sparse := allocChain env k } 2

/-- A debug request, or the free of a block. -/
inductive DebugOp where
  | alloc (nitems : Nat)
  | free (item : Item)
  deriving DecidableEq, Repr

section Runs

variable (r : Reading) (fuel : Nat) (dispatch : DispatchFn) (nu : Nat)

/-- `node_struct_alloc` of a `FUNC_PHYSICAL_DEBUG` request, up to the range: the block. -/
def debugAlloc (st : State) (nitems : Nat) : Option (State × Status × Option Item) :=
  if nitems = 0 then some (st, .errInvalidArgs, none)
  else do
    let dim := (st.nodes (.phy nu)).dim
    let psize ← preprocessNodeStructAlloc st .physicalDebug nitems .unmovable dim
    if psize ≤ 0 then pure (st, .errInvalidArgs, none)
    else
      let suff ← budgetSufficient st psize .unmovable dim
      if suff = false then pure (st, .errNoMemory, none)
      else compoundGroup r fuel dispatch st psize.toNat .unmovable (nestedPara false) dim

/-- It is that request. -/
theorem nodeStructAlloc_debug (st : State) (nitems : Nat) :
    nodeStructAlloc r fuel dispatch st (.phy nu) nitems .physicalDebug =
      (debugAlloc r fuel dispatch nu st nitems).bind fun q =>
        if q.2.1 ≠ .noError then some (q.1, q.2.1, none)
        else q.2.2.map fun item => (q.1, .noError, some (itemToRange q.1 item)) := by
  have hprepare : prepareNodeStructAlloc nitems .physicalDebug = some (.unmovable, nestedPara false) :=
    rfl
  unfold nodeStructAlloc debugAlloc
  by_cases h0 : nitems = 0
  · rw [if_pos ⟨h0, by decide⟩, if_pos h0]
    rfl
  · rw [if_neg fun h => h0 h.1, if_neg h0, hprepare]
    simp only [Option.bind_eq_bind, Option.bind_some]
    cases preprocessNodeStructAlloc st .physicalDebug nitems .unmovable (st.nodes (.phy nu)).dim with
    | none => rfl
    | some psize =>
        simp only [Option.bind_some]
        by_cases hp : psize ≤ 0
        · rw [if_pos hp, if_pos hp]
          rfl
        · rw [if_neg hp, if_neg hp, if_neg (show ¬ MigrationType.unmovable = .sparseMovable by decide)]
          cases budgetSufficient st psize .unmovable (st.nodes (.phy nu)).dim with
          | none => rfl
          | some suff =>
              simp only [Option.bind_some]
              cases suff with
              | false => rfl
              | true =>
                  rw [if_neg (by decide), if_neg (by decide), if_neg (by decide)]
                  cases compoundGroup r fuel dispatch st psize.toNat .unmovable (nestedPara false)
                    (st.nodes (.phy nu)).dim with
                  | none => rfl
                  | some q =>
                      obtain ⟨st1, ret, item⟩ := q
                      cases ret <;> cases item <;> rfl

/-- One step, with the blocks allocated and not freed; `none` where the request is refused or fails, the
    block is not one of them, or the call does not return. -/
def debugStep (freeFuel : Nat) (x : State × List Item) : DebugOp → Option (State × List Item)
  | .alloc nitems =>
      match debugAlloc r fuel dispatch nu x.1 nitems with
      | some (st, .noError, some item) => some (st, item :: x.2)
      | _ => none
  | .free item =>
      if item ∈ x.2 then
        match decomposeGroup r freeFuel x.1 item false with
        | some (st, .noError, _) => some (st, x.2.erase item)
        | _ => none
      else none

def debugRun (freeFuel : Nat) : State × List Item → List DebugOp → Option (State × List Item)
  | x, [] => some x
  | x, op :: ops => (debugStep r fuel dispatch nu freeFuel x op).bind fun x => debugRun freeFuel x ops

end Runs

/-- Base items allocated and not freed, or free on the UNMOVABLE lists. -/
def debugItems (st : State) (nu : Nat) (held : List Item) : Nat :=
  (held.map (blockSize st)).sum + listedItems st nu .unmovable

/-! ## 2. What a step must not run into -/

/-- The level and the order a request of a power of two is dispatched with: the first level from the top
    whose unit is not larger. -/
structure RequestAt (st : State) (nu nitems lvl order : Nat) : Prop where
  top : st.tables.phyGroupLvl nu ≤ lvl
  below : lvl < groupLvlNum
  size : unitItems lvl order = nitems
  first : ∀ l : Nat, st.tables.phyGroupLvl nu ≤ l → l < lvl → nitems < unitItems l 0

instance {st : State} {nu nitems lvl order : Nat} : Decidable (RequestAt st nu nitems lvl order) :=
  decidable_of_iff (st.tables.phyGroupLvl nu ≤ lvl ∧ lvl < groupLvlNum ∧ unitItems lvl order = nitems ∧
      ∀ l < lvl, st.tables.phyGroupLvl nu ≤ (l : Int) → nitems < unitItems l 0)
    ⟨fun ⟨h1, h2, h3, h4⟩ => ⟨h1, h2, h3, fun l hl hlt => h4 l hlt hl⟩,
      fun ⟨h1, h2, h3, h4⟩ => ⟨h1, h2, h3, fun l hlt hl => h4 l hl hlt⟩⟩

/-- What a MOVABLE search in the mode of a migration takes is split onto descriptors not in use, and the
    tables charged are on MOVABLE lists. -/
def MigratesClear (itemarrayPrev : ItemarrayPrev) (st : State) (nu : Nat) (held : List Item)
    (lvl order : Nat) : Prop :=
  ∀ oi item, Takes st nu lvl order .movable oi item →
    HalvesClear st held lvl order .movable oi item ∧
      TablesMovable itemarrayPrev (migrateStart st (.phy nu) .unmovable) nu lvl order item

/-- What an allocation must meet, from the UNMOVABLE lists or by migration. -/
structure DebugKeeps (itemarrayPrev : ItemarrayPrev) (st : State) (nu : Nat) (held : List Item)
    (lvl order : Nat) : Prop where
  own : OwnServes st nu lvl order .unmovable → ∀ oi item, Takes st nu lvl order .unmovable oi item →
    HalvesClear st held lvl order .unmovable oi item
  clear : ¬ OwnServes st nu lvl order .unmovable → MigratesClear itemarrayPrev st nu held lvl order

/-- What a step must meet. -/
def DebugStepKeeps (itemarrayPrev : ItemarrayPrev) (nu : Nat) (x : State × List Item) : DebugOp → Prop
  | .alloc nitems => ∀ lvl order, RequestAt x.1 nu nitems lvl order →
      DebugKeeps itemarrayPrev x.1 nu x.2 lvl order
  | .free item => ∀ mt, freeClass x.1 item = some mt → MergesOwn x.1 nu mt item

/-- **The requests migrated so far**, in base items, before a step and after it: a request that the
    UNMOVABLE lists do not serve is added, a block that is freed to another class is taken off. -/
inductive MigratedBy (nu : Nat) (x : State × List Item) (migrated : Nat) : DebugOp → Nat → Prop
  | own {nitems lvl order : Nat} (hR : RequestAt x.1 nu nitems lvl order)
      (h : OwnServes x.1 nu lvl order .unmovable) : MigratedBy nu x migrated (.alloc nitems) migrated
  | moved {nitems lvl order : Nat} (hR : RequestAt x.1 nu nitems lvl order)
      (h : ¬ OwnServes x.1 nu lvl order .unmovable) :
      MigratedBy nu x migrated (.alloc nitems) (migrated + nitems)
  | parked {item : Item} (h : freeClass x.1 item = some .unmovable) :
      MigratedBy nu x migrated (.free item) migrated
  | left {item : Item} (h : freeClass x.1 item ≠ some .unmovable) :
      MigratedBy nu x migrated (.free item) (migrated - blockSize x.1 item)

/-- Every step of the run meets its condition, and **the requests migrated so far fit the limit**. -/
def DebugRunKeeps (itemarrayPrev : ItemarrayPrev) (r : Reading) (fuel : Nat) (dispatch : DispatchFn)
    (nu freeFuel : Nat) : Nat → State × List Item → List DebugOp → Prop
  | _, _, [] => True
  | migrated, x, op :: ops => DebugStepKeeps itemarrayPrev nu x op ∧
      ∀ x' migrated', debugStep r fuel dispatch nu freeFuel x op = some x' →
        MigratedBy nu x migrated op migrated' → migrated' ≤ unmovMaxItems ∧
          DebugRunKeeps itemarrayPrev r fuel dispatch nu freeFuel migrated' x' ops

/-! ## 3. An admitted request -/

section Admitted

variable {r : Reading} {fuel : Nat} {dispatch : DispatchFn} {st st' : State} {nu nitems : Nat}
  {item : Item}

/-- A request is admitted where it is a power of two within the limit. -/
theorem preprocess_debug {mt : MigrationType} {dim : Nat} {psize : Int} (h0 : nitems ≠ 0)
    (h : preprocessNodeStructAlloc st .physicalDebug nitems mt dim = some psize) (hp : ¬ psize ≤ 0) :
    nitems ≤ unmovMaxItems ∧ (∃ e, nitems = 2 ^ e) ∧ psize = nitems := by
  unfold preprocessNodeStructAlloc at h
  simp only [Option.bind_eq_bind, Option.bind_eq_some_iff, Option.pure_def, Option.some.injEq] at h
  obtain ⟨budget, -, h⟩ := h
  split at h
  · subst h
    exact absurd (by decide) hp
  · next hlimit =>
      have hle : nitems ≤ unmovMaxItems := Nat.le_of_not_lt fun hlt => hlimit (.inr hlt)
      split at h
      · subst h
        exact absurd (by decide) hp
      · next hrest =>
          rw [Decidable.not_not, itemToOrders_eq h0] at hrest
          refine ⟨hle, ⟨nitems.log2, Nat.le_antisymm (Nat.sub_eq_zero_iff_le.mp hrest)
            (Nat.log2_self_le h0)⟩, ?_⟩
          simp only [unmovMaxItems] at hle
          rw [← h, BitVec.toInt_eq_toNat_of_lt] <;> rw [BitVec.toNat_ofNat] <;> omega

/-- Nothing more is asked for. -/
theorem groupLevels_zero (dispatch : NodeDispatch) (para : AllocPara) (mt : MigrationType)
    (n level : Nat) (st : State) (itemPtr : Option Item) :
    groupLevels fuel dispatch para mt n level 0 st itemPtr = some (st, .noError, itemPtr) := by
  induction n generalizing level with
  | zero => rfl
  | succ n ih =>
      rw [groupLevels, if_pos (Nat.zero_div _), Nat.zero_mod]
      exact ih _

/-- One digit of a power of two is one dispatch. -/
theorem groupDigit_two_pow {dispatch : NodeDispatch} {level n order : Nat}
    (h : groupDigit fuel dispatch (nestedPara false).toAllocPara level n (2 ^ order) st none =
      some (st', .noError, some item)) : dispatch st level order = some (st', .noError, some item) := by
  cases n with
  | zero => cases h
  | succ n =>
      have horder : lvlOrderOf (nestedPara false).toAllocPara (2 ^ order) = (order, 0) :=
        itemToOrder_two_pow order
      rw [groupDigit, horder] at h
      simp only [Option.bind_eq_bind, Option.bind_eq_some_iff] at h
      obtain ⟨⟨st1, ret, tmp⟩, hd, h⟩ := h
      cases ret with
      | noError =>
          rw [if_neg fun hne => hne rfl, Option.bind_eq_some_iff] at h
          obtain ⟨tmp', rfl, h⟩ := h
          cases h
          exact hd
      | errNoMemory => cases h
      | errInvalidArgs => cases h

/-- **A power of two is one dispatch**, on the first level whose unit is not larger. -/
theorem groupLevels_two_pow {dispatch : NodeDispatch} {mt : MigrationType} (hmt : mt ≠ .sparseMovable)
    {n level e : Nat}
    (h : groupLevels fuel dispatch (nestedPara false).toAllocPara mt n level (2 ^ e) st none =
      some (st', .noError, some item)) :
    ∃ lvl order, level ≤ lvl ∧ lvl < level + n ∧ unitItems lvl order = 2 ^ e ∧
      (∀ l, level ≤ l → l < lvl → 2 ^ e < unitItems l 0) ∧
      dispatch st lvl order = some (st', .noError, some item) := by
  induction n generalizing level with
  | zero => cases h
  | succ n ih =>
      have hshift : findShift (nestedPara false).toAllocPara mt level =
          functionItemLvl groupOrderNumShift level := by
        unfold findShift nestedPara
        rw [if_neg Bool.false_ne_true, if_neg hmt]
      rw [groupLevels, hshift] at h
      set s := functionItemLvl groupOrderNumShift level with hs
      rcases Nat.lt_or_ge e s with hlt | hge
      · have hpow : 2 ^ e < 2 ^ s := Nat.pow_lt_pow_right (by decide) hlt
        rw [Nat.div_eq_of_lt hpow, Nat.mod_eq_of_lt hpow, if_pos rfl] at h
        obtain ⟨lvl, order, h1, h2, h3, h4, h5⟩ := ih h
        refine ⟨lvl, order, Nat.le_of_succ_le h1, by omega, h3, fun l hl hl' => ?_, h5⟩
        rcases Nat.eq_or_lt_of_le hl with rfl | hl
        · rw [unitItems, Nat.zero_add]
          exact hpow
        · exact h4 l hl hl'
      · obtain ⟨order, rfl⟩ := Nat.exists_eq_add_of_le' hge
        rw [pow_add, Nat.mul_div_cancel _ (Nat.two_pow_pos s), Nat.mul_mod_left,
          if_neg (Nat.two_pow_pos order).ne'] at h
        simp only [groupLevels_zero, Option.bind_eq_bind, Option.bind_eq_some_iff] at h
        obtain ⟨⟨st1, ret, itemPtr⟩, hd, h⟩ := h
        cases ret with
        | noError =>
            rw [if_neg fun hne => hne rfl] at h
            cases h
            exact ⟨level, order, Nat.le_refl _, by omega, rfl, fun l hl hl' => by omega,
              groupDigit_two_pow hd⟩
        | errNoMemory => cases h
        | errInvalidArgs => cases h

/-- The node of the dimension serves a power of two with one dispatch. -/
theorem compoundGroup_two_pow {mt : MigrationType} {e : Nat} (hmt : mt ≠ .sparseMovable)
    (hcur : getCurrentNodeNum (st.nodes (.phy nu)).dim = some nu)
    (h : compoundGroup r fuel dispatch st (2 ^ e) mt (nestedPara false) (st.nodes (.phy nu)).dim =
      some (st', .noError, some item)) :
    ∃ lvl order, RequestAt st nu (2 ^ e) lvl order ∧
      dispatch st (.phy nu) lvl mt order (nestedPara false) = some (st', .noError, some item) := by
  unfold compoundGroup at h
  rw [hcur] at h
  simp only [Option.bind_eq_bind, Option.bind_some] at h
  rw [if_neg (show ¬ (nestedPara false).isVirtual = true by decide), if_neg hmt] at h
  split at h
  · cases h
  · next htop =>
      unfold findGroupOn at h
      obtain ⟨⟨st1, ret, itemPtr⟩, hlevels, h⟩ := Option.bind_eq_some_iff.mp h
      by_cases hret : ret = .noError
      · dsimp only at h
        rw [if_pos hret] at h
        cases h
        subst hret
        obtain ⟨lvl, order, h1, h2, h3, h4, h5⟩ := groupLevels_two_pow hmt hlevels
        have h1 : (st.tables.phyGroupLvl nu).toNat ≤ lvl := h1
        have h2 : lvl < (st.tables.phyGroupLvl nu).toNat +
            (groupLvlNum - (st.tables.phyGroupLvl nu).toNat) := h2
        have h4 : ∀ l, (st.tables.phyGroupLvl nu).toNat ≤ l → l < lvl →
          2 ^ e < unitItems l 0 := h4
        exact ⟨lvl, order, ⟨by omega, by omega, h3, fun l hl hl' => h4 l (by omega) hl'⟩, h5⟩
      · -- a failed request gives back what it has
        dsimp only at h
        rw [if_neg hret] at h
        cases itemPtr with
        | none => cases h
        | some i =>
            obtain ⟨q, -, h⟩ := Option.bind_eq_some_iff.mp h
            cases h

/-- **An admitted request is one dispatch.** -/
theorem debugAlloc_dispatched (hcur : getCurrentNodeNum (st.nodes (.phy nu)).dim = some nu)
    (h : debugAlloc r fuel dispatch nu st nitems = some (st', .noError, some item)) :
    nitems ≤ unmovMaxItems ∧ ∃ lvl order, RequestAt st nu nitems lvl order ∧
      dispatch st (.phy nu) lvl .unmovable order (nestedPara false) =
        some (st', .noError, some item) := by
  unfold debugAlloc at h
  split at h
  · cases h
  · next h0 =>
      simp only [Option.bind_eq_bind, Option.bind_eq_some_iff] at h
      obtain ⟨psize, hpre, h⟩ := h
      split at h
      · cases h
      · next hp =>
          obtain ⟨hle, ⟨e, he⟩, rfl⟩ := preprocess_debug h0 hpre hp
          obtain ⟨suff, -, h⟩ := Option.bind_eq_some_iff.mp h
          split at h
          · cases h
          · rw [Int.toNat_natCast, he] at h
            rw [he]
            exact ⟨he ▸ hle, compoundGroup_two_pow (by decide) hcur h⟩

end Admitted

/-! ## 4. What a step does to the limit -/

section Steps

variable {r : Reading} {s : Searches} {env : ChainEnv} {k fuel : Nat} {st st' : State}
  {nu total lvl order oi nitems : Nat} {held held' : List Item} {mt : MigrationType} {item : Item}

/-- The limit is read from the marks and the UNMOVABLE lists. -/
theorem debugItems_congr (hm : ∀ j ∈ held, marks (st'.items j) = marks (st.items j))
    (hl : listedItems st' nu .unmovable = listedItems st nu .unmovable) :
    debugItems st' nu held = debugItems st nu held := by
  unfold debugItems
  rw [sum_blockSize_congr hm, hl]

theorem debugItems_setState (st : State) (i : Item) (state : ItemState) (nu : Nat) (held : List Item) :
    debugItems (st.setState i state) nu held = debugItems st nu held :=
  have hitems := setState_items st i state
  debugItems_congr (fun j _ => (hitems j).2.2)
    (@listedItems_same st (st.setState i state) nu rfl (fun j => (hitems j).2.1) _)

/-- Without a block the limit has that much less. -/
theorem debugItems_erase (hi : item ∈ held) :
    debugItems st nu (held.erase item) + blockSize st item = debugItems st nu held := by
  have hsum := ((List.perm_cons_erase hi).map (blockSize st)).sum_eq
  rw [List.map_cons, List.sum_cons] at hsum
  unfold debugItems
  omega

/-- **A block from the UNMOVABLE lists was within the limit.** -/
theorem TakenOff.parked_taken (h : TakenOff st st' nu lvl order .unmovable oi item)
    (hS : Sound st nu held total) (hlvl : lvl < groupLvlNum)
    (hlow : StaysLow (levelMaxOrder st nu lvl) ((lvl : Int) = st.tables.phyGroupLvl nu) order)
    (hH : HalvesClear st held lvl order .unmovable oi item) :
    Sound (debited st' nu lvl order) nu (item :: held) total ∧
      debugItems st' nu (item :: held) ≤ debugItems st nu held := by
  obtain ⟨hl, ho⟩ := h.marked hlvl
  have hsize : blockSize st' item = unitItems lvl order := by
    unfold blockSize
    rw [hl, ho]
  have haside : ∀ j, j ∈ held ∨ j ∈ st.lists (cacheCell nu) →
      marks (st'.items j) = marks (st.items j) := fun j hj => by rw [h.aside hS hH hj]
  have hcache : st'.lists (cacheCell nu) = st.lists (cacheCell nu) := h.lists _ fun k => by simp
  have hlisted := h.listed
  have hfree : freeItems st' nu = freeItems st nu := by
    unfold freeItems
    rw [h.other (by decide), h.other (by decide), h.other (by decide)]
  have hsum := @sum_blockSize_congr st st' (held ++ st.lists (cacheCell nu))
    fun j hj => haside j (List.mem_append.mp hj)
  have hheld := @sum_blockSize_congr st st' held fun j hj => haside j (.inl hj)
  refine ⟨sound_debited hS h.linked h.nodes h.tables hcache (by rw [h.before]; simp) (fun j hj => ?_)
    (h.own hlvl hlow) haside ?_, ?_⟩
  · rcases hj with rfl | hj
    · exact h.off
    · rw [h.aside hS hH (.inl hj)]
      exact hS.off j hj
  · unfold usedItems
    rw [hfree, hcache, List.cons_append, List.map_cons, List.sum_cons, hsum, hsize]
    omega
  · unfold debugItems
    rw [List.map_cons, List.sum_cons, hheld, hsize]
    omega

/-- **A block from the MOVABLE lists is new to the limit.** -/
theorem Taken.debugItems (h : Taken st st' nu held lvl order item) :
    debugItems st' nu (item :: held) = debugItems st nu held + unitItems lvl order := by
  unfold TensorAlloc.debugItems
  rw [List.map_cons, List.sum_cons, sum_blockSize_congr fun j hj => h.kept j (.inl hj), h.size, h.parked]
  omega

/-- What an allocation leaves: from the UNMOVABLE lists the limit has no more of it than before, by
    migration all of it. -/
structure DebugMoves (st st' : State) (nu : Nat) (held : List Item) (total nitems lvl order : Nat)
    (item : Item) : Prop where
  sound : Sound st' nu (item :: held) total
  own : OwnServes st nu lvl order .unmovable →
    debugItems st' nu (item :: held) ≤ debugItems st nu held
  migrated : ¬ OwnServes st nu lvl order .unmovable →
    debugItems st' nu (item :: held) = debugItems st nu held + nitems

/-- **Step: an allocation.** -/
theorem dispatch_moves (hS : Sound st nu held total) (hR : RequestAt st nu nitems lvl order)
    (hown : OwnServes st nu lvl order .unmovable → ∀ oi item,
      Takes st nu lvl order .unmovable oi item → HalvesClear st held lvl order .unmovable oi item)
    (hclear : ¬ OwnServes st nu lvl order .unmovable →
      MigratesClear env.itemarrayPrev st nu held lvl order)
    (h : chainDispatch s env k st (.phy nu) lvl .unmovable order (nestedPara false) =
      some (st', .noError, some item)) :
    DebugMoves st st' nu held total nitems lvl order item := by
  unfold chainDispatch at h
  rcases dispatch_served h fun _ => hS.node.mode with ⟨hc, -⟩ | ⟨-, st1, hs, rfl⟩ |
    ⟨-, -, hs, st1, hs', rfl⟩
  · cases hc
  · rw [forwardSearch, if_neg (by decide)] at hs
    have hserves := (ownServes_iff hS hR.below (by decide)).mpr ⟨_, _, hs⟩
    obtain ⟨oi, hTakes, hlow, htaken⟩ := forwardRemove_takes hS hR.below hs
    have hH := hown hserves oi item hTakes
    obtain ⟨hsound, hle⟩ := (htaken hH).parked_taken hS hR.below hlow hH
    rw [finalDispatch_single]
    exact ⟨(sound_setState hsound item _).1, fun _ => (debugItems_setState _ _ _ _ _).trans_le hle,
      fun hno => absurd hserves hno⟩
  · have hno : ¬ OwnServes st nu lvl order .unmovable := fun hserves => by
      obtain ⟨st2, i, hr⟩ := (ownServes_iff hS hR.below (by decide)).mp hserves
      rw [forwardSearch, if_neg (by decide), hr] at hs
      cases hs
    obtain ⟨hS0, -⟩ := sound_migrateStart hS .unmovable
    -- the cycle returns a block of the lists of its own level
    rw [forwardSearch, if_pos rfl] at hs'
    obtain ⟨st2, hr, he⟩ := allocChain_own hS0.node.current hS0.linked hs'
    obtain ⟨oi, hTakes, htaken⟩ := entered_taken hS0 hR.below hr he
    obtain ⟨hH, hab⟩ := hclear hno oi item ((takes_migrateStart .unmovable).mp hTakes)
    have hT := htaken (halvesClear_migrateStart .unmovable hH) hab
    have hsound := (hT.debited hS0).1
    rw [finalDispatch_single]
    refine ⟨(sound_setState (sound_setState hsound item _).1 item _).1, fun hserves => absurd hserves hno,
      fun _ => ?_⟩
    rw [debugItems_setState, debugItems_setState, ← hR.size]
    exact hT.debugItems

/-- A block of another class leaves the limit when it is freed. -/
theorem dequeue_leaves (hS : Sound st nu held total) (hi : item ∈ held) (hmt : mt ≠ .movable)
    (hu : mt ≠ .unmovable)
    (hM : BuddiesListed st nu (blockLvl st item) (blockOrder st item) mt
      (levelMaxOrder st nu (blockLvl st item)) ((blockLvl st item : Int) = st.tables.phyGroupLvl nu) item)
    {freed : List Item} (h : dequeueGroupMigration .listFirst mt fuel st item = some (st', freed)) :
    debugItems st' nu (held.erase item) = debugItems st nu (held.erase item) := by
  obtain ⟨st1, hback, rfl⟩ := dequeue_putsBack hS hi hmt hM h
  obtain ⟨hitems, hlists, -⟩ := counted_rest mt item st st1
  refine debugItems_congr (fun j hj => by rw [hitems, hback.aside hS hi (.inl hj)]) ?_
  rw [@listedItems_same st1 _ nu hlists fun j => congrArg ItemStruct.prev (congrFun hitems j)]
  exact hback.other hS.linked (hS.off item hi) (Ne.symm hu)

/-- An UNMOVABLE block goes back to the UNMOVABLE lists. -/
theorem dequeue_parks (hS : Sound st nu held total) (hi : item ∈ held) (hu : mt = .unmovable)
    (hM : BuddiesListed st nu (blockLvl st item) (blockOrder st item) mt
      (levelMaxOrder st nu (blockLvl st item)) ((blockLvl st item : Int) = st.tables.phyGroupLvl nu) item)
    {freed : List Item} (h : dequeueGroupMigration .listFirst mt fuel st item = some (st', freed)) :
    debugItems st' nu (held.erase item) = debugItems st nu held := by
  obtain ⟨st1, hback, rfl⟩ := dequeue_putsBack hS hi (by rw [hu]; decide) hM h
  obtain ⟨hitems, hlists, -⟩ := counted_rest mt item st st1
  have hlisted : listedItems st1 nu .unmovable = listedItems st nu .unmovable + blockSize st item := by
    rw [← hu]
    exact hback.listed
  have herase := @debugItems_erase st nu held item hi
  have hheld := @sum_blockSize_congr st (counted mt item st st1) (held.erase item)
    fun j hj => by rw [hitems, hback.aside hS hi (.inl hj)]
  unfold debugItems at herase ⊢
  rw [hheld, @listedItems_same st1 _ nu hlists fun j => congrArg ItemStruct.prev (congrFun hitems j),
    hlisted]
  omega

/-- The cache is no part of the limit. -/
theorem cached_debugItems (st : State) (nu : Nat) (held : List Item) (item : Item) :
    debugItems ((st.pushHead (cacheCell nu) item).countInc (cacheCell nu)) nu held =
      debugItems st nu held := by
  refine debugItems_congr (fun j _ => st.pushHead_keeps _ item j marks rfl)
    (listedItems_off (fun l k => ?_) fun j => st.pushHead_keeps _ item j ItemStruct.prev rfl)
  rw [State.countInc_lists, State.pushHead_lists, if_neg (by simp)]

theorem uncached_debugItems (hL : st.Linked) (hi : item ∈ st.lists (cacheCell nu))
    (hd : listDel st item = some st') (held : List Item) :
    debugItems (st'.countDec (cacheCell nu)) nu held = debugItems st nu held := by
  obtain ⟨hother, -, hflags, hprev⟩ := listDel_items hd
  rw [listDel_of ((hL.mem item _).mpr hi), Option.some.injEq] at hd
  refine debugItems_congr (fun j _ => ?_) (listedItems_off (fun l k => ?_) fun j => ?_)
  · by_cases hj : j = item
    · subst hj
      unfold marks
      rw [State.countDec_items, hflags]
    · rw [State.countDec_items, hother j hj]
  · rw [State.countDec_lists, ← hd, State.modItem_lists, State.setList_lists, if_neg (by simp)]
  · by_cases hj : j = item
    · subst hj
      exact hprev
    · rw [State.countDec_items, hother j hj]

/-- **Step: a free.** The block goes back to the UNMOVABLE lists, or leaves the limit. -/
theorem free_debugItems (hS : Sound st nu held total) (hi : item ∈ held) (hM : MergesOwn st nu mt item)
    {freed : List Item} (h : findGroupReversed .listFirst fuel st mt item false = some (st', freed)) :
    debugItems st' nu (held.erase item) + (if mt = .unmovable then 0 else blockSize st item) =
      debugItems st nu held := by
  have herase := @debugItems_erase st nu held item hi
  rcases findGroupReversed_cases (hS.own item (.inl hi)).node (hS.off item hi) h with
    ⟨rfl, hlru⟩ | ⟨rfl | rfl, hq⟩
  · rw [if_neg (by decide)]
    have hS1 := (sound_countInc (cache_given hS hi).1 (cacheCell nu)).1
    rw [← cached_debugItems st nu _ item] at herase
    rcases hlru with rfl | ⟨tmp, st3, freed', hmem, hd, hq⟩
    · exact herase
    · -- the coldest block goes from the cache to its lists in its place
      have hS3 := (sound_countDec (cache_taken hS1 hmem hd).1 (cacheCell nu)).1
      have hleaves := dequeue_leaves hS3 (List.mem_cons_self ..) (by decide) (by decide)
        (fun n hn => absurd rfl (hn n (Nat.le_refl n)).type) hq
      rw [List.erase_cons_head, uncached_debugItems hS1.linked hmem hd] at hleaves
      rw [hleaves]
      exact herase
  · rw [if_pos rfl, Nat.add_zero]
    exact dequeue_parks hS hi rfl (hM (.inl rfl)) hq
  · rw [if_neg (by decide), dequeue_leaves hS hi (by decide) (by decide) (hM (.inr rfl)) hq]
    exact herase

end Steps

/-! ## 5. Runs -/

section Results

variable {r : Reading} {s : Searches} {env : ChainEnv} {k fuel freeFuel nu total : Nat}

/-- One level and one order serve a request. -/
theorem RequestAt.unique {st : State} {nitems lvl order lvl' order' : Nat}
    (h : RequestAt st nu nitems lvl order) (h' : RequestAt st nu nitems lvl' order') :
    lvl = lvl' ∧ order = order' := by
  have hle : ∀ {l o o'}, unitItems l o = nitems → nitems < unitItems l o' → o < o' := by
    intro l o o' he hlt
    rw [← he] at hlt
    have := (Nat.pow_lt_pow_iff_right (Nat.lt_succ_self 1)).mp hlt
    omega
  have hlvl : lvl = lvl' := by
    rcases Nat.lt_trichotomy lvl lvl' with hlt | he | hlt
    · exact absurd (hle h.size (h'.first lvl h.top hlt)) (Nat.not_lt_zero _)
    · exact he
    · exact absurd (hle h'.size (h.first lvl' h'.top hlt)) (Nat.not_lt_zero _)
  subst hlvl
  have hsize := h.size.trans h'.size.symm
  have := Nat.pow_right_injective (Nat.le_refl 2) hsize
  exact ⟨rfl, by omega⟩

/-- What a successful free went through. -/
theorem decomposeGroup_freed {st st' : State} {item : Item} {freed : List Item}
    (h : decomposeGroup r freeFuel st item false = some (st', .noError, freed)) :
    ∃ mt, freeClass st item = some mt ∧
      findGroupReversed r freeFuel st mt item false = some (st', freed) := by
  unfold decomposeGroup at h
  split at h
  · cases h
  · next mt hmt =>
      obtain ⟨q, hq, he⟩ := Option.map_eq_some_iff.mp h
      cases he
      exact ⟨mt, hmt, hq⟩

/-- **Step.** As written only allocations are made. -/
theorem debugStep_keeps {x x' : State × List Item} {op : DebugOp} {migrated : Nat}
    (hS : Sound x.1 nu x.2 total) (hle : debugItems x.1 nu x.2 ≤ migrated)
    (hK : DebugStepKeeps env.itemarrayPrev nu x op)
    (h : debugStep r fuel (chainDispatch s env k) nu freeFuel x op = some x') :
    Sound x'.1 nu x'.2 total ∧
      ∃ migrated', MigratedBy nu x migrated op migrated' ∧ debugItems x'.1 nu x'.2 ≤ migrated' := by
  cases op with
  | alloc nitems =>
      unfold debugStep at h
      dsimp only at h
      split at h
      · next hd =>
          obtain rfl := Option.some.inj h
          obtain ⟨-, lvl, order, hR, hd⟩ := debugAlloc_dispatched hS.node.current hd
          have hkeeps := hK lvl order hR
          have hM := dispatch_moves hS hR hkeeps.own hkeeps.clear hd
          refine ⟨hM.sound, ?_⟩
          by_cases hserves : OwnServes x.1 nu lvl order .unmovable
          · exact ⟨migrated, .own hR hserves, Nat.le_trans (hM.own hserves) hle⟩
          · exact ⟨migrated + nitems, .moved hR hserves,
              (hM.migrated hserves).trans_le (Nat.add_le_add_right hle nitems)⟩
      · cases h
  | free item =>
      unfold debugStep at h
      dsimp only at h
      split at h
      · next hi =>
          split at h
          · next hf =>
              obtain rfl := Option.some.inj h
              obtain ⟨mt, hmt, hf⟩ := decomposeGroup_freed hf
              cases r with
              | written =>
                  rw [findGroupReversed_written (hS.off item hi)] at hf
                  cases hf
              | listFirst =>
                  have hM := hK mt hmt
                  have hfree := free_debugItems hS hi hM hf
                  refine ⟨(free_keeps hS hi hM hf).1, ?_⟩
                  by_cases hu : mt = .unmovable
                  · rw [if_pos hu, Nat.add_zero] at hfree
                    exact ⟨migrated, .parked (by rw [hmt, hu]), hfree.trans_le hle⟩
                  · rw [if_neg hu] at hfree
                    refine ⟨_, .left (by rw [hmt]; exact fun e => hu (Option.some.inj e)), ?_⟩
                    exact Nat.le_sub_of_add_le (hfree.trans_le hle)
          · cases h
      · cases h

/-- Run. -/
theorem debugRun_keeps {x x' : State × List Item} {ops : List DebugOp} {migrated : Nat}
    (hS : Sound x.1 nu x.2 total) (hle : debugItems x.1 nu x.2 ≤ migrated)
    (hmax : migrated ≤ unmovMaxItems)
    (hK : DebugRunKeeps env.itemarrayPrev r fuel (chainDispatch s env k) nu freeFuel migrated x ops)
    (h : debugRun r fuel (chainDispatch s env k) nu freeFuel x ops = some x') :
    Sound x'.1 nu x'.2 total ∧ debugItems x'.1 nu x'.2 ≤ unmovMaxItems := by
  induction ops generalizing x migrated with
  | nil =>
      obtain rfl := Option.some.inj h
      exact ⟨hS, Nat.le_trans hle hmax⟩
  | cons op ops ih =>
      obtain ⟨hstep, hrest⟩ := hK
      rw [debugRun, Option.bind_eq_some_iff] at h
      obtain ⟨x1, h1, h⟩ := h
      obtain ⟨hS1, migrated', hby, hle1⟩ := debugStep_keeps hS hle hstep h1
      obtain ⟨hmax1, hK1⟩ := hrest x1 migrated' h1 hby
      exact ih hS1 hle1 hmax1 hK1 h

/-- **The limit over runs.** As written no free of a block returns, and only allocations are made. From a
    node without UNMOVABLE items a run whose steps all meet `DebugStepKeeps` stays within the limit where
    the requests migrated so far always fit it. A request served by migration always adds all it asks
    for, however much of the limit is in use. -/
theorem debug_limited (s : Searches) (env : ChainEnv) (k fuel freeFuel nu total : Nat) :
    (∀ st held item, Sound st nu held total → item ∈ held → ∀ st' freed,
      decomposeGroup .written freeFuel st item false ≠ some (st', .noError, freed)) ∧
    (∀ r st x' ops, Sound st nu [] total → listedItems st nu .unmovable = 0 →
      DebugRunKeeps env.itemarrayPrev r fuel (chainDispatch s env k) nu freeFuel 0 (st, []) ops →
      debugRun r fuel (chainDispatch s env k) nu freeFuel (st, []) ops = some x' →
      debugItems x'.1 nu x'.2 ≤ unmovMaxItems) ∧
    ∀ r x x' nitems lvl order, Sound x.1 nu x.2 total → RequestAt x.1 nu nitems lvl order →
      ¬ OwnServes x.1 nu lvl order .unmovable →
      MigratesClear env.itemarrayPrev x.1 nu x.2 lvl order →
      debugStep r fuel (chainDispatch s env k) nu freeFuel x (.alloc nitems) = some x' →
      debugItems x'.1 nu x'.2 = debugItems x.1 nu x.2 + nitems := by
  refine ⟨fun st held item hS hi st' freed h => ?_, fun r st x' ops hS hnone hK h => ?_,
    fun r x x' nitems lvl order hS hR hserves hclear h => ?_⟩
  · obtain ⟨mt, -, hf⟩ := decomposeGroup_freed h
    rw [findGroupReversed_written (hS.off item hi)] at hf
    cases hf
  · refine (debugRun_keeps hS ?_ (Nat.zero_le _) hK h).2
    unfold debugItems
    rw [hnone]
    exact Nat.zero_le _
  · unfold debugStep at h
    dsimp only at h
    split at h
    · next hd =>
        obtain rfl := Option.some.inj h
        obtain ⟨-, lvl', order', hR', hd⟩ := debugAlloc_dispatched hS.node.current hd
        obtain ⟨rfl, rfl⟩ := hR.unique hR'
        exact (dispatch_moves hS hR (fun ho => absurd ho hserves) (fun _ => hclear) hd).migrated hserves
    · cases h

/-- One item migrated and parked. -/
theorem oneItem_limited : ∃ st', debugRun .listFirst 1
      (chainDispatch noSearch emptySlab 1) 0 1 (oneItem .movable, [])
      [.alloc 1, .free 0] = some (st', []) ∧ debugItems st' 0 [] ≤ unmovMaxItems := by
  obtain ⟨hS, -⟩ := @oneItem_sound .movable (by decide)
  have hnone : listedItems (oneItem .movable) 0 .unmovable = 0 :=
    Nat.le_zero.mp (oneItem_listed .movable .unmovable)
  have hrun : (debugRun .listFirst 1 (chainDispatch noSearch emptySlab 1)
      0 1 (oneItem .movable, []) [.alloc 1, .free 0]).map (fun x => x.2) = some [] := by
    decide +kernel
  -- after the allocation: the class of the block, where it is, and that its buddy is not listed
  have hfirst : (debugStep .listFirst 1 (chainDispatch noSearch emptySlab 1)
      0 1 (oneItem .movable, []) (.alloc 1)).map (fun x => (blockLvl x.1 0, blockOrder x.1 0,
        x.1.tables.phyItemStruct 0, (x.1.items 1).onList)) = some (3, 0, 0, none) := by
    decide +kernel
  obtain ⟨⟨st', held⟩, hrun, rfl⟩ := Option.map_eq_some_iff.mp hrun
  refine ⟨st', hrun, (debug_limited noSearch emptySlab 1 1 1 0 1).2.1 .listFirst (oneItem .movable)
    (st', []) [.alloc 1, .free 0] hS hnone ?_ hrun⟩
  refine ⟨fun lvl order hR => ?_, fun x migrated hx hby => ⟨?_, fun mt _ _ n hn => ?_,
    fun x' migrated' _ hby' => ⟨?_, trivial⟩⟩⟩
  · have hbelow := hR.below
    simp only [groupLvlNum_eq] at hbelow
    have hsize : order + functionItemLvl groupOrderNumShift lvl = 0 :=
      Nat.pow_right_injective (Nat.le_refl 2) hR.size
    rw [functionItemLvl_eq (by omega)] at hsize
    obtain ⟨rfl, rfl⟩ : lvl = 3 ∧ order = 0 := by omega
    have hno : ¬ OwnServes (oneItem .movable) 0 3 0 .unmovable := fun ho => ho.2.2.1 (by decide +kernel)
    refine ⟨fun ho => absurd ho hno, fun _ oi item hT => ?_⟩
    have h0 : Finds (oneItem .movable) 0 3 0 .movable 0 0 :=
      ⟨Nat.le_refl 0, rfl, fun k _ hk => absurd hk (Nat.not_lt_zero k)⟩
    obtain ⟨rfl, rfl⟩ := hT.2.unique h0
    refine ⟨fun k _ hk => absurd hk (Nat.not_lt_zero k), fun st1 prev hr hword t ht => ?_⟩
    have hnull : (removeGroupMigration (migrateStart (oneItem .movable) (.phy 0) .unmovable) (.phy 0 3) 3 0
        .movable false).map (fun q => itemarrayPrevAt 0#64 q.1 0) = some (some none) := by
      decide +kernel
    rw [hr, Option.map_some, Option.some.injEq] at hnull
    obtain rfl := Option.some.inj (hword.symm.trans hnull)
    cases ht
  · cases hby <;> decide
  · rw [hx, Option.map_some, Option.some.injEq] at hfirst
    simp only [Prod.mk.injEq] at hfirst
    obtain ⟨hl, ho, hbase, hbuddy⟩ := hfirst
    have hvalid := (hn 0 (Nat.zero_le n)).valid
    rw [hl, ho, hbase] at hvalid
    have hlisted := (Bool.and_eq_true_iff.mp hvalid).1
    rw [show 0 + mergedBuddy (0 - 0) (0 + functionItemLvl groupOrderNumShift 3) 0 = 1 from rfl, hbuddy]
      at hlisted
    cases hlisted
  · have hle : migrated ≤ 1 := by cases hby <;> omega
    have hle' : migrated' ≤ migrated := by
      cases hby' with
      | parked => exact Nat.le_refl _
      | left => exact Nat.sub_le _ _
    exact Nat.le_trans hle' (Nat.le_trans hle (by decide))

/-- Node 0, 2048 items in two MOVABLE blocks of order 1 on level 2. -/
def twoBlocks : State :=
  { (zeroed.pushTail (.groupCell (.phy 0 2) .movable 1) 0).pushTail (.groupCell (.phy 0 2) .movable 1)
      1024 with
    counts := fun h => if h = .groupCell (.phy 0 2) .movable 1 then 2#64 else 0#64
    nodes := fun _ => { zeroed.nodes (.phy 0) with nrFreeitems := 2048#64 }
    tables := { zeroed.tables with phyGroupOrder := fun _ => maxItemOrder + 1 } }

theorem twoBlocks_sound :
    Sound twoBlocks 0 [] 2048 ∧ listedItems twoBlocks 0 .unmovable = 0 := by
  have hlisted : ∀ mt, listedItems twoBlocks 0 mt ≤ if mt = .movable then 2048 else 0 := by
    intro mt
    have h1 := @listedItems_pushTail zeroed 2 1 (by decide) (by decide) 0 .movable mt 0
    have h2 := @listedItems_pushTail (zeroed.pushTail (.groupCell (.phy 0 2) .movable 1) 0) 2 1 (by decide)
      (by decide) 0 .movable mt 1024
    rw [listedItems_zeroed] at h1
    have hunit : unitItems 2 1 = 1024 := by decide
    rw [hunit] at h1 h2
    show listedItems ((zeroed.pushTail (.groupCell (.phy 0 2) .movable 1) 0).pushTail
      (.groupCell (.phy 0 2) .movable 1) 1024) 0 mt ≤ _
    split
    · next h =>
        rw [if_pos h] at h1 h2
        omega
    · next h =>
        rw [if_neg h] at h1 h2
        omega
  have hnone := Nat.le_zero.mp (hlisted .unmovable)
  have hfree : freeItems twoBlocks 0 ≤ 2048 := by
    have h1 := hlisted .movable
    have h2 := hlisted .reclaimable
    have h3 := hlisted .lrutype
    unfold freeItems
    simp only [reduceCtorEq, if_true, if_false] at h1 h2 h3
    omega
  refine ⟨(sound_unused ?_ ⟨fun _ _ => rfl, rfl, rfl, ⟨Nat.le_add_left _ _, Nat.le_refl _⟩,
    GroupStatus.noConfusion⟩ rfl hnone hfree (by decide)).1, hnone⟩
  exact ((zeroed_linked.pushTail rfl _).pushTail rfl _).congr rfl fun _ => rfl

/-- Two requests of the limit's size, each admitted and migrated: twice the limit. -/
theorem twoBlocks_exceed : Sound twoBlocks 0 [] 2048 ∧ listedItems twoBlocks 0 .unmovable = 0 ∧
    ∃ st', debugRun .listFirst 1 (chainDispatch noSearch emptySlab 1) 0 1
        (twoBlocks, []) [.alloc 1024, .alloc 1024] = some (st', [1024, 0]) ∧
      unmovMaxItems < debugItems st' 0 [1024, 0] := by
  have hrun : (debugRun .listFirst 1 (chainDispatch noSearch emptySlab 1)
      0 1 (twoBlocks, []) [.alloc 1024, .alloc 1024]).map (fun x => (x.2, x.2.map (blockSize x.1))) =
        some ([1024, 0], [1024, 1024]) := by
    decide +kernel
  obtain ⟨⟨st', held⟩, hrun, he⟩ := Option.map_eq_some_iff.mp hrun
  obtain ⟨rfl, hsizes⟩ := Prod.mk.inj he
  refine ⟨twoBlocks_sound.1, twoBlocks_sound.2, st', hrun, ?_⟩
  unfold debugItems
  rw [show ([1024, 0].map (blockSize st')).sum = 2048 from congrArg List.sum hsizes]
  simp only [unmovMaxItems]
  omega

end Results

end TensorAlloc
