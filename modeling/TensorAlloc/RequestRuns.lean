/-
  File:      TensorAlloc/RequestRuns.lean
  Subject:   Requests of any number of blocks, and the frees of what they got, on a divided node.

  * `requestAlloc` -- `node_struct_alloc` of a caller that asks for no range;
  * `Grant` -- GHOST: the blocks of a request, from the head, and the count they are for;
  * `groupDigit_grows`, `groupLevels_grows` -- the loops of `find_group` over the dispatch of the node:
    what is obtained and what is still to get add up to the count, and the blocks are one chain;
  * `requestStep_kept` -- a free gives back the head: the blocks behind it are lost to the node;
  * `requests_chained` -- so in every run.
-/
import TensorAlloc.Admission
import TensorAlloc.RangeRuns
import TensorAlloc.RegionLinks

namespace TensorAlloc

open DyadicBlocks

/-! ## 1. Requests and frees -/

section Calls

variable (r : Reading) (fuel : Nat) (dispatch : DispatchFn) (nu : Nat)

/-- `node_struct_alloc` with `range_base` and `paras` NULL; the block is GHOST. -/
def requestAlloc (st : State) (nitems : Nat) (flags : ItemFunc) :
    Option (State × Status × Option Item) :=
  if nitems = 0 ∧ flags ≠ .entity then some (st, .errInvalidArgs, none)
  else do
    let (mt, para) ← prepareNodeStructAlloc nitems flags
    let dim := (st.nodes (.phy nu)).dim
    let psize ← preprocessNodeStructAlloc st flags nitems mt dim
    if psize ≤ 0 then pure (st, .errInvalidArgs, none)
    else
      let suff ← if mt = .sparseMovable then pure true else budgetSufficient st psize mt dim
      if suff = false then pure (st, .errNoMemory, none)
      else if para.isEntry then none
      else compoundGroup r fuel dispatch st psize.toNat mt para dim

/-- The range of the block is all a caller that asks for one gets beside it. -/
theorem nodeStructAlloc_request (st : State) (nitems : Nat) (flags : ItemFunc) :
    nodeStructAlloc r fuel dispatch st (.phy nu) nitems flags = (do
      let (st, ret, item) ← requestAlloc r fuel dispatch nu st nitems flags
      if ret ≠ .noError then pure (st, ret, none)
      else
        let item ← item
        let (mt, _) ← prepareNodeStructAlloc nitems flags
        if mt = .sparseMovable then
          let idx ← itemToIdxSparse getCurrentProcessGroup fuel st item
          pure (st, .noError, some (idxToRange idx.toInt))
        else pure (st, .noError, some (itemToRange st item))) := by
  unfold nodeStructAlloc requestAlloc
  by_cases h0 : nitems = 0 ∧ flags ≠ .entity
  · rw [if_pos h0, if_pos h0]
    rfl
  · rw [if_neg h0, if_neg h0]
    cases prepareNodeStructAlloc nitems flags with
    | none => rfl
    | some class_ =>
        obtain ⟨mt, para⟩ := class_
        simp only [Option.bind_eq_bind, Option.bind_some]
        cases preprocessNodeStructAlloc st flags nitems mt (st.nodes (.phy nu)).dim with
        | none => rfl
        | some psize =>
            simp only [Option.bind_some]
            by_cases hp : psize ≤ 0
            · rw [if_pos hp, if_pos hp]
              rfl
            · rw [if_neg hp, if_neg hp]
              by_cases hm : mt = .sparseMovable
              · rw [if_pos hm, if_pos hm]
                cases para.isEntry <;> rfl
              · rw [if_neg hm, if_neg hm]
                rcases budgetSufficient st psize mt (st.nodes (.phy nu)).dim with _ | _ | _ <;>
                  cases para.isEntry <;> rfl

/-- The count a request is admitted for. -/
def askedItems (st : State) (nitems : Nat) (flags : ItemFunc) : Nat :=
  (((prepareNodeStructAlloc nitems flags).bind fun class_ =>
    preprocessNodeStructAlloc st flags nitems class_.1 (st.nodes (.phy nu)).dim).getD 0).toNat

/-- A request, or the free of a block by its descriptor. -/
inductive RequestOp where
  | alloc (nitems : Nat) (flags : ItemFunc)
  | free (item : Item)
  deriving DecidableEq, Repr

/-- One call, with the blocks handed out and not given back, each with the count it was admitted for. A
    request that is refused, or fails and is cleaned up, hands out nothing; `none` where the call does not
    return or the block is none of these. -/
def requestStep (freeFuel : Nat) (x : State × List (Item × Nat)) :
    RequestOp → Option (State × List (Item × Nat))
  | .alloc nitems flags =>
      match requestAlloc r fuel dispatch nu x.1 nitems flags with
      | some (st, .noError, some item) => some (st, (item, askedItems nu x.1 nitems flags) :: x.2)
      | some (_, .noError, none) => none
      | some (st, _, _) => some (st, x.2)
      | none => none
  | .free item =>
      match x.2.find? (fun handed => handed.1 = item) with
      | none => none
      | some handed =>
          match decomposeGroup r freeFuel x.1 item false with
          | some (st, .noError, _) => some (st, x.2.erase handed)
          | some (st, _, _) => some (st, x.2)
          | none => none

def requestRun (freeFuel : Nat) :
    State × List (Item × Nat) → List RequestOp → Option (State × List (Item × Nat))
  | x, [] => some x
  | x, op :: ops =>
      (requestStep r fuel dispatch nu freeFuel x op).bind fun x => requestRun freeFuel x ops

end Calls

/-! ## 2. What a call must not run into -/

section Conditions

variable (meets : State → Nat → Nat → Prop) (fuel : Nat) (dispatch : NodeDispatch) (para : AllocPara)
  (mt : MigrationType)

/-- Every dispatch the loop over a digit comes to meets the condition in the state it finds. -/
def DigitMeets (level : Nat) : Nat → Nat → State → Option Item → Prop
  | 0, _, _, _ => True
  | n + 1, lvlNitem, st, itemPtr => meets st level (lvlOrderOf para lvlNitem).1 ∧
      ∀ st1 tmp st2, dispatch st level (lvlOrderOf para lvlNitem).1 = some (st1, .noError, some tmp) →
        appendBlock fuel para st1 tmp (itemPtr.getD tmp) = some st2 → (lvlOrderOf para lvlNitem).2 ≠ 0 →
          DigitMeets level n (lvlOrderOf para lvlNitem).2 st2 (some (itemPtr.getD tmp))

/-- So does every dispatch of the loop over the levels. -/
def LevelsMeet : Nat → Nat → Nat → State → Option Item → Prop
  | 0, _, _, _, _ => True
  | n + 1, level, nitems, st, itemPtr =>
      let blockSize := 2 ^ findShift para mt level
      if nitems / blockSize = 0 then LevelsMeet n (level + 1) (nitems % blockSize) st itemPtr
      else DigitMeets meets fuel dispatch para level fuel (nitems / blockSize) st itemPtr ∧
        ∀ st1 itemPtr1, groupDigit fuel dispatch para level fuel (nitems / blockSize) st itemPtr =
            some (st1, .noError, itemPtr1) →
          LevelsMeet n (level + 1) (nitems % blockSize) st1 itemPtr1

end Conditions

/-- The level a request starts on. -/
def requestTop (st : State) (nu : Nat) (mt : MigrationType) : Nat :=
  if mt = .sparseMovable then 0 else (st.tables.phyGroupLvl nu).toNat

/-- What a call must meet: a request is for blocks of the node's own lists and comes to dispatches they
    serve or refuse; the block a failed one is cleaned up by, and the block a free is of, merge with
    blocks of their class. -/
def RequestMeets (itemarrayPrev : ItemarrayPrev) (fuel : Nat) (dispatch : DispatchFn) (nu : Nat)
    (st : State) : RequestOp → Prop
  | .alloc nitems flags => ∀ mt para psize, prepareNodeStructAlloc nitems flags = some (mt, para) →
      preprocessNodeStructAlloc st flags nitems mt (st.nodes (.phy nu)).dim = some psize → 0 < psize →
        ∃ c, para = nestedPara c ∧
          LevelsMeet (fun st lvl order => AllocMeets itemarrayPrev st nu lvl order mt) fuel
            (fun st level order => dispatch st (.phy nu) level mt order para) para.toAllocPara mt
            (groupLvlNum - requestTop st nu mt) (requestTop st nu mt) psize.toNat st none ∧
          ∀ st1 ret head, groupLevels fuel
              (fun st level order => dispatch st (.phy nu) level mt order para) para.toAllocPara mt
              (groupLvlNum - requestTop st nu mt) (requestTop st nu mt) psize.toNat st none =
                some (st1, ret, some head) → ret ≠ .noError → MergesOwn st1 nu mt head
  | .free item => ∀ mt, freeClass st item = some mt → MergesOwn st nu mt item

/-- Every call of the run meets it. -/
def RequestsMeet (itemarrayPrev : ItemarrayPrev) (r : Reading) (fuel : Nat) (dispatch : DispatchFn)
    (nu freeFuel : Nat) :
    State × List (Item × Nat) → List RequestOp → Prop
  | _, [] => True
  | x, op :: ops => RequestMeets itemarrayPrev fuel dispatch nu x.1 op ∧
      ∀ x', requestStep r fuel dispatch nu freeFuel x op = some x' →
        RequestsMeet itemarrayPrev r fuel dispatch nu freeFuel x' ops

/-- These conditions too can be evaluated. -/
instance decidableDigitMeets {meets : State → Nat → Nat → Prop} [∀ st l o, Decidable (meets st l o)]
    {fuel : Nat} {dispatch : NodeDispatch} {para : AllocPara} {level : Nat} :
    ∀ n lvlNitem st itemPtr,
      Decidable (DigitMeets meets fuel dispatch para level n lvlNitem st itemPtr)
  | 0, _, _, _ => isTrue trivial
  | n + 1, lvlNitem, st, itemPtr =>
      have := fun st itemPtr => @decidableDigitMeets meets _ fuel dispatch para level n
        (lvlOrderOf para lvlNitem).2 st itemPtr
      decidable_of_iff (meets st level (lvlOrderOf para lvlNitem).1 ∧
          ∀ p, dispatch st level (lvlOrderOf para lvlNitem).1 = some p → p.2.1 = .noError →
            ∀ tmp, p.2.2 = some tmp → ∀ st2,
              appendBlock fuel para p.1 tmp (itemPtr.getD tmp) = some st2 →
                (lvlOrderOf para lvlNitem).2 ≠ 0 → DigitMeets meets fuel dispatch para level n
                  (lvlOrderOf para lvlNitem).2 st2 (some (itemPtr.getD tmp)))
        (and_congr_right fun _ =>
          ⟨fun h st1 tmp st2 hd => h (st1, .noError, some tmp) hd rfl tmp rfl st2,
            fun h p hd hret tmp htmp st2 => h p.1 tmp st2 (by rw [hd, ← hret, ← htmp])⟩)

instance decidableLevelsMeet {meets : State → Nat → Nat → Prop} [∀ st l o, Decidable (meets st l o)]
    {fuel : Nat} {dispatch : NodeDispatch} {para : AllocPara} {mt : MigrationType} :
    ∀ n level nitems st itemPtr,
      Decidable (LevelsMeet meets fuel dispatch para mt n level nitems st itemPtr)
  | 0, _, _, _, _ => isTrue trivial
  | n + 1, level, nitems, st, itemPtr =>
      have := fun st itemPtr => @decidableLevelsMeet meets _ fuel dispatch para mt n (level + 1)
        (nitems % 2 ^ findShift para mt level) st itemPtr
      if h0 : nitems / 2 ^ findShift para mt level = 0 then
        decidable_of_iff (LevelsMeet meets fuel dispatch para mt n (level + 1)
            (nitems % 2 ^ findShift para mt level) st itemPtr)
          (by rw [LevelsMeet, if_pos h0])
      else
        decidable_of_iff (DigitMeets meets fuel dispatch para level fuel
              (nitems / 2 ^ findShift para mt level) st itemPtr ∧
            ∀ p, groupDigit fuel dispatch para level fuel (nitems / 2 ^ findShift para mt level) st itemPtr =
              some p → p.2.1 = .noError → LevelsMeet meets fuel dispatch para mt n (level + 1)
                (nitems % 2 ^ findShift para mt level) p.1 p.2.2)
          (by
            rw [LevelsMeet, if_neg h0]
            exact and_congr_right fun _ =>
              ⟨fun h st1 itemPtr1 hd => h (st1, .noError, itemPtr1) hd rfl,
                fun h p hd hret => h p.1 p.2.2 (by rw [hd, ← hret])⟩)

instance {itemarrayPrev : ItemarrayPrev} {fuel : Nat} {dispatch : DispatchFn} {nu : Nat} {st : State}
    {op : RequestOp} : Decidable (RequestMeets itemarrayPrev fuel dispatch nu st op) :=
  match op with
  | .alloc nitems flags => decidable_of_iff
      (∀ class_, prepareNodeStructAlloc nitems flags = some class_ →
        ∀ psize, preprocessNodeStructAlloc st flags nitems class_.1 (st.nodes (.phy nu)).dim = some psize →
          0 < psize → ∃ c, class_.2 = nestedPara c ∧
            LevelsMeet (fun st lvl order => AllocMeets itemarrayPrev st nu lvl order class_.1) fuel
              (fun st level order => dispatch st (.phy nu) level class_.1 order class_.2)
              class_.2.toAllocPara class_.1 (groupLvlNum - requestTop st nu class_.1)
              (requestTop st nu class_.1) psize.toNat st none ∧
            ∀ p, groupLevels fuel
                (fun st level order => dispatch st (.phy nu) level class_.1 order class_.2)
                class_.2.toAllocPara class_.1 (groupLvlNum - requestTop st nu class_.1)
                (requestTop st nu class_.1) psize.toNat st none = some p →
              p.2.1 ≠ .noError → ∀ head, p.2.2 = some head → MergesOwn p.1 nu class_.1 head)
      ⟨fun h mt para psize hprep hpre hpos => by
          obtain ⟨c, hc, hlevels, hclean⟩ := h (mt, para) hprep psize hpre hpos
          exact ⟨c, hc, hlevels, fun st1 ret head hd hret => hclean (st1, ret, some head) hd hret head rfl⟩,
        fun h class_ hprep psize hpre hpos => by
          obtain ⟨c, hc, hlevels, hclean⟩ := h class_.1 class_.2 psize hprep hpre hpos
          exact ⟨c, hc, hlevels, fun p hd hret head hhead =>
            hclean p.1 p.2.1 head (by rw [hd, ← hhead]) hret⟩⟩
  | .free item => inferInstanceAs (Decidable (∀ mt, freeClass st item = some mt → MergesOwn st nu mt item))

instance decidableRequestsMeet (itemarrayPrev : ItemarrayPrev) (r : Reading) (fuel : Nat)
    (dispatch : DispatchFn) (nu freeFuel : Nat) :
    ∀ x ops, Decidable (RequestsMeet itemarrayPrev r fuel dispatch nu freeFuel x ops)
  | _, [] => isTrue trivial
  | x, op :: ops =>
      have := fun x => decidableRequestsMeet itemarrayPrev r fuel dispatch nu freeFuel x ops
      inferInstanceAs (Decidable (RequestMeets itemarrayPrev fuel dispatch nu x.1 op ∧
        ∀ x', requestStep r fuel dispatch nu freeFuel x op = some x' →
          RequestsMeet itemarrayPrev r fuel dispatch nu freeFuel x' ops))

/-! ## 3. What a request got -/

/-- The blocks of a request, and the count they are for. -/
structure Grant where
  head : Item
  rest : List Item
  count : Nat
  isCombined : Bool
  deriving DecidableEq, Repr

def Grant.blocks (g : Grant) : List Item := g.head :: g.rest

/-- What its user has of it. -/
def Grant.handed (g : Grant) : Item × Nat := (g.head, g.count)

/-- The blocks are one chain, marked as one where the request was combined, and add up to the count. A
    block that goes back to the cache is one page. -/
structure Grant.Holds (st : State) (g : Grant) : Prop where
  chain : Chain st g.blocks
  flag : compoundItem st g.head = g.isCombined
  paid : (g.blocks.map (blockSize st)).sum = g.count
  single : g.isCombined = false → g.rest = []
  page : freeClass st g.head = some .lrutype → g.isCombined = false ∧ g.count = 1

/-- What is out of the node: the grants, and the blocks `lost`, that nobody can give back. -/
def outBlocks (grants : List Grant) (lost : List Item) : List Item :=
  grants.flatMap Grant.blocks ++ lost

/-- The node divided, each grant a chain, everything else in none, and the cache of pages. -/
structure Granted (st : State) (nu n : Nat) (grants : List Grant) (lost : List Item) : Prop where
  region : Region st nu (outBlocks grants lost) n
  holds : ∀ g ∈ grants, g.Holds st
  plain : ∀ d < n, st.tables.phyItemStruct nu + d ∉ outBlocks grants lost →
    Plain st (st.tables.phyItemStruct nu + d)
  pages : ∀ i ∈ st.lists (cacheCell nu), blockSize st i = 1

/-! ## 4. The loops -/

/-- A request under way from `st0`, with `others` out: the blocks obtained, `item_ptr`, and what is still
    to get of the count `asked`. -/
structure Growing (st0 st : State) (nu n : Nat) (others : List Item) (asked : Nat) (mt : MigrationType)
    (c : Bool) (blocks : List Item) (itemPtr : Option Item) (left : Nat) : Prop where
  stepped : Stepped st0 st nu others (blocks ++ others) n
  kept : ∀ j ∈ others, SameLinks st0 st j ∧ (st.items j).flags = (st0.items j).flags
  plain : ∀ d < n, st.tables.phyItemStruct nu + d ∉ blocks ++ others →
    Plain st (st.tables.phyItemStruct nu + d)
  pages : ∀ i ∈ st.lists (cacheCell nu), blockSize st i = 1
  chain : Chain st blocks
  first : itemPtr = blocks.head?
  flag : ∀ head, itemPtr = some head → compoundItem st head = c
  paid : (blocks.map (blockSize st)).sum + left = asked
  single : c = false → left ≠ 0 → blocks = []
  short : c = false → blocks.length ≤ 1
  class_ : ∀ i ∈ blocks, freeClass st i = some .lrutype → mt = .lrutype

section Append

variable {st st' : State} {fuel : Nat} {blocks : List Item} {tmp head : Item} {c : Bool}

/-- A walk that ends, ends at the last block. -/
theorem lastCompound_last {i t : Item} {l : List Item} {n : Nat} (h : Chain st (i :: l))
    (ht : lastCompound st n i = some t) : (i :: l).getLast? = some t := by
  induction n generalizing i l with
  | zero => cases ht
  | succ n ih =>
      rw [lastCompound, h.1] at ht
      cases l with
      | nil => exact ht
      | cons j l =>
          rw [List.getLast?_cons_cons]
          exact ih h.2 ht

/-- What an append writes: links of one block of the request. -/
structure Linking (st st' : State) (blocks : List Item) : Prop where
  write : ∃ t f, t ∈ blocks ∧ st' = st.modItem t f ∧ (f (st.items t)).flags = (st.items t).flags ∧
    (f (st.items t)).onList = (st.items t).onList

theorem linking_none {i : Item} (hi : i ∈ blocks) : Linking st st blocks :=
  ⟨i, id, hi, by simp [State.modItem], rfl, rfl⟩

/-- **The append of a block in no chain**: it becomes the last of the request's chain. -/
theorem appendBlock_chain (hc : Chain st blocks) (hflag : ∀ head, blocks.head? = some head →
      compoundItem st head = c) (hfresh : tmp ∉ blocks) (hp : Plain st tmp)
    (hsingle : c = false → blocks = [])
    (h : appendBlock fuel (nestedPara c).toAllocPara st tmp (blocks.head?.getD tmp) = some st') :
    Linking st st' (blocks ++ [tmp]) ∧ Chain st' (blocks ++ [tmp]) ∧
      compoundItem st' (blocks.head?.getD tmp) = c := by
  have hmem : tmp ∈ blocks ++ [tmp] := List.mem_append_right _ (List.mem_singleton_self tmp)
  unfold appendBlock at h
  cases c with
  | false =>
      obtain rfl := hsingle rfl
      rw [if_neg fun h => Bool.false_ne_true h.1] at h
      cases h
      exact ⟨linking_none hmem, ⟨hp.1, trivial⟩, hp.2⟩
  | true =>
      cases blocks with
      | nil =>
          rw [List.head?_nil, Option.getD_none] at h ⊢
          rw [if_pos ⟨rfl, .inr hp.2⟩] at h
          unfold compoundAppend at h
          rw [if_pos (show compoundItem st tmp = false from hp.2)] at h
          cases h
          refine ⟨⟨tmp, _, hmem, rfl, rfl, rfl⟩, ⟨?_, trivial⟩, ?_⟩
          · exact (st.modItem_keeps tmp ItemStruct.compoundNode rfl).trans hp.1
          · unfold compoundItem
            rw [State.modItem_items, if_pos rfl]
      | cons head rest =>
          have hne : head ≠ tmp := fun e => hfresh (e ▸ List.mem_cons_self ..)
          rw [List.head?_cons, Option.getD_some] at h ⊢
          rw [if_pos ⟨rfl, .inl hne⟩] at h
          unfold compoundAppend at h
          rw [if_neg (by rw [hflag head rfl]; decide), Option.map_eq_some_iff] at h
          obtain ⟨t, ht, rfl⟩ := h
          have hlast := lastCompound_last hc ht
          have ht : t ∈ head :: rest := List.mem_of_getLast? hlast
          refine ⟨⟨t, _, List.mem_append_left _ ht, rfl, rfl, rfl⟩, ?_, ?_⟩
          · exact hc.append hc.nodup hlast (fun x hx hx' => hfresh (List.mem_singleton.mp hx' ▸ hx))
              ⟨hp.1, trivial⟩
          · unfold compoundItem
            rw [st.modItem_keeps head ItemStruct.compoundHead rfl]
            exact hflag head rfl

end Append

section Rounds

variable {st0 st st1 st2 st' : State} {nu n asked left level order lvlNitem rest fuel depth : Nat}
  {others blocks held held' : List Item} {mt : MigrationType} {c : Bool} {itemPtr itemPtr' : Option Item}
  {tmp : Item} {s : Searches} {env : StreamEnv}

/-- A block's size is read from its flags. -/
theorem blockSize_flags {i : Item} (h : (st'.items i).flags = (st.items i).flags) :
    blockSize st' i = blockSize st i := by
  unfold blockSize blockLvl blockOrder
  rw [h]

theorem freeClass_flags {i : Item} (h : (st'.items i).flags = (st.items i).flags) :
    freeClass st' i = freeClass st i := by
  unfold freeClass
  rw [h]

/-- The order the blocks in use are told in is GHOST. -/
theorem Region.perm (hR : Region st nu held n) (hp : held'.Perm held) :
    Stepped st st nu held held' n :=
  hR.moved hR.linked hR.node rfl rfl (fun _ _ => rfl) (fun _ _ => rfl) rfl (fun _ => rfl)
    (fun _ _ => rfl) (hp.append_right _) (hp.nodup_iff.mpr hR.nodup)
    fun j hj => hR.off j (hp.mem_iff.mp hj)

/-- What an append leaves: the node divided as it is, all flags, the lists, and every descriptor but the
    request's. -/
theorem Linking.kept (h : Linking st st' blocks) (hR : Region st nu (blocks ++ others) n) :
    Stepped st st' nu (blocks ++ others) (blocks ++ others) n ∧
      (∀ j, (st'.items j).flags = (st.items j).flags) ∧ st'.lists = st.lists ∧
      ∀ j ∉ blocks, st'.items j = st.items j := by
  obtain ⟨t, f, ht, rfl, hflags, hon⟩ := h
  have hm : marks (f (st.items t)) = marks (st.items t) := by
    unfold marks
    rw [hflags]
  refine ⟨hR.written (.inl (List.mem_append_left _ ht)) hon hm,
    fun j => st.modItem_keeps j ItemStruct.flags hflags, rfl, fun j hj => ?_⟩
  have hne : j ≠ t := fun e => hj (e ▸ ht)
  rw [State.modItem_items, if_neg hne]

/-- **One round**: a block obtained becomes the last of the chain, and pays for its size. -/
theorem Growing.round (h : Growing st0 st nu n others asked mt c blocks itemPtr left)
    (hlru : mt = .lrutype → asked = 1) (hpay : unitItems level order ≤ left)
    (hone : c = false → left = unitItems level order)
    (hA : AllocMeets env.itemarrayPrev st nu level order mt)
    (hd : dispatchGroup (s.withSparse env (fuel + 1)) (depth + 2) st (.phy nu) level mt order
      (nestedPara c) = some (st1, .noError, some tmp))
    {appendFuel : Nat}
    (happ : appendBlock appendFuel (nestedPara c).toAllocPara st1 tmp (itemPtr.getD tmp) = some st2) :
    Growing st0 st2 nu n others asked mt c (blocks ++ [tmp]) (some (itemPtr.getD tmp))
      (left - unitItems level order) := by
  have hR := h.stepped.region
  have hpos : 0 < unitItems level order := Nat.two_pow_pos _
  have hst := alloc_stepped hR hA hd
  obtain ⟨hdrawn, hsize, hclass⟩ := dispatch_drawn hR hA hd
  have hempty : c = false → blocks = [] := fun hc => h.single hc (by omega)
  -- the block is new, and was in no chain
  obtain ⟨hnew, -⟩ := List.nodup_cons.mp hst.region.nodup
  obtain ⟨hnewB, hnewO⟩ : tmp ∉ blocks ∧ tmp ∉ others := by
    rw [List.mem_append, not_or] at hnew
    exact hnew
  have hplain : Plain st1 tmp := by
    obtain ⟨d, hd, hself⟩ := hst.region.inRange (.inl (List.mem_cons_self ..))
    rw [hst.confined.tables] at hself
    rw [hself] at hnew ⊢
    exact (hdrawn.links _).plain (h.plain d hd hnew)
  have hperm : (blocks ++ [tmp] ++ others).Perm (tmp :: (blocks ++ others)) := by
    rw [List.append_assoc]
    exact List.perm_middle
  have hmoved := hst.region.perm hperm
  rw [h.first] at happ
  obtain ⟨hlinking, hchain, hflag⟩ := appendBlock_chain
    (h.chain.congr fun i _ => (hdrawn.links i).1)
    (fun head hh => (hdrawn.links head).2.trans (h.flag head (h.first.trans hh))) hnewB hplain hempty happ
  obtain ⟨hlinked, hflags, hlists, hother⟩ := hlinking.kept hmoved.region
  have hblocks : ∀ i ∈ blocks, (st2.items i).flags = (st.items i).flags := fun i hi =>
    (hflags i).trans (hdrawn.flags i (.inl (List.mem_append_left _ hi)) fun e => hnewB (e ▸ hi))
  have hapart : ∀ j ∈ others, j ∉ blocks ++ [tmp] := by
    intro j hj hm
    have hdisj := (List.nodup_append.mp hmoved.region.nodup).2.2
    exact hdisj j hm j hj rfl
  refine {
    stepped := ((h.stepped.trans hst).trans hmoved).trans hlinked
    kept := fun j hj => ?_
    plain := fun d hd hj => ?_
    pages := fun i hi => ?_
    chain := hchain
    first := ?_
    flag := fun head hh => ?_
    paid := ?_
    single := fun hc hl => absurd (hone hc) (by omega)
    short := fun hc => ?_
    class_ := fun i hi hl => ?_ }
  · obtain ⟨hlinks, hsame⟩ := h.kept j hj
    have hne : j ≠ tmp := fun e => hnewO (e ▸ hj)
    have hrest := hother j (hapart j hj)
    refine ⟨(hlinks.trans (hdrawn.links j)).trans ⟨by rw [hrest], by rw [hrest]⟩, ?_⟩
    rw [hflags, hdrawn.flags j (.inl (List.mem_append_right _ hj)) hne, hsame]
  · rw [hlinked.confined.tables, hmoved.confined.tables, hst.confined.tables] at hj ⊢
    simp only [List.mem_append, List.mem_singleton, not_or] at hj
    obtain ⟨⟨hb, hne⟩, ho⟩ := hj
    have hin : st.tables.phyItemStruct nu + d ∉ blocks ++ [tmp] := by
      simp only [List.mem_append, List.mem_singleton, not_or]
      exact ⟨hb, hne⟩
    unfold Plain
    rw [hother _ hin]
    exact (hdrawn.links _).plain (h.plain d hd (by
      rw [List.mem_append, not_or]
      exact ⟨hb, ho⟩))
  · rw [hlists] at hi
    obtain ⟨hin, hne⟩ := hdrawn.cache i hi
    rw [blockSize_flags ((hflags i).trans (hdrawn.flags i (.inr hin) hne))]
    exact h.pages i hin
  · rw [h.first]
    cases blocks <;> rfl
  · rw [← Option.some.inj hh, h.first]
    exact hflag
  · have hsame : (blocks.map (blockSize st2)).sum = (blocks.map (blockSize st)).sum :=
      congrArg List.sum (List.map_congr_left fun i hi => blockSize_flags (hblocks i hi))
    have hself : blockSize st2 tmp = unitItems level order := by
      rw [blockSize_flags (hflags tmp)]
      rcases hsize with hsize | ⟨hmt, hin, hsize⟩
      · exact hsize
      · -- a page of the cache, for a request of one page
        have hpaid := h.paid
        have hask := hlru hmt
        rw [hsize, h.pages tmp hin]
        omega
    have hpaid := h.paid
    rw [List.map_append, List.sum_append, hsame, List.map_singleton, List.sum_singleton, hself]
    omega
  · rw [hempty hc]
    exact Nat.le_refl 1
  · rw [freeClass_flags (hflags i)] at hl
    rcases List.mem_append.mp hi with hi | hi
    · rw [freeClass_flags (hdrawn.flags i (.inl (List.mem_append_left _ hi)) fun e => hnewB (e ▸ hi))] at hl
      exact h.class_ i hi hl
    · rw [List.mem_singleton.mp hi] at hl
      exact hclass hl

/-- A digit is cut into the order taken and the rest; only a combined request leaves one. -/
theorem lvlOrderOf_cuts (h0 : lvlNitem ≠ 0) (hp : Payable c lvlNitem) :
    ∃ order rest, lvlOrderOf (nestedPara c).toAllocPara lvlNitem = (order, rest) ∧
      2 ^ order + rest = lvlNitem ∧ (rest ≠ 0 → c = true) := by
  cases c with
  | true => exact ⟨_, _, itemToOrders_eq h0, Nat.add_sub_cancel' (Nat.log2_self_le h0), fun _ => rfl⟩
  | false =>
      obtain ⟨k, rfl⟩ := hp.resolve_left Bool.false_ne_true
      exact ⟨k, 0, itemToOrder_two_pow k, rfl, fun h => absurd rfl h⟩

theorem unitItems_eq (level order : Nat) : unitItems level order = 2 ^ order * unitItems level 0 := by
  unfold unitItems
  rw [Nat.zero_add, pow_add]

/-- The dispatch of the node, as `find_group` calls it. -/
abbrev nodeDispatch (s : Searches) (env : StreamEnv) (fuel depth nu : Nat) (mt : MigrationType)
    (c : Bool) : NodeDispatch := fun st level order =>
  dispatchGroup (s.withSparse env (fuel + 1)) (depth + 2) st (.phy nu) level mt order (nestedPara c)

/-- **A digit**: served, it is paid for; a dispatch that fails leaves what was obtained before it. -/
theorem groupDigit_grows {appendFuel rounds : Nat} {ret : Status} {itemPtr : Option Item}
    (h : Growing st0 st nu n others asked mt c blocks itemPtr (lvlNitem * unitItems level 0 + rest))
    (h0 : lvlNitem ≠ 0) (hp : Payable c lvlNitem) (hrest : c = false → rest = 0)
    (hlru : mt = .lrutype → asked = 1)
    (hM : DigitMeets (fun st lvl order => AllocMeets env.itemarrayPrev st nu lvl order mt) appendFuel
      (nodeDispatch s env fuel depth nu mt c) (nestedPara c).toAllocPara level rounds lvlNitem st itemPtr)
    (hrun : groupDigit appendFuel (nodeDispatch s env fuel depth nu mt c) (nestedPara c).toAllocPara level
      rounds lvlNitem st itemPtr = some (st', ret, itemPtr')) :
    ∃ blocks' left', Growing st0 st' nu n others asked mt c blocks' itemPtr' left' ∧
      (ret = .noError → left' = rest) ∧ (ret ≠ .noError → left' ≠ 0) := by
  induction rounds generalizing lvlNitem st blocks itemPtr with
  | zero => cases hrun
  | succ rounds ih =>
      obtain ⟨order, more, horder, hcut, hmore⟩ := lvlOrderOf_cuts h0 hp
      have hunit := unitItems_eq level order
      have hpos : 0 < unitItems level 0 := Nat.two_pow_pos _
      have hleft : lvlNitem * unitItems level 0 = unitItems level order + more * unitItems level 0 := by
        rw [← hcut, Nat.add_mul, ← hunit]
      rw [DigitMeets, horder] at hM
      obtain ⟨hA, hnext⟩ := hM
      rw [groupDigit, horder] at hrun
      obtain ⟨⟨st1, ret1, tmp⟩, hd, hround⟩ := Option.bind_eq_some_iff.mp hrun
      dsimp only at hA hnext hd hround
      by_cases hret : ret1 = .noError
      · subst hret
        rw [if_neg fun hne => hne rfl] at hround
        obtain ⟨tmp, rfl, happend⟩ := Option.bind_eq_some_iff.mp hround
        obtain ⟨st2, happ, hend⟩ := Option.bind_eq_some_iff.mp happend
        have hG := h.round hlru (by rw [hleft]; omega) (fun hc => by
          have hz : more = 0 := by
            by_contra hne
            rw [hmore hne] at hc
            cases hc
          rw [hleft, hrest hc, hz]
          omega) hA hd happ
        rw [hleft, Nat.add_assoc, Nat.add_sub_cancel_left] at hG
        split at hend
        · next hz =>
            cases hend
            rw [hz, Nat.zero_mul, Nat.zero_add] at hG
            exact ⟨_, rest, hG, fun _ => rfl, fun hne => absurd rfl hne⟩
        · next hz => exact ih hG hz (.inl (hmore hz)) (hnext st1 tmp st2 hd happ hz) hend
      · -- nothing came of it
        rw [if_pos hret] at hround
        cases hround
        rw [dispatch_refused h.stepped.region hA hret hd]
        have hpos' := Nat.mul_pos (Nat.pos_of_ne_zero h0) hpos
        exact ⟨blocks, _, h, fun he => absurd he hret, fun _ => by omega⟩

/-- The digits of a count that can be paid can be. -/
theorem Payable.digit {m : Nat} (hp : Payable c m) (e : Nat) :
    (m / 2 ^ e ≠ 0 → Payable c (m / 2 ^ e) ∧ (c = false → m % 2 ^ e = 0)) ∧
      (m % 2 ^ e ≠ 0 → Payable c (m % 2 ^ e)) := by
  rcases hp with rfl | ⟨k, rfl⟩
  · exact ⟨fun _ => ⟨.inl rfl, fun h => by cases h⟩, fun _ => .inl rfl⟩
  · rcases Nat.lt_or_ge k e with hlt | hge
    · have hpow : 2 ^ k < 2 ^ e := Nat.pow_lt_pow_right (by decide) hlt
      rw [Nat.div_eq_of_lt hpow, Nat.mod_eq_of_lt hpow]
      exact ⟨fun h => absurd rfl h, fun _ => .inr ⟨k, rfl⟩⟩
    · obtain ⟨j, rfl⟩ := Nat.exists_eq_add_of_le' hge
      rw [pow_add, Nat.mul_div_cancel _ (Nat.two_pow_pos e), Nat.mul_mod_left]
      exact ⟨fun _ => ⟨.inr ⟨j, rfl⟩, fun _ => rfl⟩, fun h => absurd rfl h⟩

/-- **The levels**: served, the request is paid for; a dispatch that fails leaves something to pay. -/
theorem groupLevels_grows {appendFuel k nitems : Nat} {ret : Status}
    (h : Growing st0 st nu n others asked mt c blocks itemPtr nitems) (hk : level + k = groupLvlNum)
    (hend : k = 0 → nitems = 0) (hp : nitems ≠ 0 → Payable c nitems) (hlru : mt = .lrutype → asked = 1)
    (hM : LevelsMeet (fun st lvl order => AllocMeets env.itemarrayPrev st nu lvl order mt) appendFuel
      (nodeDispatch s env fuel depth nu mt c) (nestedPara c).toAllocPara mt k level nitems st itemPtr)
    (hrun : groupLevels appendFuel (nodeDispatch s env fuel depth nu mt c) (nestedPara c).toAllocPara mt k
      level nitems st itemPtr = some (st', ret, itemPtr')) :
    ∃ blocks' left', Growing st0 st' nu n others asked mt c blocks' itemPtr' left' ∧
      (ret = .noError → left' = 0) ∧ (ret ≠ .noError → left' ≠ 0) := by
  induction k generalizing level nitems st blocks itemPtr with
  | zero =>
      obtain rfl := hend rfl
      cases hrun
      exact ⟨blocks, 0, h, fun _ => rfl, fun hne => absurd rfl hne⟩
  | succ k ih =>
      have hshift : 2 ^ findShift (nestedPara c).toAllocPara mt level = unitItems level 0 := by
        rw [findShift_eq rfl, unitItems, Nat.zero_add]
      have hunit : unitItems level 0 = 2 ^ functionItemLvl groupOrderNumShift level := by
        rw [unitItems, Nat.zero_add]
      have hsplit := Nat.div_add_mod' nitems (unitItems level 0)
      -- the unit of the last level is one descriptor
      have hlast : k = 0 → nitems % unitItems level 0 = 0 := by
        rintro rfl
        rw [groupLvlNum_eq] at hk
        obtain rfl : level = 3 := by omega
        exact Nat.mod_one nitems
      rw [LevelsMeet, hshift] at hM
      rw [groupLevels, hshift] at hrun
      by_cases hdigit : nitems / unitItems level 0 = 0
      · rw [if_pos hdigit] at hM hrun
        rw [hdigit, Nat.zero_mul, Nat.zero_add] at hsplit
        rw [hsplit] at hM hrun
        exact ih h (by omega) (fun hz => hsplit.symm.trans (hlast hz)) hp hM hrun
      · rw [if_neg hdigit] at hM hrun
        obtain ⟨hMd, hMr⟩ := hM
        have hne : nitems ≠ 0 := fun hz => hdigit (by rw [hz, Nat.zero_div])
        obtain ⟨hpd, hpr⟩ := (hp hne).digit (functionItemLvl groupOrderNumShift level)
        rw [← hunit] at hpd hpr
        obtain ⟨⟨st1, ret1, itemPtr1⟩, hd, hafter⟩ := Option.bind_eq_some_iff.mp hrun
        dsimp only at hd hafter
        rw [← hsplit] at h
        obtain ⟨blocks1, left1, hG, hpaid, hshort⟩ :=
          groupDigit_grows h hdigit (hpd hdigit).1 (hpd hdigit).2 hlru hMd hd
        by_cases hret : ret1 = .noError
        · subst hret
          rw [if_neg fun hne => hne rfl] at hafter
          obtain rfl := hpaid rfl
          exact ih hG (by omega) hlast hpr (hMr st1 itemPtr1 hd) hafter
        · rw [if_pos hret] at hafter
          cases hafter
          exact ⟨blocks1, left1, hG, fun he => absurd he hret, fun _ => hshort hret⟩

end Rounds

/-! ## 5. Grants made and given back -/

section Grants

variable {st st' st0 : State} {nu n asked left fuel : Nat} {grants : List Grant} {lost rest freed : List Item}
  {held : List Item} {g : Grant} {mt : MigrationType} {c : Bool} {head : Item}

theorem blockSize_pos (st : State) (i : Item) : 0 < blockSize st i := Nat.two_pow_pos _

theorem outBlocks_cons (g : Grant) (grants : List Grant) (lost : List Item) :
    outBlocks (g :: grants) lost = g.blocks ++ outBlocks grants lost := by
  unfold outBlocks
  rw [List.flatMap_cons, List.append_assoc]

theorem mem_outBlocks (hg : g ∈ grants) {i : Item} (hi : i ∈ g.blocks) : i ∈ outBlocks grants lost :=
  List.mem_append_left _ (List.mem_flatMap.mpr ⟨g, hg, hi⟩)

/-- A grant is read from the links and the flags of its blocks. -/
theorem Grant.Holds.kept (h : g.Holds st)
    (hk : ∀ j ∈ g.blocks, SameLinks st st' j ∧ (st'.items j).flags = (st.items j).flags) : g.Holds st' := by
  have hhead : g.head ∈ g.blocks := List.mem_cons_self ..
  refine ⟨h.chain.congr fun i hi => (hk i hi).1.1, (hk g.head hhead).1.2.trans h.flag, ?_, h.single, ?_⟩
  · rw [← h.paid]
    exact congrArg List.sum (List.map_congr_left fun i hi => blockSize_flags (hk i hi).2)
  · rw [freeClass_flags (hk g.head hhead).2]
    exact h.page

/-- The cache holds single blocks: nothing of it is out. -/
theorem Granted.cache_plain (h : Granted st nu n grants lost) {j : Item}
    (hj : j ∈ st.lists (cacheCell nu)) : Plain st j := by
  obtain ⟨d, hd, rfl⟩ := h.region.inRange (.inr hj)
  refine h.plain d hd fun hout => ?_
  have ho := (h.region.linked.mem _ _).mpr hj
  rw [h.region.off _ hout] at ho
  cases ho

/-- A request starts with nothing. -/
theorem Granted.start (h : Granted st nu n grants lost) (asked : Nat) (mt : MigrationType) (c : Bool) :
    Growing st st nu n (outBlocks grants lost) asked mt c [] none asked where
  stepped := ⟨h.region, .refl _ _ _, .refl⟩
  kept _ _ := ⟨⟨rfl, rfl⟩, rfl⟩
  plain := h.plain
  pages := h.pages
  chain := trivial
  first := rfl
  flag _ hh := by cases hh
  paid := Nat.zero_add asked
  single _ _ := rfl
  short _ := Nat.zero_le 1
  class_ _ hi := absurd hi List.not_mem_nil

/-- With nothing obtained nothing is out that was not. -/
theorem Growing.nothing (h : Growing st st' nu n (outBlocks grants lost) asked mt c [] none left)
    (hG : Granted st nu n grants lost) : Granted st' nu n grants lost :=
  ⟨h.stepped.region, fun _ hg => (hG.holds _ hg).kept fun j hj => h.kept j (mem_outBlocks hg hj), h.plain,
    h.pages⟩

/-- **What is obtained so far is a grant.** -/
theorem Growing.granted {blocks : List Item}
    (h : Growing st st' nu n (outBlocks grants lost) asked mt c blocks (some head) left)
    (hG : Granted st nu n grants lost) (hlru : mt = .lrutype → c = false ∧ asked = 1) :
    ∃ rest, blocks = head :: rest ∧ Granted st' nu n (⟨head, rest, asked - left, c⟩ :: grants) lost := by
  obtain ⟨rest, rfl⟩ := List.head?_eq_some_iff.mp h.first.symm
  have hpaid := h.paid
  refine ⟨rest, rfl, ?_, fun g hg => ?_, fun d hd hout => ?_, h.pages⟩
  · rw [outBlocks_cons]
    exact h.stepped.region
  · rcases List.mem_cons.mp hg with rfl | hg
    · refine ⟨h.chain, h.flag head rfl, Nat.eq_sub_of_add_eq hpaid, fun hc => ?_, fun hl => ?_⟩
      · have hshort := h.short hc
        show rest = []
        rw [List.length_cons] at hshort
        exact List.eq_nil_of_length_eq_zero (by omega)
      · obtain ⟨hc, hone⟩ := hlru (h.class_ head (List.mem_cons_self ..) hl)
        have hpos := blockSize_pos st' head
        rw [List.map_cons, List.sum_cons] at hpaid
        exact ⟨hc, by dsimp only; omega⟩
    · exact (hG.holds g hg).kept fun j hj => h.kept j (mem_outBlocks hg hj)
  · rw [outBlocks_cons] at hout
    exact h.plain d hd hout

/-- **A head given back**: its block is free or cached, and the blocks behind it stay out, lost. -/
theorem Granted.givenBack {r : Reading} (h : Granted st nu n grants lost) (hg : g ∈ grants)
    (hM : MergesOwn st nu mt g.head) (hlru : mt = .lrutype → g.isCombined = false ∧ g.count = 1)
    (hrun : findGroupReversed r fuel st mt g.head false = some (st', freed)) :
    Granted st' nu n (grants.erase g) (g.rest ++ lost) ∧
      (division st nu (outBlocks grants lost)).Reach
        (division st' nu (outBlocks (grants.erase g) (g.rest ++ lost))) := by
  have hholds := h.holds g hg
  have hhead : g.head ∈ outBlocks grants lost := mem_outBlocks hg (List.mem_cons_self ..)
  have hend : compoundItem st g.head = false → (st.items g.head).compoundNode = none := by
    intro hc
    have hrest := hholds.single (hholds.flag.symm.trans hc)
    have hchain := hholds.chain.1
    rw [hrest] at hchain
    exact hchain
  obtain rfl : r = .listFirst := by
    cases r with
    | listFirst => rfl
    | written =>
        rw [findGroupReversed_written (h.region.off _ hhead)] at hrun
        cases hrun
  have hst := free_stepped h.region hhead hM hrun
  have hret := free_returned h.region hhead hM (fun j hj => h.cache_plain hj) (fun hmt =>
    have hc := hholds.flag.trans (hlru hmt).1
    ⟨hend hc, hc⟩) hrun
  -- what is left of the blocks, the grants first
  have hperm : (outBlocks (grants.erase g) (g.rest ++ lost)).Perm ((outBlocks grants lost).erase g.head) := by
    have hsplit : (outBlocks grants lost).Perm (outBlocks (g :: grants.erase g) lost) :=
      ((List.perm_cons_erase hg).flatMap_right Grant.blocks).append_right lost
    have herase := hsplit.erase g.head
    rw [outBlocks_cons, Grant.blocks, List.cons_append, List.erase_cons_head] at herase
    refine List.Perm.trans ?_ herase.symm
    unfold outBlocks
    rw [← List.append_assoc, ← List.append_assoc]
    exact List.perm_append_comm.append_right lost
  have hmoved := hst.region.perm hperm
  have hstay : ∀ j ∈ outBlocks (grants.erase g) (g.rest ++ lost), j ≠ g.head ∧ j ∈ outBlocks grants lost :=
    fun j hj => h.region.nodup.mem_erase_iff.mp (hperm.mem_iff.mp hj)
  refine ⟨⟨hmoved.region, fun g' hg' => ?_, fun d hd hout => ?_, fun i hi => ?_⟩,
    hst.reach.trans hmoved.reach⟩
  · refine (h.holds g' (List.mem_of_mem_erase hg')).kept fun j hj => ?_
    have hj' := @mem_outBlocks _ (g.rest ++ lost) _ hg' _ hj
    exact ⟨hret.links j (hstay j hj').1, hret.flags j (hperm.mem_iff.mp hj')⟩
  · rw [hst.confined.tables] at hout ⊢
    by_cases he : st.tables.phyItemStruct nu + d = g.head
    · rw [he]
      exact hret.plain hend
    · refine (hret.links _ he).plain (h.plain d hd fun hin => hout ?_)
      exact hperm.mem_iff.mpr (h.region.nodup.mem_erase_iff.mpr ⟨he, hin⟩)
  · obtain ⟨hin, hflags⟩ := hret.cache i hi
    rw [blockSize_flags hflags]
    rcases hin with ⟨rfl, hmt⟩ | hin
    · -- what goes to the cache is one page
      obtain ⟨hc, hone⟩ := hlru hmt
      have hpaid := hholds.paid
      rw [Grant.blocks, hholds.single hc, hone] at hpaid
      exact hpaid
    · exact h.pages i hin

end Grants

/-! ## 6. A request -/

section Admitted

variable {st : State} {nitems dim : Nat} {flags : ItemFunc} {mt : MigrationType} {c : Bool} {psize : Int}

/-- A bit that is a positive count. -/
theorem toInt_bit_pos {o : Nat} (h : 0 < (bit o).toInt) : (bit o).toInt.toNat = 2 ^ o := by
  rcases Nat.lt_or_ge o 64 with hlt | hge
  · obtain ⟨hsmall, hlarge⟩ := toInt_bit (Nat.le_of_lt_succ hlt)
    by_cases h62 : o ≤ 62
    · rw [hsmall h62, Int.toNat_natCast]
    · have := hlarge (by omega)
      omega
  · have hzero : bit o = 0#64 := BitVec.shiftLeft_eq_zero hge
    rw [hzero] at h
    exact absurd h (by decide)

/-- A combined request is one of two purposes, and not of the cache's class. -/
theorem prepare_combined (h : prepareNodeStructAlloc nitems flags = some (mt, nestedPara true)) :
    mt ≠ .lrutype ∧ (flags = .physicalDcont ∨ flags = .physicalReserved) := by
  unfold prepareNodeStructAlloc nestedPara at h
  split at h
  · cases h
  · split at h
    · next hreserved =>
        cases h
        exact ⟨by decide, .inr hreserved⟩
    · split at h
      · cases h
      · cases flags <;> cases h
        exact ⟨by decide, .inl rfl⟩

/-- A MOVABLE request that is not combined is a contiguous one. -/
theorem prepare_contiguous (h : prepareNodeStructAlloc nitems flags = some (.movable, nestedPara false)) :
    preprocessNodeStructAlloc st flags nitems mt dim = some (bit (itemToOrder nitems).1).toInt := by
  unfold prepareNodeStructAlloc nestedPara at h
  split at h
  · cases h
  · split at h
    · cases h
    · split at h
      · cases h
      · cases flags <;> cases h <;> rfl

/-- **What is admitted can be paid**: in bits, or as one power of two; in the class of the cache it is one
    page. -/
theorem admitted_payable (h0 : nitems ≠ 0)
    (hp : prepareNodeStructAlloc nitems flags = some (mt, nestedPara c))
    (hpre : preprocessNodeStructAlloc st flags nitems mt dim = some psize) (hpos : 0 < psize) :
    Payable c psize.toNat ∧ (mt = .lrutype → c = false ∧ psize.toNat = 1) := by
  cases c with
  | true => exact ⟨.inl rfl, fun hmt => absurd hmt (prepare_combined hp).1⟩
  | false =>
      by_cases hm : mt = .movable
      · subst hm
        rw [prepare_contiguous hp, Option.some.injEq] at hpre
        subst hpre
        exact ⟨.inr ⟨_, toInt_bit_pos hpos⟩, fun hmt => by cases hmt⟩
      · rcases prepare_block hp hm with ⟨rfl, rfl⟩ | ⟨rfl, rfl, hd, hr⟩
        · obtain ⟨-, ⟨e, he⟩, rfl⟩ := preprocess_debug h0 hpre (Int.not_le.mpr hpos)
          exact ⟨.inr ⟨e, he⟩, fun hmt => by cases hmt⟩
        · obtain rfl := preprocess_page hd hr hpre
          exact ⟨.inr ⟨0, rfl⟩, fun _ => ⟨rfl, rfl⟩⟩

end Admitted

section Requests

variable {r : Reading} {allocFuel : Nat} {dispatch : DispatchFn} {st st' : State} {nu nitems : Nat}
  {flags : ItemFunc} {ret : Status} {item : Option Item} {mt : MigrationType} {c : Bool}

/-- The loops of a request, on the node of its dimension. -/
abbrev requestLevels (allocFuel : Nat) (dispatch : DispatchFn) (st : State) (nu : Nat)
    (mt : MigrationType) (c : Bool) (nitems : Nat) : Option (State × Status × Option Item) :=
  groupLevels allocFuel (fun st level order => dispatch st (.phy nu) level mt order (nestedPara c))
    (nestedPara c).toAllocPara mt (groupLvlNum - requestTop st nu mt) (requestTop st nu mt) nitems st none

/-- **What `compound_group` comes to**: the blocks of the loops, or the head of those of a failed request
    given back. -/
theorem compoundGroup_cases (hcur : getCurrentNodeNum (st.nodes (.phy nu)).dim = some nu)
    (h : compoundGroup r allocFuel dispatch st nitems mt (nestedPara c) (st.nodes (.phy nu)).dim =
      some (st', ret, item)) :
    ∃ st1 ret1 itemPtr, requestLevels allocFuel dispatch st nu mt c nitems = some (st1, ret1, itemPtr) ∧
      (ret1 = .noError ∧ ret = .noError ∧ st' = st1 ∧ item = itemPtr ∨
        ret1 ≠ .noError ∧ ret = .errNoMemory ∧ (itemPtr = none ∧ st' = st1 ∨ ∃ head freed,
          itemPtr = some head ∧ findGroupReversed r allocFuel st1 mt head false = some (st', freed))) := by
  unfold compoundGroup at h
  rw [hcur] at h
  simp only [Option.bind_eq_bind, Option.bind_some] at h
  rw [if_neg (show ¬ (nestedPara c).isVirtual = true from Bool.false_ne_true)] at h
  have htop : (if mt = .sparseMovable then (0 : Int) else st.tables.phyGroupLvl nu).toNat =
      requestTop st nu mt := by
    unfold requestTop
    split <;> rfl
  have hlow : ¬ (if mt = .sparseMovable then (0 : Int) else st.tables.phyGroupLvl nu) < 0 := by
    intro hlow
    rw [if_pos hlow] at h
    cases h
  rw [if_neg hlow, htop] at h
  unfold findGroupOn at h
  obtain ⟨⟨st1, ret1, itemPtr⟩, hlevels, hexit⟩ := Option.bind_eq_some_iff.mp h
  refine ⟨st1, ret1, itemPtr, hlevels, ?_⟩
  dsimp only at hexit
  split at hexit
  · next hret =>
      cases hexit
      exact .inl ⟨hret, rfl, rfl, rfl⟩
  · next hret =>
      cases itemPtr with
      | none =>
          cases hexit
          exact .inr ⟨hret, rfl, .inl ⟨rfl, rfl⟩⟩
      | some head =>
          obtain ⟨⟨st2, freed⟩, hq, he⟩ := Option.bind_eq_some_iff.mp hexit
          cases he
          exact .inr ⟨hret, rfl, .inr ⟨head, freed, rfl, hq⟩⟩

/-- **A request**: refused as it is, or admitted. -/
theorem requestAlloc_cases (h : requestAlloc r allocFuel dispatch nu st nitems flags = some (st', ret, item)) :
    (ret ≠ .noError ∧ st' = st) ∨ ∃ mt para psize, ¬ (nitems = 0 ∧ flags ≠ .entity) ∧
      prepareNodeStructAlloc nitems flags = some (mt, para) ∧
      preprocessNodeStructAlloc st flags nitems mt (st.nodes (.phy nu)).dim = some psize ∧ 0 < psize ∧
      compoundGroup r allocFuel dispatch st psize.toNat mt para (st.nodes (.phy nu)).dim =
        some (st', ret, item) := by
  unfold requestAlloc at h
  split at h
  · cases h
    exact .inl ⟨by decide, rfl⟩
  · next h0 =>
      obtain ⟨⟨mt, para⟩, hprep, h1⟩ := Option.bind_eq_some_iff.mp h
      obtain ⟨psize, hpre, h2⟩ := Option.bind_eq_some_iff.mp h1
      dsimp only at hpre h2
      split at h2
      · cases h2
        exact .inl ⟨by decide, rfl⟩
      · next hp =>
          have hsuff : ∃ suff : Bool, (if suff = false then some (st, Status.errNoMemory, none)
              else if para.isEntry = true then none
              else compoundGroup r allocFuel dispatch st psize.toNat mt para (st.nodes (.phy nu)).dim) =
                some (st', ret, item) := by
            split at h2
            · exact ⟨true, h2⟩
            · obtain ⟨suff, -, h3⟩ := Option.bind_eq_some_iff.mp h2
              exact ⟨suff, h3⟩
          obtain ⟨suff, h3⟩ := hsuff
          split at h3
          · cases h3
            exact .inl ⟨by decide, rfl⟩
          · split at h3
            · cases h3
            · exact .inr ⟨mt, para, psize, h0, hprep, hpre, Int.not_le.mp hp, h3⟩

end Requests

/-! ## 7. Runs -/

/-- A request whose blocks may be several. -/
def RequestOp.Combined : RequestOp → Prop
  | .alloc _ flags => flags = .physicalDcont ∨ flags = .physicalReserved
  | .free _ => False

/-- Every descriptor is free, in the cache, handed out or lost. -/
def Booked (st : State) (nu n : Nat) (handed : List (Item × Nat)) (lost : List Item) : Prop :=
  volume (freeBlocks st nu) + (st.lists (cacheCell nu)).length + (handed.map Prod.snd).sum +
    (lost.map (blockSize st)).sum = n

section Runs

variable {r : Reading} {s : Searches} {env : StreamEnv} {st st' : State}
  {nu n nitems depth fuel allocFuel freeFuel : Nat} {grants : List Grant} {lost : List Item}
  {flags : ItemFunc} {ret : Status} {item : Option Item} {x x' : State × List (Item × Nat)} {op : RequestOp}

/-- **The books of the node.** -/
theorem Granted.booked (h : Granted st nu n grants lost) :
    Booked st nu n (grants.map Grant.handed) lost := by
  have hvol : volume (freeBlocks st nu) + volume (liveBlocks st nu (outBlocks grants lost)) = n :=
    h.region.whole.volume
  have hcache : ((st.lists (cacheCell nu)).map (blockSize st)).sum = (st.lists (cacheCell nu)).length := by
    rw [List.map_congr_left h.pages, List.map_const', List.sum_replicate, smul_eq_mul, mul_one]
  have hgrants : ((grants.flatMap Grant.blocks).map (blockSize st)).sum =
      ((grants.map Grant.handed).map Prod.snd).sum := by
    rw [List.map_flatMap, List.flatMap_def, List.sum_flatten, List.map_map, List.map_map]
    exact congrArg List.sum (List.map_congr_left fun g hg => (h.holds g hg).paid)
  rw [volume_liveBlocks, outBlocks, List.map_append, List.map_append, List.sum_append, List.sum_append,
    hcache, hgrants] at hvol
  unfold Booked
  omega

/-- What a call leaves: the node granted, what was lost still lost, and nothing more unless a combined
    request, or its free, is the call. -/
structure Called (st st' : State) (nu n : Nat) (grants grants' : List Grant) (lost more : List Item)
    (combined : Prop) : Prop where
  granted : Granted st' nu n grants' (more ++ lost)
  reach : (division st nu (outBlocks grants lost)).Reach (division st' nu (outBlocks grants' (more ++ lost)))
  single : ¬ combined → (∀ g ∈ grants, g.rest = []) → more = [] ∧ ∀ g ∈ grants', g.rest = []

/-- **A request**: served, it is a grant of the count it is admitted for; failed, what its cleanup does
    not give back is lost. -/
theorem Granted.request (h : Granted st nu n grants lost)
    (hM : RequestMeets env.itemarrayPrev allocFuel (dispatchGroup (s.withSparse env (fuel + 1)) (depth + 2))
      nu st (.alloc nitems flags))
    (hrun : requestAlloc r allocFuel (dispatchGroup (s.withSparse env (fuel + 1)) (depth + 2)) nu st nitems
      flags = some (st', ret, item)) :
    (ret = .noError → ∀ head, item = some head → ∃ g : Grant, g.handed = (head, askedItems nu st nitems flags) ∧
      Called st st' nu n grants (g :: grants) lost [] (RequestOp.Combined (.alloc nitems flags))) ∧
    (ret ≠ .noError → ∃ more, Called st st' nu n grants grants lost more
      (RequestOp.Combined (.alloc nitems flags))) := by
  rcases requestAlloc_cases hrun with ⟨hret, rfl⟩ | ⟨mt, para, psize, h0, hprep, hpre, hpos, hgroup⟩
  · exact ⟨fun he => absurd he hret, fun _ => ⟨[], h, .refl, fun _ hs => ⟨rfl, hs⟩⟩⟩
  obtain ⟨c, rfl, hlevels, hclean⟩ := hM mt para psize hprep hpre hpos
  have hnitems : nitems ≠ 0 := by
    rintro rfl
    have hentity : flags = .entity := Decidable.not_not.mp fun hne => h0 ⟨rfl, hne⟩
    rw [hentity] at hprep
    cases hprep
  obtain ⟨hpay, hlru⟩ := admitted_payable hnitems hprep hpre hpos
  have hasked : askedItems nu st nitems flags = psize.toNat := by
    unfold askedItems
    rw [hprep, Option.bind_some, hpre, Option.getD_some]
  have hsingle : ¬ RequestOp.Combined (.alloc nitems flags) → c = false := by
    intro hnot
    by_contra hc
    rw [Bool.not_eq_false] at hc
    subst hc
    exact hnot (prepare_combined hprep).2
  obtain ⟨st1, ret1, itemPtr, hloop, hexit⟩ := compoundGroup_cases h.region.node.current hgroup
  rcases Nat.lt_or_ge (requestTop st nu mt) groupLvlNum with htop | htop
  · obtain ⟨blocks, left, hG, hpaid, hshort⟩ := groupLevels_grows (h.start psize.toNat mt c)
      (Nat.add_sub_of_le (Nat.le_of_lt htop)) (fun hz => by omega) (fun _ => hpay)
      (fun hmt => (hlru hmt).2) hlevels hloop
    rcases hexit with ⟨rfl, rfl, rfl, rfl⟩ | ⟨hret1, rfl, ⟨rfl, rfl⟩ | ⟨head, freed, rfl, hback⟩⟩
    · refine ⟨fun _ head he => ?_, fun hne => absurd rfl hne⟩
      subst he
      obtain rfl := hpaid rfl
      obtain ⟨rest, rfl, hgranted⟩ := hG.granted h hlru
      refine ⟨⟨head, rest, psize.toNat, c⟩, by rw [hasked]; rfl, hgranted, ?_, fun hnot hs => ⟨rfl, ?_⟩⟩
      · rw [outBlocks_cons]
        exact hG.stepped.reach
      · intro g hg
        rcases List.mem_cons.mp hg with rfl | hg
        · exact (hgranted.holds _ (List.mem_cons_self ..)).single (hsingle hnot)
        · exact hs g hg
    · refine ⟨(by intro he; cases he), fun _ => ⟨[], ?_⟩⟩
      obtain rfl : blocks = [] := List.head?_eq_none_iff.mp hG.first.symm
      exact ⟨hG.nothing h, hG.stepped.reach, fun _ hs => ⟨rfl, hs⟩⟩
    · -- what was obtained is given back by its head
      refine ⟨(by intro he; cases he), fun _ => ?_⟩
      obtain ⟨rest, rfl, hgranted⟩ := hG.granted h hlru
      have hholds := hgranted.holds _ (List.mem_cons_self ..)
      -- a page that was obtained is all of its request
      have hpage : mt = .lrutype → c = false ∧ psize.toNat - left = 1 := by
        intro hmt
        have hone := (hlru hmt).2
        have hne := hshort hret1
        have hpos := blockSize_pos st1 head
        have hpaid : (List.map (blockSize st1) (head :: rest)).sum = psize.toNat - left := hholds.paid
        rw [List.map_cons, List.sum_cons] at hpaid
        omega
      obtain ⟨hleft, hreach⟩ := hgranted.givenBack (List.mem_cons_self ..)
        (hclean st1 ret1 head hloop hret1) hpage hback
      rw [List.erase_cons_head] at hleft hreach
      refine ⟨rest, hleft, ?_, fun hnot hs => ⟨hholds.single (hsingle hnot), hs⟩⟩
      rw [outBlocks_cons] at hreach
      exact hG.stepped.reach.trans hreach
  · -- a top level past the last: there is no loop
    unfold requestLevels at hloop
    rw [Nat.sub_eq_zero_of_le htop] at hloop
    cases hloop
    rcases hexit with ⟨-, rfl, -, rfl⟩ | ⟨hne, -⟩
    · exact ⟨(by intro _ head he; cases he), fun hne => absurd rfl hne⟩
    · exact absurd rfl hne

/-- The grants have heads of their own. -/
theorem Granted.inj (h : Granted st nu n grants lost) {a b : Grant} (ha : a ∈ grants) (hb : b ∈ grants)
    (he : a.handed = b.handed) : a = b := by
  by_contra hne
  obtain ⟨-, hpair⟩ := List.nodup_flatMap.mp (List.nodup_append.mp h.region.nodup).1
  have : Std.Symm (Function.onFun List.Disjoint Grant.blocks) := ⟨fun _ _ hd => List.Disjoint.symm hd⟩
  have hhead : a.head = b.head := (Prod.mk.inj he).1
  exact hpair.forall ha hb hne (List.mem_cons_self ..) (hhead ▸ List.mem_cons_self ..)

/-- **Step.** -/
theorem requestStep_called (h : Granted x.1 nu n grants lost) (hx : x.2 = grants.map Grant.handed)
    (hM : RequestMeets env.itemarrayPrev allocFuel (dispatchGroup (s.withSparse env (fuel + 1)) (depth + 2))
      nu x.1 op)
    (hrun : requestStep r allocFuel (dispatchGroup (s.withSparse env (fuel + 1)) (depth + 2)) nu freeFuel x
      op = some x') :
    ∃ grants' more, Called x.1 x'.1 nu n grants grants' lost more op.Combined ∧
      x'.2 = grants'.map Grant.handed := by
  cases op with
  | alloc nitems flags =>
      unfold requestStep at hrun
      dsimp only at hrun
      split at hrun
      · next st' head hcall =>
          cases hrun
          obtain ⟨g, hg, hcalled⟩ := (h.request hM hcall).1 rfl head rfl
          exact ⟨_, _, hcalled, by rw [List.map_cons, hg, hx]⟩
      · cases hrun
      · next st' ret item hnot hnone hcall =>
          cases hrun
          have hret : ret ≠ .noError := by
            rintro rfl
            cases item with
            | none => exact hnone rfl rfl
            | some head => exact hnot head rfl rfl
          obtain ⟨more, hcalled⟩ := (h.request hM hcall).2 hret
          exact ⟨grants, more, hcalled, hx⟩
      · cases hrun
  | free item =>
      unfold requestStep at hrun
      dsimp only at hrun
      split at hrun
      · cases hrun
      · next handed hfind =>
          have hmem := List.mem_of_find?_eq_some hfind
          rw [hx, List.mem_map] at hmem
          obtain ⟨g, hg, rfl⟩ := hmem
          have hname := List.find?_some hfind
          obtain rfl : g.head = item := of_decide_eq_true hname
          unfold decomposeGroup at hrun
          cases hclass : freeClass x.1 g.head with
          | none =>
              rw [hclass] at hrun
              cases hrun
              exact ⟨grants, [], ⟨h, .refl, fun _ hs => ⟨rfl, hs⟩⟩, hx⟩
          | some mt =>
              have hholds := h.holds g hg
              rw [hclass] at hrun
              dsimp only at hrun
              cases hback : findGroupReversed r freeFuel x.1 mt g.head false with
              | none =>
                  rw [hback] at hrun
                  cases hrun
              | some q =>
                  obtain ⟨st', freed⟩ := q
                  rw [hback] at hrun
                  cases hrun
                  obtain ⟨hleft, hreach⟩ := h.givenBack hg (hM mt hclass)
                    (fun hmt => hholds.page (hmt ▸ hclass)) hback
                  refine ⟨grants.erase g, g.rest, ⟨hleft, hreach, fun _ hs => ⟨hs g hg, fun b hb => ?_⟩⟩, ?_⟩
                  · exact hs b (List.mem_of_mem_erase hb)
                  · show x.2.erase g.handed = _
                    rw [hx]
                    exact map_erase_of_inj hg fun b hb he => h.inj hb hg he

/-- **Whatever is asked for and given back, in blocks of any number**: the blocks of each request stay one
    chain of its own that adds up to its count; the node goes through divisions, and every descriptor of
    it is free, cached, handed out, or lost with the chain of a head given back; and where no request is
    combined none is lost. -/
theorem requests_chained (s : Searches) (env : StreamEnv) (depth fuel allocFuel freeFuel nu n : Nat) :
    ∀ r x x' ops grants lost, Granted x.1 nu n grants lost → x.2 = grants.map Grant.handed →
      RequestsMeet env.itemarrayPrev r allocFuel (dispatchGroup (s.withSparse env (fuel + 1)) (depth + 2)) nu
        freeFuel x ops →
      requestRun r allocFuel (dispatchGroup (s.withSparse env (fuel + 1)) (depth + 2)) nu freeFuel x ops =
        some x' →
      ∃ grants' more, Granted x'.1 nu n grants' (more ++ lost) ∧ x'.2 = grants'.map Grant.handed ∧
        (division x.1 nu (outBlocks grants lost)).Reach
          (division x'.1 nu (outBlocks grants' (more ++ lost))) ∧
        Booked x'.1 nu n x'.2 (more ++ lost) ∧
        ((∀ op ∈ ops, ¬ op.Combined) → (∀ g ∈ grants, g.rest = []) → more = []) := by
  intro r x x' ops
  induction ops generalizing x with
  | nil =>
      intro grants lost h hx _ hrun
      obtain rfl := Option.some.inj hrun
      exact ⟨grants, [], h, hx, .refl, hx ▸ h.booked, fun _ _ => rfl⟩
  | cons op ops ih =>
      intro grants lost h hx hM hrun
      obtain ⟨hmeets, hrest⟩ := hM
      rw [requestRun, Option.bind_eq_some_iff] at hrun
      obtain ⟨x1, h1, hrun⟩ := hrun
      obtain ⟨grants1, more1, hcalled, hx1⟩ := requestStep_called h hx hmeets h1
      obtain ⟨grants2, more2, hgranted, hx2, hreach, hbooked, hnone⟩ :=
        ih x1 grants1 (more1 ++ lost) hcalled.granted hx1 (hrest x1 h1) hrun
      rw [← List.append_assoc] at hgranted hreach hbooked
      refine ⟨grants2, more2 ++ more1, hgranted, hx2, hcalled.reach.trans hreach, hbooked,
        fun hops hs => ?_⟩
      obtain ⟨rfl, hs1⟩ := hcalled.single (hops op List.mem_cons_self) hs
      rw [List.append_nil]
      exact hnone (fun o ho => hops o (List.mem_cons_of_mem op ho)) hs1

/-- A divided node with nothing out, its cache empty and every descriptor in no chain. -/
theorem Region.ungranted (hR : Region st nu [] n) (hcache : st.lists (cacheCell nu) = [])
    (hp : ∀ d < n, Plain st (st.tables.phyItemStruct nu + d)) : Granted st nu n [] [] :=
  ⟨hR, fun _ hg => absurd hg List.not_mem_nil, fun d hd _ => hp d hd, fun i hi => by
    rw [hcache] at hi
    cases hi⟩

end Runs

/-! ## 7. A request of two blocks -/

/-- The node 0, a MOVABLE block of 1024 descriptors and three UNMOVABLE ones of 512. -/
def reservable : State :=
  let st := ((((bareNodes 2 fun _ => 0).put 0 (2, .movable, 1) 0).put 0 (2, .unmovable, 0) 1024).put 0
    (2, .unmovable, 0) 1536).put 0 (2, .unmovable, 0) 2048
  { st with nodes := fun node => { st.nodes node with nrFreeitems := 2560#64 } }

theorem reservable_granted : Granted reservable 0 2560 [] [] := by
  have hm : ((2 : Nat), MigrationType.movable, (1 : Nat)) ∈ nodeCells := by decide +kernel
  have hu : ((2 : Nat), MigrationType.unmovable, (0 : Nat)) ∈ nodeCells := by decide +kernel
  -- a descriptor behind the last block put is on no list
  have hbehind : ∀ (st : State) (c : Nat × MigrationType × Nat) (i d : Nat), i < d →
      (st.items d).onList = none → ((st.put 0 c i).items d).onList = none := fun st c i d hd ho => by
    rw [State.put_items (Nat.ne_of_gt hd)]
    exact ho
  have h1 := (bareNodes_region 2 (fun _ => 0) 0 rfl).put (i := 0) hm rfl (Nat.dvd_zero _)
    (fun _ _ => rfl) (by decide)
  have h2 : Region _ 0 [] 1536 := h1.put (i := 1024) hu rfl (by decide) (fun d _ =>
    hbehind _ _ _ _ (by show 0 < 0 + (1024 + d); omega) rfl) (by decide)
  have h3 : Region _ 0 [] 2048 := h2.put (i := 1536) hu rfl (by decide) (fun d _ =>
    hbehind _ _ _ _ (by show 1024 < 0 + (1536 + d); omega)
      (hbehind _ _ _ _ (by show 0 < 0 + (1536 + d); omega) rfl)) (by decide)
  have h4 : Region _ 0 [] 2560 := h3.put (i := 2048) hu rfl (by decide) (fun d _ =>
    hbehind _ _ _ _ (by show 1536 < 0 + (2048 + d); omega)
      (hbehind _ _ _ _ (by show 1024 < 0 + (2048 + d); omega)
        (hbehind _ _ _ _ (by show 0 < 0 + (2048 + d); omega) rfl))) (by decide)
  have hR : Region reservable 0 [] 2560 ∧ division reservable 0 [] = division _ 0 [] :=
    h4.kept (h4.linked.congr rfl fun _ => rfl) (h4.node.congr rfl rfl rfl h4.node.mode) rfl ⟨rfl, rfl⟩
      (fun _ _ => ⟨rfl, rfl⟩) h4.orders (fun _ _ => rfl) h4.inside
  refine hR.1.ungranted rfl fun d _ => ?_
  have hput : ∀ (st : State) (c : Nat × MigrationType × Nat) (i j : Nat), Plain st j →
      Plain (st.put 0 c i) j := fun st c i j hj =>
    ⟨(st.pushTail_keeps _ i j ItemStruct.compoundNode rfl).trans hj.1,
      (st.pushTail_keeps _ i j ItemStruct.compoundHead rfl).trans hj.2⟩
  exact hput _ _ _ _ (hput _ _ _ _ (hput _ _ _ _ (hput _ _ _ _ ⟨rfl, rfl⟩)))

/-- 1536 descriptors are asked for: the block of 1024 migrates, one of 512 is chained behind it. The free
    gives back the head; the 512 behind it are lost. -/
theorem reservable_chained :
    (∃ st, requestRun .listFirst 3 (dispatchGroup (noSearch.withSparse streamEnv 1) 2) 0 1 (reservable, [])
      [.alloc 1536 .physicalReserved] = some (st, [(0, 1536)])) ∧
    ∃ st, requestRun .listFirst 3 (dispatchGroup (noSearch.withSparse streamEnv 1) 2) 0 1 (reservable, [])
        [.alloc 1536 .physicalReserved, .free 0] = some (st, []) ∧
      (∀ c ∈ nodeCells, 1024 ∉ st.lists (nodeCell 0 c)) ∧
      ∃ lost, Granted st 0 2560 [] lost ∧ Booked st 0 2560 [] lost := by
  have hfirst : (requestRun .listFirst 3 (dispatchGroup (noSearch.withSparse streamEnv 1) 2) 0 1
      (reservable, []) [.alloc 1536 .physicalReserved]).map (fun x => x.2) = some [(0, 1536)] := by
    decide +kernel
  have hboth : (requestRun .listFirst 3 (dispatchGroup (noSearch.withSparse streamEnv 1) 2) 0 1
      (reservable, []) [.alloc 1536 .physicalReserved, .free 0]).map (fun x => (x.2,
        decide (∀ c ∈ nodeCells, 1024 ∉ x.1.lists (nodeCell 0 c)))) = some ([], true) := by
    decide +kernel
  obtain ⟨⟨st, handed⟩, hfirst, rfl⟩ := Option.map_eq_some_iff.mp hfirst
  obtain ⟨⟨st', handed'⟩, hboth, hout⟩ := Option.map_eq_some_iff.mp hboth
  obtain ⟨rfl, hlost⟩ := Prod.mk.inj hout
  have hmeets : RequestsMeet streamEnv.itemarrayPrev .listFirst 3
      (dispatchGroup (noSearch.withSparse streamEnv 1) 2) 0 1 (reservable, [])
      [.alloc 1536 .physicalReserved, .free 0] := by
    decide +kernel
  obtain ⟨grants, more, hG, hhanded, -, hB, -⟩ := requests_chained noSearch streamEnv 0 0 3 1 0 2560
    .listFirst (reservable, []) (st', []) _ [] [] reservable_granted rfl hmeets hboth
  obtain rfl := List.map_eq_nil_iff.mp hhanded.symm
  exact ⟨⟨st, hfirst⟩, st', hboth, of_decide_eq_true hlost, _, hG, hB⟩

end TensorAlloc
