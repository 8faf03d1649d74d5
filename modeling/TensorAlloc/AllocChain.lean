/-
  File:      TensorAlloc/AllocChain.lean
  Subject:   The cycle `forward_remove_group_sparse` -> `new_group_root` -> `heap_alloc` ->
             `node_struct_alloc` -> `dispatch_group` -> `forward_remove_group_sparse`.

  * `sparseBody` -- one call, the nested ones as `search`; `allocChain` bounds their depth;
  * `Barren` -- the lists the search looks at hold nothing it takes. A new root goes on the list of
    order 8, which no search looks at: a barren state stays barren (`arrayRoot_barren`);
  * `allocChain_returns_iff` -- so a request returns where its own level has a block, and else only
    where the memory node refuses the page the slab asks for;
  * `allocChain_forward` -- a request that returns is one of `forwardRemoveGroupSparse`, with the pages
    the node has.
-/
import TensorAlloc.Alloc
import TensorAlloc.Slab
import TensorAlloc.SparseSearch
import TensorAlloc.Split

namespace TensorAlloc

/-! ## 1. The cycle -/

/-- `forward_remove_group_sparse`: level, class, order, dimension and `is_virtual`. -/
abbrev SparseSearch := State → Nat → MigrationType → Nat → Nat → Bool → Option (State × Option Item)

/-- Where a node's slab of item arrays is, which descriptor an object's range is, and the word at a
    rounded address. -/
structure ChainEnv where
  slice : NodeRef → Nat
  transform : Nat → Item
  itemarrayPrev : ItemarrayPrev
  reading : Reading
  fuel : Nat
  searches : Searches

section Chain

variable (env : ChainEnv)

/-- `node->vtbl->alloc(node, &range_base, FIXED_ITEM_SIZE, FUNC_PHYSICAL_OBJECT, NULL)`. -/
def pageAlloc (search : SparseSearch) (st : State) (nu : Nat) : Option (State × Int × Nat) := do
  let (st, ret, range) ← nodeStructAlloc env.reading (env.fuel + 1)
    (dispatchGroup { env.searches with sparse := search } 2) st (.phy nu) fixedItemSize .physicalObject
  if ret ≠ .noError then pure (st, errNoMemory, 0)
  else pure (st, noError, ← range)

/-- The slab's calls. It frees no page while it allocates. -/
def pageCalls (search : SparseSearch) : PageCalls where
  alloc := pageAlloc env search
  free _ _ _ := none

/-- `init_item` of a new array. A descriptor on a list loses its links: undefined. -/
def initArray (st : State) (item : Item) : Option State :=
  if (st.items item).onList = none then some (initItem st item) else none

/-- `new_group_slice`; the inner `none` is NULL. -/
def arraySlice (calls : PageCalls) (st : State) (node : NodeRef) (lvl : Nat) :
    Option (State × Option Item) := do
  let (st, ret) ← heapAlloc calls st (env.slice node)
  match ret with
  | .error _ => pure (st, none)
  | .ok rangeBase =>
      let newItem := env.transform rangeBase
      let st ← initArray st newItem
      if lvl = 0 ∧ (st.nodes node).sparseItemRoot = none then
        pure ({ st with
          nodes := Function.update st.nodes node
            { st.nodes node with sparseItemRoot := some newItem } }, some newItem)
      else pure (st, some newItem)

/-- `new_group_root` with no item. -/
def arrayRoot (calls : PageCalls) (st : State) (group : Group) (lvl : Nat) (mt : MigrationType) :
    Option (State × Option Item) := do
  let (st, item) ← arraySlice env calls st (st.tables.groupNode group) lvl
  match item with
  | none => pure (st, none)
  | some item =>
      let cell := ListHead.groupCell group mt maxItemRange
      pure ((st.pushTail cell item).countInc cell, some item)

/-- `forward_remove_group_sparse`, its nested calls as `search`. -/
def sparseBody (search : SparseSearch) : SparseSearch := fun st lvl mt order dim isVirtual => do
  let pg := getCurrentProcessGroup
  let (st, found) ← searchLevels pg mt dim isVirtual lvl lvl st order
  match found with
  | some (level, item) =>
      -- a block of a coarser level: `temp` is read unset, or a member of NULL
      if level = lvl then
        (enterTable env.itemarrayPrev pg st item lvl order mt dim isVirtual).map fun st => (st, some item)
      else none
  | none => do
      let group ← sparseGroup pg dim isVirtual 0
      -- the loop leaves with level -1: any level but 0, the node's root is not set
      let (st, root) ← arrayRoot env (pageCalls env search) st group maxGroupLvls mt
      match root with
      | none => pure (st, none)
      | some _ => search st lvl mt order dim isVirtual

/-- The cycle, to a depth. -/
def allocChain : Nat → SparseSearch
  | 0 => fun _ _ _ _ _ _ => none
  | depth + 1 => sparseBody env (allocChain depth)

end Chain

/-- **The request comes to an end**: a block, or NULL. -/
def Returns (env : ChainEnv) (st : State) (lvl order dim : Nat) (isVirtual : Bool) : Prop :=
  ∃ depth r, allocChain env depth st lvl .movable order dim isVirtual = some r

/-! ## 2. A page -/

section Page

variable {env : ChainEnv} {search : SparseSearch} {st : State} {r : State × Int × Nat}

/-- A page's items are one block: eight units of level 2. -/
theorem groupLevels_page (fuel : Nat) (dispatch : NodeDispatch) (st : State) :
    groupLevels (fuel + 1) dispatch (nestedPara false).toAllocPara .movable 4 0 fixedItemSize st none =
      (groupDigit (fuel + 1) dispatch (nestedPara false).toAllocPara 2 (fuel + 1) 8 st none).bind
        fun q => if q.2.1 ≠ .noError then some q else some (q.1, .noError, q.2.2) := by
  have h0 : groupLevels (fuel + 1) dispatch (nestedPara false).toAllocPara .movable 4 0 fixedItemSize st
    none = groupLevels (fuel + 1) dispatch (nestedPara false).toAllocPara .movable 2 2 fixedItemSize st
      none := rfl
  rw [h0]
  show (groupDigit (fuel + 1) dispatch (nestedPara false).toAllocPara 2 (fuel + 1) 8 st none).bind _ = _
  cases groupDigit (fuel + 1) dispatch (nestedPara false).toAllocPara 2 (fuel + 1) 8 st none with
  | none => rfl
  | some q =>
      obtain ⟨st1, ret, itemPtr⟩ := q
      cases ret <;> rfl

/-- One round. -/
theorem groupDigit_page (fuel : Nat) (dispatch : NodeDispatch) (st : State) :
    groupDigit (fuel + 1) dispatch (nestedPara false).toAllocPara 2 (fuel + 1) 8 st none =
      (dispatch st 2 3).bind fun q =>
        if q.2.1 ≠ .noError then some (q.1, q.2.1, none)
        else q.2.2.map fun item => (q.1, .noError, some item) := by
  have horder : lvlOrderOf (nestedPara false).toAllocPara 8 = (3, 0) := by decide +kernel
  rw [groupDigit, horder]
  cases dispatch st 2 3 with
  | none => rfl
  | some q =>
      obtain ⟨st1, ret, tmp⟩ := q
      cases ret with
      | noError => cases tmp <;> rfl
      | errNoMemory => rfl
      | errInvalidArgs => rfl

theorem compoundGroup_page (r : Reading) (fuel : Nat) (dispatch : DispatchFn) (st : State) (dim : Nat) :
    compoundGroup r (fuel + 1) dispatch st fixedItemSize .movable (nestedPara false) dim =
      (getCurrentNodeNum dim).bind fun cur =>
        (dispatch st (.phy cur) 2 .movable 3 (nestedPara false)).bind fun q =>
          if q.2.1 ≠ .noError then some (q.1, .errNoMemory, none)
          else q.2.2.map fun item => (q.1, .noError, some item) := by
  unfold compoundGroup
  cases hcur : getCurrentNodeNum dim with
  | none => rfl
  | some cur =>
      show (groupLevels (fuel + 1) _ (nestedPara false).toAllocPara .movable 4 0 fixedItemSize st none).bind
        _ = _
      rw [groupLevels_page, groupDigit_page, Option.bind_some]
      cases dispatch st (.phy cur) 2 .movable 3 (nestedPara false) with
      | none => rfl
      | some q =>
          obtain ⟨st1, ret, item⟩ := q
          cases ret with
          | noError => cases item <;> rfl
          | errNoMemory => rfl
          | errInvalidArgs => rfl

/-- The root of the tree is a member of the process group, NULL. -/
theorem itemToIdxSparse_null (fuel : Nat) (st : State) (item : Item) :
    itemToIdxSparse getCurrentProcessGroup fuel st item = none := by
  have hroot : ∀ dim, processGroupGroupRoot getCurrentProcessGroup st dim = none := fun dim => by
    unfold processGroupGroupRoot
    cases getCurrentVnodeNum dim <;> rfl
  unfold itemToIdxSparse
  dsimp only
  rw [hroot]
  rfl

/-- **A page is never delivered**: the range of the block is read through the process group, NULL. So
    the request fails where the dispatch does, and does not return elsewhere. -/
theorem pageAlloc_eq (env : ChainEnv) (search : SparseSearch) (st : State) (nu : Nat) :
    pageAlloc env search st nu = (getCurrentNodeNum (st.nodes (.phy nu)).dim).bind fun cur =>
      (dispatchGroup { env.searches with sparse := search } 2 st (.phy cur) 2 .movable 3
        (nestedPara false)).bind fun q =>
          if q.2.1 ≠ .noError then some (q.1, errNoMemory, 0) else none := by
  have hprepare : prepareNodeStructAlloc fixedItemSize .physicalObject =
      some (.movable, nestedPara false) := rfl
  have hsize : preprocessNodeStructAlloc st .physicalObject fixedItemSize .movable
      (st.nodes (.phy nu)).dim = some 4096 := by
    show some (bit (itemToOrder fixedItemSize).1).toInt = some 4096
    decide +kernel
  have hcount : Int.toNat 4096 = fixedItemSize := rfl
  unfold pageAlloc nodeStructAlloc
  rw [if_neg (by decide), hprepare]
  simp only [Option.bind_eq_bind, Option.bind_some, hsize, hcount, compoundGroup_page]
  rw [if_neg (by decide)]
  cases getCurrentNodeNum (st.nodes (.phy nu)).dim with
  | none => rfl
  | some cur =>
      simp only [Option.bind_some]
      cases dispatchGroup { env.searches with sparse := search } 2 st (.phy cur) 2 .movable 3
        (nestedPara false) with
      | none => rfl
      | some q =>
          obtain ⟨st1, ret, item⟩ := q
          cases ret with
          | errNoMemory => rfl
          | errInvalidArgs => rfl
          | noError =>
              cases item with
              | none => rfl
              | some item =>
                  show Option.bind (Option.bind (itemToIdxSparse getCurrentProcessGroup _ st1 item) _) _ = _
                  rw [itemToIdxSparse_null]
                  rfl

/-- The memory node refuses at once: it is in the mode of the backward search, which single blocks do
    not enter. -/
def Refuses (st : State) : Prop :=
  ∃ cur, getCurrentNodeNum (st.nodes (.phy nodeLvlNum)).dim = some cur ∧
    (st.nodes (.phy cur)).status = .backward

/-- The dispatch of the page: refused, or what the search of the lists gives. -/
theorem dispatchGroup_page (s : Searches) (st : State) (cur : Nat) :
    dispatchGroup { s with sparse := search } 2 st (.phy cur) 2 .movable 3 (nestedPara false) =
      if (st.nodes (.phy cur)).status = .backward then some (st, .errInvalidArgs, none)
      else (search st 2 .movable 3 (st.nodes (.phy cur)).dim false).bind fun q =>
        match q.2 with
        | some item => some (finalDispatch (q.1.setStatus (.phy cur) .forward) (.phy cur) 2 .movable 3
            (nestedPara false) item, .noError, some item)
        | none => some (q.1, if (st.nodes (.phy cur)).status = .onlyForward then .errNoMemory
            else .errInvalidArgs, none) := by
  show (if (st.nodes (.phy cur)).status = .backward then _ else
    (search st 2 .movable 3 (st.nodes (.phy cur)).dim false).bind _) = _
  split
  · rfl
  · cases search st 2 .movable 3 (st.nodes (.phy cur)).dim false with
    | none => rfl
    | some q =>
        obtain ⟨st1, item⟩ := q
        cases item with
        | some item => rfl
        | none =>
            show (if (st.nodes (.phy cur)).status = .onlyForward then _ else _) = _
            rw [Option.bind_some]
            dsimp only
            split <;> rfl

/-- **The page request fails where the memory node refuses, or where the search of its lists ends in
    NULL.** -/
theorem pageAlloc_cases (h : pageAlloc env search st nodeLvlNum = some r) :
    r.2.1 = errNoMemory ∧ (Refuses st ∧ r.1 = st ∨
      ∃ dim, search st 2 .movable 3 dim false = some (r.1, none)) := by
  rw [pageAlloc_eq, Option.bind_eq_some_iff] at h
  obtain ⟨cur, hcur, h⟩ := h
  rw [dispatchGroup_page, Option.bind_eq_some_iff] at h
  obtain ⟨q, hq, h⟩ := h
  split at h
  · rw [Option.some.injEq] at h
    subst h
    refine ⟨rfl, ?_⟩
    split at hq
    · next hst =>
        rw [Option.some.injEq] at hq
        subst hq
        exact .inl ⟨⟨cur, hcur, hst⟩, rfl⟩
    · obtain ⟨⟨st1, item⟩, hs, hq⟩ := Option.bind_eq_some_iff.mp hq
      cases item with
      | some item =>
          rw [Option.some.injEq] at hq
          subst hq
          next hret => exact absurd rfl hret
      | none =>
          rw [Option.some.injEq] at hq
          subst hq
          exact .inr ⟨_, hs⟩
  · cases h

theorem pageAlloc_refused (h : Refuses st) :
    pageAlloc env search st nodeLvlNum = some (st, errNoMemory, 0) := by
  obtain ⟨cur, hcur, hst⟩ := h
  rw [pageAlloc_eq, hcur, Option.bind_some, dispatchGroup_page, if_pos hst]
  rfl

end Page

/-! ## 3. A slot -/

section Slot

variable {env : ChainEnv} {calls calls' : PageCalls} {st st' st'' : State} {slice lvl : Nat} {item : Item}
  {group : Group} {mt : MigrationType} {node : NodeRef}

/-- The slab has neither a free nor an empty page. -/
def NoPages (st : State) (slice : Nat) : Prop :=
  st.counts (.sliceFree slice) = 0#64 ∧ st.counts (.sliceEmpty slice) = 0#64

/-- What a slot taken leaves: the lists of the groups gain nothing, the tree and the nodes are as they
    were. -/
structure Slotted (st st' : State) : Prop where
  linked : st.Linked → st'.Linked
  lists : ∀ g mt k, st'.lists (.groupCell g mt k) ⊆ st.lists (.groupCell g mt k)
  prev : ∀ i, (st'.items i).prev = (st.items i).prev
  nodes : st'.nodes = st.nodes
  tables : st'.tables = st.tables

theorem Slotted.refl (st : State) : Slotted st st :=
  ⟨id, fun _ _ _ => List.Subset.refl _, fun _ => rfl, rfl, rfl⟩

theorem Slotted.trans (h : Slotted st st') (h' : Slotted st' st'') : Slotted st st'' where
  linked hL := h'.linked (h.linked hL)
  lists g mt k := List.Subset.trans (h'.lists g mt k) (h.lists g mt k)
  prev i := (h'.prev i).trans (h.prev i)
  nodes := h'.nodes.trans h.nodes
  tables := h'.tables.trans h.tables

theorem movePage_linked {src dst : SliceStat} (hL : st.Linked)
    (h : movePage st slice item src dst = some st') : st'.Linked := by
  unfold movePage at h
  simp only [Option.bind_eq_bind, Option.bind_eq_some_iff] at h
  obtain ⟨st1, htake, h⟩ := h
  obtain ⟨st0, hdel, rfl⟩ := Option.map_eq_some_iff.mp htake
  have hL0 : (st.setStat item dst).Linked :=
    hL.congr rfl fun j => State.modItem_keeps _ j ItemStruct.onList rfl
  have hL1 := (hL0.listDel hdel).countDec (sliceList slice src)
  have hoff := (listDel_items hdel).2.1
  cases h
  have hput : ∀ {s : State}, s.Linked → (s.items item).onList = none →
      (putPage s (sliceList slice dst) item).Linked := fun h1 h2 => (h1.pushTail h2 _).countInc _
  split
  · refine hput (hL1.congr rfl fun j => State.modItem_keeps _ j ItemStruct.onList rfl) ?_
    rw [State.modItem_items, if_pos rfl]
    exact hoff
  · exact hput hL1 hoff

theorem movePage_slotted {src dst : SliceStat} (h : movePage st slice item src dst = some st') :
    Slotted st st' := by
  cases ho : (st.items item).onList with
  | none =>
      unfold movePage takePage listDel at h
      rw [State.setStat, State.modItem_items, if_pos rfl] at h
      simp only [ho] at h
      cases h
  | some cell =>
      obtain ⟨st1, hrun, hitems, hlists, -, htables, hnodes⟩ := movePage_of slice src dst ho
      rw [hrun, Option.some.injEq] at h
      subst h
      refine ⟨fun hL => movePage_linked hL hrun, fun g mt k => ?_, fun i => ?_, hnodes, htables⟩
      · have hne : ListHead.groupCell g mt k ≠ sliceList slice dst := by
          cases dst <;> exact ListHead.noConfusion
        rw [hlists, if_neg hne, List.append_nil]
        split
        · next e => rw [e]; exact List.erase_subset
        · exact List.Subset.refl _
      · rw [hitems]
        split
        · next e => rw [e]; rfl
        · rfl

theorem moveWhen_slotted {c : Bool} {src dst : SliceStat}
    (h : moveWhen c st slice item src dst = some st') : Slotted st st' := by
  unfold moveWhen at h
  split at h
  · exact movePage_slotted h
  · cases h
    exact Slotted.refl st

/-- **A slot of a page changes nothing the search looks at.** -/
theorem fillSlot_slotted {ret : Except Int Nat} (h : fillSlot st slice item = some (st', ret)) :
    Slotted st st' ∧ ∃ rangeBase, ret = .ok rangeBase := by
  unfold fillSlot at h
  obtain ⟨bsize, -, h⟩ := Option.bind_eq_some_iff.mp h
  have hclaim : Slotted st (claimSlot st item (fixedItemSize / bsize)).1 := by
    unfold claimSlot
    dsimp only
    split
    · exact ⟨fun hL => hL.congr rfl fun j => State.modItem_keeps _ j ItemStruct.onList rfl,
        fun _ _ _ => List.Subset.refl _, fun j => State.modItem_keeps _ j ItemStruct.prev rfl, rfl, rfl⟩
    · exact Slotted.refl st
  obtain ⟨st1, h1, h⟩ := Option.bind_eq_some_iff.mp h
  obtain ⟨st2, h2, h⟩ := Option.bind_eq_some_iff.mp h
  cases h
  exact ⟨(hclaim.trans (moveWhen_slotted h1)).trans (moveWhen_slotted h2), _, rfl⟩

/-- With a page of its own the slab asks for none. -/
theorem heapAlloc_pages (calls calls' : PageCalls) (h : ¬ NoPages st slice) :
    heapAlloc calls st slice = heapAlloc calls' st slice := by
  unfold heapAlloc
  by_cases hf : st.counts (.sliceFree slice) = 0#64
  · have he : st.counts (.sliceEmpty slice) ≠ 0#64 := fun he => h ⟨hf, he⟩
    rw [if_neg (fun hc => hc hf), if_pos he, if_neg (fun hc => hc hf), if_pos he]
  · rw [if_pos hf, if_pos hf]

/-- Then the slot is one of that page. -/
theorem heapAlloc_fills {ret : Except Int Nat} (hp : ¬ NoPages st slice)
    (h : heapAlloc calls st slice = some (st', ret)) :
    ∃ item, fillSlot st slice item = some (st', ret) := by
  unfold heapAlloc at h
  by_cases hf : st.counts (.sliceFree slice) = 0#64
  · have he : st.counts (.sliceEmpty slice) ≠ 0#64 := fun he => hp ⟨hf, he⟩
    rw [if_neg (fun hc => hc hf), if_pos he] at h
    obtain ⟨item, -, h⟩ := Option.bind_eq_some_iff.mp h
    exact ⟨item, h⟩
  · rw [if_pos hf] at h
    obtain ⟨item, -, h⟩ := Option.bind_eq_some_iff.mp h
    exact ⟨item, h⟩

/-- It hands out a slot, or faults. -/
theorem heapAlloc_slot {ret : Except Int Nat} (hp : ¬ NoPages st slice)
    (h : heapAlloc calls st slice = some (st', ret)) :
    Slotted st st' ∧ ∃ rangeBase, ret = .ok rangeBase := by
  obtain ⟨item, hfill⟩ := heapAlloc_fills hp h
  exact fillSlot_slotted hfill

/-- Without one it asks the memory node. -/
theorem heapAlloc_noPages (hp : NoPages st slice) :
    heapAlloc calls st slice = (calls.alloc st nodeLvlNum).bind fun q =>
      if q.2.1 ≠ noError then some (q.1, .error errNoMemory)
      else (rangeToItem q.1 q.2.2 dimMemory).bind fun item =>
        fillSlot (putPage ((initItem q.1 item).modItem item fun x =>
          { x with sliceHead := some slice, sliceStat := .empty }) (.sliceFree slice) item) slice item := by
  unfold heapAlloc
  rw [if_neg (fun hc => hc hp.1), if_neg (fun hc => hc hp.2)]
  rfl

/-- What a new array from an own page leaves to the searches: their lists gain nothing, what they look
    at of the items and of the nodes is as it was. -/
structure Rooted (st st' : State) : Prop where
  linked : st'.Linked
  lists : ∀ g mt k, k < maxItemRange → st'.lists (.groupCell g mt k) ⊆ st.lists (.groupCell g mt k)
  prev : ∀ g mt k, k < maxItemRange → ∀ i ∈ st'.lists (.groupCell g mt k),
    (st'.items i).prev = (st.items i).prev
  nodes : ∀ n, (st'.nodes n).status = (st.nodes n).status ∧ (st'.nodes n).dim = (st.nodes n).dim

/-- A descriptor off the lists, initialised and put on the list of order 8. -/
theorem rooted_of_slot {s : State} {j : Item} (hL : st.Linked) (hS : Slotted st st')
    (hoff : (st'.items j).onList = none) (hl : s.lists = st'.lists)
    (hi : s.items = (initItem st' j).items)
    (hn : ∀ n, (s.nodes n).status = (st'.nodes n).status ∧ (s.nodes n).dim = (st'.nodes n).dim) :
    Rooted st ((s.pushTail (.groupCell group mt maxItemRange) j).countInc
      (.groupCell group mt maxItemRange)) := by
  have hL' := hS.linked hL
  have hitems : ∀ i, i ≠ j → s.items i = st'.items i := fun i hne => by
    rw [hi]
    unfold initItem
    rw [State.modItem_items, if_neg hne]
  have hsoff : (s.items j).onList = none := by
    rw [hi]
    unfold initItem
    rw [State.modItem_items, if_pos rfl]
  have hsL : s.Linked := hL'.congr hl fun i => by
    by_cases h : i = j
    · rw [h, hsoff, hoff]
    · rw [hitems i h]
  have hlists : ∀ g mt' k, k < maxItemRange →
      ((s.pushTail (.groupCell group mt maxItemRange) j).countInc
        (.groupCell group mt maxItemRange)).lists (.groupCell g mt' k) =
          st'.lists (.groupCell g mt' k) := fun g mt' k hk => by
    rw [State.countInc_lists, State.pushTail_lists, if_neg, hl]
    intro e
    injection e with _ _ e
    omega
  refine ⟨(hsL.pushTail hsoff _).countInc _, fun g mt' k hk => ?_, fun g mt' k hk i him => ?_,
    fun n => ?_⟩
  · rw [hlists g mt' k hk]
    exact hS.lists g mt' k
  · rw [hlists g mt' k hk] at him
    have hne : i ≠ j := hL'.ne_of_mem hoff him
    rw [State.countInc_items, State.pushTail_items, if_neg hne, hitems i hne]
    exact hS.prev i
  · rw [← hS.nodes]
    exact hn n

/-- **A new root from an own page.** -/
theorem arrayRoot_rooted (hL : st.Linked) (hp : ¬ NoPages st (env.slice (st.tables.groupNode group)))
    {root : Option Item} (h : arrayRoot env calls st group lvl mt = some (st', root)) :
    Rooted st st' ∧ root.isSome := by
  unfold arrayRoot at h
  obtain ⟨⟨st1, item⟩, hslice, h⟩ := Option.bind_eq_some_iff.mp h
  unfold arraySlice at hslice
  obtain ⟨⟨st0, ret⟩, hheap, hslice⟩ := Option.bind_eq_some_iff.mp hslice
  obtain ⟨hS, rangeBase, rfl⟩ := heapAlloc_slot hp hheap
  obtain ⟨st2, hinit, hslice⟩ := Option.bind_eq_some_iff.mp hslice
  unfold initArray at hinit
  split at hinit
  · next hoff =>
      rw [Option.some.injEq] at hinit
      subst hinit
      split at hslice
      · cases hslice
        cases h
        refine ⟨rooted_of_slot hL hS hoff rfl rfl fun n => ?_, rfl⟩
        dsimp only
        by_cases hn : n = st.tables.groupNode group
        · rw [hn, Function.update_self]
          exact ⟨rfl, rfl⟩
        · rw [Function.update_of_ne hn]
          exact ⟨rfl, rfl⟩
      · cases hslice
        cases h
        exact ⟨rooted_of_slot hL hS hoff rfl rfl fun n => ⟨rfl, rfl⟩, rfl⟩
  · cases hinit

/-- Without a page the root is NULL where the page request fails, and there is none else. -/
theorem arrayRoot_noPages (hp : NoPages st (env.slice (st.tables.groupNode group)))
    (hcalls : ∀ r, calls.alloc st nodeLvlNum = some r → r.2.1 = errNoMemory) :
    arrayRoot env calls st group lvl mt = (calls.alloc st nodeLvlNum).map fun r => (r.1, none) := by
  unfold arrayRoot arraySlice
  rw [heapAlloc_noPages hp]
  cases hc : calls.alloc st nodeLvlNum with
  | none => rfl
  | some r =>
      have hr := hcalls r hc
      rw [Option.bind_some, if_pos (by rw [hr]; decide)]
      rfl

end Slot

/-! ## 4. The searches -/

/-- The lists a request looks at, from its level up to level 0, hold nothing it takes. -/
def Barren (st : State) (cur lvl order : Nat) : Prop :=
  ∀ level ≤ lvl, ∀ k, (if level = lvl then order else 0) ≤ k → k < maxItemRange →
    ∀ i ∈ st.lists (.groupCell (.phy cur level) .movable k),
      ¬ Eligible st .movable (level != lvl) k i

section Search

variable {st st' : State} {pg : ProcessGroup} {cur lvl dim order : Nat} {group : Group}

theorem remove_movable_none {isTable : Bool} :
    removeGroupMigration st group lvl order .movable isTable = some (st', none) ↔
      st' = st ∧ ∀ k, order ≤ k → k < maxItemRange → ∀ i ∈ st.lists (.groupCell group .movable k),
        ¬ Eligible st .movable isTable k i := by
  have hnone : searchOrders st group .movable isTable (maxItemRange - order) order = none ↔
      ∀ k, order ≤ k → k < maxItemRange → ∀ i ∈ st.lists (.groupCell group .movable k),
        ¬ Eligible st .movable isTable k i := by
    rw [searchOrders_eq_none]
    refine ⟨fun h k h1 h2 => searchList_eq_none.mp (h k h1 (by omega)), fun h k h1 h2 =>
      searchList_eq_none.mpr (h k h1 (by omega))⟩
  have hm : maxOrderOf st (st.nodeOf group).dim lvl .movable = some maxItemRange := rfl
  rw [← hnone]
  unfold removeGroupMigration
  rw [hm, Option.bind_eq_bind, Option.bind_some]
  cases searchOrders st group .movable isTable (maxItemRange - order) order with
  | none => exact ⟨fun h => by cases h; exact ⟨rfl, rfl⟩, fun h => by rw [h.1]; rfl⟩
  | some found =>
      obtain ⟨oi, item⟩ := found
      refine ⟨fun h => ?_, fun h => by cases h.2⟩
      dsimp only at h
      rw [if_neg fun hc => hc.1 rfl] at h
      obtain ⟨st1, -, h⟩ := Option.bind_eq_some_iff.mp h
      cases h

/-- A level that has something ends the search there. -/
theorem searchLevels_taken {level oi : Nat} (hg : sparseGroup pg dim false level = some group)
    (hb : ¬ ∀ k, oi ≤ k → k < maxItemRange → ∀ i ∈ st.lists (.groupCell group .movable k),
      ¬ Eligible st .movable (level != lvl) k i) :
    searchLevels pg .movable dim false lvl level st oi ≠ some (st', none) := by
  intro h
  obtain ⟨group', hg', ⟨item, hf, -⟩ | ⟨st1, hr, -⟩⟩ := searchLevels_cases h
  · cases hf
  · obtain rfl := Option.some.inj (hg.symm.trans hg')
    exact hb (remove_movable_none.mp hr).2

theorem sparseGroup_phy (hcur : getCurrentNodeNum dim = some cur) (level : Nat) :
    sparseGroup pg dim false level = some (.phy cur level) := by
  unfold sparseGroup
  rw [hcur]
  rfl

/-- The search from a level up ends in NULL where neither it nor the coarser ones have anything. -/
theorem searchLevels_none_iff (hcur : getCurrentNodeNum dim = some cur) (level oi : Nat) :
    searchLevels pg .movable dim false lvl level st oi = some (st', none) ↔
      st' = st ∧ (∀ k, oi ≤ k → k < maxItemRange →
        ∀ i ∈ st.lists (.groupCell (.phy cur level) .movable k),
          ¬ Eligible st .movable (level != lvl) k i) ∧
      ∀ l < level, ∀ k < maxItemRange, ∀ i ∈ st.lists (.groupCell (.phy cur l) .movable k),
        ¬ Eligible st .movable (l != lvl) k i := by
  have hgroup := @sparseGroup_phy pg cur dim hcur
  induction level generalizing oi with
  | zero =>
      by_cases hb : ∀ k, oi ≤ k → k < maxItemRange →
          ∀ i ∈ st.lists (.groupCell (.phy cur 0) .movable k), ¬ Eligible st .movable (0 != lvl) k i
      · have hr := (@remove_movable_none st st 0 oi (.phy cur 0) (0 != lvl)).mpr ⟨rfl, hb⟩
        unfold searchLevels
        rw [hgroup 0, Option.bind_eq_bind, Option.bind_some, hr]
        refine ⟨fun h => ?_, fun h => by rw [h.1]; rfl⟩
        cases h
        exact ⟨rfl, hb, fun l hl => absurd hl (Nat.not_lt_zero l)⟩
      · exact iff_of_false (searchLevels_taken (hgroup 0) hb) fun h => hb h.2.1
  | succ level ih =>
      by_cases hb : ∀ k, oi ≤ k → k < maxItemRange →
          ∀ i ∈ st.lists (.groupCell (.phy cur (level + 1)) .movable k),
            ¬ Eligible st .movable (level + 1 != lvl) k i
      · have hr := (@remove_movable_none st st (level + 1) oi (.phy cur (level + 1))
          (level + 1 != lvl)).mpr ⟨rfl, hb⟩
        unfold searchLevels
        rw [hgroup (level + 1), Option.bind_eq_bind, Option.bind_some, hr, Option.bind_eq_bind,
          Option.bind_some]
        refine (ih 0).trans (and_congr_right fun _ => ⟨fun h => ⟨hb, fun l hl => ?_⟩, fun h =>
          ⟨fun k _ => h.2 level (Nat.lt_succ_self level) k, fun l hl => h.2 l (by omega)⟩⟩)
        rcases Nat.eq_or_lt_of_le (Nat.le_of_lt_succ hl) with rfl | hlt
        · exact fun k hk => h.1 k (Nat.zero_le k) hk
        · exact h.2 l hlt
      · exact iff_of_false (searchLevels_taken (hgroup (level + 1)) hb) fun h => hb h.2.1

/-- **The search ends in NULL exactly on barren lists.** -/
theorem searchLevels_barren (hcur : getCurrentNodeNum dim = some cur) :
    searchLevels pg .movable dim false lvl lvl st order = some (st', none) ↔
      st' = st ∧ Barren st cur lvl order := by
  rw [searchLevels_none_iff hcur]
  refine and_congr_right fun _ => ⟨fun h level hl k h1 h2 => ?_, fun h =>
    ⟨fun k h1 h2 => ?_, fun l hl k hk => ?_⟩⟩
  · rcases Nat.eq_or_lt_of_le hl with rfl | hlt
    · rw [if_pos rfl] at h1
      exact h.1 k h1 h2
    · exact h.2 level hlt k h2
  · exact h lvl (Nat.le_refl lvl) k (by rw [if_pos rfl]; exact h1) h2
  · exact h l (Nat.le_of_lt hl) k (by rw [if_neg (Nat.ne_of_lt hl)]; exact Nat.zero_le k) hk

/-- **Barren lists stay barren**: a new root is on none of them. -/
theorem Barren.rooted (hB : Barren st cur lvl order) (h : Rooted st st') : Barren st' cur lvl order := by
  intro level hl k h1 h2 i hi he
  refine hB level hl k h1 h2 i (h.lists _ _ k h2 hi) fun hmt hk => ?_
  rw [← h.prev _ _ k h2 i hi]
  exact he hmt hk

theorem Refuses.rooted (h : Rooted st st') : Refuses st' ↔ Refuses st := by
  unfold Refuses
  simp only [h.nodes]

end Search

/-! ## 5. When a request comes to an end -/

/-- The pages the slab of a group's node has run out: it then has neither a free nor an empty one. -/
inductive RunsDry (env : ChainEnv) (group : Group) : State → Prop where
  | dry {st : State} (h : NoPages st (env.slice (st.tables.groupNode group))) : RunsDry env group st
  | array {st st' : State} {root : Item} (hp : ¬ NoPages st (env.slice (st.tables.groupNode group)))
      (h : arrayRoot env ⟨fun _ _ => none, fun _ _ _ => none⟩ st group maxGroupLvls .movable =
        some (st', some root)) (hrest : RunsDry env group st') : RunsDry env group st

/-- The lists of the level asked for have a block, and the tables above it can be charged: those that
    start with the word at its rounded address. -/
def LevelBlock (env : ChainEnv) (st : State) (cur lvl order dim : Nat) : Prop :=
  ∃ st1 item, removeGroupMigration st (.phy cur lvl) lvl order .movable false = some (st1, some item) ∧
    (enterTable env.itemarrayPrev getCurrentProcessGroup st1 item lvl order .movable dim false).isSome

section Ends

variable {env : ChainEnv} {st st' : State} {cur lvl dim order depth : Nat} {item : Option Item}

/-- With a page of its own the slab makes no page request. -/
theorem arrayRoot_pages {group : Group} {mt : MigrationType} (calls calls' : PageCalls)
    (hp : ¬ NoPages st (env.slice (st.tables.groupNode group))) :
    arrayRoot env calls st group lvl mt = arrayRoot env calls' st group lvl mt := by
  unfold arrayRoot arraySlice
  rw [heapAlloc_pages calls calls' hp]

/-- From an own page there is a root. -/
theorem arrayRoot_some {calls : PageCalls} {group : Group} {mt : MigrationType} {root : Option Item}
    (hp : ¬ NoPages st (env.slice (st.tables.groupNode group)))
    (h : arrayRoot env calls st group lvl mt = some (st', root)) : ∃ item, root = some item := by
  obtain ⟨⟨st1, found⟩, hslice, h⟩ := Option.bind_eq_some_iff.mp h
  obtain ⟨⟨st0, ret⟩, hheap, hslice⟩ := Option.bind_eq_some_iff.mp hslice
  obtain ⟨-, rangeBase, rfl⟩ := heapAlloc_slot hp hheap
  obtain ⟨st2, -, hslice⟩ := Option.bind_eq_some_iff.mp hslice
  split at hslice <;> cases hslice <;> cases h <;> exact ⟨_, rfl⟩

/-- **One call of the cycle**: a block of the level asked for, entered in its tables. Or nothing is found:
    then NULL where the slab has no page, for the memory node refuses one or its own search ends in NULL;
    else the self-call, behind the new root. -/
theorem allocChain_cases {mt : MigrationType} {isVirtual : Bool}
    (h : allocChain env (depth + 1) st lvl mt order dim isVirtual = some (st', item)) :
    (∃ st1 i, item = some i ∧
        searchLevels getCurrentProcessGroup mt dim isVirtual lvl lvl st order =
          some (st1, some (lvl, i)) ∧
        enterTable env.itemarrayPrev getCurrentProcessGroup st1 i lvl order mt dim isVirtual = some st') ∨
    ∃ st1 group,
      searchLevels getCurrentProcessGroup mt dim isVirtual lvl lvl st order = some (st1, none) ∧
      sparseGroup getCurrentProcessGroup dim isVirtual 0 = some group ∧
      (NoPages st1 (env.slice (st1.tables.groupNode group)) ∧ item = none ∧
          (Refuses st1 ∧ st' = st1 ∨
            ∃ dim', allocChain env depth st1 2 .movable 3 dim' false = some (st', none)) ∨
        ¬ NoPages st1 (env.slice (st1.tables.groupNode group)) ∧ ∃ st2 root,
          arrayRoot env (pageCalls env (allocChain env depth)) st1 group maxGroupLvls mt =
            some (st2, some root) ∧
          allocChain env depth st2 lvl mt order dim isVirtual = some (st', item)) := by
  simp only [allocChain, sparseBody, Option.bind_eq_bind, Option.bind_eq_some_iff] at h
  obtain ⟨⟨st1, block⟩, hs, h⟩ := h
  cases block with
  | some block =>
      obtain ⟨level, i⟩ := block
      dsimp only at h
      split at h
      · next e =>
          subst e
          obtain ⟨st2, h2, he⟩ := Option.map_eq_some_iff.mp h
          cases he
          exact .inl ⟨st1, i, rfl, hs, h2⟩
      · cases h
  | none =>
      obtain ⟨group, hg, h⟩ := Option.bind_eq_some_iff.mp h
      obtain ⟨⟨st2, root⟩, hroot, h⟩ := Option.bind_eq_some_iff.mp h
      refine .inr ⟨st1, group, hs, hg, ?_⟩
      by_cases hp : NoPages st1 (env.slice (st1.tables.groupNode group))
      · rw [arrayRoot_noPages hp fun r hr => (pageAlloc_cases hr).1, Option.map_eq_some_iff] at hroot
        obtain ⟨r, hr, he⟩ := hroot
        cases he
        cases h
        exact .inl ⟨hp, rfl, (pageAlloc_cases hr).2⟩
      · obtain ⟨root, rfl⟩ := arrayRoot_some hp hroot
        exact .inr ⟨hp, st2, root, hroot, h⟩

/-- A block found above the level asked for was not found on it. -/
theorem searchLevels_level {pg : ProcessGroup} {mt : MigrationType} {isVirtual : Bool}
    {level oi l : Nat} {i : Item}
    (h : searchLevels pg mt dim isVirtual lvl level st oi = some (st', some (l, i))) :
    l ≤ level ∧ (l = level → ∃ group, sparseGroup pg dim isVirtual level = some group ∧
      removeGroupMigration st group level oi mt (level != lvl) = some (st', some i)) := by
  induction level using Nat.strong_induction_on generalizing st oi with
  | h level ih =>
      obtain ⟨group, hg, ⟨item, hf, hr⟩ | ⟨st1, -, ⟨-, hf, -⟩ | ⟨level, rfl, hs⟩⟩⟩ :=
        searchLevels_cases h
      · obtain ⟨rfl, rfl⟩ := Prod.mk.inj (Option.some.inj hf)
        exact ⟨Nat.le_refl _, fun _ => ⟨group, hg, hr⟩⟩
      · cases hf
      · have hle := (ih level (Nat.lt_succ_self level) hs).1
        exact ⟨by omega, fun e => by omega⟩

/-- What a call does on barren lists. -/
theorem sparseBody_barren (search : SparseSearch) (hcur : getCurrentNodeNum dim = some cur)
    (hB : Barren st cur lvl order) :
    sparseBody env search st lvl .movable order dim false =
      (arrayRoot env (pageCalls env search) st (.phy cur 0) maxGroupLvls .movable).bind fun q =>
        match q.2 with
        | none => some (q.1, none)
        | some _ => search q.1 lvl .movable order dim false := by
  have hs : searchLevels getCurrentProcessGroup .movable dim false lvl lvl st order = some (st, none) :=
    (searchLevels_barren hcur).mpr ⟨rfl, hB⟩
  unfold sparseBody
  simp only [hs, sparseGroup_phy hcur, Option.bind_eq_bind, Option.bind_some, Option.pure_def]

/-- **NULL comes from the memory node**: from its refusal of a page, however deep the request for it. -/
theorem allocChain_null {isVirtual : Bool} (hL : st.Linked)
    (h : allocChain env depth st lvl .movable order dim isVirtual = some (st', none)) : Refuses st := by
  induction depth generalizing st st' lvl order dim isVirtual with
  | zero => cases h
  | succ depth ih =>
      rcases allocChain_cases h with ⟨st1, i, hi, -⟩ | ⟨st1, group, hs, -, hend⟩
      · cases hi
      · obtain rfl := searchLevels_none hs
        rcases hend with ⟨-, -, ⟨href, -⟩ | ⟨dim', hdeep⟩⟩ | ⟨hp, st2, root, hroot, hself⟩
        · exact href
        · exact ih hL hdeep
        · obtain ⟨hR, -⟩ := arrayRoot_rooted hL hp hroot
          exact (Refuses.rooted hR).mp (ih hR.linked hself)

/-- **On barren lists a request never gets a block**, and ends only once the slab has run dry. -/
theorem allocChain_barren (hcur : getCurrentNodeNum dim = some cur) (hL : st.Linked)
    (hB : Barren st cur lvl order)
    (h : allocChain env depth st lvl .movable order dim false = some (st', item)) :
    item = none ∧ RunsDry env (.phy cur 0) st := by
  induction depth generalizing st with
  | zero => cases h
  | succ depth ih =>
      have hempty : searchLevels getCurrentProcessGroup .movable dim false lvl lvl st order =
          some (st, none) := (searchLevels_barren hcur).mpr ⟨rfl, hB⟩
      rcases allocChain_cases h with ⟨st1, i, -, hs, -⟩ | ⟨st1, group, hs, hg, hend⟩
      · rw [hempty] at hs
        cases hs
      · rw [hempty] at hs
        cases hs
        rw [sparseGroup_phy hcur, Option.some.injEq] at hg
        subst hg
        rcases hend with ⟨hp, hnone, -⟩ | ⟨hp, st2, root, hroot, hself⟩
        · exact ⟨hnone, .dry hp⟩
        · obtain ⟨hR, -⟩ := arrayRoot_rooted hL hp hroot
          obtain ⟨hnone, hdry⟩ := ih hR.linked (hB.rooted hR) hself
          exact ⟨hnone, .array hp ((arrayRoot_pages _ _ hp).symm.trans hroot) hdry⟩

/-- **A block comes from the lists of its own level**, taken by the first search. -/
theorem allocChain_own (hcur : getCurrentNodeNum dim = some cur) (hL : st.Linked) {i : Item}
    (h : allocChain env depth st lvl .movable order dim false = some (st', some i)) :
    ∃ st1, removeGroupMigration st (.phy cur lvl) lvl order .movable false = some (st1, some i) ∧
      enterTable env.itemarrayPrev getCurrentProcessGroup st1 i lvl order .movable dim false =
        some st' := by
  cases depth with
  | zero => cases h
  | succ depth =>
      rcases allocChain_cases h with ⟨st1, j, hj, hs, henter⟩ | ⟨st1, group, hs, -, -⟩
      · obtain rfl := Option.some.inj hj
        obtain ⟨group, hg, hr⟩ := (searchLevels_level hs).2 rfl
        rw [sparseGroup_phy hcur, Option.some.injEq] at hg
        subst hg
        rw [bne_self_eq_false] at hr
        exact ⟨st1, hr, henter⟩
      · obtain ⟨rfl, hB⟩ := (searchLevels_barren hcur).mp hs
        cases (allocChain_barren hcur hL hB h).1

/-- Where the memory node refuses and the slab runs dry, it ends. -/
theorem RunsDry.returns (hcur : getCurrentNodeNum dim = some cur) (hL : st.Linked)
    (hB : Barren st cur lvl order) (href : Refuses st) (hdry : RunsDry env (.phy cur 0) st) :
    Returns env st lvl order dim false := by
  induction hdry with
  | @dry st hp =>
      have hr : (pageCalls env (allocChain env 0)).alloc st nodeLvlNum = some (st, errNoMemory, 0) :=
        pageAlloc_refused href
      have hcalls : ∀ r, (pageCalls env (allocChain env 0)).alloc st nodeLvlNum = some r →
          r.2.1 = errNoMemory := fun r h => (pageAlloc_cases h).1
      refine ⟨1, (st, none), ?_⟩
      rw [allocChain, sparseBody_barren _ hcur hB, arrayRoot_noPages hp hcalls, hr]
      rfl
  | @array st st2 root hp hroot hrest ih =>
      obtain ⟨hR, -⟩ := arrayRoot_rooted hL hp hroot
      obtain ⟨depth, r, hr⟩ := ih hR.linked (hB.rooted hR) ((Refuses.rooted hR).mpr href)
      refine ⟨depth + 1, r, ?_⟩
      rw [allocChain, sparseBody_barren _ hcur hB, arrayRoot_pages _ _ hp, hroot]
      exact hr

/-- **When it ends in NULL**: barren lists, the memory node refuses, the slab runs dry. -/
theorem allocChain_null_iff (hcur : getCurrentNodeNum dim = some cur) (hL : st.Linked) :
    (∃ depth st', allocChain env depth st lvl .movable order dim false = some (st', none)) ↔
      Barren st cur lvl order ∧ Refuses st ∧ RunsDry env (.phy cur 0) st := by
  constructor
  · rintro ⟨depth, st', h⟩
    cases depth with
    | zero => cases h
    | succ depth =>
        rcases allocChain_cases h with ⟨st1, i, hi, -⟩ | ⟨st1, group, hs, -, -⟩
        · cases hi
        · obtain ⟨rfl, hB⟩ := (searchLevels_barren hcur).mp hs
          exact ⟨hB, allocChain_null hL h, (allocChain_barren hcur hL hB h).2⟩
  · rintro ⟨hB, href, hdry⟩
    obtain ⟨depth, ⟨st', item⟩, hr⟩ := hdry.returns hcur hL hB href
    obtain ⟨rfl, -⟩ := allocChain_barren hcur hL hB hr
    exact ⟨depth, st', hr⟩

/-- A block on the lists of its own level is what a request returns. -/
theorem LevelBlock.returns (hcur : getCurrentNodeNum dim = some cur)
    (h : LevelBlock env st cur lvl order dim) : Returns env st lvl order dim false := by
  obtain ⟨st1, item, hr, hsome⟩ := h
  obtain ⟨st2, h2⟩ := Option.isSome_iff_exists.mp hsome
  refine ⟨1, (st2, some item), ?_⟩
  have hs : searchLevels getCurrentProcessGroup .movable dim false lvl lvl st order =
      some (st1, some (lvl, item)) := by
    unfold searchLevels
    rw [sparseGroup_phy hcur, bne_self_eq_false]
    simp only [Option.bind_eq_bind, Option.bind_some, hr, Option.pure_def]
  rw [allocChain, sparseBody, hs]
  show (if lvl = lvl then (enterTable env.itemarrayPrev getCurrentProcessGroup st1 item lvl order .movable
    dim false).map _ else none) = _
  rw [if_pos rfl, h2]
  rfl

end Ends

/-- **When a request ends**: a physical one whose level has a block, or one on barren lists where the
    memory node refuses pages and the slab runs dry. -/
theorem allocChain_returns_iff (env : ChainEnv) (st : State) (lvl order dim : Nat) (isVirtual : Bool)
    (hL : st.Linked) :
    Returns env st lvl order dim isVirtual ↔ isVirtual = false ∧
      ∃ cur, getCurrentNodeNum dim = some cur ∧ (LevelBlock env st cur lvl order dim ∨
        Barren st cur lvl order ∧ Refuses st ∧ RunsDry env (.phy cur 0) st) := by
  constructor
  · rintro ⟨depth, ⟨st', item⟩, h⟩
    cases depth with
    | zero => cases h
    | succ depth =>
        -- a virtual group is a member of the process group, NULL
        have hphy : isVirtual = false ∧ ∃ cur, getCurrentNodeNum dim = some cur := by
          obtain ⟨r, hs⟩ : ∃ r, searchLevels getCurrentProcessGroup .movable dim isVirtual lvl lvl st
              order = some r := by
            rcases allocChain_cases h with ⟨st1, i, -, hs, -⟩ | ⟨st1, group, hs, -, -⟩
            · exact ⟨_, hs⟩
            · exact ⟨_, hs⟩
          obtain ⟨group, hg, -⟩ := searchLevels_cases hs
          unfold sparseGroup at hg
          cases isVirtual with
          | true =>
              obtain ⟨nu, -, hv⟩ := Option.bind_eq_some_iff.mp hg
              cases hv
          | false =>
              obtain ⟨cur, hcur, -⟩ := Option.map_eq_some_iff.mp hg
              exact ⟨rfl, cur, hcur⟩
        obtain ⟨rfl, cur, hcur⟩ := hphy
        refine ⟨rfl, cur, hcur, ?_⟩
        cases item with
        | some i =>
            obtain ⟨st2, hr, he⟩ := allocChain_own hcur hL h
            exact .inl ⟨st2, i, hr, Option.isSome_iff_exists.mpr ⟨st', he⟩⟩
        | none => exact .inr ((allocChain_null_iff hcur hL).mp ⟨depth + 1, st', h⟩)
  · rintro ⟨rfl, cur, hcur, hown | ⟨hB, href, hdry⟩⟩
    · exact hown.returns hcur
    · exact hdry.returns hcur hL hB href

/-! ## 5. With a given slab -/

section Given

variable {env : ChainEnv} {streamEnv : StreamEnv} {calls : PageCalls} {st st' : State} {group : Group}
  {mt : MigrationType} {lvl order dim depth : Nat} {isVirtual : Bool}

/-- The slots of a node's own pages, as `newGroupSlice` takes them. -/
def ChainEnv.sliceAlloc (env : ChainEnv) (st : State) (node : NodeRef) : Option (State × Item) := do
  let (st, ret) ← heapAlloc ⟨fun _ _ => none, fun _ _ _ => none⟩ st (env.slice node)
  match ret with
  | .error _ => none
  | .ok rangeBase => pure (st, env.transform rangeBase)

/-- A new root from an own page is the one of `newGroupRoot`. -/
theorem newGroupRoot_pages {root : Item} (hslice : streamEnv.sliceAlloc = env.sliceAlloc)
    (hp : ¬ NoPages st (env.slice (st.tables.groupNode group)))
    (h : arrayRoot env calls st group lvl mt = some (st', some root)) :
    newGroupRoot streamEnv st group lvl mt = some (st', root) := by
  unfold arrayRoot arraySlice at h
  obtain ⟨⟨st1, item⟩, hitem, h⟩ := Option.bind_eq_some_iff.mp h
  obtain ⟨⟨st2, ret⟩, hheap, hitem⟩ := Option.bind_eq_some_iff.mp hitem
  obtain ⟨-, rangeBase, rfl⟩ := heapAlloc_slot hp hheap
  obtain ⟨st3, hinit, hitem⟩ := Option.bind_eq_some_iff.mp hitem
  unfold initArray at hinit
  split at hinit
  · cases hinit
    unfold newGroupRoot newGroupSlice
    rw [hslice]
    unfold ChainEnv.sliceAlloc
    rw [← heapAlloc_pages calls _ hp, hheap]
    dsimp only [Option.bind_eq_bind, Option.bind_some, Option.pure_def]
    split at hitem
    · next hroot =>
        cases hitem
        cases h
        rw [if_pos hroot]
        rfl
    · next hroot =>
        cases hitem
        cases h
        rw [if_neg hroot]
        rfl
  · cases hinit

/-- Without a page there is no root. -/
theorem newGroupRoot_noPages (hslice : streamEnv.sliceAlloc = env.sliceAlloc)
    (hp : NoPages st (env.slice (st.tables.groupNode group))) :
    newGroupRoot streamEnv st group lvl mt = none := by
  unfold newGroupRoot newGroupSlice
  rw [hslice]
  unfold ChainEnv.sliceAlloc
  rw [heapAlloc_noPages hp]
  rfl

/-- **Where the cycle ends, the search over the node's own pages ends alike.** -/
theorem allocChain_forward (hpg : streamEnv.pg = getCurrentProcessGroup)
    (hprev : streamEnv.itemarrayPrev = env.itemarrayPrev)
    (hslice : streamEnv.sliceAlloc = env.sliceAlloc) {found : Option Item}
    (h : allocChain env depth st lvl mt order dim isVirtual = some (st', found)) :
    ∃ st1, forwardRemoveGroupSparse streamEnv depth st lvl mt order dim isVirtual = some (st1, found) ∧
      (found.isSome → st1 = st') := by
  induction depth generalizing st with
  | zero => cases h
  | succ depth ih =>
      rw [forwardRemoveGroupSparse, hpg, hprev]
      rcases allocChain_cases h with ⟨st1, i, rfl, hs, henter⟩ | ⟨st1, group, hs, hg, hend⟩
      · rw [hs, Option.bind_eq_bind, Option.bind_some]
        dsimp only
        rw [if_pos rfl, henter]
        exact ⟨st', rfl, fun _ => rfl⟩
      · rw [hs, Option.bind_eq_bind, Option.bind_some]
        dsimp only
        rw [hg, Option.bind_eq_bind, Option.bind_some]
        rcases hend with ⟨hp, rfl, -⟩ | ⟨hp, st2, root, hroot, hself⟩
        · rw [newGroupRoot_noPages hslice hp]
          exact ⟨st1, rfl, fun h => by cases h⟩
        · rw [newGroupRoot_pages hslice hp hroot]
          exact ih hself

end Given

/-- An empty slab, its arrays where their ranges are. -/
def emptySlab : ChainEnv where
  slice _ := 0
  transform rangeBase := rangeBase
  itemarrayPrev := itemarrayPrevAt 0#64
  reading := .written
  fuel := 0
  searches := noSearch

/-- Empty lists; the first memory node has that status. -/
def noBlocks (status : GroupStatus) : State :=
  { zeroed with
    nodes := fun r =>
      if r = .phy nodeLvlNum then { zeroed.nodes r with dim := dimMemory, status := status }
      else zeroed.nodes r }

theorem noBlocks_linked (status : GroupStatus) : (noBlocks status).Linked :=
  zeroed_linked.congr rfl fun _ => rfl

theorem noBlocks_barren (status : GroupStatus) (cur lvl order : Nat) :
    Barren (noBlocks status) cur lvl order :=
  fun _ _ _ _ _ _ hi => (List.not_mem_nil hi).elim

/-- While the memory node lends, the request is refused. -/
theorem noBlocks_refused : Returns emptySlab (noBlocks .backward) 3 0 dimTime false :=
  (allocChain_returns_iff emptySlab (noBlocks .backward) 3 0 dimTime false (noBlocks_linked _)).mpr
    ⟨rfl, 0, rfl, .inr ⟨noBlocks_barren _ 0 3 0, ⟨nodeLvlNum, rfl, rfl⟩, .dry ⟨rfl, rfl⟩⟩⟩

/-- While it is idle, every page request comes back to the search it was made for. -/
theorem noBlocks_endless : ¬ Returns emptySlab (noBlocks .idle) 3 0 dimTime false := by
  rintro ⟨depth, ⟨st', item⟩, h⟩
  obtain ⟨rfl, -⟩ := allocChain_barren rfl (noBlocks_linked _) (noBlocks_barren _ 0 3 0) h
  obtain ⟨cur, hcur, hst⟩ := allocChain_null (noBlocks_linked _) h
  obtain rfl : nodeLvlNum = cur := Option.some.inj hcur
  cases hst

end TensorAlloc
