/-
  File:      TensorAlloc/Slab.lean
  Subject:   The slab: `heap_alloc` and `heap_free` cut a page into slots of one size and keep the
             page on the free, the full or the empty list of the slice.

  * `ffs`, `findFirstBit`, `findFirstZeroBit` -- the bit searches of `types.h`, over the one word
    `slice_ref`; the search for a first bit gives 0 where slot 0 is OCCUPIED, and the number of
    slots where none is (`findFirstBit_eq_zero`);
  * `PageCalls` -- the node's own `alloc` and `free`, a parameter;
  * `HeapRun`, `SliceBook` -- runs of the slab from `__init_slice`, and what its lists should say;
  * `OnePage` -- what the lists say after the first page: it was put on the free list twice, so
    `free_count` stays one too high;
  * `heapFreeSlot_keeps_iff` -- when giving up a slot treats the page as it should.

  `set_bit` names `slice->ref`, which is no member: it is read as `item->slice_ref`.
-/
import TensorAlloc.Base.BitSearch
import TensorAlloc.Init

namespace TensorAlloc

open BitSearch

/-! ## 1. Bit searches -/

/-- `__ffs`. -/
def ffs (word : Word) : Nat := ([32, 16, 8, 4, 2, 1].foldl narrow ⟨word, 0⟩).num

def ffz (x : Word) : Nat := ffs (~~~x)

/-- `find_first_bit` over one word: `size` is at most `BITS_PER_LONG`. -/
def findFirstBit (addr : Word) (size : Nat) : Nat :=
  if size = 0 then size else if addr ≠ 0#64 then min (ffs addr) size else size

/-- `find_first_zero_bit` over one word. -/
def findFirstZeroBit (addr : Word) (size : Nat) : Nat :=
  if size = 0 then size else if addr ≠ ~~~0#64 then min (ffz addr) size else size

def setBit (nr : Nat) (addr : Word) : Word := addr ||| (1#64 <<< (nr % bitsPerLong))
def clearBit (nr : Nat) (addr : Word) : Word := addr &&& ~~~(1#64 <<< (nr % bitsPerLong))
def isSetBit (nr : Nat) (addr : Word) : Bool := addr &&& (1#64 <<< (nr % bitsPerLong)) != 0#64

/-- **`__ffs` finds the lowest one.** -/
theorem ffs_lowest {word : Word} (h : word ≠ 0#64) : Lowest word (ffs word) :=
  (((((((narrowed_start h).step (n := 32) rfl (by decide)).step (n := 16) rfl (by decide)).step
    (n := 8) rfl (by decide)).step (n := 4) rfl (by decide)).step (n := 2) rfl (by decide)).step
    (n := 1) rfl (by decide)).lowest

/-- **The search gives 0 exactly where bit 0 is set**: with no bit set it gives `size`. -/
theorem findFirstBit_eq_zero {addr : Word} {size : Nat} (hs : 0 < size) :
    findFirstBit addr size = 0 ↔ addr.getLsbD 0 = true := by
  unfold findFirstBit
  rw [if_neg hs.ne']
  by_cases h : addr = 0#64
  · rw [if_neg (not_not.mpr h), h, BitVec.getLsbD_zero]
    exact ⟨fun e => absurd e hs.ne', fun e => absurd e Bool.false_ne_true⟩
  · rw [if_pos h]
    have hlow := ffs_lowest h
    constructor
    · intro e
      have h0 : ffs addr = 0 := by omega
      rw [h0] at hlow
      exact hlow.one
    · intro h0
      rw [hlow.unique ⟨h0, fun j h => absurd h (Nat.not_lt_zero j)⟩]
      exact Nat.zero_min size

theorem getLsbD_one_shift {j nr : Nat} (hnr : nr < 64) :
    (1#64 <<< nr).getLsbD j = decide (j = nr) := by
  rw [BitVec.getLsbD_shiftLeft, BitVec.getLsbD_one]
  by_cases h : j = nr
  · simp [h, hnr]
  · by_cases hlt : j < nr
    · simp [hlt, h]
    · have : j - nr ≠ 0 := by omega
      simp [this, h]

theorem isSetBit_eq {nr : Nat} {addr : Word} (h : nr < 64) :
    isSetBit nr addr = addr.getLsbD nr := by
  have hmod : nr % bitsPerLong = nr := Nat.mod_eq_of_lt h
  unfold isSetBit
  rw [hmod]
  cases hb : addr.getLsbD nr with
  | true =>
      refine bne_iff_ne.mpr fun hz => ?_
      have hbit := congrArg (BitVec.getLsbD · nr) hz
      simp [getLsbD_one_shift h, hb] at hbit
  | false =>
      refine bne_eq_false_iff_eq.mpr (BitVec.eq_of_getLsbD_eq fun j hj => ?_)
      rw [BitVec.getLsbD_and, getLsbD_one_shift h, BitVec.getLsbD_zero]
      by_cases hjn : j = nr
      · rw [hjn, hb, Bool.false_and]
      · simp [hjn]

/-- Clearing a bit clears that one. -/
theorem getLsbD_clearBit {j nr : Nat} {addr : Word} (hj : j < 64) (h : nr < 64) :
    (clearBit nr addr).getLsbD j = (addr.getLsbD j && decide (j ≠ nr)) := by
  have hmod : nr % bitsPerLong = nr := Nat.mod_eq_of_lt h
  unfold clearBit
  rw [hmod, BitVec.getLsbD_and, BitVec.getLsbD_not, getLsbD_one_shift h]
  simp [hj]

/-! ## 2. The slab -/

/-- `NO_ERROR`, `ERR_NO_MEMORY`, `ERR_INVALID_ARGS`. -/
def noError : Int := 0
def errNoMemory : Int := -5
def errInvalidArgs : Int := -8

/-- The list a `slice_stat` names. -/
def sliceList (slice : Nat) : SliceStat → ListHead
  | .empty => .sliceEmpty slice
  | .free => .sliceFree slice
  | .full => .sliceFull slice

/-- `__init_slice`. -/
def initSlice (st : State) (slice bsize th : Nat) : State :=
  (st.resetLists fun
    | .sliceEmpty s | .sliceFull s | .sliceFree s => decide (s = slice)
    | _ => false).setTables fun t =>
      { t with
        slices := Function.update t.slices slice { bsize := bsize, thresholdFreeitems := th } }

/-- `node->vtbl->alloc` of one item for a physical object, with its status and range, and
    `node->vtbl->free` of a range, of the physical node with a number. -/
structure PageCalls where
  alloc : State → Nat → Option (State × Int × Nat)
  free : State → Nat → Nat → Option (State × Int)

def State.setStat (st : State) (item : Item) (stat : SliceStat) : State :=
  st.modItem item fun x => { x with sliceStat := stat }

/-- `list_del` and `item_count--`. -/
def takePage (st : State) (h : ListHead) (item : Item) : Option State :=
  (listDel st item).map fun st => st.countDec h

/-- `list_add_tail` and `item_count++`. -/
def putPage (st : State) (h : ListHead) (item : Item) : State := (st.pushTail h item).countInc h

@[simp] theorem putPage_items (st : State) (h : ListHead) (i j : Item) : (putPage st h i).items j =
    if j = i then { st.items i with onList := some h } else st.items j := by
  simp [putPage]

@[simp] theorem putPage_lists (st : State) (h k : ListHead) (i : Item) :
    (putPage st h i).lists k = st.lists k ++ if k = h then [i] else [] := by
  by_cases hk : k = h <;> simp [putPage, hk]

@[simp] theorem putPage_counts (st : State) (h k : ListHead) (i : Item) :
    (putPage st h i).counts k = st.counts k + if k = h then 1 else 0 := by
  by_cases hk : k = h <;> simp [putPage, hk]

/-- A page changes its state and its list. The empty list forgets the slice. -/
def movePage (st : State) (slice : Nat) (item : Item) (src dst : SliceStat) : Option State := do
  let st ← takePage (st.setStat item dst) (sliceList slice src) item
  let st := if dst = .empty then st.modItem item fun x => { x with sliceHead := none } else st
  pure (putPage st (sliceList slice dst) item)

/-- The move of a page that meets the test; any other stays. -/
def moveWhen (c : Bool) (st : State) (slice : Nat) (item : Item) (src dst : SliceStat) :
    Option State :=
  if c then movePage st slice item src dst else some st

/-- The first clear slot, and the page with that slot set where it has one. -/
def claimSlot (st : State) (item : Item) (size : Nat) : State × Nat :=
  let idx := findFirstZeroBit (st.items item).sliceRef size
  (if idx < size then st.modItem item fun x => { x with sliceRef := setBit idx x.sliceRef } else st,
    idx)

/-- `slice->bsize` as a divisor: a division by 0 faults. -/
def slotSize (st : State) (slice : Nat) : Option Nat :=
  if (st.tables.slices slice).bsize = 0 then none else some (st.tables.slices slice).bsize

theorem slotSize_some {st : State} {slice bsize : Nat} (h : slotSize st slice = some bsize) :
    (st.tables.slices slice).bsize = bsize := by
  unfold slotSize at h
  split at h
  · cases h
  · exact Option.some.inj h

theorem slotSize_of {st : State} {slice : Nat} (h : 0 < (st.tables.slices slice).bsize) :
    slotSize st slice = some (st.tables.slices slice).bsize :=
  if_neg h.ne'

/-- `heap_alloc` from `valid_free_slice` on. -/
def fillSlot (st : State) (slice : Nat) (item : Item) : Option (State × Except Int Nat) := do
  let bsize ← slotSize st slice
  let size := fixedItemSize / bsize
  let (st, idx) := claimSlot st item size
  let rangeBase := (itemToRange st item + idx * bsize) % 2 ^ 64
  let st ← moveWhen ((st.items item).sliceStat = .empty) st slice item .empty .free
  let st ← moveWhen ((st.items item).sliceStat = .free ∧
    findFirstZeroBit (st.items item).sliceRef size = size) st slice item .free .full
  pure (st, .ok rangeBase)

/-- `heap_alloc`: the base of a slot, or the error. A count that is not zero over an empty list
    makes `item` NULL. -/
def heapAlloc (calls : PageCalls) (st : State) (slice : Nat) : Option (State × Except Int Nat) := do
  if st.counts (.sliceFree slice) ≠ 0#64 then
    fillSlot st slice (← (st.lists (.sliceFree slice)).head?)
  else if st.counts (.sliceEmpty slice) ≠ 0#64 then
    fillSlot st slice (← (st.lists (.sliceEmpty slice)).head?)
  else
    let (st, ret, rangeBase) ← calls.alloc st (← getCurrentNodeNum dimMemory)
    if ret ≠ noError then pure (st, .error errNoMemory)
    else
      let item ← rangeToItem st rangeBase dimMemory
      let st := (initItem st item).modItem item fun x =>
        { x with sliceHead := some slice, sliceStat := .empty }
      fillSlot (putPage st (.sliceFree slice) item) slice item

/-- How `heap_free` ends: with a status, or in the node's `free` of the page. -/
inductive SlotFree where
  | done (st : State) (ret : Int)
  | nodeFree (st : State) (node rangeBase : Nat)

def SlotFree.state : SlotFree → State
  | .done st _ | .nodeFree st _ _ => st

/-- `heap_free` from the cleared slot on. -/
def emptySlot (st : State) (slice : Nat) (item : Item) : Option SlotFree := do
  let size := fixedItemSize / (st.tables.slices slice).bsize
  let st ← moveWhen ((st.items item).sliceStat = .full) st slice item .full .free
  if (st.items item).sliceStat = .free ∧ findFirstBit (st.items item).sliceRef size = 0 then
    let st ← movePage st slice item .free .empty
    if (st.tables.slices slice).thresholdFreeitems < (st.counts (.sliceEmpty slice)).toNat then
      let st ← takePage st (.sliceEmpty slice) item
      pure (.nodeFree st (getItemNode (st.items item).flags) (itemToRange st item))
    else pure (.done st noError)
  else pure (.done st noError)

/-- `heap_free` up to the node's `free`. -/
def heapFreeSlot (st : State) (rangeBase : Nat) : Option SlotFree := do
  let item ← rangeToItem st rangeBase dimMemory
  let slice ← (st.items item).sliceHead
  let idx := rangeBase % fixedItemSize / (← slotSize st slice)
  if isSetBit idx (st.items item).sliceRef = false then pure (.done st errInvalidArgs)
  else
    emptySlot (st.modItem item fun x => { x with sliceRef := clearBit idx x.sliceRef }) slice item

/-- `heap_free`. -/
def heapFree (calls : PageCalls) (st : State) (rangeBase : Nat) : Option (State × Int) := do
  match ← heapFreeSlot st rangeBase with
  | .done st ret => pure (st, ret)
  | .nodeFree st node rangeBase => calls.free st node rangeBase

/-! ## 3. A page changes its list -/

section Moves

variable {st st' : State} {slice : Nat} {p : Item}

theorem takePage_of {h : ListHead} (k : ListHead) (ho : (st.items p).onList = some h) :
    takePage st k p = some (((st.setList h ((st.lists h).erase p)).modItem p
      fun x => { x with onList := none }).countDec k) := by
  unfold takePage
  rw [listDel_of ho]
  rfl

/-- The page as a move leaves it. -/
def movedItem (slice : Nat) (dst : SliceStat) (x : ItemStruct) : ItemStruct :=
  { x with
    onList := some (sliceList slice dst), sliceStat := dst
    sliceHead := if dst = .empty then none else x.sliceHead }

/-- **What a move does**, from whatever list the page is on. -/
theorem movePage_of {h : ListHead} (slice : Nat) (src dst : SliceStat)
    (ho : (st.items p).onList = some h) :
    ∃ st', movePage st slice p src dst = some st' ∧
      (∀ i, st'.items i = if i = p then movedItem slice dst (st.items p) else st.items i) ∧
      (∀ k, st'.lists k =
        (if k = h then (st.lists h).erase p else st.lists k) ++
          if k = sliceList slice dst then [p] else []) ∧
      (∀ k, st'.counts k =
        st.counts k - (if k = sliceList slice src then 1 else 0) +
          if k = sliceList slice dst then 1 else 0) ∧
      st'.tables = st.tables ∧ st'.nodes = st.nodes := by
  have ho' : ((st.setStat p dst).items p).onList = some h := by
    unfold State.setStat
    rw [State.modItem_items, if_pos rfl]
    exact ho
  unfold movePage
  rw [takePage_of _ ho']
  refine ⟨_, rfl, fun i => ?_, fun k => ?_, fun k => ?_, ?_, ?_⟩
  · by_cases hi : i = p
    · subst hi
      cases dst <;> simp [State.setStat, movedItem, sliceList]
    · cases dst <;> simp [State.setStat, hi]
  · rw [putPage_lists]
    congr 1
    cases dst <;> simp [State.setStat]
  · rw [putPage_counts]
    congr 1
    by_cases hk : k = sliceList slice src
    · cases dst <;> simp [State.setStat, hk]
    · cases dst <;> simp [State.setStat, hk]
  · cases dst <;> rfl
  · cases dst <;> rfl

end Moves

/-! ## 4. Runs of the slab -/

inductive HeapOp where
  | alloc
  | free (rangeBase : Nat)
  deriving DecidableEq, Repr

/-- **Successful calls from `st₀`**, with the bases given out and not given back since. -/
inductive HeapRun (calls : PageCalls) (slice : Nat) (st₀ : State) :
    List HeapOp → List Nat → State → Prop where
  | start : HeapRun calls slice st₀ [] [] st₀
  | alloc {ops : List HeapOp} {live : List Nat} {st st' : State} {rangeBase : Nat}
      (h : HeapRun calls slice st₀ ops live st)
      (hs : heapAlloc calls st slice = some (st', .ok rangeBase)) :
      HeapRun calls slice st₀ (ops ++ [.alloc]) (rangeBase :: live) st'
  | free {ops : List HeapOp} {live : List Nat} {st st' : State} {rangeBase : Nat}
      (h : HeapRun calls slice st₀ ops live st) (hl : rangeBase ∈ live)
      (hs : heapFree calls st rangeBase = some (st', noError)) :
      HeapRun calls slice st₀ (ops ++ [.free rangeBase]) (live.erase rangeBase) st'

/-- **The book of a slice**: the counts count, and the slice's pages are on the lists their states
    name. -/
structure SliceBook (st : State) (slice : Nat) : Prop where
  counts : ∀ s, st.counts (sliceList slice s) =
    BitVec.ofNat 64 (st.lists (sliceList slice s)).length
  pages : ∀ s i, i ∈ st.lists (sliceList slice s) ↔
    (st.items i).sliceHead = some slice ∧ (st.items i).sliceStat = s
  nodup : ∀ s, (st.lists (sliceList slice s)).Nodup

/-- From `st` to `st'` the lists of the slice and the pages on them stay, and no page comes to name
    the slice. -/
structure SameSlice (slice : Nat) (st st' : State) : Prop where
  lists : ∀ s, st'.lists (sliceList slice s) = st.lists (sliceList slice s)
  counts : ∀ s, st'.counts (sliceList slice s) = st.counts (sliceList slice s)
  pages : ∀ s, ∀ i ∈ st.lists (sliceList slice s), st'.items i = st.items i
  owned : ∀ i, (st'.items i).sliceHead = some slice → (st.items i).sliceHead = some slice

/-- The node's own `alloc` and `free` leave the slice alone. -/
structure PageCalls.LeaveSlice (calls : PageCalls) (slice : Nat) : Prop where
  alloc : ∀ {st st' : State} {node rangeBase : Nat} {ret : Int},
    calls.alloc st node = some (st', ret, rangeBase) → SameSlice slice st st'
  free : ∀ {st st' : State} {node rangeBase : Nat} {ret : Int},
    calls.free st node rangeBase = some (st', ret) → SameSlice slice st st'

/-! ## 5. One page -/

/-- The slice as `__init_slice` leaves it. -/
structure NoPage (slice : Nat) (st : State) : Prop where
  lists : ∀ t, st.lists (sliceList slice t) = []
  counts : ∀ t, st.counts (sliceList slice t) = 0#64
  owned : ∀ i, (st.items i).sliceHead ≠ some slice

/-- One page, on the list of `s`, in the state `x`, the counts off by `off`. On the empty list it
    does not name the slice. -/
structure OnePage (slice : Nat) (p : Item) (s x : SliceStat) (off : SliceStat → Word) (st : State) :
    Prop where
  lists : ∀ t, st.lists (sliceList slice t) = if t = s then [p] else []
  counts : ∀ t, st.counts (sliceList slice t) =
    BitVec.ofNat 64 (st.lists (sliceList slice t)).length + off t
  onList : (st.items p).onList = some (sliceList slice s)
  stat : (st.items p).sliceStat = x
  head : (st.items p).sliceHead = if s = .empty then none else some slice
  owned : ∀ i, (st.items i).sliceHead = some slice → i = p

/-- By how much the counts are off once a page is in: it was put on the free list twice, and taken
    off the empty list, where it was not, once. -/
def offBy : SliceStat → Word
  | .empty => -1#64
  | .free => 1#64
  | .full => 0#64

@[simp] theorem sliceList_inj {slice : Nat} {s t : SliceStat} :
    sliceList slice s = sliceList slice t ↔ s = t := by
  cases s <;> cases t <;> simp [sliceList]

section OnePage

variable {st st' : State} {slice : Nat} {p : Item} {s x d : SliceStat} {off : SliceStat → Word}

theorem NoPage.same (h : NoPage slice st) (hs : SameSlice slice st st') : NoPage slice st' :=
  ⟨fun t => by rw [hs.lists, h.lists], fun t => by rw [hs.counts, h.counts],
    fun i hi => h.owned i (hs.owned i hi)⟩

theorem OnePage.same (h : OnePage slice p s x off st) (hs : SameSlice slice st st') :
    OnePage slice p s x off st' := by
  have hmem : p ∈ st.lists (sliceList slice s) := by
    rw [h.lists, if_pos rfl]
    exact List.mem_singleton_self p
  have hp : st'.items p = st.items p := hs.pages s p hmem
  exact ⟨fun t => by rw [hs.lists, h.lists], fun t => by rw [hs.counts, hs.lists, h.counts],
    by rw [hp, h.onList], by rw [hp, h.stat], by rw [hp, h.head],
    fun i hi => h.owned i (hs.owned i hi)⟩

theorem OnePage.setRef (h : OnePage slice p s x off st) (f : Word → Word) :
    OnePage slice p s x off (st.modItem p fun y => { y with sliceRef := f y.sliceRef }) := by
  refine ⟨h.lists, h.counts, ?_, ?_, ?_, fun i hi => ?_⟩
  · rw [State.modItem_items, if_pos rfl]
    exact h.onList
  · rw [State.modItem_items, if_pos rfl]
    exact h.stat
  · rw [State.modItem_items, if_pos rfl]
    exact h.head
  · rw [State.modItem_items] at hi
    by_cases e : i = p
    · exact e
    · exact h.owned i (by rwa [if_neg e] at hi)

theorem OnePage.claimSlot (h : OnePage slice p s x off st) (size : Nat) :
    OnePage slice p s x off (claimSlot st p size).1 := by
  unfold TensorAlloc.claimSlot
  dsimp only
  split
  · exact h.setRef _
  · exact h

/-- **A move keeps the page the only one.** The counts are off by more where the page was on
    another list than the move says. -/
theorem OnePage.move (h : OnePage slice p s x off st) (hs : s ≠ .empty) (src d : SliceStat) :
    ∃ st', movePage st slice p src d = some st' ∧ OnePage slice p d d
      (fun t => off t + (if t = s then 1 else 0) - (if t = src then 1 else 0)) st' := by
  obtain ⟨st', hrun, hitems, hlists, hcounts, -⟩ :=
    movePage_of slice src d h.onList
  have hp : st'.items p = movedItem slice d (st.items p) := by rw [hitems, if_pos rfl]
  have hl : ∀ t, st'.lists (sliceList slice t) = if t = d then [p] else [] := by
    intro t
    rw [hlists, h.lists, h.lists, if_pos rfl]
    by_cases hts : t = s
    · simp [hts]
    · simp [hts]
  refine ⟨st', hrun, hl, fun t => ?_, ?_, ?_, ?_, fun i hi => ?_⟩
  · have hlen : ∀ c : SliceStat, BitVec.ofNat 64 (if t = c then [p] else []).length =
        if t = c then 1 else 0 := fun c => by split <;> rfl
    rw [hcounts, h.counts, h.lists, hl, hlen, hlen]
    simp only [sliceList_inj]
    ring
  · rw [hp]
    rfl
  · rw [hp]
    rfl
  · rw [hp]
    show (if d = .empty then none else (st.items p).sliceHead) = _
    rw [h.head, if_neg hs]
  · rw [hitems] at hi
    by_cases e : i = p
    · exact e
    · exact h.owned i (by rwa [if_neg e] at hi)

/-- A move from the list the page is on keeps the counts off by the same. -/
theorem OnePage.moveWhen (h : OnePage slice p s x off st) (hs : s ≠ .empty) {c : Bool}
    (hrun : moveWhen c st slice p s d = some st') :
    st' = st ∧ c = false ∨ c = true ∧ OnePage slice p d d off st' := by
  unfold TensorAlloc.moveWhen at hrun
  cases c with
  | false => exact .inl ⟨(Option.some.inj hrun).symm, rfl⟩
  | true =>
      obtain ⟨st₁, hmove, h₁⟩ := h.move hs s d
      rw [if_pos rfl, hmove, Option.some.injEq] at hrun
      simp only [add_sub_cancel_right] at h₁
      exact .inr ⟨rfl, hrun ▸ h₁⟩

/-- The page just fetched, on the free list in the state `SLICE_EMPTY`. -/
theorem NoPage.put (h : NoPage slice st) (p : Item) :
    OnePage slice p .free .empty (fun _ => 0#64)
      (putPage ((initItem st p).modItem p fun y =>
        { y with sliceHead := some slice, sliceStat := .empty }) (.sliceFree slice) p) := by
  have hfree : ∀ t, sliceList slice t = .sliceFree slice ↔ t = .free := fun t =>
    sliceList_inj (t := .free)
  have hl : ∀ t, (putPage ((initItem st p).modItem p fun y =>
      { y with sliceHead := some slice, sliceStat := .empty }) (.sliceFree slice) p).lists
        (sliceList slice t) = if t = .free then [p] else [] := by
    intro t
    rw [putPage_lists]
    show st.lists _ ++ _ = _
    simp only [h.lists, hfree, List.nil_append]
  refine ⟨hl, fun t => ?_, ?_, ?_, ?_, fun i hi => ?_⟩
  · rw [hl, putPage_counts]
    show st.counts _ + _ = _
    simp only [h.counts, hfree]
    split <;> rfl
  · rw [putPage_items, if_pos rfl]
    rfl
  · rw [putPage_items, if_pos rfl, State.modItem_items, if_pos rfl]
  · rw [putPage_items, if_pos rfl, State.modItem_items, if_pos rfl]
    rfl
  · by_contra e
    rw [putPage_items, if_neg e, State.modItem_items, if_neg e] at hi
    unfold initItem at hi
    rw [State.modItem_items, if_neg e] at hi
    exact h.owned i hi

/-- **The end of `heap_alloc`**: from a page of the free list the counts stay off; the first page
    gets them off. -/
theorem OnePage.fillSlot (h : OnePage slice p .free x off st)
    (hx : x = .free ∧ off = offBy ∨ x = .empty ∧ off = fun _ => 0#64) {ret : Except Int Nat}
    (hs : fillSlot st slice p = some (st', ret)) : ∃ t, OnePage slice p t t offBy st' := by
  unfold TensorAlloc.fillSlot at hs
  simp only [Option.bind_eq_bind, Option.bind_eq_some_iff, Option.pure_def, Option.some.injEq,
    Prod.mk.injEq] at hs
  obtain ⟨bsize, -, st₁, h₁, st₂, h₂, rfl, -⟩ := hs
  have hclaim := h.claimSlot (fixedItemSize / bsize)
  have hfree : OnePage slice p .free .free offBy st₁ := by
    unfold TensorAlloc.moveWhen at h₁
    rw [hclaim.stat] at h₁
    rcases hx with ⟨rfl, rfl⟩ | ⟨rfl, rfl⟩
    · rw [if_neg (by decide), Option.some.injEq] at h₁
      exact h₁ ▸ hclaim
    · obtain ⟨st₃, hmove, h₃⟩ := hclaim.move (by decide) .empty .free
      rw [if_pos (by decide), hmove, Option.some.injEq] at h₁
      have hoff : (fun t => 0#64 + (if t = SliceStat.free then 1 else 0) -
          (if t = SliceStat.empty then 1 else 0)) = offBy := by
        funext t
        cases t <;> rfl
      rw [hoff] at h₃
      exact h₁ ▸ h₃
  rcases hfree.moveWhen (by decide) h₂ with ⟨rfl, -⟩ | ⟨-, h⟩
  · exact ⟨.free, hfree⟩
  · exact ⟨.full, h⟩

/-- The first `heap_alloc` fetches a page. -/
theorem NoPage.heapAlloc {calls : PageCalls} (hcalls : calls.LeaveSlice slice) (h : NoPage slice st)
    {rangeBase : Nat} (hs : heapAlloc calls st slice = some (st', .ok rangeBase)) :
    ∃ p t, OnePage slice p t t offBy st' := by
  have hfree : st.counts (.sliceFree slice) = 0#64 := h.counts .free
  have hempty : st.counts (.sliceEmpty slice) = 0#64 := h.counts .empty
  unfold TensorAlloc.heapAlloc at hs
  rw [if_neg (not_not.mpr hfree), if_neg (not_not.mpr hempty)] at hs
  simp only [Option.bind_eq_bind, Option.bind_eq_some_iff] at hs
  obtain ⟨node, -, ⟨st₁, ret, base⟩, hcall, hs⟩ := hs
  dsimp only at hs
  split at hs
  · cases hs
  · obtain ⟨item, -, hs⟩ := Option.bind_eq_some_iff.mp hs
    exact ⟨item, ((h.same (hcalls.alloc hcall)).put item).fillSlot (.inr ⟨rfl, rfl⟩) hs⟩

/-- A later `heap_alloc` takes its slot from the page, or faults: `free_count` is not zero. -/
theorem OnePage.heapAlloc {calls : PageCalls} (h : OnePage slice p s s offBy st)
    {ret : Except Int Nat} (hs : heapAlloc calls st slice = some (st', ret)) :
    ∃ t, OnePage slice p t t offBy st' := by
  have hl : st.lists (.sliceFree slice) = if SliceStat.free = s then [p] else [] := h.lists .free
  have hcount : st.counts (.sliceFree slice) ≠ 0#64 := by
    have hc := h.counts .free
    rw [h.lists] at hc
    show st.counts (sliceList slice .free) ≠ 0#64
    rw [hc]
    split
    · exact (by decide : BitVec.ofNat 64 1 + offBy .free ≠ 0#64)
    · decide
  unfold TensorAlloc.heapAlloc at hs
  rw [if_pos hcount, hl] at hs
  simp only [Option.bind_eq_bind, Option.bind_eq_some_iff] at hs
  obtain ⟨item, hhead, hs⟩ := hs
  by_cases hsf : SliceStat.free = s
  · subst hsf
    obtain rfl : p = item := Option.some.inj hhead
    exact h.fillSlot (.inl ⟨rfl, rfl⟩) hs
  · rw [if_neg hsf] at hhead
    cases hhead

/-- `heap_free` of a slot of the page: a page on the empty list is not found again, and the empty
    count is 0 with the page there, so the page never goes back. -/
theorem OnePage.emptySlot (h : OnePage slice p s s offBy st) (hs : s ≠ .empty) {o : SlotFree}
    (he : emptySlot st slice p = some o) : ∃ t, OnePage slice p t t offBy o.state := by
  unfold TensorAlloc.emptySlot at he
  simp only [Option.bind_eq_bind, Option.bind_eq_some_iff] at he
  obtain ⟨st₁, h₁, he⟩ := he
  have hfree : OnePage slice p .free .free offBy st₁ := by
    cases s with
    | empty => exact absurd rfl hs
    | free =>
        unfold TensorAlloc.moveWhen at h₁
        rw [h.stat, if_neg (by decide), Option.some.injEq] at h₁
        exact h₁ ▸ h
    | full =>
        rcases h.moveWhen hs h₁ with ⟨-, hc⟩ | ⟨-, h₂⟩
        · rw [h.stat] at hc
          cases hc
        · exact h₂
  split at he
  · obtain ⟨st₂, h₂, he⟩ := Option.bind_eq_some_iff.mp he
    have hempty : OnePage slice p .empty .empty offBy st₂ := by
      rcases hfree.moveWhen (c := true) (by decide) h₂ with ⟨-, hc⟩ | ⟨-, h₃⟩
      · cases hc
      · exact h₃
    have hcount : st₂.counts (.sliceEmpty slice) = 0#64 := by
      have hc := hempty.counts .empty
      rw [hempty.lists, if_pos rfl] at hc
      exact hc.trans (by decide : BitVec.ofNat 64 1 + offBy .empty = 0#64)
    have hlt : ¬ (st₂.tables.slices slice).thresholdFreeitems < (0#64).toNat := Nat.not_lt_zero _
    rw [hcount, if_neg hlt, Option.pure_def, Option.some.injEq] at he
    exact ⟨.empty, he ▸ hempty⟩
  · rw [Option.pure_def, Option.some.injEq] at he
    exact ⟨.free, he ▸ hfree⟩

end OnePage

/-! ## 6. Another slice's page -/

/-- A page that is none of the slice's. -/
structure Foreign (slice : Nat) (q : Item) (st : State) : Prop where
  lists : ∀ t, q ∉ st.lists (sliceList slice t)
  head : (st.items q).sliceHead ≠ some slice

section Foreign

variable {st st' st'' : State} {slice slice' : Nat} {q : Item}

theorem SameSlice.refl (slice : Nat) (st : State) : SameSlice slice st st :=
  ⟨fun _ => rfl, fun _ => rfl, fun _ _ _ => rfl, fun _ h => h⟩

theorem SameSlice.trans (h : SameSlice slice st st') (h' : SameSlice slice st' st'') :
    SameSlice slice st st'' where
  lists t := by rw [h'.lists, h.lists]
  counts t := by rw [h'.counts, h.counts]
  pages t i hi := by rw [h'.pages t i (by rwa [h.lists]), h.pages t i hi]
  owned i hi := h.owned i (h'.owned i hi)

theorem Foreign.same (hf : Foreign slice q st) (h : SameSlice slice st st') : Foreign slice q st' :=
  ⟨fun t => by rw [h.lists]; exact hf.lists t, fun hi => hf.head (h.owned q hi)⟩

theorem Foreign.setRef (hf : Foreign slice q st) (f : Word → Word) :
    SameSlice slice st (st.modItem q fun x => { x with sliceRef := f x.sliceRef }) := by
  refine ⟨fun _ => rfl, fun _ => rfl, fun t i hi => ?_, fun i hi => ?_⟩
  · have : i ≠ q := by
      intro e
      subst e
      exact hf.lists t hi
    rw [State.modItem_items, if_neg this]
  · rw [State.modItem_items] at hi
    by_cases e : i = q
    · rw [if_pos e] at hi
      exact absurd hi hf.head
    · rwa [if_neg e] at hi

theorem sliceList_ne (hne : slice' ≠ slice) (t d : SliceStat) :
    sliceList slice t ≠ sliceList slice' d := by
  cases t <;> cases d <;> simp [sliceList, hne.symm]

/-- A list of the slice has nothing to lose when the page is unlinked. -/
theorem Foreign.lists_erase (hf : Foreign slice q st) (h : ListHead) (t : SliceStat) :
    (if sliceList slice t = h then (st.lists h).erase q else st.lists (sliceList slice t)) =
      st.lists (sliceList slice t) := by
  split
  · next e =>
      rw [← e]
      exact List.erase_of_not_mem (hf.lists t)
  · rfl

/-- What changes is the page and the lists of its own slice. -/
theorem Foreign.sameSlice (hf : Foreign slice q st)
    (hlists : ∀ t, st'.lists (sliceList slice t) = st.lists (sliceList slice t))
    (hcounts : ∀ t, st'.counts (sliceList slice t) = st.counts (sliceList slice t))
    (hitems : ∀ i, i ≠ q → st'.items i = st.items i)
    (hhead : (st'.items q).sliceHead = none ∨
      (st'.items q).sliceHead = (st.items q).sliceHead) : SameSlice slice st st' := by
  refine ⟨hlists, hcounts, fun t i hi => hitems i ?_, fun i hi => ?_⟩
  · intro e
    subst e
    exact hf.lists t hi
  · by_cases e : i = q
    · subst e
      rcases hhead with h | h
      · rw [h] at hi
        cases hi
      · rwa [h] at hi
    · rwa [hitems i e] at hi

theorem Foreign.movePage (hf : Foreign slice q st) (hne : slice' ≠ slice) {src d : SliceStat}
    (h : movePage st slice' q src d = some st') : SameSlice slice st st' := by
  cases ho : (st.items q).onList with
  | none =>
      have : takePage (st.setStat q d) (sliceList slice' src) q = none := by
        unfold takePage listDel State.setStat
        rw [State.modItem_items, if_pos rfl]
        simp only [ho, Option.map_none]
      unfold TensorAlloc.movePage at h
      rw [this] at h
      cases h
  | some k =>
      obtain ⟨st₁, hrun, hitems, hlists, hcounts, -⟩ :=
        movePage_of slice' src d ho
      rw [hrun, Option.some.injEq] at h
      subst h
      refine hf.sameSlice (fun t => ?_) (fun t => ?_) (fun i hi => ?_) ?_
      · rw [hlists, hf.lists_erase, if_neg (sliceList_ne hne t d), List.append_nil]
      · rw [hcounts, if_neg (sliceList_ne hne t src), if_neg (sliceList_ne hne t d)]
        simp
      · rw [hitems, if_neg hi]
      · rw [hitems, if_pos rfl]
        unfold movedItem
        dsimp only
        split
        · exact .inl rfl
        · exact .inr rfl

theorem Foreign.moveWhen (hf : Foreign slice q st) (hne : slice' ≠ slice) {c : Bool}
    {src d : SliceStat} (h : moveWhen c st slice' q src d = some st') : SameSlice slice st st' := by
  unfold TensorAlloc.moveWhen at h
  split at h
  · exact hf.movePage hne h
  · rw [Option.some.injEq] at h
    exact h ▸ SameSlice.refl slice st

theorem Foreign.takePage (hf : Foreign slice q st) (hne : slice' ≠ slice) {t : SliceStat}
    (h : takePage st (sliceList slice' t) q = some st') : SameSlice slice st st' := by
  cases ho : (st.items q).onList with
  | none => simp [TensorAlloc.takePage, listDel, ho] at h
  | some k =>
      rw [takePage_of _ ho, Option.some.injEq] at h
      subst h
      refine hf.sameSlice (fun u => ?_) (fun u => ?_) (fun i hi => ?_) (.inr ?_)
      · simp only [State.countDec_lists, State.modItem_lists, State.setList_lists]
        exact hf.lists_erase k u
      · rw [State.countDec_counts, if_neg (sliceList_ne hne u t)]
        rfl
      · simp [hi]
      · simp

/-- **`heap_free` of another slice's page leaves the slice alone.** -/
theorem Foreign.emptySlot (hf : Foreign slice q st) (hne : slice' ≠ slice) {o : SlotFree}
    (he : emptySlot st slice' q = some o) : SameSlice slice st o.state := by
  unfold TensorAlloc.emptySlot at he
  simp only [Option.bind_eq_bind, Option.bind_eq_some_iff] at he
  obtain ⟨st₁, h₁, he⟩ := he
  have hs₁ := hf.moveWhen hne h₁
  split at he
  · obtain ⟨st₂, h₂, he⟩ := Option.bind_eq_some_iff.mp he
    have hs₂ := hs₁.trans ((hf.same hs₁).movePage hne h₂)
    split at he
    · obtain ⟨st₃, h₃, he⟩ := Option.bind_eq_some_iff.mp he
      rw [Option.pure_def, Option.some.injEq] at he
      exact he ▸ hs₂.trans ((hf.same hs₂).takePage hne (t := .empty) h₃)
    · rw [Option.pure_def, Option.some.injEq] at he
      exact he ▸ hs₂
  · rw [Option.pure_def, Option.some.injEq] at he
    exact he ▸ hs₁

end Foreign

/-! ## 7. The book of a slice -/

section Book

variable {calls : PageCalls} {slice bsize th : Nat} {st st' st₀ : State} {p : Item} {s : SliceStat}

/-- `heap_free` keeps the one page, whatever base it is called with. -/
theorem OnePage.heapFreeSlot (h : OnePage slice p s s offBy st) {rangeBase : Nat} {o : SlotFree}
    (hf : heapFreeSlot st rangeBase = some o) : ∃ t, OnePage slice p t t offBy o.state := by
  unfold TensorAlloc.heapFreeSlot at hf
  simp only [Option.bind_eq_bind, Option.bind_eq_some_iff] at hf
  obtain ⟨item, -, slice', hhead, bsize, -, hf⟩ := hf
  split at hf
  · rw [Option.pure_def, Option.some.injEq] at hf
    exact ⟨s, hf ▸ h⟩
  · by_cases hp : item = p
    · subst hp
      have hs : s ≠ .empty := by
        intro e
        subst e
        rw [h.head] at hhead
        cases hhead
      obtain rfl : slice = slice' := by
        rw [h.head, if_neg hs, Option.some.injEq] at hhead
        exact hhead
      exact (h.setRef _).emptySlot hs hf
    · have hforeign : Foreign slice item st := by
        refine ⟨fun t => ?_, fun hi => hp (h.owned item hi)⟩
        rw [h.lists]
        split
        · exact fun hm => hp (List.mem_singleton.mp hm)
        · exact List.not_mem_nil
      have hne : slice' ≠ slice := by
        intro e
        subst e
        exact hp (h.owned item hhead)
      have hset := hforeign.setRef (clearBit (rangeBase % fixedItemSize / bsize))
      exact ⟨s, h.same (hset.trans ((hforeign.same hset).emptySlot hne hf))⟩

theorem OnePage.heapFree (hcalls : calls.LeaveSlice slice) (h : OnePage slice p s s offBy st)
    {rangeBase : Nat} {ret : Int} (hf : heapFree calls st rangeBase = some (st', ret)) :
    ∃ t, OnePage slice p t t offBy st' := by
  unfold TensorAlloc.heapFree at hf
  obtain ⟨o, ho, hf⟩ := Option.bind_eq_some_iff.mp hf
  obtain ⟨t, ht⟩ := h.heapFreeSlot ho
  cases o with
  | done st₁ ret₁ =>
      obtain ⟨rfl, -⟩ := Prod.mk.inj (Option.some.inj hf)
      exact ⟨t, ht⟩
  | nodeFree st₁ node base => exact ⟨t, ht.same (hcalls.free hf)⟩

theorem noPage_initSlice (h : ∀ i, (st.items i).sliceHead ≠ some slice) :
    NoPage slice (initSlice st slice bsize th) := by
  refine ⟨fun t => ?_, fun t => ?_, h⟩
  · cases t <;> simp [initSlice, State.setTables, State.resetLists, sliceList]
  · cases t <;> simp [initSlice, State.setTables, State.resetLists, sliceList]

/-- **Every run keeps one page at most**, and the counts off by the same. -/
theorem HeapRun.onePage (hcalls : calls.LeaveSlice slice) (h₀ : NoPage slice st₀)
    {ops : List HeapOp} {live : List Nat} (h : HeapRun calls slice st₀ ops live st) :
    ops = [] ∧ live = [] ∧ st = st₀ ∨ ops ≠ [] ∧ ∃ p t, OnePage slice p t t offBy st := by
  induction h with
  | start => exact .inl ⟨rfl, rfl, rfl⟩
  | alloc _ hs ih =>
      refine .inr ⟨by simp, ?_⟩
      rcases ih with ⟨-, -, rfl⟩ | ⟨-, p, t, hp⟩
      · exact h₀.heapAlloc hcalls hs
      · exact ⟨p, hp.heapAlloc hs⟩
  | free _ hl hs ih =>
      refine .inr ⟨by simp, ?_⟩
      rcases ih with ⟨-, rfl, -⟩ | ⟨-, p, t, hp⟩
      · cases hl
      · exact ⟨p, hp.heapFree hcalls hs⟩

theorem NoPage.book (h : NoPage slice st) : SliceBook st slice := by
  refine ⟨fun t => by rw [h.counts, h.lists]; rfl, fun t i => ?_, fun t => ?_⟩
  · rw [h.lists]
    exact ⟨fun hm => absurd hm List.not_mem_nil, fun hi => absurd hi.1 (h.owned i)⟩
  · rw [h.lists]
    exact List.nodup_nil

theorem OnePage.not_book (h : OnePage slice p s s offBy st) : ¬ SliceBook st slice := by
  intro hb
  have hc := (hb.counts .free).symm.trans (h.counts .free)
  rw [h.lists] at hc
  split at hc
  · exact absurd hc (by decide : BitVec.ofNat 64 1 ≠ BitVec.ofNat 64 1 + offBy .free)
  · exact absurd hc (by decide : BitVec.ofNat 64 0 ≠ BitVec.ofNat 64 0 + offBy .free)

/-- **The book of a slice is right until the first `heap_alloc`, and wrong ever after**: in no run
    that allocates, whatever it frees. -/
theorem heapRun_book_iff (hcalls : calls.LeaveSlice slice)
    (hnew : ∀ i, (st₀.items i).sliceHead ≠ some slice) {ops : List HeapOp} {live : List Nat}
    (h : HeapRun calls slice (initSlice st₀ slice bsize th) ops live st) :
    SliceBook st slice ↔ ops = [] := by
  rcases h.onePage hcalls (noPage_initSlice hnew) with ⟨rfl, -, rfl⟩ | ⟨hops, p, t, hp⟩
  · exact ⟨fun _ => rfl, fun _ => (noPage_initSlice hnew).book⟩
  · exact ⟨fun hb => absurd hb hp.not_book, fun e => absurd e hops⟩

end Book

/-- A page allocator that counts: the pages of a node in order, none taken back. -/
def countingCalls : PageCalls where
  alloc st node :=
    let x := st.nodes (.phy node)
    if x.nrFreeitems = 0#64 then some (st, errNoMemory, 0)
    else some ({ st with
      nodes := Function.update st.nodes (.phy node) { x with nrFreeitems := x.nrFreeitems - 1 } },
      noError, x.offset + x.size - x.nrFreeitems.toNat * fixedItemSize)
  free st _ _ := some (st, noError)

/-- The memory node at its default base, 512 pages, and a slice of 64-byte slots. -/
def freshSlice : State := initSlice (initNode zeroed 16 0x80000000 (2 ^ 21)) 0 64 64

theorem countingCalls_leave (slice : Nat) : countingCalls.LeaveSlice slice := by
  refine ⟨fun {st st' node rangeBase ret} h => ?_, fun {st st' node rangeBase ret} h => ?_⟩
  · simp only [countingCalls] at h
    split at h
    · obtain ⟨rfl, -⟩ := Prod.mk.inj (Option.some.inj h)
      exact SameSlice.refl slice _
    · obtain ⟨rfl, -⟩ := Prod.mk.inj (Option.some.inj h)
      exact ⟨fun _ => rfl, fun _ => rfl, fun _ _ _ => rfl, fun _ hi => hi⟩
  · obtain ⟨rfl, -⟩ := Prod.mk.inj (Option.some.inj h)
    exact SameSlice.refl slice _

/-- The first page is on the free list once and counted twice. -/
theorem freshSlice_alloc : ∃ st rangeBase,
    heapAlloc countingCalls freshSlice 0 = some (st, .ok rangeBase) ∧
      st.lists (.sliceFree 0) = [0] ∧ st.counts (.sliceFree 0) = 2#64 := by
  have h : ((heapAlloc countingCalls freshSlice 0).map fun r =>
      (r.2.isOk, r.1.lists (.sliceFree 0), r.1.counts (.sliceFree 0))) =
      some (true, [0], 2#64) := by decide +kernel
  obtain ⟨⟨st, ret⟩, hrun, h⟩ := Option.map_eq_some_iff.mp h
  simp only [Prod.mk.injEq] at h
  cases ret with
  | error e => cases h.1
  | ok rangeBase => exact ⟨st, rangeBase, hrun, h.2⟩

theorem freshSlice_unowned (i : Item) :
    ((initNode zeroed 16 0x80000000 (2 ^ 21)).items i).sliceHead ≠
    some 0 := by
  intro h
  cases h

/-- One slot taken from the first page. -/
theorem heapRun_book_first : ∃ st live, HeapRun countingCalls 0 freshSlice [.alloc] live st ∧
    (SliceBook st 0 ↔ [HeapOp.alloc] = []) := by
  obtain ⟨st, rangeBase, hs, -⟩ := freshSlice_alloc
  have hrun : HeapRun countingCalls 0 freshSlice ([] ++ [.alloc]) [rangeBase] st := .alloc .start hs
  exact ⟨st, [rangeBase], hrun,
    heapRun_book_iff (countingCalls_leave 0) freshSlice_unowned hrun⟩

/-- One slot taken: one page on the free list, counted as two. -/
theorem freshSlice_counted_twice : ∃ st live, HeapRun countingCalls 0 freshSlice [.alloc] live st ∧
    ¬ SliceBook st 0 := by
  obtain ⟨st, rangeBase, hs, hl, hc⟩ := freshSlice_alloc
  have hrun : HeapRun countingCalls 0 freshSlice ([] ++ [.alloc]) [rangeBase] st := .alloc .start hs
  refine ⟨st, [rangeBase], hrun, fun hb => ?_⟩
  have hcount : st.counts (.sliceFree 0) = BitVec.ofNat 64 (st.lists (.sliceFree 0)).length :=
    hb.counts .free
  rw [hc, hl] at hcount
  exact absurd hcount (by decide)

/-! ## 8. Giving up a slot -/

/-- The page is on the empty list, or went back to the node. -/
def SlotFree.TookPage (slice : Nat) (item : Item) : SlotFree → Prop
  | .done st _ => item ∈ st.lists (.sliceEmpty slice)
  | .nodeFree _ _ _ => True

instance (slice : Nat) (item : Item) (o : SlotFree) : Decidable (o.TookPage slice item) :=
  match o with
  | .done st _ => inferInstanceAs (Decidable (item ∈ st.lists (.sliceEmpty slice)))
  | .nodeFree _ _ _ => inferInstanceAs (Decidable True)

/-- From `st` to `st'` the page is on the free list, its slice as before, and of its slots `idx`
    alone was given up. -/
structure KeptPage (slice : Nat) (item : Item) (idx : Nat) (st st' : State) : Prop where
  free : item ∈ st'.lists (.sliceFree slice)
  head : (st'.items item).sliceHead = (st.items item).sliceHead
  ref : ∀ j < 64, (st'.items item).sliceRef.getLsbD j =
    ((st.items item).sliceRef.getLsbD j && decide (j ≠ idx))

/-- **What `heap_free` should do with the page**: take it when no other slot is occupied, and
    otherwise keep it. -/
structure FreesSlot (slice : Nat) (item : Item) (idx : Nat) (st : State) (o : SlotFree) : Prop where
  takes : o.TookPage slice item ↔ ∀ j, (st.items item).sliceRef.getLsbD j = true → j = idx
  keeps : (∃ j, j ≠ idx ∧ (st.items item).sliceRef.getLsbD j = true) →
    ∃ st', o = .done st' noError ∧ KeptPage slice item idx st st'

section GiveUp

variable {st : State} {slice : Nat} {item : Item}

/-- The page once `heap_free` has it on the free list. -/
structure FreePage (slice : Nat) (item : Item) (x : ItemStruct) (st : State) : Prop where
  mem : item ∈ st.lists (.sliceFree slice)
  notEmpty : item ∉ st.lists (.sliceEmpty slice)
  item : st.items item = { x with onList := some (.sliceFree slice), sliceStat := .free }

theorem moveWhen_freePage (hL : st.Linked) (hstat : (st.items item).sliceStat ≠ .empty)
    (hmem : item ∈ st.lists (sliceList slice (st.items item).sliceStat)) :
    ∃ st', moveWhen ((st.items item).sliceStat = .full) st slice item .full .free = some st' ∧
      FreePage slice item (st.items item) st' ∧ st'.tables = st.tables := by
  have ho := (hL.mem item _).mpr hmem
  have hempty : item ∉ st.lists (.sliceEmpty slice) := fun hm => by
    have := ho.symm.trans ((hL.mem item _).mpr hm)
    rw [Option.some.injEq] at this
    exact hstat (sliceList_inj (t := .empty) |>.mp this)
  unfold moveWhen
  cases hx : (st.items item).sliceStat with
  | empty => exact absurd hx hstat
  | free =>
      rw [hx] at hmem ho
      refine ⟨st, rfl, ⟨hmem, hempty, ?_⟩, rfl⟩
      have ho' : (st.items item).onList = some (.sliceFree slice) := ho
      rw [← ho', ← hx]
  | full =>
      obtain ⟨st', hrun, hitems, hlists, -, htables, -⟩ :=
        movePage_of slice .full .free ho
      refine ⟨st', hrun, ⟨?_, ?_, ?_⟩, htables⟩
      · rw [hlists]
        exact List.mem_append_right _ (by simp [sliceList])
      · rw [hlists, hx]
        simpa [sliceList] using hempty
      · rw [hitems, if_pos rfl]
        rfl

/-- **What giving up a slot does**: the search decides. -/
theorem emptySlot_of (hL : st.Linked) (hstat : (st.items item).sliceStat ≠ .empty)
    (hmem : item ∈ st.lists (sliceList slice (st.items item).sliceStat)) :
    ∃ o, emptySlot st slice item = some o ∧
      if findFirstBit (st.items item).sliceRef (fixedItemSize / (st.tables.slices slice).bsize) = 0
      then o.TookPage slice item
      else ∃ st', o = .done st' noError ∧ FreePage slice item (st.items item) st' := by
  obtain ⟨st₁, h₁, hpage, htables⟩ := moveWhen_freePage hL hstat hmem
  have hx : (st₁.items item).sliceStat = .free := by rw [hpage.item]
  have href : (st₁.items item).sliceRef = (st.items item).sliceRef := by rw [hpage.item]
  have ho : (st₁.items item).onList = some (.sliceFree slice) := by rw [hpage.item]
  unfold emptySlot
  rw [h₁]
  simp only [Option.bind_eq_bind, Option.bind_some, hx, href, true_and]
  split
  · obtain ⟨st₂, h₂, hitems, hlists, -⟩ :=
      movePage_of slice .free .empty ho
    rw [h₂, Option.bind_some]
    split
    · have ho₂ : (st₂.items item).onList = some (.sliceEmpty slice) := by
        rw [hitems, if_pos rfl]
        rfl
      rw [takePage_of _ ho₂, Option.bind_some]
      exact ⟨_, rfl, trivial⟩
    · refine ⟨_, rfl, ?_⟩
      show item ∈ st₂.lists _
      rw [hlists]
      exact List.mem_append_right _ (by simp [sliceList])
  · exact ⟨_, rfl, st₁, rfl, hpage⟩

/-- **What `heap_free` does with an occupied slot**: slot 0 decides, where another one is given
    up. -/
theorem heapFreeSlot_of {rangeBase idx : Nat} (hL : st.Linked)
    (hitem : rangeToItem st rangeBase dimMemory = some item)
    (hhead : (st.items item).sliceHead = some slice)
    (hsize : 0 < fixedItemSize / (st.tables.slices slice).bsize)
    (hstat : (st.items item).sliceStat ≠ .empty)
    (hmem : item ∈ st.lists (sliceList slice (st.items item).sliceStat))
    (hidx : rangeBase % fixedItemSize / (st.tables.slices slice).bsize = idx)
    (hset : (st.items item).sliceRef.getLsbD idx = true) :
    ∃ o, heapFreeSlot st rangeBase = some o ∧
      if 0 ≠ idx ∧ (st.items item).sliceRef.getLsbD 0 = true then o.TookPage slice item
      else ∃ st', o = .done st' noError ∧ KeptPage slice item idx st st' ∧
        item ∉ st'.lists (.sliceEmpty slice) := by
  have hlt : idx < 64 := BitVec.lt_of_getLsbD hset
  obtain ⟨st₁, hst₁⟩ : ∃ st₁, st₁ = st.modItem item
      fun x => { x with sliceRef := clearBit idx x.sliceRef } := ⟨_, rfl⟩
  have hx : st₁.items item = { st.items item with
      sliceRef := clearBit idx (st.items item).sliceRef } := by
    rw [hst₁, State.modItem_items, if_pos rfl]
  have hL₁ : st₁.Linked := by
    subst hst₁
    exact hL.congr rfl fun j => by rw [State.modItem_items]; split <;> simp_all
  have hstat₁ : (st₁.items item).sliceStat = (st.items item).sliceStat := by rw [hx]
  have hlists : st₁.lists = st.lists := by rw [hst₁]; rfl
  have htables : st₁.tables = st.tables := by rw [hst₁]; rfl
  obtain ⟨o, hrun, hsearch⟩ := emptySlot_of hL₁ (by rw [hstat₁]; exact hstat)
    (by rw [hstat₁, hlists]; exact hmem)
  refine ⟨o, ?_, ?_⟩
  · unfold heapFreeSlot
    rw [hitem]
    have hbsize := slotSize_of (Nat.div_pos_iff.mp hsize).1
    simp only [Option.bind_eq_bind, Option.bind_some, hhead, hbsize, hidx]
    rw [isSetBit_eq hlt, hset, if_neg (by decide), ← hst₁]
    exact hrun
  · have hzero : findFirstBit (st₁.items item).sliceRef
        (fixedItemSize / (st₁.tables.slices slice).bsize) = 0 ↔
          0 ≠ idx ∧ (st.items item).sliceRef.getLsbD 0 = true := by
      rw [findFirstBit_eq_zero (by rw [htables]; exact hsize), hx,
        getLsbD_clearBit (by decide) hlt, Bool.and_eq_true, decide_eq_true_eq, and_comm]
    by_cases h0 : 0 ≠ idx ∧ (st.items item).sliceRef.getLsbD 0 = true
    · rw [if_pos (hzero.mpr h0)] at hsearch
      rw [if_pos h0]
      exact hsearch
    · rw [if_neg (mt hzero.mp h0)] at hsearch
      obtain ⟨st', rfl, hpage⟩ := hsearch
      rw [if_neg h0]
      refine ⟨st', rfl, ⟨hpage.mem, by rw [hpage.item, hx], fun j hj => ?_⟩, hpage.notEmpty⟩
      rw [hpage.item, hx]
      exact getLsbD_clearBit hj hlt

/-- **Giving up an occupied slot treats the page as it should exactly when another slot is occupied
    and slot 0 is not one of the others.** With no other slot occupied the page stays on the free
    list; with slot 0 still occupied it is taken away. -/
theorem heapFreeSlot_keeps_iff {rangeBase : Nat} (hL : st.Linked)
    (hitem : rangeToItem st rangeBase dimMemory = some item)
    (hhead : (st.items item).sliceHead = some slice)
    (hmin : sliceStructMinBsize ≤ (st.tables.slices slice).bsize)
    (hmax : (st.tables.slices slice).bsize ≤ fixedItemSize)
    (hstat : (st.items item).sliceStat ≠ .empty)
    (hmem : item ∈ st.lists (sliceList slice (st.items item).sliceStat))
    (hset : (st.items item).sliceRef.getLsbD
      (rangeBase % fixedItemSize / (st.tables.slices slice).bsize) = true) :
    (∃ o, heapFreeSlot st rangeBase = some o ∧
      FreesSlot slice item (rangeBase % fixedItemSize / (st.tables.slices slice).bsize) st o) ↔
      (∃ j, j ≠ rangeBase % fixedItemSize / (st.tables.slices slice).bsize ∧
        (st.items item).sliceRef.getLsbD j = true) ∧
      ¬ (0 ≠ rangeBase % fixedItemSize / (st.tables.slices slice).bsize ∧
        (st.items item).sliceRef.getLsbD 0 = true) := by
  have hsize : 0 < fixedItemSize / (st.tables.slices slice).bsize :=
    Nat.div_pos hmax (Nat.lt_of_lt_of_le (by decide) hmin)
  obtain ⟨o, hrun, hends⟩ := heapFreeSlot_of hL hitem hhead hsize hstat hmem rfl hset
  generalize rangeBase % fixedItemSize / (st.tables.slices slice).bsize = idx at hends ⊢
  rw [hrun]
  constructor
  · intro h
    obtain ⟨_, e, h⟩ := h
    obtain rfl := Option.some.inj e
    by_cases h0 : 0 ≠ idx ∧ (st.items item).sliceRef.getLsbD 0 = true
    · rw [if_pos h0] at hends
      exact absurd (h.takes.mp hends 0 h0.2) h0.1
    · rw [if_neg h0] at hends
      obtain ⟨st', rfl, -, hno⟩ := hends
      refine ⟨?_, h0⟩
      by_contra hnone
      refine hno (h.takes.mpr fun j hj => ?_)
      by_contra hne
      exact hnone ⟨j, hne, hj⟩
  · intro h
    obtain ⟨⟨j, hne, hj⟩, h0⟩ := h
    rw [if_neg h0] at hends
    obtain ⟨st', rfl, hkeep, hno⟩ := hends
    exact ⟨_, rfl, ⟨fun ht => absurd ht hno, fun hall => absurd (hall j hj) hne⟩,
      fun _ => ⟨st', rfl, hkeep⟩⟩

end GiveUp

/-- A page of 64-byte slots on the free list of slice 0, descriptor 0, with the slots of `ref`
    occupied. -/
def pageOfSlots (ref : Word) : State :=
  (putPage freshSlice (.sliceFree 0) 0).modItem 0 fun x =>
    { x with sliceHead := some 0, sliceStat := .free, sliceRef := ref }

theorem freshSlice_linked : freshSlice.Linked where
  mem i h := by
    simp [freshSlice, initSlice, initNode, initFreeNodeList, State.setTables, State.resetLists,
      zeroed]
  nodup h := by
    simp [freshSlice, initSlice, initNode, initFreeNodeList, State.setTables, State.resetLists,
      zeroed]

theorem pageOfSlots_linked (ref : Word) : (pageOfSlots ref).Linked := by
  have h := (freshSlice_linked.pushTail (i := 0) rfl (.sliceFree 0)).countInc (.sliceFree 0)
  refine h.congr rfl fun j => ?_
  show ((pageOfSlots ref).items j).onList = ((putPage freshSlice (.sliceFree 0) 0).items j).onList
  exact State.modItem_keeps _ j ItemStruct.onList rfl

theorem pageOfSlots_mem (ref : Word) : 0 ∈ (pageOfSlots ref).lists (.sliceFree 0) := by
  show 0 ∈ (putPage freshSlice (.sliceFree 0) 0).lists (.sliceFree 0)
  rw [putPage_lists, if_pos rfl]
  exact List.mem_append_right _ (List.mem_singleton_self 0)

/-- Slots 1 and 2 occupied, slot 1 given up: the page stays. -/
theorem heapFreeSlot_keeps_two : ∃ o, heapFreeSlot (pageOfSlots 6#64) 0x80000040 = some o ∧
    FreesSlot 0 0 1 (pageOfSlots 6#64) o :=
  (heapFreeSlot_keeps_iff (pageOfSlots_linked 6#64) (by decide +kernel) rfl
    (by decide) (by decide) (by decide) (pageOfSlots_mem 6#64) (by decide +kernel)).mpr
    ⟨⟨2, by decide +kernel, by decide +kernel⟩, by decide +kernel⟩

/-- Slots 0 and 1 occupied, slot 1 given up: the page is taken from under slot 0. -/
theorem pageOfSlots_taken : ¬ ∃ o, heapFreeSlot (pageOfSlots 3#64) 0x80000040 = some o ∧
    FreesSlot 0 0 1 (pageOfSlots 3#64) o := by
  intro h
  obtain ⟨o, hrun, h⟩ := h
  have htaken : (heapFreeSlot (pageOfSlots 3#64) 0x80000040).map
      (fun o => decide (o.TookPage 0 0)) = some true := by decide +kernel
  rw [hrun, Option.map_some, Option.some.injEq] at htaken
  have htook : o.TookPage 0 0 := of_decide_eq_true htaken
  exact absurd (h.takes.mp htook 0 (by decide +kernel)) (by decide)

end TensorAlloc
