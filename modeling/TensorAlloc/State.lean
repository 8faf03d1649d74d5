/-
  File:      TensorAlloc/State.lean
  Subject:   The globals of `tensor.c` as one state, with every linked list read as the sequence
             of items it links.

  * `ItemStruct` -- a descriptor: the flags word, the links of the sparse tree, the compound
    chain and the slab words. Members of one union are separate fields: a function modelled here
    reads the member it or its caller wrote last;
  * `ItemStruct.onList` -- the two pointers of the item's `node`, read as the list they link the
    item into (`none`: both are NULL, the node is unlinked);
  * `Reading` -- list.h takes the list first and the item second. Several calls pass them the
    other way round. `written` follows the call as it stands: with the item's own node as `list`
    the function writes through that node's links, NULL for an unlinked item, so the call does
    not return (`listAddHead_swapped`, `TensorAlloc/Links.lean`, proves this of the pointers).
    `listFirst` reads the same call with the list as the list. It puts the arguments right and no
    more: a list here is a ring, an empty one a head linked to itself, where `init_list_node` leaves
    NULL. What that makes of setting a node up is `HeadLinks` (`TensorAlloc/Init.lean`);
  * `State.Linked` -- `onList` and the sequences say the same thing, and no item is listed twice.
-/
import Mathlib.Logic.Function.Basic
import TensorAlloc.Struct

namespace TensorAlloc

/-! ## 1. The globals -/

/-- A group: of a physical node, of a node of the process group, or of the entity node. -/
inductive Group where
  | phy (nu lvl : Nat)
  | vir (nu lvl : Nat)
  | entity (lvl : Nat)
  deriving DecidableEq, Repr

/-- A node: `phy_node_struct[nu]`, one of the process group, or `entity_node_struct`. -/
inductive NodeRef where
  | phy (nu : Nat)
  | vir (nu : Nat)
  | entity
  deriving DecidableEq, Repr

/-- The heads of the lists: `GROUP_CELL`, `LRU_CACHE_CELL`, and the three lists of a slice. -/
inductive ListHead where
  | groupCell (area : Group) (migration : MigrationType) (order : Nat)
  | lruCacheCell (node : NodeRef) (cpu : Nat)
  | sliceFree (slice : Nat)
  | sliceFull (slice : Nat)
  | sliceEmpty (slice : Nat)
  deriving DecidableEq, Repr

/-- `slice_stat`. -/
inductive SliceStat where
  | empty | free | full
  deriving DecidableEq, Repr

/-- `group_status`: the search mode of a node. -/
inductive GroupStatus where
  | idle | forward | onlyForward | backward
  deriving DecidableEq, Repr

/-- `struct item_struct`, without the words no function here reads. Three members share the word of
    `next` (`slice_head`, bit 0 as `compound_head`) and two that of `prev` (`slice_stat`, its low bits):
    here each is a field, for what a descriptor is used as decides which of them is meant. The one read
    that does not look is `ItemarrayPrev`. -/
structure ItemStruct where
  flags : Word
  onList : Option ListHead
  compoundNode : Option Item
  compoundHead : Bool
  next : Option Item
  prev : Option Item
  sliceHead : Option Nat
  sliceStat : SliceStat
  sliceRef : Word
  deriving DecidableEq

/-- `struct node_struct`, with its `group_attr`. `group` is the node whose row of groups the pointer
    is set to. -/
structure NodeStruct where
  nodeId : Nat
  dim : Nat
  offset : Nat
  size : Nat
  nrFreeitems : Word
  status : GroupStatus
  group : Option NodeRef
  sparseItemRoot : Option Item
  sequeueStreamId : Word

/-- `struct slice_struct` without its lists, which are under `ListHead`. -/
structure SliceStruct where
  bsize : Nat
  thresholdFreeitems : Nat

/-- What initialisation sets up and allocation only reads. -/
structure Tables where
  groupNode : Group → NodeRef
  phyItemStruct : Nat → Item
  phyItemStructEnd : Nat → Item
  phyGroupLvl : Nat → Int
  phyGroupOrder : Nat → Nat
  slices : Nat → SliceStruct

/-- The globals. `counts` is `free_count`, `item_count` of a slice list. -/
structure State where
  items : Item → ItemStruct
  lists : ListHead → List Item
  counts : ListHead → Word
  nodes : NodeRef → NodeStruct
  tables : Tables

/-- Every global zero: no item linked, every list empty. -/
def zeroed : State where
  items _ :=
    { flags := 0#64, onList := none, compoundNode := none, compoundHead := false, next := none,
      prev := none, sliceHead := none, sliceStat := .empty, sliceRef := 0#64 }
  lists _ := []
  counts _ := 0#64
  nodes _ :=
    { nodeId := 0, dim := 0, offset := 0, size := 0, nrFreeitems := 0#64, status := .idle
      group := none, sparseItemRoot := none, sequeueStreamId := 0#64 }
  tables :=
    { groupNode := fun
        | .phy nu _ => .phy nu
        | .vir nu _ => .vir nu
        | .entity _ => .entity
      phyItemStruct := fun _ => 0
      phyItemStructEnd := fun _ => 0
      phyGroupLvl := fun _ => 0
      phyGroupOrder := fun _ => 0
      slices := fun _ => { bsize := 0, thresholdFreeitems := 0 } }

/-- What `forward_remove_group_sparse` reads as `itemarray->prev`, `itemarray` being
    `ROUND_DOWN(item, sizeof(struct item_struct) * BIT(MAX_ITEM_RANGE+1))`: NULL or a descriptor, `none`
    where the word is neither. The size is no power of two, so that address is the head of the item's
    array for some descriptors only, and in the middle of another descriptor for the rest. -/
abbrev ItemarrayPrev := State → Item → Option (Option Item)

/-- `sizeof(struct item_struct)`: nine words. -/
def itemStructSize : Nat := 72

/-- The word read where the descriptors lie from the address `base` on, a multiple of 8. `none` also
    stands for the links of a descriptor on a list or in a chain, and for the words that are no field
    here. -/
def itemarrayPrevAt (base : Word) : ItemarrayPrev := fun st item =>
  let itemarray := roundDown (base + BitVec.ofNat 64 (itemStructSize * item))
    (BitVec.ofNat 64 (itemStructSize * 2 ^ (maxItemRange + 1)))
  let offset := itemarray.toNat + 32 - base.toNat
  let x := st.items (offset / itemStructSize)
  if itemarray.toNat + 32 < base.toNat then none
  else
    match offset % itemStructSize / 8 with
    | 0 | 1 => if x.onList = none ∧ x.compoundNode = none then some none else none
    | 2 => if x.flags = 0#64 then some none else none
    | 3 => if x.sliceHead = none ∧ x.compoundHead = false then some x.next else none
    | 4 => if x.sliceStat = .empty then some x.prev else none
    | 5 => if x.sliceRef = 0#64 then some none else none
    | _ => none

/-- From address 0 on, 113 of the first 512 descriptors are rounded down to the first. -/
example : ((List.range 512).countP fun item =>
    roundDown (BitVec.ofNat 64 (itemStructSize * item)) 0x9000#64 = 0#64) = 113 := by
  decide +kernel

/-! ## 2. Updates -/

section Updates

variable (st : State) (h h' : ListHead) (i j : Item)

def State.modItem (f : ItemStruct → ItemStruct) : State :=
  { st with items := Function.update st.items i (f (st.items i)) }

def State.modFlags (f : Word → Word) : State :=
  st.modItem i fun x => { x with flags := f x.flags }

def State.setList (l : List Item) : State :=
  { st with lists := Function.update st.lists h l }

/-- `free_count++`, `free_count--`: in 64 bits, wrapping. -/
def State.countInc : State := { st with counts := Function.update st.counts h (st.counts h + 1) }
def State.countDec : State := { st with counts := Function.update st.counts h (st.counts h - 1) }

/-- `list_add_head(list, item)`: the item becomes the first of the list. -/
def State.pushHead : State :=
  (st.setList h (i :: st.lists h)).modItem i fun x => { x with onList := some h }

/-- `list_add_tail(list, item)`: the item becomes the last of the list. -/
def State.pushTail : State :=
  (st.setList h (st.lists h ++ [i])).modItem i fun x => { x with onList := some h }

/-- `list_del`, `list_delete`: through the item's own links; a write through NULL on an unlinked
    item. -/
def listDel : Option State :=
  match (st.items i).onList with
  | none => none
  | some h => some ((st.setList h ((st.lists h).erase i)).modItem i fun x => { x with onList := none })

@[simp] theorem State.modItem_items (f : ItemStruct → ItemStruct) :
    (st.modItem i f).items j = if j = i then f (st.items i) else st.items j := by
  simp [State.modItem, Function.update_apply]

variable {i} in
/-- What an update leaves of its item it leaves of every item. -/
theorem State.modItem_keeps {α : Type} {f : ItemStruct → ItemStruct} (read : ItemStruct → α)
    (hr : read (f (st.items i)) = read (st.items i)) :
    read ((st.modItem i f).items j) = read (st.items j) := by
  rw [State.modItem_items]
  split
  · next e => rw [e, hr]
  · rfl

@[simp] theorem State.modItem_lists (f : ItemStruct → ItemStruct) :
    (st.modItem i f).lists = st.lists := rfl
@[simp] theorem State.modItem_counts (f : ItemStruct → ItemStruct) :
    (st.modItem i f).counts = st.counts := rfl
@[simp] theorem State.modItem_nodes (f : ItemStruct → ItemStruct) :
    (st.modItem i f).nodes = st.nodes := rfl
@[simp] theorem State.modItem_tables (f : ItemStruct → ItemStruct) :
    (st.modItem i f).tables = st.tables := rfl

@[simp] theorem State.modFlags_items (f : Word → Word) : (st.modFlags i f).items j =
    if j = i then { st.items i with flags := f (st.items i).flags } else st.items j := by
  simp [State.modFlags]

@[simp] theorem State.modFlags_lists (f : Word → Word) : (st.modFlags i f).lists = st.lists := rfl
@[simp] theorem State.modFlags_counts (f : Word → Word) :
    (st.modFlags i f).counts = st.counts := rfl
@[simp] theorem State.modFlags_nodes (f : Word → Word) : (st.modFlags i f).nodes = st.nodes := rfl
@[simp] theorem State.modFlags_tables (f : Word → Word) :
    (st.modFlags i f).tables = st.tables := rfl

@[simp] theorem State.setList_lists (l : List Item) :
    (st.setList h l).lists h' = if h' = h then l else st.lists h' := by
  simp [State.setList, Function.update_apply]

@[simp] theorem State.setList_items (l : List Item) : (st.setList h l).items = st.items := rfl
@[simp] theorem State.setList_counts (l : List Item) : (st.setList h l).counts = st.counts := rfl
@[simp] theorem State.setList_nodes (l : List Item) : (st.setList h l).nodes = st.nodes := rfl
@[simp] theorem State.setList_tables (l : List Item) : (st.setList h l).tables = st.tables := rfl

@[simp] theorem State.countInc_counts :
    (st.countInc h).counts h' = if h' = h then st.counts h + 1 else st.counts h' := by
  simp [State.countInc, Function.update_apply]

@[simp] theorem State.countInc_items : (st.countInc h).items = st.items := rfl
@[simp] theorem State.countInc_lists : (st.countInc h).lists = st.lists := rfl
@[simp] theorem State.countInc_nodes : (st.countInc h).nodes = st.nodes := rfl
@[simp] theorem State.countInc_tables : (st.countInc h).tables = st.tables := rfl

@[simp] theorem State.countDec_counts :
    (st.countDec h).counts h' = if h' = h then st.counts h - 1 else st.counts h' := by
  simp [State.countDec, Function.update_apply]

@[simp] theorem State.countDec_items : (st.countDec h).items = st.items := rfl
@[simp] theorem State.countDec_lists : (st.countDec h).lists = st.lists := rfl
@[simp] theorem State.countDec_nodes : (st.countDec h).nodes = st.nodes := rfl
@[simp] theorem State.countDec_tables : (st.countDec h).tables = st.tables := rfl

@[simp] theorem State.pushHead_items : (st.pushHead h i).items j =
    if j = i then { st.items i with onList := some h } else st.items j := by
  simp [State.pushHead]

/-- An insertion leaves of an item all but where it is. -/
theorem State.pushHead_keeps {α : Type} (read : ItemStruct → α)
    (hr : read { st.items i with onList := some h } = read (st.items i)) :
    read ((st.pushHead h i).items j) = read (st.items j) := by
  rw [State.pushHead_items]
  split
  · next e => rw [e, hr]
  · rfl

@[simp] theorem State.pushHead_lists :
    (st.pushHead h i).lists h' = if h' = h then i :: st.lists h else st.lists h' := by
  simp [State.pushHead]

@[simp] theorem State.pushHead_counts : (st.pushHead h i).counts = st.counts := rfl
@[simp] theorem State.pushHead_nodes : (st.pushHead h i).nodes = st.nodes := rfl
@[simp] theorem State.pushHead_tables : (st.pushHead h i).tables = st.tables := rfl

@[simp] theorem State.pushTail_items : (st.pushTail h i).items j =
    if j = i then { st.items i with onList := some h } else st.items j := by
  simp [State.pushTail]

theorem State.pushTail_keeps {α : Type} (read : ItemStruct → α)
    (hr : read { st.items i with onList := some h } = read (st.items i)) :
    read ((st.pushTail h i).items j) = read (st.items j) := by
  rw [State.pushTail_items]
  split
  · next e => rw [e, hr]
  · rfl

@[simp] theorem State.pushTail_lists :
    (st.pushTail h i).lists h' = if h' = h then st.lists h ++ [i] else st.lists h' := by
  simp [State.pushTail]

@[simp] theorem State.pushTail_counts : (st.pushTail h i).counts = st.counts := rfl
@[simp] theorem State.pushTail_nodes : (st.pushTail h i).nodes = st.nodes := rfl
@[simp] theorem State.pushTail_tables : (st.pushTail h i).tables = st.tables := rfl

end Updates

/-- **What `list_del` does**: an item on a list leaves that list, and nothing else changes. -/
theorem listDel_of {st : State} {i : Item} {h : ListHead} (ho : (st.items i).onList = some h) :
    listDel st i = some ((st.setList h ((st.lists h).erase i)).modItem i
      fun x => { x with onList := none }) := by
  simp [listDel, ho]

/-- The item of a call that returns was on a list, and has left it. -/
theorem listDel_some {st st' : State} {i : Item} (h : listDel st i = some st') :
    ∃ l, (st.items i).onList = some l ∧
      st' = (st.setList l ((st.lists l).erase i)).modItem i fun x => { x with onList := none } := by
  cases ho : (st.items i).onList with
  | none => simp [listDel, ho] at h
  | some l =>
      rw [listDel_of ho, Option.some.injEq] at h
      exact ⟨l, rfl, h.symm⟩

/-- What unlinking leaves of the items. -/
theorem listDel_items {st st' : State} {i : Item} (h : listDel st i = some st') :
    (∀ j, j ≠ i → st'.items j = st.items j) ∧ (st'.items i).onList = none ∧
      (st'.items i).flags = (st.items i).flags ∧ (st'.items i).prev = (st.items i).prev := by
  obtain ⟨l, ho, rfl⟩ := listDel_some h
  simp only [State.modItem_items, State.setList_items]
  exact ⟨fun j hj => if_neg hj, by simp, by simp, by simp⟩

/-! ## 3. Insertion calls -/

/-- A `list_node`: the node of an item, or the head of a list. -/
inductive ListNode where
  | item (i : Item)
  | head (h : ListHead)
  deriving DecidableEq, Repr

/-- How the arguments of an insertion call are read: as written, or with the list as list.h's `list`. -/
inductive Reading where
  | written | listFirst
  deriving DecidableEq, Repr

/-- The call `list_add_head(list, item)`. -/
def listAddHead (r : Reading) (list item : ListNode) (st : State) : Option State :=
  match list, item with
  | .head h, .item i => some (st.pushHead h i)
  | .item i, .head h => if r = .listFirst then some (st.pushHead h i) else none
  | _, _ => none

/-- The call `list_add_tail(list, item)`. -/
def listAddTail (r : Reading) (list item : ListNode) (st : State) : Option State :=
  match list, item with
  | .head h, .item i => some (st.pushTail h i)
  | .item i, .head h => if r = .listFirst then some (st.pushTail h i) else none
  | _, _ => none

/-! ## 4. Links and sequences -/

/-- The sequences and the items' own links agree. -/
structure State.Linked (st : State) : Prop where
  mem : ∀ i h, (st.items i).onList = some h ↔ i ∈ st.lists h
  nodup : ∀ h, (st.lists h).Nodup

/-- `Linked` reads the sequences and the links only. -/
theorem State.Linked.congr {st st' : State} (hL : st.Linked) (hl : st'.lists = st.lists)
    (hi : ∀ i, (st'.items i).onList = (st.items i).onList) : st'.Linked where
  mem i h := by rw [hi, hl]; exact hL.mem i h
  nodup h := by rw [hl]; exact hL.nodup h

/-- An item on no list is none of the items of a list. -/
theorem State.Linked.ne_of_mem {st : State} (hL : st.Linked) {i j : Item} {h : ListHead}
    (hi : (st.items i).onList = none) (hj : j ∈ st.lists h) : j ≠ i := by
  intro e
  have ho := (hL.mem j h).mpr hj
  rw [e, hi] at ho
  cases ho

theorem zeroed_linked : zeroed.Linked where
  mem i h := by simp [zeroed]
  nodup h := List.nodup_nil

/-- Writing flags leaves the links alone. -/
theorem modFlags_onList (st : State) (i j : Item) (f : Word → Word) :
    ((st.modFlags i f).items j).onList = (st.items j).onList :=
  st.modItem_keeps j ItemStruct.onList rfl

theorem modFlags_prev (st : State) (i j : Item) (f : Word → Word) :
    ((st.modFlags i f).items j).prev = (st.items j).prev :=
  st.modItem_keeps j ItemStruct.prev rfl

theorem State.Linked.modFlags {st : State} (hL : st.Linked) (i : Item) (f : Word → Word) :
    (st.modFlags i f).Linked :=
  hL.congr rfl fun j => by rw [State.modFlags_items]; split <;> simp_all

theorem State.Linked.countInc {st : State} (hL : st.Linked) (h : ListHead) :
    (st.countInc h).Linked :=
  hL.congr rfl fun _ => rfl

theorem State.Linked.countDec {st : State} (hL : st.Linked) (h : ListHead) :
    (st.countDec h).Linked :=
  hL.congr rfl fun _ => rfl

theorem State.Linked.pushHead {st : State} (hL : st.Linked) {i : Item}
    (hi : (st.items i).onList = none) (h : ListHead) : (st.pushHead h i).Linked where
  mem j k := by
    have hm := hL.mem j k
    rw [State.pushHead_items, State.pushHead_lists]
    by_cases hj : j = i
    · subst hj
      rw [hi] at hm
      by_cases hk : k = h
      · simp [hk]
      · have : j ∉ st.lists k := fun hmem => by simpa using hm.mpr hmem
        simp [hk, this, Ne.symm hk]
    · by_cases hk : k = h
      · subst hk; simpa [hj] using hm
      · simpa [hj, hk] using hm
  nodup k := by
    rw [State.pushHead_lists]
    by_cases hk : k = h
    · subst hk
      have : i ∉ st.lists k := fun hmem => by simpa [hi] using (hL.mem i k).mpr hmem
      simpa [this] using hL.nodup k
    · simpa [hk] using hL.nodup k

theorem State.Linked.pushTail {st : State} (hL : st.Linked) {i : Item}
    (hi : (st.items i).onList = none) (h : ListHead) : (st.pushTail h i).Linked where
  mem j k := by
    have hm := (hL.pushHead hi h).mem j k
    rw [State.pushHead_items, State.pushHead_lists] at hm
    rw [State.pushTail_items, State.pushTail_lists]
    by_cases hk : k = h
    · simpa [hk, or_comm] using hm
    · simpa [hk] using hm
  nodup k := by
    have hn := (hL.pushHead hi h).nodup k
    rw [State.pushHead_lists] at hn
    rw [State.pushTail_lists]
    by_cases hk : k = h
    · rw [if_pos hk] at hn ⊢
      exact (List.perm_append_singleton i _).nodup_iff.mpr hn
    · rw [if_neg hk] at hn ⊢
      exact hn

/-- **Unlinking keeps the agreement**: `st'` is `st` with `i` off its list. -/
theorem State.Linked.listDel {st st' : State} (hL : st.Linked) {i : Item}
    (h : listDel st i = some st') : st'.Linked := by
  obtain ⟨k, ho, rfl⟩ := listDel_some h
  have hnd := hL.nodup k
  refine ⟨fun j k' => ?_, fun k' => ?_⟩
  · have hm := hL.mem j k'
    simp only [State.modItem_items, State.modItem_lists, State.setList_items,
      State.setList_lists]
    by_cases hj : j = i
    · subst hj
      by_cases hk : k' = k
      · subst hk; simp [hnd.mem_erase_iff]
      · have : j ∉ st.lists k' := fun hmem => hk (by
          have := (hL.mem j k').mpr hmem
          rw [ho] at this
          exact (Option.some.inj this).symm)
        simp [hk, this]
    · by_cases hk : k' = k
      · subst hk; simp [hj, hnd.mem_erase_iff, hm]
      · simp [hj, hk, hm]
  · simp only [State.modItem_lists, State.setList_lists]
    split
    · exact hnd.erase i
    · exact hL.nodup k'

/-- The globals with one item on one list. -/
def oneBlock (h : ListHead) (i : Item) : State := (zeroed.pushTail h i).countInc h

theorem oneBlock_linked (h : ListHead) (i : Item) : (oneBlock h i).Linked :=
  (zeroed_linked.pushTail rfl h).countInc h

theorem oneBlock_lists (h h' : ListHead) (i : Item) :
    (oneBlock h i).lists h' = if h' = h then [i] else [] := by
  simp [oneBlock, zeroed]

theorem oneBlock_counts (h h' : ListHead) (i : Item) :
    (oneBlock h i).counts h' = if h' = h then 1 else 0 := by
  simp [oneBlock, zeroed]

end TensorAlloc
