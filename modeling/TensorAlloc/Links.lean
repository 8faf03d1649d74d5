/-
  File:      TensorAlloc/Links.lean
  Subject:   `list.h` at its pointers: the lists of the allocator as rings, and what the insertion
             calls, as they stand, do to them.

  * `Ptr.listAddHead`, `Ptr.listAddTail`, `Ptr.listDel`, `Ptr.listDelete` -- the assignments of
    list.h, a write through NULL being a fault;
  * `GoodList` -- the ring of a head: its nodes are as many as the counter says;
  * `listAddHead_swapped` -- with the item's own node as `list` the call does not return;
  * `ListStep` -- the initialisations, the insertions with their counters, site by site, and
    `list_del`; `listStep_keeps_iff` says which of them keep a list good;
  * `Represents` -- the pointers under a `State`; `listAddHead_simulates`, `listAddTail_simulates`,
    `listDel_simulates` -- the calls on sequences, read as written, are the calls on pointers.
-/
import TensorAlloc.Base.LinkedRing
import TensorAlloc.State

namespace TensorAlloc

open LinkedRing

/-! ## 1. list.h -/

/-- The nodes' pointers. -/
abbrev Ptrs := Links ListNode

/-- `init_list_node`. -/
def Ptr.initListNode (L : Ptrs) (node : ListNode) : Ptrs := (L.setNext node none).setPrev node none

def Ptr.listInList (L : Ptrs) (item : ListNode) : Bool :=
  !(decide (L.prev item = none) && decide (L.next item = none))

def Ptr.listAddHead (L : Ptrs) (list item : ListNode) : Option Ptrs := do
  let L := L.setNext item (L.next list)
  let L := L.setPrev item (some list)
  let L := L.setPrev (← L.next list) (some item)
  pure (L.setNext list (some item))

def Ptr.listAddTail (L : Ptrs) (list item : ListNode) : Option Ptrs := do
  let L := L.setPrev item (L.prev list)
  let L := L.setNext item (some list)
  let L := L.setNext (← L.prev list) (some item)
  pure (L.setPrev list (some item))

def Ptr.listDel (L : Ptrs) (node : ListNode) : Option Ptrs := do
  let L := L.setNext (← L.prev node) (L.next node)
  let L := L.setPrev (← L.next node) (L.prev node)
  pure ((L.setNext node none).setPrev node none)

def Ptr.listDelete (L : Ptrs) (item : ListNode) : Option Ptrs := do
  let L := L.setPrev (← L.next item) (L.prev item)
  let L := L.setNext (← L.prev item) (L.next item)
  pure ((L.setNext item none).setPrev item none)

theorem Ptr.listAddHead_eq : Ptr.listAddHead = insertAfter := rfl

theorem Ptr.listAddTail_eq : Ptr.listAddTail = insertBefore := rfl

theorem Ptr.listDel_eq : Ptr.listDel = unlink := rfl

/-- `list_delete` makes the assignments of `list_del` in another order. -/
theorem Ptr.listDelete_eq (L : Ptrs) (item : ListNode) :
    Ptr.listDelete L item = Ptr.listDel L item := by
  -- each reads the other pointer of the item after its first write, which left it alone
  unfold Ptr.listDelete Ptr.listDel
  simp only [Links.setPrev_prev, Links.setPrev_next, Links.setNext_prev, Links.setNext_next,
    ite_self]
  cases L.next item <;> cases L.prev item <;> rfl

/-- **The item's own node as `list`**: unlinked, it is read through NULL. -/
theorem listAddHead_swapped {L : Ptrs} {i : Item} (h : ListHead) (hi : L.next (.item i) = none) :
    Ptr.listAddHead L (.item i) (.head h) = none :=
  insertAfter_unlinked (fun e => nomatch e) hi

theorem listAddTail_swapped {L : Ptrs} {i : Item} (h : ListHead) (hi : L.prev (.item i) = none) :
    Ptr.listAddTail L (.item i) (.head h) = none :=
  insertBefore_unlinked (fun e => nomatch e) hi

/-- **A head that `init_list_node` set up**: list first too, its link is read as NULL. -/
theorem listAddTail_nullHead {L : Ptrs} {h : ListHead} {i : Item} (hh : L.prev (.head h) = none) :
    Ptr.listAddTail L (.head h) (.item i) = none :=
  insertBefore_unlinked (fun e => nomatch e) hh

/-! ## 2. Good lists -/

/-- The pointers and the counters. -/
structure Heap where
  links : Ptrs
  counts : ListHead → Word

/-- A descriptor lies in the 64-bit address space. -/
def Addressable (i : Item) : Prop := (i + 1) * itemStructSize ≤ 2 ^ 64

/-- **A good list**: `next` visits the items of `l` from the head and comes back, `prev` goes the
    other way, and the counter counts them. -/
structure GoodList (p : Heap) (h : ListHead) (l : List Item) : Prop where
  ring : Ring p.links (.head h) (l.map .item)
  count : l.length = (p.counts h).toNat
  items : ∀ i ∈ l, Addressable i

/-- Both pointers NULL. -/
def Unlinked (p : Heap) (i : Item) : Prop :=
  p.links.prev (.item i) = none ∧ p.links.next (.item i) = none

def Heap.countInc (p : Heap) (h : ListHead) : Heap :=
  { p with counts := Function.update p.counts h (p.counts h + 1) }

def Heap.countDec (p : Heap) (h : ListHead) : Heap :=
  { p with counts := Function.update p.counts h (p.counts h - 1) }

theorem Heap.countInc_self (p : Heap) (h : ListHead) : (p.countInc h).counts h = p.counts h + 1 :=
  Function.update_self h _ _

theorem Heap.countDec_self (p : Heap) (h : ListHead) : (p.countDec h).counts h = p.counts h - 1 :=
  Function.update_self h _ _

/-! ## 3. The steps -/

/-- The insertions: `free_group_migration` has one at the tail and one at the head. -/
inductive InsertSite where
  | initPnodeItem | split2GroupMigration | freeGroupMigrationTail | freeGroupMigrationHead
  | refillSparseTable | findGroupReversed
  deriving DecidableEq, Repr

/-- Each insertion as it is called. -/
def InsertSite.insert (L : Ptrs) (temp : ListHead) (item : Item) : InsertSite → Option Ptrs
  | .initPnodeItem => Ptr.listAddTail L (.item item) (.head temp)
  | .split2GroupMigration => Ptr.listAddHead L (.head temp) (.item item)
  | .freeGroupMigrationTail => Ptr.listAddTail L (.item item) (.head temp)
  | .freeGroupMigrationHead => Ptr.listAddHead L (.item item) (.head temp)
  | .refillSparseTable => Ptr.listAddHead L (.head temp) (.item item)
  | .findGroupReversed => Ptr.listAddHead L (.item item) (.head temp)

/-- What touches a list: its initialisation, an insertion or `list_del` with the counter. -/
inductive ListStep where
  | initFreeGroupList (group : Group)
  | initFreeNodeList (node : NodeRef)
  | insert (site : InsertSite) (temp : ListHead) (item : Item)
  | delete (temp : ListHead) (item : Item)
  deriving DecidableEq, Repr

/-- `init_list_node` and a zero count, for every head of a kind. -/
def Heap.resetLists (p : Heap) (q : ListHead → Bool) : Heap where
  links :=
    { prev := fun
        | .head h => (if q h then Ptr.initListNode p.links (.head h) else p.links).prev (.head h)
        | n => p.links.prev n
      next := fun
        | .head h => (if q h then Ptr.initListNode p.links (.head h) else p.links).next (.head h)
        | n => p.links.next n }
  counts h := if q h then 0#64 else p.counts h

def ListStep.run (p : Heap) : ListStep → Option Heap
  | .initFreeGroupList group => some <| p.resetLists fun
      | .groupCell g _ order => decide (g = group ∧ order < maxIdxNum)
      | _ => false
  | .initFreeNodeList node => some <| p.resetLists fun
      | .lruCacheCell n cpu => decide (n = node ∧ cpu < nodeLvlNum)
      | _ => false
  | .insert site temp item => (site.insert p.links temp item).map fun L =>
      Heap.countInc ⟨L, p.counts⟩ temp
  | .delete temp item => (Ptr.listDel p.links (.item item)).map fun L =>
      Heap.countDec ⟨L, p.counts⟩ temp

/-- Where a step stands: an insertion has a good list and an unlinked item, `list_del` a member. -/
def ListStep.Applies (p : Heap) : ListStep → Prop
  | .initFreeGroupList _ | .initFreeNodeList _ => True
  | .insert _ temp item => (∃ l, GoodList p temp l) ∧ Unlinked p item ∧ Addressable item
  | .delete temp item => ∃ l, GoodList p temp l ∧ item ∈ l

/-- **What a step should do**: make every list good, add the item, take it away. -/
def ListStep.Keeps (p : Heap) (s : ListStep) : Prop :=
  match s with
  | .initFreeGroupList group => ∀ migration order, order ≤ maxIdxNum →
      ∃ p' l, s.run p = some p' ∧ GoodList p' (.groupCell group migration order) l
  | .initFreeNodeList node => ∀ cpu, cpu < nodeLvlNum →
      ∃ p' l, s.run p = some p' ∧ GoodList p' (.lruCacheCell node cpu) l
  | .insert _ temp item => ∀ l, GoodList p temp l →
      ∃ p' l', s.run p = some p' ∧ GoodList p' temp l' ∧ l'.Perm (item :: l)
  | .delete temp item => ∀ l, GoodList p temp l → item ∈ l →
      ∃ p', s.run p = some p' ∧ GoodList p' temp (l.erase item)

/-- The insertions that pass the list first, and `list_del`. -/
def ListStep.listFirst : ListStep → Bool
  | .insert .split2GroupMigration _ _ | .insert .refillSparseTable _ _ | .delete _ _ => true
  | _ => false

/-! ## 4. Which steps keep a list good -/

section Steps

variable {p : Heap} {temp : ListHead} {item : Item} {l : List Item}

/-- A ring needs its head linked. -/
theorem GoodList.head_next (h : GoodList p temp l) : p.links.next (.head temp) ≠ none :=
  fun hn => h.ring.not_mem hn List.mem_cons_self

/-- Distinct descriptors are fewer than a counter can count. -/
theorem length_lt_of_addressable (hnd : l.Nodup) (hl : ∀ i ∈ l, Addressable i) :
    l.length + 1 < 2 ^ 64 := by
  have hbound : ∀ n : Nat, (n + 1) * 72 ≤ 2 ^ 64 → n < 2 ^ 58 := by omega
  have hsub : l ⊆ List.range (2 ^ 58) := fun i hi => List.mem_range.mpr (hbound i (hl i hi))
  have hlen := (List.subperm_of_subset hnd hsub).length_le
  rw [List.length_range] at hlen
  omega

theorem GoodList.nodup (h : GoodList p temp l) : l.Nodup :=
  List.Nodup.of_map _ (List.nodup_cons.mp h.ring.nodup).2

/-- **An insertion with the list first**: the item is added and counted. -/
theorem GoodList.add_first (h : GoodList p temp l) (hu : Unlinked p item) (ha : Addressable item) :
    ∃ L', Ptr.listAddHead p.links (.head temp) (.item item) = some L' ∧
      GoodList (Heap.countInc ⟨L', p.counts⟩ temp) temp (item :: l) := by
  obtain ⟨L', hrun, hring, -⟩ := h.ring.insertAfter (h.ring.not_mem hu.2)
  rw [Ptr.listAddHead_eq]
  refine ⟨L', hrun, hring, ?_, fun i hi => ?_⟩
  · have hlt := length_lt_of_addressable h.nodup h.items
    rw [h.count] at hlt
    rw [Heap.countInc_self, BitVec.toNat_add, List.length_cons, h.count]
    exact (Nat.mod_eq_of_lt hlt).symm
  · rcases List.mem_cons.mp hi with rfl | hi
    · exact ha
    · exact h.items i hi

/-- **`list_del` of a member**: the item is taken away and uncounted. -/
theorem GoodList.remove (h : GoodList p temp l) (hi : item ∈ l) :
    ∃ L', Ptr.listDel p.links (.item item) = some L' ∧
      GoodList (Heap.countDec ⟨L', p.counts⟩ temp) temp (l.erase item) := by
  obtain ⟨L', hrun, hring, -⟩ := h.ring.unlink (List.mem_map_of_mem hi)
  rw [← List.map_erase (fun a b e => ListNode.item.inj e)] at hring
  refine ⟨L', hrun, hring, ?_, fun i hm => h.items i (List.mem_of_mem_erase hm)⟩
  have hpos : 0 < l.length := List.length_pos_of_mem hi
  rw [h.count] at hpos
  have hlt := (p.counts temp).isLt
  have hone : (1 : Word).toNat = 1 := rfl
  rw [Heap.countDec_self, List.length_erase_of_mem hi, BitVec.toNat_sub, h.count, hone]
  dsimp only
  omega

/-- The insertions that pass the item first do not return. -/
theorem insert_swapped (site : InsertSite) (hu : Unlinked p item)
    (hs : (ListStep.insert site temp item).listFirst = false) :
    site.insert p.links temp item = none := by
  cases site with
  | split2GroupMigration | refillSparseTable => cases hs
  | initPnodeItem | freeGroupMigrationTail => exact listAddTail_swapped temp hu.1
  | freeGroupMigrationHead | findGroupReversed => exact listAddHead_swapped temp hu.2

/-- `init_list_node` leaves the head without pointers, where `list_is_empty` expects its own. -/
theorem resetLists_not_good {q : ListHead → Bool} (hq : q temp = true) :
    ¬ GoodList (p.resetLists q) temp l := by
  intro h
  refine h.head_next ?_
  show (if q temp then Ptr.initListNode p.links (.head temp) else p.links).next (.head temp) = none
  rw [if_pos hq, Ptr.initListNode, Links.setPrev_next, Links.setNext_next, if_pos rfl]

/-- **Which steps keep a list good**: the insertions of `split2_group_migration` and
    `refill_sparse_table` and `list_del`, from any good list; none of the others, from any. -/
theorem listStep_keeps_iff (s : ListStep) (p : Heap) (hs : s.Applies p) :
    s.Keeps p ↔ s.listFirst = true := by
  cases s with
  | initFreeGroupList group =>
      refine ⟨fun h => ?_, fun h => nomatch h⟩
      obtain ⟨p', l, hrun, hgood⟩ := h .movable 0 (Nat.zero_le _)
      rw [← Option.some.inj hrun] at hgood
      exact absurd hgood (resetLists_not_good (by simp))
  | initFreeNodeList node =>
      refine ⟨fun h => ?_, fun h => nomatch h⟩
      obtain ⟨p', l, hrun, hgood⟩ := h 0 (by decide)
      rw [← Option.some.inj hrun] at hgood
      exact absurd hgood (resetLists_not_good (by simp; decide))
  | insert site temp item =>
      obtain ⟨⟨l, hgood⟩, hu, ha⟩ := hs
      constructor
      · intro h
        by_contra hsw
        obtain ⟨p', l', hrun, -⟩ := h l hgood
        rw [ListStep.run, insert_swapped _ hu (Bool.eq_false_of_not_eq_true hsw)] at hrun
        cases hrun
      · intro hfirst l hgood
        obtain ⟨L', hrun, hadd⟩ := hgood.add_first hu ha
        refine ⟨_, item :: l, ?_, hadd, List.Perm.refl _⟩
        cases site with
        | split2GroupMigration | refillSparseTable =>
            rw [ListStep.run, InsertSite.insert, hrun, Option.map_some]
        | initPnodeItem | freeGroupMigrationTail | freeGroupMigrationHead | findGroupReversed =>
            cases hfirst
  | delete temp item =>
      refine ⟨fun _ => rfl, fun _ l hgood hi => ?_⟩
      obtain ⟨L', hrun, hgone⟩ := hgood.remove hi
      exact ⟨_, by rw [ListStep.run, hrun, Option.map_some], hgone⟩

end Steps

/-- Every head linked to itself, every item unlinked. -/
def emptyRings : Heap where
  links :=
    { prev := fun | .head h => some (.head h) | .item _ => none
      next := fun | .head h => some (.head h) | .item _ => none }
  counts _ := 0#64

theorem emptyRings_good (h : ListHead) : GoodList emptyRings h [] where
  ring := ⟨List.nodup_singleton _, List.isChain_cons_cons.mpr ⟨⟨rfl, rfl⟩, .singleton _⟩⟩
  count := rfl
  items _ hi := absurd hi List.not_mem_nil

/-- A block split off in group 3 of node 16. -/
theorem listStep_keeps_split :
    (ListStep.insert .split2GroupMigration (.groupCell (.phy 16 3) .movable 0) 5).Keeps emptyRings :=
  (listStep_keeps_iff (.insert .split2GroupMigration (.groupCell (.phy 16 3) .movable 0) 5) emptyRings
    ⟨⟨[], emptyRings_good _⟩, ⟨rfl, rfl⟩, by unfold Addressable; decide⟩).mpr rfl

/-- The initialised lists of group 3 of node 16 are not good, and into a good list of it
    `free_group_migration` cannot put an unlinked block. -/
theorem emptyRings_broken :
    ¬ (ListStep.initFreeGroupList (.phy 16 3)).Keeps emptyRings ∧
      ¬ (ListStep.insert .freeGroupMigrationHead (.groupCell (.phy 16 3) .movable 0) 5).Keeps
        emptyRings := by
  refine ⟨fun h => ?_, fun h => ?_⟩
  · obtain ⟨p', l, hrun, hgood⟩ := h .movable 0 (Nat.zero_le _)
    rw [← Option.some.inj hrun] at hgood
    exact resetLists_not_good (by simp) hgood
  · obtain ⟨p', l', hrun, -⟩ := h [] (emptyRings_good _)
    rw [ListStep.run, insert_swapped .freeGroupMigrationHead ⟨rfl, rfl⟩ rfl] at hrun
    cases hrun

/-! ## 5. The pointers under a state -/

/-- **The pointers say what the sequences say**: a ring for every list, NULL for the rest. -/
structure Represents (L : Ptrs) (st : State) : Prop where
  rings : ∀ h, Ring L (.head h) ((st.lists h).map .item)
  unlinked : ∀ i, (st.items i).onList = none → L.prev (.item i) = none ∧ L.next (.item i) = none

section Simulation

variable {L L' : Ptrs} {st st' : State} {i : Item} {h : ListHead}

theorem item_mem {l : List Item} : ListNode.item i ∈ ListNode.head h :: l.map .item ↔ i ∈ l := by
  simp

/-- `list_in_list` asks whether the item is on a list. -/
theorem listInList_eq (hR : Represents L st) (hL : st.Linked) :
    Ptr.listInList L (.item i) = (st.items i).onList.isSome := by
  unfold Ptr.listInList
  cases ho : (st.items i).onList with
  | none =>
      obtain ⟨hp, hn⟩ := hR.unlinked i ho
      rw [hp, hn]
      rfl
  | some h =>
      obtain ⟨c, hc⟩ := (hR.rings h).next_some (item_mem.mpr ((hL.mem i h).mp ho))
      rw [hc]
      simp

/-- A node of another ring keeps its pointers. -/
theorem Represents.other_ring (hR : Represents L st) (hL : st.Linked)
    (hoff : SameOff L L' (.head h) (.item i) ((st.lists h).map .item)) {k : ListHead} (hk : k ≠ h)
    (hi : i ∉ st.lists k) : Ring L' (.head k) ((st.lists k).map .item) := by
  have hsame : ∀ y ∈ ListNode.head k :: (st.lists k).map .item,
      L'.next y = L.next y ∧ L'.prev y = L.prev y := by
    intro y hy
    refine hoff y (fun hm => ?_) fun e => ?_
    · rcases List.mem_cons.mp hy with rfl | hy
      · simp [hk] at hm
      · obtain ⟨j, hj, rfl⟩ := List.mem_map.mp hy
        have hjh := (hL.mem j h).mpr (item_mem.mp hm)
        rw [(hL.mem j k).mpr hj] at hjh
        exact hk (Option.some.inj hjh)
    · subst e
      exact hi (item_mem.mp hy)
  exact (hR.rings k).congr (fun y hy => (hsame y hy).1) fun y hy => (hsame y hy).2

/-- An unlinked item keeps its NULL pointers. -/
theorem Represents.other_unlinked (hR : Represents L st) (hL : st.Linked)
    (hoff : SameOff L L' (.head h) (.item i) ((st.lists h).map .item)) {j : Item} (hj : j ≠ i)
    (ho : (st.items j).onList = none) : L'.prev (.item j) = none ∧ L'.next (.item j) = none := by
  have hsame := hoff (.item j) (fun hm => by
    have := (hL.mem j h).mpr (item_mem.mp hm)
    rw [ho] at this
    cases this) fun e => hj (ListNode.item.inj e)
  rw [hsame.1, hsame.2]
  exact hR.unlinked j ho

/-- A state whose list `h` has the unlinked item more, over pointers whose ring has it. -/
theorem Represents.pushed (hR : Represents L st) (hL : st.Linked) (hi : (st.items i).onList = none)
    (hoff : SameOff L L' (.head h) (.item i) ((st.lists h).map .item))
    (hring : Ring L' (.head h) ((st'.lists h).map .item))
    (hlists : ∀ k, k ≠ h → st'.lists k = st.lists k)
    (hon : ∀ j, (st'.items j).onList = if j = i then some h else (st.items j).onList) :
    Represents L' st' := by
  refine ⟨fun k => ?_, fun j hj => ?_⟩
  · by_cases hk : k = h
    · exact hk ▸ hring
    · rw [hlists k hk]
      refine hR.other_ring hL hoff hk fun hm => ?_
      have := (hL.mem i k).mpr hm
      rw [hi] at this
      cases this
  · rw [hon] at hj
    by_cases hji : j = i
    · rw [if_pos hji] at hj
      cases hj
    · rw [if_neg hji] at hj
      exact hR.other_unlinked hL hoff hji hj

/-- **`list_add_head` on an unlinked item**: read as written, the call on the sequences is the call
    on the pointers, whichever way round its arguments are. -/
theorem listAddHead_simulates (hR : Represents L st) (hL : st.Linked)
    (hi : (st.items i).onList = none) :
    (∃ L' st', Ptr.listAddHead L (.head h) (.item i) = some L' ∧
      listAddHead .written (.head h) (.item i) st = some st' ∧ Represents L' st') ∧
    Ptr.listAddHead L (.item i) (.head h) = none ∧
      listAddHead .written (.item i) (.head h) st = none := by
  obtain ⟨hp, hn⟩ := hR.unlinked i hi
  refine ⟨?_, listAddHead_swapped h hn, rfl⟩
  obtain ⟨L', hrun, hring, hoff⟩ := (hR.rings h).insertAfter ((hR.rings h).not_mem hn)
  refine ⟨L', st.pushHead h i, hrun, rfl, hR.pushed hL hi hoff ?_ (fun k hk => ?_) fun j => ?_⟩
  · rw [State.pushHead_lists, if_pos rfl]
    exact hring
  · rw [State.pushHead_lists, if_neg hk]
  · rw [State.pushHead_items]
    split <;> rfl

/-- **`list_add_tail` on an unlinked item.** -/
theorem listAddTail_simulates (hR : Represents L st) (hL : st.Linked)
    (hi : (st.items i).onList = none) :
    (∃ L' st', Ptr.listAddTail L (.head h) (.item i) = some L' ∧
      listAddTail .written (.head h) (.item i) st = some st' ∧ Represents L' st') ∧
    Ptr.listAddTail L (.item i) (.head h) = none ∧
      listAddTail .written (.item i) (.head h) st = none := by
  obtain ⟨hp, hn⟩ := hR.unlinked i hi
  refine ⟨?_, listAddTail_swapped h hp, rfl⟩
  obtain ⟨L', hrun, hring, hoff⟩ := (hR.rings h).insertBefore ((hR.rings h).not_mem hn)
  rw [Ptr.listAddTail_eq]
  refine ⟨L', st.pushTail h i, hrun, rfl, hR.pushed hL hi hoff ?_ (fun k hk => ?_) fun j => ?_⟩
  · rw [State.pushTail_lists, if_pos rfl, List.map_append]
    exact hring
  · rw [State.pushTail_lists, if_neg hk]
  · rw [State.pushTail_items]
    split <;> rfl

/-- **`list_del`**: the call on the sequences is the call on the pointers, of a linked item and of an
    unlinked one. -/
theorem listDel_simulates (hR : Represents L st) (hL : st.Linked) :
    Option.Rel Represents (Ptr.listDel L (.item i)) (listDel st i) := by
  cases ho : (st.items i).onList with
  | none =>
      have hdel : listDel st i = none := by
        unfold listDel
        rw [ho]
      rw [hdel, Ptr.listDel_eq, unlink_unlinked (hR.unlinked i ho).1]
      exact .none
  | some h =>
      obtain ⟨L', hrun, hring, hnext, hprev, hoff⟩ :=
        (hR.rings h).unlink (List.mem_map_of_mem ((hL.mem i h).mp ho))
      rw [← List.map_erase (fun a b e => ListNode.item.inj e)] at hring
      rw [Ptr.listDel_eq, hrun, listDel_of ho]
      refine .some ⟨fun k => ?_, fun j hj => ?_⟩
      · rw [State.modItem_lists, State.setList_lists]
        by_cases hk : k = h
        · rw [if_pos hk]
          exact hk ▸ hring
        · rw [if_neg hk]
          refine hR.other_ring hL hoff hk fun hm => hk ?_
          have := (hL.mem i k).mpr hm
          rw [ho] at this
          exact (Option.some.inj this).symm
      · by_cases hji : j = i
        · exact hji ▸ ⟨hprev, hnext⟩
        · rw [State.modItem_items, if_neg hji] at hj
          exact hR.other_unlinked hL hoff hji hj

end Simulation

end TensorAlloc
