/-
  File:      TensorAlloc/ListWalk.lean
  Subject:   The rest of list.h at its pointers: what reads a list, what takes off its ends, the loops
             over it, and `find_index_item`.

  * `Ptr.listPeekHead` .. `Ptr.findIndexItem` -- as list.h and the allocator have them;
  * `ListCall` -- a call of list.h, on the pointers (`ptrCall`) and on the sequences (`seqCall`);
  * `list_calls_refine` -- in every run of calls the two give the same answers, and the pointers stay
    those of the sequences;
  * `list_loops_delete` -- the four kinds of loop whose body takes entries off: the safe ones visit every
    entry, one of the others stops at the first one taken off, the last reads through NULL.
-/
import Mathlib.Data.List.TakeWhile
import TensorAlloc.Base.RingWalk
import TensorAlloc.Borrow
import TensorAlloc.Links

namespace TensorAlloc

open LinkedRing

/-! ## 1. list.h -/

section Reads

variable (L : Ptrs) (list node item : ListNode)

def Ptr.listIsEmpty : Bool := decide (L.next list = some list)

def Ptr.listPeekHead : Option ListNode := if L.next list ≠ some list then L.next list else none

def Ptr.listPeekTail : Option ListNode := if L.prev list ≠ some list then L.prev list else none

def Ptr.listNext : Option ListNode := if L.next item ≠ some list then L.next item else none

def Ptr.listPrev : Option ListNode := if L.prev item ≠ some list then L.prev item else none

/-- `list_next_wrap`; `none` is a read through NULL. -/
def Ptr.listNextWrap : Option (Option ListNode) :=
  if L.next item ≠ some list then some (L.next item)
  else do
    let after ← L.next item
    pure (if L.next after ≠ some list then L.next after else none)

/-- `list_prev_wrap`. -/
def Ptr.listPrevWrap : Option (Option ListNode) :=
  if L.prev item ≠ some list then some (L.prev item)
  else do
    let before ← L.prev item
    pure (if L.prev before ≠ some list then L.prev before else none)

def Ptr.listIsHead : Bool := decide (L.next list = some node)

def Ptr.listIsTail : Bool := decide (L.prev list = some node)

def Ptr.listPeekNextNoCheck : Option ListNode := if some node = L.prev list then none else L.next node

def Ptr.listPeekPrevNoCheck : Option ListNode := if some node = L.next list then none else L.prev node

def Ptr.listPeekNext (node : Option ListNode) : Option ListNode :=
  match node with
  | some node => Ptr.listPeekNextNoCheck L list node
  | none => none

def Ptr.listPeekPrev (node : Option ListNode) : Option ListNode :=
  match node with
  | some node => Ptr.listPeekPrevNoCheck L list node
  | none => none

/-- `list_remove_head`: the pointers, and the node or NULL. -/
def Ptr.listRemoveHead : Option (Ptrs × Option ListNode) :=
  if L.next list ≠ some list then do
    let item ← L.next list
    let L ← Ptr.listDelete L item
    pure (L, some item)
  else some (L, none)

/-- `list_remove_tail`. -/
def Ptr.listRemoveTail : Option (Ptrs × Option ListNode) :=
  if L.prev list ≠ some list then do
    let item ← L.prev list
    let L ← Ptr.listDelete L item
    pure (L, some item)
  else some (L, none)

end Reads

section Loops

variable {σ : Type} (links : σ → Ptrs) (body : σ → ListNode → Option σ) (list : ListNode) (n : Nat) (s : σ)

/-- `list_for_each_node`, and `list_for_each_entry_list` over the entries. At most `n` rounds, as every
    loop here. -/
def Ptr.listForEachNode : Option σ := walk links body list n s (Ptr.listPeekHead (links s) list)

/-- `list_for_each_entry_safe`. -/
def Ptr.listForEachEntrySafe : Option σ :=
  let cn := Ptr.listPeekHead (links s) list
  walkSafe links body list n s cn (Ptr.listPeekNext (links s) list cn)

/-- `list_for_each_entry_inverted`: `prev` for `next`. -/
def Ptr.listForEachEntryInverted : Option σ :=
  walk (fun s => (links s).mirror) body list n s (Ptr.listPeekTail (links s) list)

/-- `list_for_every`, and `list_for_every_entry`. -/
def Ptr.listForEvery : Option σ := cycle links body list n s ((links s).next list)

/-- `list_for_every_safe`. -/
def Ptr.listForEverySafe : Option σ := do
  let node ← (links s).next list
  cycleSafe links body list n s (some node) ((links s).next node)

end Loops

/-- `list_length`: `cnt++` for every node. -/
def Ptr.listLength (L : Ptrs) (list : ListNode) (n : Nat) : Option Word :=
  (Ptr.listForEvery Prod.fst (fun s _ => some (s.1, s.2 + 1)) list n (L, 0#64)).map Prod.snd

/-- The loop of `list_search`. -/
def Ptr.searchLoop (L : Ptrs) (list : ListNode) (compare : ListNode → Bool) :
    Nat → Option ListNode → Option (Option ListNode)
  | _, none => some none
  | 0, some _ => none
  | n + 1, some node =>
      if compare node then some (some node)
      else Ptr.searchLoop L list compare n (Ptr.listPeekNext L list (some node))

/-- `list_search`, `compare` with the key given. -/
def Ptr.listSearch (L : Ptrs) (list : ListNode) (compare : ListNode → Bool) (n : Nat) :
    Option (Option ListNode) :=
  Ptr.searchLoop L list compare n (Ptr.listPeekHead L list)

/-- The loop of `find_index_item`. -/
def Ptr.indexLoop (L : Ptrs) (list : ListNode) (index : Int) :
    Nat → Int → Option ListNode → Option (Option ListNode)
  | _, _, none => some none
  | 0, _, some _ => none
  | n + 1, i, some node =>
      if i = index then some (some node)
      else Ptr.indexLoop L list index n (i + 1) (Ptr.listPeekNext L list (some node))

/-- `find_index_item`. -/
def Ptr.findIndexItem (L : Ptrs) (list : ListNode) (index : Int) (n : Nat) : Option (Option ListNode) :=
  Ptr.indexLoop L list index n 0 (Ptr.listPeekHead L list)

/-! ## 2. Calls -/

/-- A call of list.h on a list of the allocator. -/
inductive ListCall where
  | addHead (list : ListHead) (item : Item)
  | addTail (list : ListHead) (item : Item)
  | del (item : Item)
  | removeHead (list : ListHead)
  | removeTail (list : ListHead)
  | inList (item : Item)
  | isEmpty (list : ListHead)
  | isHead (list : ListHead) (item : Item)
  | isTail (list : ListHead) (item : Item)
  | peekHead (list : ListHead)
  | peekTail (list : ListHead)
  | next (list : ListHead) (item : Item)
  | prev (list : ListHead) (item : Item)
  | nextWrap (list : ListHead) (item : Item)
  | prevWrap (list : ListHead) (item : Item)
  | peekNext (list : ListHead) (item : Item)
  | peekPrev (list : ListHead) (item : Item)
  | length (list : ListHead)
  | search (list : ListHead) (compare : ListNode → Bool)
  | findIndex (list : ListHead) (index : Int)

/-- What a call answers. -/
inductive ListAnswer where
  | done
  | flag (b : Bool)
  | node (node : Option ListNode)
  | count (n : Word)
  deriving DecidableEq, Repr

/-- The call on the pointers, its loops of at most `n` rounds. -/
def ptrCall (n : Nat) (L : Ptrs) : ListCall → Option (Ptrs × ListAnswer)
  | .addHead h i => (Ptr.listAddHead L (.head h) (.item i)).map (·, .done)
  | .addTail h i => (Ptr.listAddTail L (.head h) (.item i)).map (·, .done)
  | .del i => (Ptr.listDel L (.item i)).map (·, .done)
  | .removeHead h => (Ptr.listRemoveHead L (.head h)).map fun r => (r.1, .node r.2)
  | .removeTail h => (Ptr.listRemoveTail L (.head h)).map fun r => (r.1, .node r.2)
  | .inList i => some (L, .flag (Ptr.listInList L (.item i)))
  | .isEmpty h => some (L, .flag (Ptr.listIsEmpty L (.head h)))
  | .isHead h i => some (L, .flag (Ptr.listIsHead L (.head h) (.item i)))
  | .isTail h i => some (L, .flag (Ptr.listIsTail L (.head h) (.item i)))
  | .peekHead h => some (L, .node (Ptr.listPeekHead L (.head h)))
  | .peekTail h => some (L, .node (Ptr.listPeekTail L (.head h)))
  | .next h i => some (L, .node (Ptr.listNext L (.head h) (.item i)))
  | .prev h i => some (L, .node (Ptr.listPrev L (.head h) (.item i)))
  | .nextWrap h i => (Ptr.listNextWrap L (.head h) (.item i)).map fun r => (L, .node r)
  | .prevWrap h i => (Ptr.listPrevWrap L (.head h) (.item i)).map fun r => (L, .node r)
  | .peekNext h i => some (L, .node (Ptr.listPeekNext L (.head h) (some (.item i))))
  | .peekPrev h i => some (L, .node (Ptr.listPeekPrev L (.head h) (some (.item i))))
  | .length h => (Ptr.listLength L (.head h) n).map fun r => (L, .count r)
  | .search h compare => (Ptr.listSearch L (.head h) compare n).map fun r => (L, .node r)
  | .findIndex h index => (Ptr.findIndexItem L (.head h) index n).map fun r => (L, .node r)

/-- The item after another of a sequence, NULL where there is none. -/
def itemAfter (l : List Item) (i : Item) : Option Item := (l.dropWhile (· ≠ i)).tail.head?

/-- The item before. -/
def itemBefore (l : List Item) (i : Item) : Option Item := itemAfter l.reverse i

/-- The call on the sequences. -/
def seqCall (st : State) : ListCall → Option (State × ListAnswer)
  | .addHead h i => some (st.pushHead h i, .done)
  | .addTail h i => some (st.pushTail h i, .done)
  | .del i => (listDel st i).map (·, .done)
  | .removeHead h =>
      match (st.lists h).head? with
      | some i => (listDel st i).map (·, .node (some (.item i)))
      | none => some (st, .node none)
  | .removeTail h =>
      match (st.lists h).getLast? with
      | some i => (listDel st i).map (·, .node (some (.item i)))
      | none => some (st, .node none)
  | .inList i => some (st, .flag (st.items i).onList.isSome)
  | .isEmpty h => some (st, .flag (st.lists h).isEmpty)
  | .isHead h i => some (st, .flag (decide ((st.lists h).head? = some i)))
  | .isTail h i => some (st, .flag (decide ((st.lists h).getLast? = some i)))
  | .peekHead h => some (st, .node ((st.lists h).head?.map .item))
  | .peekTail h => some (st, .node ((st.lists h).getLast?.map .item))
  | .next h i | .peekNext h i => some (st, .node ((itemAfter (st.lists h) i).map .item))
  | .prev h i | .peekPrev h i => some (st, .node ((itemBefore (st.lists h) i).map .item))
  | .nextWrap h i =>
      some (st, .node (if i ∈ st.lists h then
        ((itemAfter (st.lists h) i).or (st.lists h).head?).map .item else none))
  | .prevWrap h i =>
      some (st, .node (if i ∈ st.lists h then
        ((itemBefore (st.lists h) i).or (st.lists h).getLast?).map .item else none))
  | .length h => some (st, .count (BitVec.ofNat 64 (st.lists h).length))
  | .search h compare => some (st, .node (((st.lists h).map .item).find? compare))
  | .findIndex h index => some (st, .node ((findIndexItem st h index).map .item))

/-- What a call must meet: an item inserted is on no list, one whose neighbour is asked for is on that
    list or on none, and a loop has rounds for the list. -/
def ListCall.Applies (n : Nat) (st : State) : ListCall → Prop
  | .addHead _ i | .addTail _ i => (st.items i).onList = none
  | .next h i | .prev h i | .nextWrap h i | .prevWrap h i | .peekNext h i | .peekPrev h i =>
      (st.items i).onList = some h ∨ (st.items i).onList = none
  | .length h | .search h _ | .findIndex h _ => (st.lists h).length ≤ n
  | _ => True

/-! ## 3. What the calls read of a ring -/

section Ring

variable {L : Ptrs} {list a : ListNode} {l l₁ l₂ : List ListNode} {n : Nat}

theorem Ptr.listPeekHead_eq (L : Ptrs) (list : ListNode) : Ptr.listPeekHead L list = peekHead L list := by
  unfold Ptr.listPeekHead peekHead
  rw [ite_not]

theorem Ptr.listPeekTail_eq (L : Ptrs) (list : ListNode) : Ptr.listPeekTail L list = peekTail L list := by
  unfold Ptr.listPeekTail peekTail
  rw [ite_not]

theorem Ptr.listPeekNext_eq (L : Ptrs) (list node : ListNode) :
    Ptr.listPeekNext L list (some node) = peekNext L list node := by
  show Ptr.listPeekNextNoCheck L list node = _
  unfold Ptr.listPeekNextNoCheck peekNext
  simp only [eq_comm]

theorem Ptr.listPeekPrev_eq (L : Ptrs) (list node : ListNode) :
    Ptr.listPeekPrev L list (some node) = peekPrev L list node := by
  show Ptr.listPeekPrevNoCheck L list node = _
  unfold Ptr.listPeekPrevNoCheck peekPrev
  simp only [eq_comm]

theorem listNext_ring (h : Ring L list (l₁ ++ a :: l₂)) : Ptr.listNext L list a = l₂.head? := by
  unfold Ptr.listNext
  rw [h.next_mid]
  cases l₂ with
  | nil => exact if_neg fun hne => hne rfl
  | cons b l₂ =>
      rw [List.append_cons] at h
      exact if_pos h.some_ne_head

theorem listPrev_ring (h : Ring L list (l₁ ++ a :: l₂)) : Ptr.listPrev L list a = l₁.getLast? := by
  have hm := h.mirror
  rw [List.reverse_append, List.reverse_cons, List.append_assoc, List.singleton_append] at hm
  have hn := listNext_ring hm
  rwa [List.head?_reverse] at hn

/-- Past the last node the first one follows. -/
theorem listNextWrap_ring (h : Ring L list (l₁ ++ a :: l₂)) :
    Ptr.listNextWrap L list a = some (l₂.head?.or (l₁ ++ a :: l₂).head?) := by
  unfold Ptr.listNextWrap
  rw [h.next_mid]
  cases l₂ with
  | nil =>
      have hfirst : Ptr.listPeekHead L list = (l₁ ++ [a]).head? := by
        rw [Ptr.listPeekHead_eq, h.peekHead]
      rw [if_neg fun hne => hne rfl]
      exact congrArg some hfirst
  | cons b l₂ =>
      rw [List.append_cons] at h
      exact if_pos h.some_ne_head

theorem listPrevWrap_ring (h : Ring L list (l₁ ++ a :: l₂)) :
    Ptr.listPrevWrap L list a = some (l₁.getLast?.or (l₁ ++ a :: l₂).getLast?) := by
  have hm := h.mirror
  rw [List.reverse_append, List.reverse_cons, List.append_assoc, List.singleton_append] at hm
  have hn := listNextWrap_ring hm
  rw [List.head?_reverse, ← List.singleton_append, ← List.append_assoc, ← List.reverse_cons,
    ← List.reverse_append, List.head?_reverse] at hn
  exact hn

/-- `list_remove_head` takes the first node off. -/
theorem listRemoveHead_ring (h : Ring L list l) : Ptr.listRemoveHead L list =
    match l.head? with
    | none => some (L, none)
    | some a => (Ptr.listDel L a).map (·, some a) := by
  unfold Ptr.listRemoveHead
  rw [h.next_head]
  cases l with
  | nil => exact if_neg fun hne => hne rfl
  | cons a l =>
      rw [← List.nil_append (a :: l)] at h
      refine (if_pos h.some_ne_head).trans ?_
      simp only [List.head?_cons, Option.getD_some, Option.bind_eq_bind, Option.bind_some,
        Ptr.listDelete_eq]
      cases Ptr.listDel L a <;> rfl

theorem listRemoveTail_ring (h : Ring L list l) : Ptr.listRemoveTail L list =
    match l.getLast? with
    | none => some (L, none)
    | some a => (Ptr.listDel L a).map (·, some a) := by
  unfold Ptr.listRemoveTail
  rw [h.prev_head]
  cases hl : l.getLast? with
  | none => exact if_neg fun hne => hne rfl
  | some a =>
      refine (if_pos fun e => h.ne_head (List.mem_of_getLast? hl) (Option.some.inj e)).trans ?_
      simp only [Option.getD_some, Option.bind_eq_bind, Option.bind_some, Ptr.listDelete_eq]
      cases Ptr.listDel L a <;> rfl

/-- **`list_length` counts the ring.** -/
theorem listLength_ring (h : Ring L list l) (hn : l.length ≤ n) :
    Ptr.listLength L list n = some (BitVec.ofNat 64 l.length) := by
  have hfold : ∀ (l : List ListNode) (c : Word),
      l.foldlM (fun (s : Ptrs × Word) (_ : ListNode) => some (s.1, s.2 + 1)) (L, c) =
        some (L, c + BitVec.ofNat 64 l.length) := by
    intro l
    induction l with
    | nil => exact fun c => by rw [List.length_nil, BitVec.add_zero]; rfl
    | cons b l ih =>
        intro c
        rw [List.foldlM_cons, List.length_cons]
        refine (ih (c + 1)).trans ?_
        rw [BitVec.ofNat_add, BitVec.add_assoc, BitVec.add_comm 1]
        rfl
  have hk : KeepsRing Prod.fst (fun (s : Ptrs × Word) (_ : ListNode) => some (s.1, s.2 + 1)) list l := by
    intro s s' node h _ hs
    rw [← Option.some.inj hs]
    exact h
  unfold Ptr.listLength Ptr.listForEvery
  rw [h.next_head, @cycle_foldlM _ _ _ Prod.fst _ list n (L, 0#64) [] l hk h hn, hfold,
    BitVec.zero_add]
  rfl

/-- **`list_search` is the search of the sequence.** -/
theorem listSearch_ring (compare : ListNode → Bool) (h : Ring L list l) (hn : l.length ≤ n) :
    Ptr.listSearch L list compare n = some (l.find? compare) := by
  have hloop : ∀ l₂ l₁ n, Ring L list (l₁ ++ l₂) → l₂.length ≤ n →
      Ptr.searchLoop L list compare n l₂.head? = some (l₂.find? compare) := by
    intro l₂
    induction l₂ with
    | nil => exact fun _ n _ _ => by cases n <;> rfl
    | cons b l₂ ih =>
        intro l₁ n h hn
        obtain ⟨n, rfl⟩ := Nat.exists_eq_add_of_le' (Nat.le_trans (Nat.le_add_left 1 l₂.length) hn)
        rw [List.head?_cons, Ptr.searchLoop, List.find?_cons]
        cases compare b with
        | true => rfl
        | false =>
            rw [if_neg Bool.false_ne_true, Ptr.listPeekNext_eq, h.peekNext]
            rw [List.append_cons] at h
            exact ih (l₁ ++ [b]) n h (Nat.le_of_succ_le_succ hn)
  unfold Ptr.listSearch
  rw [Ptr.listPeekHead_eq, h.peekHead]
  exact hloop l [] n h hn

/-- **`find_index_item` is the indexing of the sequence.** -/
theorem findIndexItem_ring (index : Int) (h : Ring L list l) (hn : l.length ≤ n) :
    Ptr.findIndexItem L list index n = some (if index < 0 then none else l[index.toNat]?) := by
  have hloop : ∀ l₂ l₁ n (i : Int), Ring L list (l₁ ++ l₂) → l₂.length ≤ n →
      Ptr.indexLoop L list index n i l₂.head? =
        some (if index < i then none else l₂[(index - i).toNat]?) := by
    intro l₂
    induction l₂ with
    | nil => exact fun _ n i _ _ => by cases n <;> simp [Ptr.indexLoop]
    | cons b l₂ ih =>
        intro l₁ n i h hn
        obtain ⟨n, rfl⟩ := Nat.exists_eq_add_of_le' (Nat.le_trans (Nat.le_add_left 1 l₂.length) hn)
        rw [List.head?_cons, Ptr.indexLoop]
        by_cases hi : i = index
        · rw [if_pos hi, if_neg (by omega), show (index - i).toNat = 0 by omega, List.getElem?_cons_zero]
        · rw [if_neg hi, Ptr.listPeekNext_eq, h.peekNext]
          rw [List.append_cons] at h
          rw [ih (l₁ ++ [b]) n (i + 1) h (Nat.le_of_succ_le_succ hn)]
          by_cases hlt : index < i
          · rw [if_pos hlt, if_pos (by omega)]
          · rw [if_neg hlt, if_neg (by omega),
              show (index - i).toNat = (index - (i + 1)).toNat + 1 by omega, List.getElem?_cons_succ]
  unfold Ptr.findIndexItem
  rw [Ptr.listPeekHead_eq, h.peekHead, hloop l [] n 0 h hn, Int.sub_zero]

end Ring

/-! ## 4. The calls on the sequences -/

section Sequences

variable {i : Item} {l l₁ l₂ : List Item}

theorem itemAfter_split (hi : i ∉ l₁) : itemAfter (l₁ ++ i :: l₂) i = l₂.head? := by
  unfold itemAfter
  have hall : ∀ j ∈ l₁, decide (j ≠ i) = true := fun j hj =>
    decide_eq_true fun e => hi (e ▸ hj)
  rw [List.dropWhile_append_of_pos hall, List.dropWhile_cons_of_neg (by simp), List.tail_cons]

theorem itemAfter_none (hi : i ∉ l) : itemAfter l i = none := by
  unfold itemAfter
  have hall : ∀ j ∈ l, decide (j ≠ i) = true := fun j hj => decide_eq_true fun e => hi (e ▸ hj)
  rw [List.dropWhile_eq_nil_iff.mpr hall]
  rfl

theorem itemBefore_split (hi : i ∉ l₂) : itemBefore (l₁ ++ i :: l₂) i = l₁.getLast? := by
  unfold itemBefore
  rw [List.reverse_append, List.reverse_cons, List.append_assoc, List.singleton_append,
    itemAfter_split (by simpa using hi), List.head?_reverse]

theorem itemBefore_none (hi : i ∉ l) : itemBefore l i = none :=
  itemAfter_none (by simpa using hi)

end Sequences

section Calls

variable {L : Ptrs} {st : State} {i : Item} {h : ListHead} {n : Nat}

/-- A linked item, its list split at it, and the ring with it. -/
theorem Represents.split (hR : Represents L st) (hL : st.Linked) (ho : (st.items i).onList = some h) :
    ∃ l₁ l₂, st.lists h = l₁ ++ i :: l₂ ∧ i ∉ l₁ ∧ i ∉ l₂ ∧
      Ring L (.head h) (l₁.map .item ++ .item i :: l₂.map .item) := by
  obtain ⟨l₁, l₂, hl⟩ := List.append_of_mem ((hL.mem i h).mp ho)
  have hnd := hL.nodup h
  rw [hl] at hnd
  obtain ⟨-, hnd2, hne⟩ := List.nodup_append.mp hnd
  refine ⟨l₁, l₂, hl, fun hi => hne i hi i List.mem_cons_self rfl, (List.nodup_cons.mp hnd2).1, ?_⟩
  have hring := hR.rings h
  rwa [hl, List.map_append, List.map_cons] at hring

/-- What `next` and `prev` give of an item that is linked. -/
theorem Represents.neighbours (hR : Represents L st) (hL : st.Linked)
    (ho : (st.items i).onList = some h) :
    Ptr.listNext L (.head h) (.item i) = (itemAfter (st.lists h) i).map .item ∧
      Ptr.listPrev L (.head h) (.item i) = (itemBefore (st.lists h) i).map .item ∧
      Ptr.listPeekNext L (.head h) (some (.item i)) = (itemAfter (st.lists h) i).map .item ∧
      Ptr.listPeekPrev L (.head h) (some (.item i)) = (itemBefore (st.lists h) i).map .item := by
  obtain ⟨l₁, l₂, hl, h1, h2, hring⟩ := hR.split hL ho
  rw [hl, itemAfter_split h1, itemBefore_split h2, ← List.head?_map, ← List.getLast?_map,
    Ptr.listPeekNext_eq, Ptr.listPeekPrev_eq]
  exact ⟨listNext_ring hring, listPrev_ring hring, hring.peekNext, hring.peekPrev⟩

/-- Of an item that is not, NULL. -/
theorem Represents.no_neighbours (hR : Represents L st) (hL : st.Linked)
    (ho : (st.items i).onList = none) :
    (Ptr.listNext L (.head h) (.item i) = none ∧ Ptr.listPrev L (.head h) (.item i) = none ∧
      Ptr.listPeekNext L (.head h) (some (.item i)) = none ∧
      Ptr.listPeekPrev L (.head h) (some (.item i)) = none) ∧ i ∉ st.lists h := by
  obtain ⟨hp, hn⟩ := hR.unlinked i ho
  refine ⟨⟨?_, ?_, ?_, ?_⟩, fun hi => ?_⟩
  · rw [Ptr.listNext, hn, ite_self]
  · rw [Ptr.listPrev, hp, ite_self]
  · rw [Ptr.listPeekNext_eq, peekNext, hn, ite_self]
  · rw [Ptr.listPeekPrev_eq, peekPrev, hp, ite_self]
  · rw [(hL.mem i h).mpr hi] at ho
    cases ho

/-- The pointers and the sequences agree, and the answers. -/
def Answers (p : Ptrs × ListAnswer) (q : State × ListAnswer) : Prop :=
  Represents p.1 q.1 ∧ q.1.Linked ∧ p.2 = q.2

/-- A call that only reads. -/
theorem answers_read (hR : Represents L st) (hL : st.Linked) {a b : ListAnswer} (he : a = b) :
    Option.Rel Answers (some (L, a)) (some (st, b)) := .some ⟨hR, hL, he⟩

/-- `list_del` and an answer. -/
theorem answers_del (hR : Represents L st) (hL : st.Linked) (i : Item) (a : ListAnswer) :
    Option.Rel Answers ((Ptr.listDel L (.item i)).map (·, a)) ((listDel st i).map (·, a)) := by
  have hsim := listDel_simulates (i := i) hR hL
  cases hd : listDel st i with
  | none =>
      rw [hd] at hsim
      cases hp : Ptr.listDel L (.item i) with
      | none => exact .none
      | some L' =>
          rw [hp] at hsim
          cases hsim
  | some st' =>
      rw [hd] at hsim
      cases hp : Ptr.listDel L (.item i) with
      | none =>
          rw [hp] at hsim
          cases hsim
      | some L' =>
          rw [hp] at hsim
          cases hsim with
          | some hR' => exact .some ⟨hR', hL.listDel hd, rfl⟩

/-- **A call on the pointers is the call on the sequences.** -/
theorem listCall_simulates (hR : Represents L st) (hL : st.Linked) (c : ListCall)
    (hc : c.Applies n st) : Option.Rel Answers (ptrCall n L c) (seqCall st c) := by
  have hlen : ∀ h, ((st.lists h).map ListNode.item).length = (st.lists h).length := fun h =>
    List.length_map _
  cases c with
  | addHead h i =>
      obtain ⟨⟨L', st', hp, hs, hR'⟩, -⟩ := @listAddHead_simulates L st i h hR hL hc
      obtain rfl := Option.some.inj hs
      rw [ptrCall, hp]
      exact .some ⟨hR', hL.pushHead hc h, rfl⟩
  | addTail h i =>
      obtain ⟨⟨L', st', hp, hs, hR'⟩, -⟩ := @listAddTail_simulates L st i h hR hL hc
      obtain rfl := Option.some.inj hs
      rw [ptrCall, hp]
      exact .some ⟨hR', hL.pushTail hc h, rfl⟩
  | del i => exact answers_del hR hL i .done
  | removeHead h =>
      rw [ptrCall, seqCall, listRemoveHead_ring (hR.rings h), List.head?_map]
      cases (st.lists h).head? with
      | none => exact answers_read hR hL rfl
      | some i =>
          dsimp only [Option.map_some]
          rw [Option.map_map]
          exact answers_del hR hL i (.node (some (.item i)))
  | removeTail h =>
      rw [ptrCall, seqCall, listRemoveTail_ring (hR.rings h), List.getLast?_map]
      cases (st.lists h).getLast? with
      | none => exact answers_read hR hL rfl
      | some i =>
          dsimp only [Option.map_some]
          rw [Option.map_map]
          exact answers_del hR hL i (.node (some (.item i)))
  | inList i => exact answers_read hR hL (congrArg _ (listInList_eq hR hL))
  | isEmpty h =>
      refine answers_read hR hL (congrArg _ ?_)
      unfold Ptr.listIsEmpty
      rw [(hR.rings h).next_head, List.head?_map]
      cases st.lists h <;> simp
  | isHead h i =>
      refine answers_read hR hL (congrArg _ ?_)
      unfold Ptr.listIsHead
      rw [(hR.rings h).next_head, List.head?_map]
      cases (st.lists h).head? <;> simp
  | isTail h i =>
      refine answers_read hR hL (congrArg _ ?_)
      unfold Ptr.listIsTail
      rw [(hR.rings h).prev_head, List.getLast?_map]
      cases (st.lists h).getLast? <;> simp
  | peekHead h =>
      refine answers_read hR hL (congrArg _ ?_)
      rw [Ptr.listPeekHead_eq, (hR.rings h).peekHead, List.head?_map]
  | peekTail h =>
      refine answers_read hR hL (congrArg _ ?_)
      rw [Ptr.listPeekTail_eq, (hR.rings h).peekTail, List.getLast?_map]
  | next h i =>
      refine answers_read hR hL (congrArg _ ?_)
      rcases hc with ho | ho
      · exact (hR.neighbours hL ho).1
      · obtain ⟨⟨hn, -⟩, hi⟩ := hR.no_neighbours (h := h) hL ho
        rw [hn, itemAfter_none hi, Option.map_none]
  | prev h i =>
      refine answers_read hR hL (congrArg _ ?_)
      rcases hc with ho | ho
      · exact (hR.neighbours hL ho).2.1
      · obtain ⟨⟨-, hp, -⟩, hi⟩ := hR.no_neighbours (h := h) hL ho
        rw [hp, itemBefore_none hi, Option.map_none]
  | peekNext h i =>
      refine answers_read hR hL (congrArg _ ?_)
      rcases hc with ho | ho
      · exact (hR.neighbours hL ho).2.2.1
      · obtain ⟨⟨-, -, hn, -⟩, hi⟩ := hR.no_neighbours (h := h) hL ho
        rw [hn, itemAfter_none hi, Option.map_none]
  | peekPrev h i =>
      refine answers_read hR hL (congrArg _ ?_)
      rcases hc with ho | ho
      · exact (hR.neighbours hL ho).2.2.2
      · obtain ⟨⟨-, -, -, hp⟩, hi⟩ := hR.no_neighbours (h := h) hL ho
        rw [hp, itemBefore_none hi, Option.map_none]
  | nextWrap h i =>
      unfold ptrCall seqCall
      rcases hc with ho | ho
      · obtain ⟨l₁, l₂, hl, h1, -, hring⟩ := hR.split hL ho
        dsimp only
        rw [listNextWrap_ring hring, hl, if_pos (List.mem_append_right l₁ List.mem_cons_self),
          itemAfter_split h1, ← List.map_cons, ← List.map_append, List.head?_map, List.head?_map,
          ← Option.map_or]
        exact answers_read hR hL rfl
      · have hi := (hR.no_neighbours (h := h) hL ho).2
        dsimp only
        rw [Ptr.listNextWrap, (hR.unlinked i ho).2, if_pos (Option.some_ne_none _).symm, if_neg hi]
        exact answers_read hR hL rfl
  | prevWrap h i =>
      unfold ptrCall seqCall
      rcases hc with ho | ho
      · obtain ⟨l₁, l₂, hl, -, h2, hring⟩ := hR.split hL ho
        dsimp only
        rw [listPrevWrap_ring hring, hl, if_pos (List.mem_append_right l₁ List.mem_cons_self),
          itemBefore_split h2, ← List.map_cons, ← List.map_append, List.getLast?_map, List.getLast?_map,
          ← Option.map_or]
        exact answers_read hR hL rfl
      · have hi := (hR.no_neighbours (h := h) hL ho).2
        dsimp only
        rw [Ptr.listPrevWrap, (hR.unlinked i ho).1, if_pos (Option.some_ne_none _).symm, if_neg hi]
        exact answers_read hR hL rfl
  | length h =>
      rw [ptrCall, listLength_ring (hR.rings h) ((hlen h).trans_le hc), hlen]
      exact answers_read hR hL rfl
  | search h compare =>
      rw [ptrCall, listSearch_ring compare (hR.rings h) ((hlen h).trans_le hc)]
      exact answers_read hR hL rfl
  | findIndex h index =>
      rw [ptrCall, findIndexItem_ring index (hR.rings h) ((hlen h).trans_le hc)]
      refine answers_read hR hL (congrArg _ ?_)
      unfold findIndexItem
      split
      · rfl
      · rw [List.getElem?_map]

end Calls

/-! ## 5. Runs of calls -/

section Runs

variable (n : Nat)

def ptrRun (L : Ptrs) : List ListCall → Option (Ptrs × List ListAnswer)
  | [] => some (L, [])
  | c :: cs => do
      let (L, a) ← ptrCall n L c
      let (L, as) ← ptrRun L cs
      pure (L, a :: as)

def seqRun (st : State) : List ListCall → Option (State × List ListAnswer)
  | [] => some (st, [])
  | c :: cs => do
      let (st, a) ← seqCall st c
      let (st, as) ← seqRun st cs
      pure (st, a :: as)

/-- Every call of the run meets what it must. -/
def CallsApply : State → List ListCall → Prop
  | _, [] => True
  | st, c :: cs => c.Applies n st ∧ ∀ q, seqCall st c = some q → CallsApply q.1 cs

/-- **list.h is what the sequences say**: every run of its calls gives the same answers on the pointers
    and on the sequences, faults with them, and leaves the pointers those of the sequences. -/
theorem list_calls_refine : ∀ L st cs, Represents L st → st.Linked → CallsApply n st cs →
    Option.Rel (fun p q => Represents p.1 q.1 ∧ q.1.Linked ∧ p.2 = q.2) (ptrRun n L cs) (seqRun st cs) := by
  intro L st cs hR hL hA
  induction cs generalizing L st with
  | nil => exact .some ⟨hR, hL, rfl⟩
  | cons c cs ih =>
      have hsim := listCall_simulates hR hL c hA.1
      rw [ptrRun, seqRun]
      generalize hq : seqCall st c = q at hsim
      generalize ptrCall n L c = p at hsim
      cases hsim with
      | none => exact .none
      | @some p q h =>
          obtain ⟨hR', hL', he⟩ := h
          have hrest := ih p.1 q.1 hR' hL' (hA.2 q hq)
          show Option.Rel _ ((ptrRun n p.1 cs).bind fun r => some (r.1, p.2 :: r.2))
            ((seqRun q.1 cs).bind fun r => some (r.1, q.2 :: r.2))
          generalize ptrRun n p.1 cs = p' at hrest
          generalize seqRun q.1 cs = q' at hrest
          cases hrest with
          | none => exact .none
          | some h => exact .some ⟨h.1, h.2.1, by rw [he, h.2.2]⟩

end Runs

/-- The rings of `emptyRings` are the empty lists. -/
theorem emptyRings_represents : Represents emptyRings.links zeroed where
  rings h := (emptyRings_good h).ring
  unlinked _ _ := ⟨rfl, rfl⟩

/-- Two items, the first one read, the last one taken off, the rest counted. -/
theorem list_calls_two : ∃ L' st', ptrRun 1 emptyRings.links
      [.addTail (.sliceFree 0) 5, .addHead (.sliceFree 0) 7, .peekHead (.sliceFree 0),
        .removeTail (.sliceFree 0), .length (.sliceFree 0)] =
      some (L', [.done, .done, .node (some (.item 7)), .node (some (.item 5)), .count 1]) ∧
    Represents L' st' ∧ st'.lists (.sliceFree 0) = [7] := by
  have hseq : (seqRun zeroed
      [.addTail (.sliceFree 0) 5, .addHead (.sliceFree 0) 7, .peekHead (.sliceFree 0),
        .removeTail (.sliceFree 0), .length (.sliceFree 0)]).map (fun q => (q.2, q.1.lists (.sliceFree 0))) =
      some ([.done, .done, .node (some (.item 7)), .node (some (.item 5)), .count 1], [7]) := by
    decide
  obtain ⟨⟨st', as⟩, hseq, he⟩ := Option.map_eq_some_iff.mp hseq
  simp only [Prod.mk.injEq] at he
  obtain ⟨rfl, hlist⟩ := he
  have happly : CallsApply 1 zeroed
      [.addTail (.sliceFree 0) 5, .addHead (.sliceFree 0) 7, .peekHead (.sliceFree 0),
        .removeTail (.sliceFree 0), .length (.sliceFree 0)] := by
    refine ⟨rfl, fun q hq => ?_⟩
    obtain rfl := Option.some.inj hq
    refine ⟨rfl, fun q hq => ?_⟩
    obtain rfl := Option.some.inj hq
    refine ⟨trivial, fun q hq => ?_⟩
    obtain rfl := Option.some.inj hq
    refine ⟨trivial, fun q hq => ?_⟩
    obtain rfl := Option.some.inj hq
    exact ⟨Nat.le_refl 1, fun _ _ => trivial⟩
  have hsim := list_calls_refine 1 emptyRings.links zeroed _ emptyRings_represents zeroed_linked happly
  rw [hseq] at hsim
  generalize ptrRun 1 emptyRings.links _ = p at hsim ⊢
  cases hsim with
  | @some p q h => exact ⟨p.1, st', congrArg some (Prod.ext rfl h.2.2), h.1, hlist⟩

/-! ## 6. Loops that take entries off -/

section Deleting

variable (del : Item → Bool)

/-- The entries a loop's body calls `list_del` on. -/
def deleting : ListNode → Bool
  | .item i => del i
  | .head _ => false

/-- Such a body, which notes every entry it is given. -/
def deleteBody (s : Ptrs × List ListNode) (node : ListNode) : Option (Ptrs × List ListNode) :=
  if deleting del node then (Ptr.listDel s.1 node).map (·, s.2 ++ [node])
  else some (s.1, s.2 ++ [node])

theorem deleteBody_eq : deleteBody del = visit (deleting del) := rfl

end Deleting

section DeletingRuns

variable {L : Ptrs} {st : State} {h : ListHead} {n : Nat} {del : Item → Bool} {kept rest l : List Item}

/-- `list_del` of several items, on the pointers and on the sequences. -/
theorem listDels_simulate (hR : Represents L st) (hL : st.Linked) (l : List Item) :
    Option.Rel Represents ((l.map .item).foldlM unlink L) (l.foldlM listDel st) := by
  induction l generalizing L st with
  | nil => exact .some hR
  | cons i l ih =>
      have hsim := listDel_simulates (i := i) hR hL
      rw [List.map_cons, List.foldlM_cons, List.foldlM_cons]
      cases hd : listDel st i with
      | none =>
          rw [hd, Ptr.listDel_eq] at hsim
          generalize unlink L (.item i) = p at hsim
          cases hsim
          exact .none
      | some st' =>
          rw [hd, Ptr.listDel_eq] at hsim
          generalize unlink L (.item i) = p at hsim
          cases hsim with
          | some hR' => exact ih hR' (hL.listDel hd)

/-- Some of the items of a list taken off: the others stay, in order. -/
theorem listDels_filter (hL : st.Linked) (hl : st.lists h = kept ++ rest) :
    ∃ st', (rest.filter del).foldlM listDel st = some st' ∧ st'.Linked ∧
      st'.lists h = kept ++ rest.filter (fun i => !del i) ∧ ∀ k, k ≠ h → st'.lists k = st.lists k := by
  induction rest generalizing st kept with
  | nil => exact ⟨st, rfl, hL, hl, fun _ _ => rfl⟩
  | cons i rest ih =>
      by_cases hd : del i = true
      · have hm : i ∈ st.lists h := hl ▸ List.mem_append_right kept List.mem_cons_self
        have hdel := listDel_of ((hL.mem i h).mpr hm)
        have hnot : i ∉ kept := fun hk => by
          have hnd := hL.nodup h
          rw [hl] at hnd
          exact (List.nodup_append.mp hnd).2.2 i hk i List.mem_cons_self rfl
        have hl1 : (st.lists h).erase i = kept ++ rest := by
          rw [hl, List.erase_append_right _ hnot, List.erase_cons_head]
        obtain ⟨st', hrun, hL', hl', hother⟩ := ih (hL.listDel hdel)
          (by rw [State.modItem_lists, State.setList_lists, if_pos rfl, hl1])
        refine ⟨st', ?_, hL', ?_, fun k hk => ?_⟩
        · rw [List.filter_cons_of_pos hd, List.foldlM_cons, hdel]
          exact hrun
        · rw [hl', List.filter_cons_of_neg (by simp [hd])]
        · rw [hother k hk, State.modItem_lists, State.setList_lists, if_neg hk]
      · rw [List.append_cons] at hl
        obtain ⟨st', hrun, hL', hl', hother⟩ := ih hL hl
        refine ⟨st', ?_, hL', ?_, hother⟩
        · rw [List.filter_cons_of_neg hd]
          exact hrun
        · rw [hl', List.filter_cons_of_pos (by simp [hd]), List.append_assoc, List.singleton_append]

theorem filter_deleting : (l.map ListNode.item).filter (deleting del) = (l.filter del).map .item :=
  List.filter_map ..

/-- **Loops whose body takes entries off.** The safe loops visit every entry, and those that stay are
    left, in order. Without the next entry read before, `list_for_each_entry_list` ends with the first
    entry taken off, and `list_for_every` reads on through NULL. -/
theorem list_loops_delete (n : Nat) (del : Item → Bool) (h : ListHead) : ∀ L st, Represents L st →
    st.Linked → (st.lists h).length ≤ n →
    (∃ L' st', Ptr.listForEachEntrySafe Prod.fst (deleteBody del) (.head h) n (L, []) =
          some (L', (st.lists h).map .item) ∧
        Ptr.listForEverySafe Prod.fst (deleteBody del) (.head h) n (L, []) =
          some (L', (st.lists h).map .item) ∧
        Represents L' st' ∧ st'.Linked ∧ st'.lists h = (st.lists h).filter (fun i => !del i) ∧
        ∀ k, k ≠ h → st'.lists k = st.lists k) ∧
      (∃ L' st', Ptr.listForEachNode Prod.fst (deleteBody del) (.head h) n (L, []) =
          some (L', ((st.lists h).takeWhile (fun i => !del i) ++ ((st.lists h).find? del).toList).map .item) ∧
        Represents L' st' ∧ st'.lists h = (st.lists h).eraseP del) ∧
      (Ptr.listForEvery Prod.fst (deleteBody del) (.head h) n (L, []) =
        if (st.lists h).any del then none else some (L, (st.lists h).map .item)) := by
  intro L st hR hL hn
  have hring := hR.rings h
  have hlen : ((st.lists h).map ListNode.item).length ≤ n := by rwa [List.length_map]
  have hkeep : KeepsRest Prod.fst (visit (deleting del)) (ListNode.head h) := visit_keepsRest
  simp only [deleteBody_eq]
  refine ⟨?_, ?_, ?_⟩
  · -- both are the fold over the entries as they were
    obtain ⟨st', hrun, hL', hl', hother⟩ := @listDels_filter st h del [] (st.lists h) hL rfl
    have hsim := listDels_simulate hR hL ((st.lists h).filter del)
    rw [hrun, ← filter_deleting] at hsim
    have hfold := @visit_foldlM _ _ (deleting del) L ((st.lists h).map .item) []
    generalize ((st.lists h).map ListNode.item |>.filter (deleting del)).foldlM unlink L = p at hsim hfold
    cases hsim with
    | @some L' _ hR' =>
        refine ⟨L', st', ?_, ?_, hR', hL', hl', hother⟩
        · unfold Ptr.listForEachEntrySafe
          have hfirst : Ptr.listPeekHead L (.head h) = ((st.lists h).map ListNode.item).head? := by
            rw [Ptr.listPeekHead_eq, hring.peekHead]
          have hsecond : Ptr.listPeekNext L (.head h) ((st.lists h).map ListNode.item).head? =
              ((st.lists h).map ListNode.item).tail.head? := by
            generalize (st.lists h).map ListNode.item = l at hring
            cases l with
            | nil => rfl
            | cons a l =>
                rw [← List.nil_append (a :: l)] at hring
                rw [List.head?_cons, Ptr.listPeekNext_eq, hring.peekNext, List.tail_cons]
          dsimp only
          rw [hfirst, hsecond,
            @walkSafe_foldlM _ _ _ Prod.fst _ (ListNode.head h) n (L, []) [] _ hkeep hring hlen, hfold]
          rfl
        · unfold Ptr.listForEverySafe
          dsimp only
          rw [hring.next_head]
          exact (@cycleSafe_foldlM _ _ _ Prod.fst _ (ListNode.head h) n (L, []) [] _ hkeep hring hlen).trans
            hfold
  · obtain ⟨L', hwalk, hdel⟩ := @walk_visit _ _ (deleting del) (ListNode.head h) n L []
      ((st.lists h).map .item) [] hring hlen
    rw [← hring.peekHead, ← Ptr.listPeekHead_eq] at hwalk
    have hfind : ((st.lists h).map ListNode.item).find? (deleting del) = ((st.lists h).find? del).map .item :=
      List.find?_map ..
    have htake : ((st.lists h).map ListNode.item).takeWhile (fun a => !deleting del a) =
        ((st.lists h).takeWhile fun i => !del i).map .item := List.takeWhile_map ..
    rw [hfind] at hdel
    rw [hfind, htake, List.nil_append] at hwalk
    cases hf : (st.lists h).find? del with
    | none =>
        rw [hf] at hdel hwalk
        obtain rfl := Option.some.inj hdel
        refine ⟨L, st, hwalk.trans (by rw [Option.toList_none, List.append_nil]; simp), hR, ?_⟩
        rw [List.eraseP_of_forall_not fun i hi => List.find?_eq_none.mp hf i hi]
    | some i =>
        rw [hf] at hdel hwalk
        obtain ⟨hd, l₁, l₂, hl, hbefore⟩ := List.find?_eq_some_iff_append.mp hf
        have hnot : i ∉ l₁ := fun hi => by
          have hkept := hbefore i hi
          rw [hd] at hkept
          cases hkept
        have hseq := listDel_of ((hL.mem i h).mpr (hl ▸ List.mem_append_right l₁ List.mem_cons_self))
        have hsim := listDel_simulates (i := i) hR hL
        rw [hseq, Ptr.listDel_eq, show unlink L (.item i) = some L' from hdel] at hsim
        cases hsim with
        | some hR' =>
            refine ⟨L', _, hwalk.trans (by simp), hR', ?_⟩
            rw [State.modItem_lists, State.setList_lists, if_pos rfl, hl, List.erase_append_right _ hnot,
              List.erase_cons_head, List.eraseP_append_right _ fun b hb => by simpa using hbefore b hb,
              List.eraseP_cons_of_pos hd]
  · unfold Ptr.listForEvery
    rw [hring.next_head]
    by_cases hd : (st.lists h).any del = true
    · rw [if_pos hd]
      obtain ⟨i, hi, hdi⟩ := List.any_eq_true.mp hd
      exact @cycle_visit _ _ (deleting del) (ListNode.head h) n L [] _ [] hring
        ⟨.item i, List.mem_map_of_mem hi, hdi⟩
    · rw [if_neg hd]
      have hnone : ∀ node ∈ (st.lists h).map ListNode.item, deleting del node = false := by
        intro node hm
        obtain ⟨i, hi, rfl⟩ := List.mem_map.mp hm
        exact Bool.eq_false_of_not_eq_true fun e => hd (List.any_eq_true.mpr ⟨i, hi, e⟩)
      have hfold := @visit_foldlM _ _ (deleting del) L ((st.lists h).map .item) []
      rw [List.filter_eq_nil_iff.mpr fun node hm => by rw [hnone node hm]; exact Bool.false_ne_true] at hfold
      exact (@cycle_foldlM _ _ _ Prod.fst _ (ListNode.head h) n (L, []) [] _ (visit_keepsRing hnone) hring
        hlen).trans hfold

/-- The entry 7 of `[7, 5]` taken off: by the safe loops, by a loop that ends there, and by one that does
    not return. -/
theorem list_loops_two : ∃ L, Represents L ((zeroed.pushHead (.sliceFree 0) 5).pushHead (.sliceFree 0) 7) ∧
    (∃ L', Ptr.listForEachEntrySafe Prod.fst (deleteBody (· = 7)) (.head (.sliceFree 0)) 2 (L, []) =
      some (L', [.item 7, .item 5])) ∧
    (∃ L', Ptr.listForEachNode Prod.fst (deleteBody (· = 7)) (.head (.sliceFree 0)) 2 (L, []) =
      some (L', [.item 7])) ∧
    Ptr.listForEvery Prod.fst (deleteBody (· = 7)) (.head (.sliceFree 0)) 2 (L, []) = none := by
  obtain ⟨⟨L1, st1, -, hs1, hR1⟩, -⟩ := @listAddHead_simulates _ _ 5 (.sliceFree 0) emptyRings_represents
    zeroed_linked rfl
  obtain rfl := Option.some.inj hs1
  have hL1 := zeroed_linked.pushHead (i := 5) rfl (.sliceFree 0)
  obtain ⟨⟨L2, st2, -, hs2, hR2⟩, -⟩ := @listAddHead_simulates _ _ 7 (.sliceFree 0) hR1 hL1 (by decide)
  obtain rfl := Option.some.inj hs2
  obtain ⟨⟨L', -, hsafe, -⟩, ⟨L'', -, heach, -⟩, hevery⟩ := list_loops_delete 2 (· = 7) (.sliceFree 0) L2 _ hR2
    (hL1.pushHead (i := 7) (by decide) (.sliceFree 0)) (Nat.le_refl 2)
  exact ⟨L2, hR2, ⟨L', hsafe⟩, ⟨L'', heach⟩, hevery⟩

/-- **Loops that leave the list as it is** are folds over its entries; `list_for_each_entry_inverted`
    over their reverse. -/
theorem list_loops_fold {σ : Type} {links : σ → Ptrs} {body : σ → ListNode → Option σ} {s : σ}
    (hR : Represents (links s) st) (hn : (st.lists h).length ≤ n)
    (hb : KeepsRing links body (.head h) ((st.lists h).map .item)) :
    Ptr.listForEachNode links body (.head h) n s = ((st.lists h).map .item).foldlM body s ∧
      Ptr.listForEvery links body (.head h) n s = ((st.lists h).map .item).foldlM body s ∧
      Ptr.listForEachEntryInverted links body (.head h) n s =
        ((st.lists h).reverse.map .item).foldlM body s := by
  have hring := hR.rings h
  have hlen : ((st.lists h).map ListNode.item).length ≤ n := by rwa [List.length_map]
  refine ⟨?_, ?_, ?_⟩
  · unfold Ptr.listForEachNode
    rw [Ptr.listPeekHead_eq, hring.peekHead]
    exact @walk_foldlM _ _ _ links body (.head h) n s [] _ hb hring hlen
  · unfold Ptr.listForEvery
    rw [hring.next_head]
    exact @cycle_foldlM _ _ _ links body (.head h) n s [] _ hb hring hlen
  · have hm : KeepsRing (fun s => (links s).mirror) body (.head h) ((st.lists h).map ListNode.item).reverse := by
      intro s s' node hr hnode hs
      have hback := hr.mirror
      rw [List.reverse_reverse] at hback
      exact (hb s s' node hback (List.mem_reverse.mp hnode) hs).mirror
    unfold Ptr.listForEachEntryInverted
    rw [Ptr.listPeekTail_eq, peekTail_mirror, hring.mirror.peekHead, List.map_reverse]
    exact @walk_foldlM _ _ _ (fun s => (links s).mirror) body (.head h) n s [] _ hm hring.mirror
      (by rwa [List.length_reverse])

end DeletingRuns

end TensorAlloc
