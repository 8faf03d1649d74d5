/-
  File:      TensorAlloc/Compound.lean
  Subject:   The compound chain: blocks of one request, linked by `compound_node` from the head whose
             `compound_head` is set.

  * `compoundAppend` -- the FIRST call only sets the head's flag: the head is then the chain. Every
    later call walks to the end;
  * `Chain` -- the blocks met from a head, in order, up to NULL;
  * `compoundAppend_joins` -- the chain of the new block becomes the end;
  * `compoundAppend_other` -- nothing else is touched.

  `compound_node` is the word of `node.prev`: a block in a chain is on no list.
-/
import TensorAlloc.State

namespace TensorAlloc

/-! ## 1. The chain operations -/

/-- `compound_item`. -/
def compoundItem (st : State) (item : Item) : Bool := (st.items item).compoundHead

/-- The walk of `compound_append` to the end of a chain, over at most `n` blocks. -/
def lastCompound (st : State) : Nat → Item → Option Item
  | 0, _ => none
  | n + 1, temp =>
      match (st.items temp).compoundNode with
      | none => some temp
      | some next => lastCompound st n next

/-- `compound_append`. `fuel` bounds the walk. -/
def compoundAppend (fuel : Nat) (st : State) (node head : Item) : Option State :=
  if compoundItem st head = false then
    some (st.modItem head fun x => { x with compoundHead := true })
  else
    (lastCompound st fuel head).map fun temp =>
      st.modItem temp fun x => { x with compoundNode := some node }

/-- `compound_remove_head`: NULL where the flag is not set. -/
def compoundRemoveHead (st : State) (head : Item) : State × Option Item :=
  if compoundItem st head = false then (st, none)
  else (st.modItem head fun x => { x with compoundHead := false, compoundNode := none }, some head)

/-! ## 2. Chains -/

/-- Following `compound_node` from the first block meets the blocks in order, then NULL. -/
def Chain (st : State) : List Item → Prop
  | [] => True
  | i :: l => (st.items i).compoundNode = l.head? ∧ Chain st l

/-- A chain is read from the links of its blocks. -/
theorem Chain.congr {st st' : State} {l : List Item} (h : Chain st l)
    (he : ∀ i ∈ l, (st'.items i).compoundNode = (st.items i).compoundNode) : Chain st' l := by
  induction l with
  | nil => trivial
  | cons i l ih =>
      refine ⟨?_, ih h.2 fun j hj => he j (List.mem_cons_of_mem _ hj)⟩
      rw [he i List.mem_cons_self]
      exact h.1

/-- A chain is a matter of its head. -/
theorem Chain.unique {st : State} {i : Item} {l l' : List Item} (h : Chain st (i :: l))
    (h' : Chain st (i :: l')) : l = l' := by
  induction l generalizing i l' with
  | nil =>
      have e : l'.head? = none := h'.1.symm.trans h.1
      exact (List.head?_eq_none_iff.mp e).symm
  | cons j l ih =>
      have e : l'.head? = some j := h'.1.symm.trans h.1
      obtain ⟨t, rfl⟩ := List.head?_eq_some_iff.mp e
      rw [ih h.2 h'.2]

theorem Chain.suffix {st : State} {a b : List Item} (h : Chain st (a ++ b)) : Chain st b := by
  induction a with
  | nil => exact h
  | cons i a ih => exact ih h.2

/-- It meets no block twice. -/
theorem Chain.nodup {st : State} {l : List Item} (h : Chain st l) : l.Nodup := by
  induction l with
  | nil => exact List.nodup_nil
  | cons i l ih =>
      refine List.nodup_cons.mpr ⟨fun hi => ?_, ih h.2⟩
      obtain ⟨a, b, rfl⟩ := List.append_of_mem hi
      -- from `i` on the chain would be both `a ++ i :: b` and `b`
      have e := congrArg List.length (h.unique h.2.suffix)
      simp only [List.length_append, List.length_cons] at e
      omega

/-- **The walk ends at the last block.** -/
theorem Chain.last {st : State} {i : Item} {l : List Item} (h : Chain st (i :: l)) {n : Nat}
    (hn : l.length < n) :
    ∃ t, lastCompound st n i = some t ∧ (i :: l).getLast? = some t := by
  induction l generalizing i n with
  | nil =>
      obtain ⟨n, rfl⟩ := Nat.exists_eq_succ_of_ne_zero (Nat.ne_zero_of_lt hn)
      refine ⟨i, ?_, rfl⟩
      rw [lastCompound, h.1]
      rfl
  | cons j l ih =>
      obtain ⟨n, rfl⟩ := Nat.exists_eq_succ_of_ne_zero (Nat.ne_zero_of_lt hn)
      obtain ⟨t, ht, hlast⟩ := ih h.2 (n := n) (by rw [List.length_cons] at hn; omega)
      refine ⟨t, ?_, by rw [List.getLast?_cons_cons]; exact hlast⟩
      rw [lastCompound, h.1]
      exact ht

/-- A chain linked behind the last block of another. -/
theorem Chain.append {st : State} {l l' : List Item} {t i : Item} (h : Chain st l) (hnd : l.Nodup)
    (hlast : l.getLast? = some t) (hd : List.Disjoint l (i :: l')) (h' : Chain st (i :: l')) :
    Chain (st.modItem t fun x => { x with compoundNode := some i }) (l ++ i :: l') := by
  have hmem : t ∈ l := List.mem_of_getLast? hlast
  have htail : Chain (st.modItem t fun x => { x with compoundNode := some i }) (i :: l') :=
    h'.congr fun j hj => by
      have hjt : j ≠ t := fun e => hd hmem (e ▸ hj)
      rw [State.modItem_items, if_neg hjt]
  clear hmem
  induction l with
  | nil => cases hlast
  | cons j l ih =>
      rw [List.nodup_cons] at hnd
      cases l with
      | nil =>
          obtain rfl : j = t := Option.some.inj hlast
          refine ⟨?_, htail⟩
          rw [State.modItem_items, if_pos rfl]
          rfl
      | cons k l =>
          rw [List.getLast?_cons_cons] at hlast
          have hj : j ≠ t := by
            intro e
            subst e
            exact hnd.1 (List.mem_of_getLast? hlast)
          refine ⟨?_, ih h.2 hnd.2 hlast fun x hx => hd (List.mem_cons_of_mem j hx)⟩
          rw [State.modItem_items, if_neg hj]
          exact h.1

/-- **What `compound_append` does to a chain**: the chain of the new block becomes its end. -/
theorem compoundAppend_joins {st : State} {head i : Item} {l l' : List Item} {fuel : Nat}
    (h : Chain st (head :: l)) (h' : Chain st (i :: l')) (hd : List.Disjoint (head :: l) (i :: l'))
    (hflag : compoundItem st head = true) (hf : l.length < fuel) :
    ∃ st', compoundAppend fuel st i head = some st' ∧ Chain st' (head :: l ++ i :: l') ∧
      compoundItem st' head = true := by
  obtain ⟨t, ht, hlast⟩ := h.last hf
  refine ⟨_, ?_, h.append h.nodup hlast hd h', ?_⟩
  · unfold compoundAppend
    rw [if_neg (by rw [hflag]; decide), ht]
    rfl
  · unfold compoundItem at hflag ⊢
    rw [State.modItem_items]
    split
    · next e => rw [← e, hflag]
    · exact hflag

/-- Whatever it does, it does to the chain. -/
theorem compoundAppend_other {st st' : State} {head i j : Item} {l : List Item} {fuel : Nat}
    (h : Chain st (head :: l)) (hf : l.length < fuel) (hj : j ∉ head :: l)
    (happ : compoundAppend fuel st i head = some st') : st'.items j = st.items j := by
  unfold compoundAppend at happ
  split at happ
  · cases happ
    have hjh : j ≠ head := fun e => hj (e ▸ List.mem_cons_self)
    rw [State.modItem_items, if_neg hjh]
  · obtain ⟨t, ht, hlast⟩ := h.last hf
    rw [ht] at happ
    cases happ
    have hjt : j ≠ t := fun e => hj (e ▸ List.mem_of_getLast? hlast)
    rw [State.modItem_items, if_neg hjt]

/-- A single block becomes its last. -/
theorem compoundAppend_chain {st : State} {head i : Item} {l : List Item} {fuel : Nat}
    (h : Chain st (head :: l)) (hflag : compoundItem st head = true)
    (hi : i ∉ head :: l) (hnode : (st.items i).compoundNode = none) (hf : l.length < fuel) :
    ∃ st', compoundAppend fuel st i head = some st' ∧ Chain st' (head :: l ++ [i]) ∧
      compoundItem st' head = true :=
  @compoundAppend_joins st head i l [] fuel h ⟨hnode, trivial⟩
    (fun _ hx hx' => hi (List.mem_singleton.mp hx' ▸ hx)) hflag hf

end TensorAlloc
