/-
  File:      TensorAlloc/SparseTable.lean
  Subject:   The tables above a sparse block: what an allocation charges them and what the free of
             the block gives back.

  * `mergeGroupSparseTable` -- up the chain while a table becomes full: off its list, one unit
    charged to the next;
  * `dequeueGroupSparseIn` -- the free with the process group as a parameter; with the stub's NULL it
    is `dequeueGroupSparse` (`dequeueGroupSparse_eq`). A `struct alloc_para *` that is the flag
    `is_virtual` faults in the stream branch;
  * `FreeKeeps` -- what a sparse free leaves alone: every present item but the block, every link of
    the tree, every count of another group;
  * `TableChain` -- tables linked by `prev` up to NULL, each with something free and on the list of
    order 0 of its own level; `Enclosing` is that with every table present (`enclosing_iff`);
  * `tables_undone_iff` -- a table that became full stays off its list, and a table that becomes
    whole is freed and charged up: undone exactly when neither happens.
-/
import TensorAlloc.SparseIndex

namespace TensorAlloc

/-! ## 1. The functions -/

/-- `get_vgroup_lvl`. -/
def getVgroupLvl (pg : ProcessGroup) (lvl nu : Nat) : Option Group :=
  (pg.node nu).map fun _ => .vir nu lvl

/-- The group of a level, virtual or physical. -/
def sparseGroup (pg : ProcessGroup) (dim : Nat) (isVirtual : Bool) (lvl : Nat) : Option Group :=
  if isVirtual then (getCurrentVnodeNum dim).bind (getVgroupLvl pg lvl)
  else (getCurrentNodeNum dim).map fun nu => .phy nu lvl

/-- `nr_freeidxs`, an `int`. -/
def nrFreeidxs (st : State) (item : Item) : BitVec 32 :=
  BitVec.ofNat 32 (getItemFreeidx (st.items item).flags)

def State.setFreeidx (st : State) (item : Item) (nr : BitVec 32) : State :=
  st.modFlags item fun flags => setItemFreeidx flags nr.toNat

/-- `sparse_table_free`. -/
def sparseTableFree (st : State) (item : Item) (order : Nat) : State × Bool :=
  let nr := nrFreeidxs st item
  if nr = 0#32 then (st, false)
  else (st.setFreeidx item (nr - BitVec.ofNat 32 (2 ^ order)),
    nr - BitVec.ofNat 32 (2 ^ order) != 0#32)

/-- `remove_sparse_table`. -/
def removeSparseTable (pg : ProcessGroup) (st : State) (item : Item) (lvl : Nat)
    (mt : MigrationType) (dim : Nat) (isVirtual : Bool) : Option State := do
  let group ← sparseGroup pg dim isVirtual lvl
  let st ← listDel st item
  pure (st.countDec (.groupCell group mt 0))

/-- `merge_group_sparse_table`. Above level 0 there is no group. -/
def mergeGroupSparseTable (pg : ProcessGroup) (mt : MigrationType) (dim : Nat)
    (isVirtual : Bool) : Nat → State → Option Item → Nat → Option State
  | _, st, none, _ => some st
  | level, st, some item, order =>
      let (st, free) := sparseTableFree st item order
      if free then some st
      else
        match level with
        | 0 => none
        | level + 1 => do
            let st ← removeSparseTable pg st item level mt dim isVirtual
            mergeGroupSparseTable pg mt dim isVirtual level st (st.items item).prev 0

/-- The loop of `dequeue_group_sparse` from the level `lvl` of `item`, without the counter of its
    first round: the item goes to its list, its table is credited, and a whole table goes the same
    way. -/
def dequeueTables (r : Reading) (pg : ProcessGroup) (mt : MigrationType) (nu : Nat) :
    Nat → State → Item → Nat → Option State
  | lvl, st, item, order => do
      let group ← getVgroupLvl pg lvl nu
      let (st, _) ← freeGroupMigration r st item group lvl order mt
      let root ← (st.items item).prev
      let nr := nrFreeidxs st root + BitVec.ofNat 32 (2 ^ order)
      let st := st.setFreeidx root nr
      if nr ≠ 2 ^ (maxItemRange + 1) then some st
      else
        match lvl with
        | 0 => none
        | lvl + 1 => do
            let group ← getVgroupLvl pg lvl nu
            let st ← listDel st root
            dequeueTables r pg mt nu lvl (st.countDec (.groupCell group mt 0)) root 0

/-- `STATE_ITEM_SPARSE_VIRTUAL_STREAM`, `STATE_ITEM_SPARSE_PHYSICAL_STREAM`. -/
def streamState (st : State) (item : Item) : Bool :=
  let state := itemStates[getItemState (st.items item).flags]?
  state = some .sparseVirtualStream || state = some .sparsePhysicalStream

/-- `dequeue_group_sparse`. The counter of the first round and the free of it do not read each
    other, so the counter comes first. -/
def dequeueGroupSparseIn (r : Reading) (pg : ProcessGroup) (st : State) (item : Item)
    (mt : MigrationType) : Option State :=
  let lvl := getItemSection (st.items item).flags
  let nu := getItemNode (st.items item).flags
  let order := getItemOrder (st.items item).flags
  if itemStates[getItemState (st.items item).flags]? = some .sparsePrior then
    dequeueGroupPrior st item mt
  else do
    let node ← pg.node nu
    if streamState st item then none
    else
      let nitems := intOf (bit (order + functionItemLvl groupRangeNumShift lvl))
      dequeueTables r pg mt nu lvl (st.raiseFree node (BitVec.ofInt 64 nitems)) item order

/-- With the stub's process group it is the function that faults on every block. -/
theorem dequeueGroupSparse_eq (r : Reading) (st : State) (item : Item) (mt : MigrationType) :
    dequeueGroupSparseIn r getCurrentProcessGroup st item mt = dequeueGroupSparse st item mt := rfl

/-! ## 2. What a free leaves alone -/

/-- The tree's links are the same, and no `freeidx` changed but to 0. -/
structure TreeKept (st st' : State) : Prop where
  prev : ∀ i, (st'.items i).prev = (st.items i).prev
  freeidx : ∀ i, field .freeidx (st'.items i).flags = field .freeidx (st.items i).flags ∨
    field .freeidx (st'.items i).flags = 0

theorem TreeKept.refl (st : State) : TreeKept st st := ⟨fun _ => rfl, fun _ => .inl rfl⟩

theorem TreeKept.trans {st st' st'' : State} (h : TreeKept st st') (h' : TreeKept st' st'') :
    TreeKept st st'' := by
  refine ⟨fun i => (h'.prev i).trans (h.prev i), fun i => ?_⟩
  rcases h'.freeidx i with e | e
  · rw [e]
    exact h.freeidx i
  · exact .inr e

section Frame

variable {st st' : State} {group : Group} {v v' : MergeVars} {maxOrder : Nat} {top : Bool}
  {mt : MigrationType} {t : Item}

theorem treeKept_modFlags (st : State) (i : Item) {f : Word → Word}
    (hf : ∀ flags, field .freeidx (f flags) = field .freeidx flags ∨ field .freeidx (f flags) = 0) :
    TreeKept st (st.modFlags i f) := by
  refine ⟨fun j => ?_, fun j => ?_⟩
  · exact st.modItem_keeps j ItemStruct.prev rfl
  · rw [State.modFlags_items]
    split
    · next e =>
        rw [e]
        exact hf _
    · exact .inl rfl

theorem treeKept_countDec (st : State) (h : ListHead) : TreeKept st (st.countDec h) :=
  ⟨fun _ => rfl, fun _ => .inl rfl⟩

theorem treeKept_listDel {i : Item} (h : listDel st i = some st') : TreeKept st st' := by
  obtain ⟨l, ho, rfl⟩ := listDel_some h
  refine ⟨fun j => ?_, fun j => .inl ?_⟩ <;>
    simp only [State.modItem_items, State.setList_items] <;> split <;> simp_all

theorem treeKept_mergeStep {e : Option MergeExit}
    (h : mergeStep group mt maxOrder top st v = some (st', v', e)) : TreeKept st st' := by
  have hpresent : TreeKept st (st.modFlags v.item clearItemPresent) :=
    treeKept_modFlags st v.item fun flags => .inl (by simp)
  rcases mergeStep_cases h with ⟨-, rfl, -⟩ | ⟨-, rfl, -⟩ | ⟨-, -, rfl, -⟩ |
    ⟨-, -, -, -, -, -, -, hm⟩
  · exact .refl _
  · exact hpresent
  · exact hpresent
  · obtain ⟨st1, hd, -, rfl⟩ := mergeBuddy_eq hm
    refine hpresent.trans ((treeKept_listDel hd).trans ?_)
    have hpage := treeKept_modFlags st1 (v.item + nextBuddyIdx v.idx v.orderIndex - v.idx)
      (f := fun flags => clearItemNode (clearItemOrder flags)) fun flags => .inl (by simp)
    have hhead := treeKept_modFlags
      (st1.modFlags (v.item + nextBuddyIdx v.idx v.orderIndex - v.idx)
        fun flags => clearItemNode (clearItemOrder flags)) v.item
      (f := fun flags => clearItemFreeidx (clearItemDim (clearItemState (clearItemOrder
        (clearItemNode (clearItemSection flags)))))) fun flags => .inr (by simp)
    exact (hpage.trans hhead).trans ((treeKept_countDec _ (.groupCell group mt v.order)).trans
      (treeKept_modFlags _ _ (f := fun flags => setItemOrder flags (v.order + 1))
        fun flags => .inl (by simp)))

theorem treeKept_mergeLoop {n : Nat} {e : MergeExit}
    (h : mergeLoop group mt maxOrder top n st v = some (st', v', e)) : TreeKept st st' :=
  mergeLoop_keeps (fun s _ => TreeKept st s) (fun hP hs => hP.trans (treeKept_mergeStep hs)) h (.refl st)

/-- Only the block and descriptors that are not present are merged. -/
theorem mergeStep_present {e : Option MergeExit}
    (h : mergeStep group mt maxOrder top st v = some (st', v', e))
    (hp : itemIsPresent (st.items t).flags = true) (hne : t ≠ v.item) :
    st'.items t = st.items t ∧ t ≠ v'.item := by
  have hpresent : (st.modFlags v.item clearItemPresent).items t = st.items t := by
    rw [State.modFlags_items, if_neg hne]
  rcases mergeStep_cases h with ⟨-, rfl, rfl, -⟩ | ⟨-, rfl, rfl, -⟩ | ⟨-, -, rfl, -, rfl, -⟩ |
    ⟨-, -, -, -, -, hb, -, hm⟩
  · exact ⟨rfl, hne⟩
  · exact ⟨hpresent, hne⟩
  · exact ⟨hpresent, hne⟩
  · have hpage : t ≠ v.item + nextBuddyIdx v.idx v.orderIndex - v.idx := by
      intro e
      rw [← e, hpresent, itemIsBuddy, hp] at hb
      cases hb
    have hcomb : t ≠ combinedItem v (nextBuddyIdx v.idx v.orderIndex) := by
      rcases combinedItem_cases v v.orderIndex with e | e
      · rw [e]
        exact hne
      · rw [e]
        exact hpage
    refine ⟨(mergeBuddy_items hm hpage hne hcomb).trans hpresent, ?_⟩
    obtain ⟨-, -, rfl, -⟩ := mergeBuddy_eq hm
    exact hcomb

theorem mergeLoop_present {n : Nat} {e : MergeExit}
    (h : mergeLoop group mt maxOrder top n st v = some (st', v', e))
    (hp : itemIsPresent (st.items t).flags = true) (hne : t ≠ v.item) :
    st'.items t = st.items t ∧ t ≠ v'.item := by
  refine mergeLoop_keeps (fun s w => s.items t = st.items t ∧ t ≠ w.item) (fun hP hs => ?_) h ⟨rfl, hne⟩
  obtain ⟨h1, h2⟩ := mergeStep_present hs (by rw [hP.1]; exact hp) hP.2
  exact ⟨h1.trans hP.1, h2⟩

theorem mergeLoop_counts {n : Nat} {e : MergeExit}
    (h : mergeLoop group mt maxOrder top n st v = some (st', v', e)) {l : ListHead}
    (hl : ∀ k, l ≠ .groupCell group mt k) : st'.counts l = st.counts l := by
  have hstep : ∀ {st st' : State} {v v' : MergeVars} {e : Option MergeExit},
      mergeStep group mt maxOrder top st v = some (st', v', e) → st'.counts l = st.counts l := by
    intro st st' v v' e h
    rcases mergeStep_cases h with ⟨-, rfl, -⟩ | ⟨-, rfl, -⟩ | ⟨-, -, rfl, -⟩ |
      ⟨-, -, -, -, -, -, -, hm⟩
    · rfl
    · rfl
    · rfl
    · rw [mergeBuddy_counts hm, if_neg (hl v.order), sub_zero]
      rfl
  exact mergeLoop_keeps (fun s _ => s.counts l = st.counts l) (fun hP hs => (hstep hs).trans hP) h rfl

theorem treeKept_insertFreed {lvl : Nat} {tail : Bool}
    (h : insertFreed .listFirst group mt lvl tail st v = some st') : TreeKept st st' := by
  refine ⟨insertFreed_prev h, fun i => .inl ?_⟩
  by_cases hi : i = v.item
  · rw [hi, insertFreed_head h]
    simp
  · rw [(insertFreed_items h).1 i hi]

/-- What a sparse free of `item` in `group` leaves alone. -/
structure FreeKeeps (st st' : State) (item : Item) (group : Group) (mt : MigrationType) : Prop where
  tree : TreeKept st st'
  present : ∀ t, t ≠ item → itemIsPresent (st.items t).flags = true → st'.items t = st.items t
  counts : ∀ l, (∀ k, l ≠ .groupCell group mt k) → st'.counts l = st.counts l

/-- **A sparse free is one round in its own group.** -/
theorem freeGroupMigration_round {r : Reading} {item i : Item} {lvl order : Nat}
    (h : freeGroupMigration r st item group lvl order .sparseMovable = some (st', i)) :
    freePass r (st.nodeOf group).dim (getItemNode (st.items item).flags) group .sparseMovable lvl st
      item order order none = some (st', .inserted i) := by
  unfold freeGroupMigration at h
  rcases freeLoop_cases h with hp | ⟨st1, v1, lvl', -, hp, -⟩
  · exact hp
  · -- a sparse group promotes nothing
    obtain ⟨_, _, _, st2, v2, exit, -, -, -, -, hl⟩ := freePass_cases hp
    exfalso
    cases exit with
    | direct =>
        rw [leavePass] at hl
        obtain ⟨_, -, he⟩ := Option.map_eq_some_iff.mp hl
        cases (Prod.mk.inj he).2
    | done =>
        simp only [leavePass, Option.bind_eq_bind, Option.bind_eq_some_iff] at hl
        obtain ⟨tail, -, hl⟩ := hl
        rw [if_neg fun hc => hc.2.2 rfl] at hl
        obtain ⟨_, -, he⟩ := Option.map_eq_some_iff.mp hl
        cases (Prod.mk.inj he).2

/-- What it leaves alone. -/
theorem freeGroupMigration_keeps {item i : Item} {lvl order : Nat}
    (h : freeGroupMigration .listFirst st item group lvl order .sparseMovable = some (st', i)) :
    FreeKeeps st st' item group .sparseMovable := by
  obtain ⟨idx, maxOrder, topLvl, st1, v1, exit, -, -, -, hm, hl⟩ :=
    freePass_cases (freeGroupMigration_round h)
  have hrest : FreeKeeps st1 st' v1.item group .sparseMovable := by
    rcases leavePass_cases hl with ⟨tail, hi, -⟩ | ⟨-, -, rfl, -⟩
    · refine ⟨treeKept_insertFreed hi, fun t ht _ => (insertFreed_items hi).1 t ht, fun l hne => ?_⟩
      rw [insertFreed_counts hi, if_neg (hne _), add_zero]
    · exact ⟨.refl _, fun _ _ _ => rfl, fun _ _ => rfl⟩
  refine ⟨(treeKept_mergeLoop hm).trans hrest.tree, fun t ht hp => ?_, fun l hne => ?_⟩
  · obtain ⟨h1, h2⟩ := mergeLoop_present hm hp ht
    rw [hrest.present t h2 (by rw [h1]; exact hp), h1]
  · rw [hrest.counts l hne, mergeLoop_counts hm hne]

end Frame

/-! ## 3. The chain of tables -/

/-- Tables linked by `prev` and ending in NULL, the first of the level below `lvl`: each with
    something free, and on the list of its own level. -/
def TableChain (list : Nat → Option ListHead) (st : State) : Nat → Option Item → List Item → Prop
  | _, item, [] => item = none
  | 0, _, _ :: _ => False
  | lvl + 1, item, r :: rs =>
      item = some r ∧ 1 ≤ getItemFreeidx (st.items r).flags ∧
        (∃ h, list lvl = some h ∧ (st.items r).onList = some h) ∧
        TableChain list st lvl (st.items r).prev rs

/-- The tables above a block of level `lvl`, its own first: allocated, each on the order-0 list of its
    level with something free below it, the last without a parent. -/
def Enclosing (st : State) (group : Nat → Group) (mt : MigrationType) :
    Nat → Option Item → List Item → Prop
  | _, prev, [] => prev = none
  | 0, _, _ :: _ => False
  | lvl + 1, prev, r :: rs =>
      prev = some r ∧ (st.items r).onList = some (.groupCell (group lvl) mt 0) ∧
        1 ≤ getItemFreeidx (st.items r).flags ∧ itemIsPresent (st.items r).flags = true ∧
        Enclosing st group mt lvl (st.items r).prev rs

/-- Every table has its `freeidx` and is on its list again, and the list its count. -/
def TablesRestored (st st' : State) (group : Nat → Group) (mt : MigrationType) :
    Nat → List Item → Prop
  | _, [] => True
  | 0, _ :: _ => False
  | lvl + 1, r :: rs =>
      getItemFreeidx (st'.items r).flags = getItemFreeidx (st.items r).flags ∧
        (st'.items r).onList = some (.groupCell (group lvl) mt 0) ∧
        st'.counts (.groupCell (group lvl) mt 0) = st.counts (.groupCell (group lvl) mt 0) ∧
        TablesRestored st st' group mt lvl rs

/-- The allocation's charge and the free's credit, one after the other, cancel out. -/
def TablesUndone (r : Reading) (pg : ProcessGroup) (st : State) (group : Nat → Group) (dim : Nat)
    (isVirtual : Bool) (block : Item) (lvl order : Nat) (tables : List Item) : Prop :=
  ∃ st1 st2, mergeGroupSparseTable pg .sparseMovable dim isVirtual lvl st
      (st.items block).prev order = some st1 ∧
    dequeueGroupSparseIn r pg st1 block .sparseMovable = some st2 ∧
    TablesRestored st st2 group .sparseMovable lvl tables

section Chain

variable {st st' : State} {group : Nat → Group} {mt : MigrationType} {lvl : Nat}
  {list : Nat → Option ListHead} {prev : Option Item} {r : Item} {tables : List Item} {t : Item}

/-- Where a table of the chain is. -/
theorem TableChain.linked (hC : TableChain list st lvl prev tables) (hr : r ∈ tables) :
    1 ≤ getItemFreeidx (st.items r).flags ∧
      ∃ l < lvl, ∃ h, list l = some h ∧ (st.items r).onList = some h := by
  induction tables generalizing lvl prev with
  | nil => cases hr
  | cons t ts ih =>
      cases lvl with
      | zero => exact hC.elim
      | succ lvl =>
          obtain ⟨-, hf, hl, hts⟩ := hC
          rcases List.mem_cons.mp hr with rfl | hr
          · exact ⟨hf, lvl, Nat.lt_succ_self lvl, hl⟩
          · obtain ⟨hf, l, hlt, h⟩ := ih hts hr
            exact ⟨hf, l, Nat.lt_succ_of_lt hlt, h⟩

/-- **No two tables of the chain are on one list.** -/
theorem TableChain.apart (hinj : ∀ l l' h, list l = some h → list l' = some h → l = l')
    (hC : TableChain list st lvl prev tables) :
    tables.Pairwise fun r t => (st.items r).onList ≠ (st.items t).onList := by
  induction tables generalizing lvl prev with
  | nil => exact List.Pairwise.nil
  | cons r rs ih =>
      cases lvl with
      | zero => exact hC.elim
      | succ lvl =>
          obtain ⟨-, -, ⟨h, hl, ho⟩, hrs⟩ := hC
          refine List.pairwise_cons.mpr ⟨fun t ht => ?_, ih hrs⟩
          obtain ⟨-, l, hlt, h', hl', ho'⟩ := hrs.linked ht
          rw [ho, ho']
          intro e
          rw [← Option.some.inj e] at hl'
          exact absurd (hinj l lvl h hl' hl) (Nat.ne_of_lt hlt)

theorem TableChain.congr (hC : TableChain list st lvl prev tables)
    (hi : ∀ t ∈ tables, st'.items t = st.items t) : TableChain list st' lvl prev tables := by
  induction tables generalizing lvl prev with
  | nil => cases lvl <;> exact hC
  | cons t ts ih =>
      cases lvl with
      | zero => exact hC.elim
      | succ lvl =>
          obtain ⟨hprev, hf, hl, hts⟩ := hC
          unfold TableChain
          rw [hi t List.mem_cons_self]
          exact ⟨hprev, hf, hl, ih hts fun t ht => hi t (List.mem_cons_of_mem _ ht)⟩

theorem TableChain.nodup (hinj : ∀ l l' h, list l = some h → list l' = some h → l = l')
    (hC : TableChain list st lvl prev tables) : tables.Nodup :=
  (hC.apart hinj).imp fun {r t} h (e : r = t) => h (by rw [e])

/-- Enclosing tables are a chain of present ones. -/
theorem enclosing_iff : Enclosing st group mt lvl prev tables ↔
    TableChain (fun l => some (.groupCell (group l) mt 0)) st lvl prev tables ∧
      ∀ t ∈ tables, itemIsPresent (st.items t).flags = true := by
  induction tables generalizing lvl prev with
  | nil => cases lvl <;> exact ⟨fun h => ⟨h, fun _ ht => (List.not_mem_nil ht).elim⟩, fun h => h.1⟩
  | cons r rs ih =>
      cases lvl with
      | zero => exact ⟨fun h => h.elim, fun h => h.1.elim⟩
      | succ lvl =>
          constructor
          · rintro ⟨hprev, ho, hf, hp, hrs⟩
            obtain ⟨hC, hps⟩ := ih.mp hrs
            refine ⟨⟨hprev, hf, ⟨_, rfl, ho⟩, hC⟩, fun t ht => ?_⟩
            rcases List.mem_cons.mp ht with rfl | ht
            · exact hp
            · exact hps t ht
          · rintro ⟨⟨hprev, hf, ⟨h, hl, ho⟩, hC⟩, hp⟩
            exact ⟨hprev, ho.trans hl.symm, hf, hp r List.mem_cons_self,
              ih.mpr ⟨hC, fun t ht => hp t (List.mem_cons_of_mem r ht)⟩⟩

theorem groupCell_inj (hinj : Function.Injective group) (l l' : Nat) (h : ListHead)
    (hl : some (ListHead.groupCell (group l) mt 0) = some h)
    (hl' : some (ListHead.groupCell (group l') mt 0) = some h) : l = l' :=
  hinj (ListHead.groupCell.inj (Option.some.inj (hl.trans hl'.symm))).1

theorem Enclosing.linked (h : Enclosing st group mt lvl prev tables) (ht : t ∈ tables) :
    ∃ l < lvl, (st.items t).onList = some (.groupCell (group l) mt 0) ∧
      itemIsPresent (st.items t).flags = true := by
  obtain ⟨hC, hp⟩ := enclosing_iff.mp h
  obtain ⟨-, l, hlt, k, hl, ho⟩ := hC.linked ht
  exact ⟨l, hlt, ho.trans hl.symm, hp t ht⟩

/-- The tables of a chain are distinct. -/
theorem Enclosing.nodup (hinj : Function.Injective group)
    (h : Enclosing st group mt lvl prev tables) : tables.Nodup :=
  (enclosing_iff.mp h).1.nodup (groupCell_inj hinj)

theorem Enclosing.not_mem (hinj : Function.Injective group) {r : Item} {rs : List Item}
    (h : Enclosing st group mt lvl prev (r :: rs)) : r ∉ rs :=
  (List.nodup_cons.mp (h.nodup hinj)).1

/-- Tables whose items, `freeidx` apart, and lists are as before. -/
theorem Enclosing.restored (h : Enclosing st group mt lvl prev tables)
    (hitems : ∀ t ∈ tables, getItemFreeidx (st'.items t).flags = getItemFreeidx (st.items t).flags ∧
      (st'.items t).onList = (st.items t).onList)
    (hcounts : ∀ l < lvl, st'.counts (.groupCell (group l) mt 0) =
      st.counts (.groupCell (group l) mt 0)) :
    TablesRestored st st' group mt lvl tables := by
  induction tables generalizing lvl prev with
  | nil => cases lvl <;> exact trivial
  | cons r rs ih =>
      cases lvl with
      | zero => exact h.elim
      | succ lvl =>
          obtain ⟨-, hl, -, -, hrs⟩ := h
          obtain ⟨h1, h2⟩ := hitems r List.mem_cons_self
          exact ⟨h1, h2.trans hl, hcounts lvl (Nat.lt_succ_self lvl),
            ih hrs (fun t ht => hitems t (List.mem_cons_of_mem r ht))
              fun l hlt => hcounts l (Nat.lt_succ_of_lt hlt)⟩

/-- The counter is the field. -/
theorem toNat_nrFreeidxs (st : State) (item : Item) :
    (nrFreeidxs st item).toNat = getItemFreeidx (st.items item).flags := by
  unfold nrFreeidxs
  rw [BitVec.toNat_ofNat]
  exact Nat.mod_eq_of_lt (field_lt .freeidx _)

theorem nrFreeidxs_setFreeidx (st : State) (item : Item) (nr : BitVec 32) :
    nrFreeidxs (st.setFreeidx item nr) item = nr := by
  rw [← BitVec.toNat_inj, toNat_nrFreeidxs, State.setFreeidx, State.modFlags_items, if_pos rfl]
  show field .freeidx (withField .freeidx _ nr.toNat) = _
  rw [field_withField, if_pos rfl]
  exact Nat.mod_eq_of_lt nr.isLt

theorem freeidx_setFreeidx (st : State) (item : Item) (nr : BitVec 32) :
    getItemFreeidx ((st.setFreeidx item nr).items item).flags = nr.toNat := by
  rw [← toNat_nrFreeidxs, nrFreeidxs_setFreeidx]

/-- A charge that the table has is within the counter's 32 bits. -/
theorem toNat_charge {order : Nat} (hle : 2 ^ order ≤ getItemFreeidx (st.items t).flags) :
    (BitVec.ofNat 32 (2 ^ order)).toNat = 2 ^ order := by
  rw [BitVec.toNat_ofNat]
  exact Nat.mod_eq_of_lt (Nat.lt_of_le_of_lt hle (field_lt .freeidx _))

theorem nrFreeidxs_eq_iff {order : Nat} (hle : 2 ^ order ≤ getItemFreeidx (st.items t).flags) :
    nrFreeidxs st t = BitVec.ofNat 32 (2 ^ order) ↔
      getItemFreeidx (st.items t).flags = 2 ^ order := by
  rw [← BitVec.toNat_inj, toNat_nrFreeidxs, toNat_charge hle]

theorem nrFreeidxs_ne_zero (h : 0 < getItemFreeidx (st.items t).flags) : nrFreeidxs st t ≠ 0#32 := by
  intro e
  rw [← toNat_nrFreeidxs, e] at h
  exact absurd h (by decide)

theorem setFreeidx_items (st : State) (nr : BitVec 32) {i item : Item} (h : i ≠ item) :
    (st.setFreeidx item nr).items i = st.items i := by
  rw [State.setFreeidx, State.modFlags_items, if_neg h]

/-- The counter changes nothing else of the item. -/
theorem setFreeidx_item (st : State) (item : Item) (nr : BitVec 32) :
    ((st.setFreeidx item nr).items item).onList = (st.items item).onList ∧
      ((st.setFreeidx item nr).items item).prev = (st.items item).prev ∧
      itemIsPresent ((st.setFreeidx item nr).items item).flags =
        itemIsPresent (st.items item).flags := by
  rw [State.setFreeidx, State.modFlags_items, if_pos rfl]
  exact ⟨rfl, rfl, by simp⟩

/-- A chain of tables by their parents alone. -/
def Above (st : State) : Option Item → List Item → Prop
  | prev, [] => prev = none
  | prev, r :: rs =>
      prev = some r ∧ itemIsPresent (st.items r).flags = true ∧ Above st (st.items r).prev rs

theorem Enclosing.above (h : Enclosing st group mt lvl prev tables) : Above st prev tables := by
  induction tables generalizing lvl prev with
  | nil => cases lvl <;> exact h
  | cons r rs ih =>
      cases lvl with
      | zero => exact h.elim
      | succ lvl => exact ⟨h.1, h.2.2.2.1, ih h.2.2.2.2⟩

theorem Above.present (h : Above st prev tables) (ht : t ∈ tables) :
    itemIsPresent (st.items t).flags = true := by
  induction tables generalizing prev with
  | nil => cases ht
  | cons r rs ih =>
      rcases List.mem_cons.mp ht with rfl | ht
      · exact h.2.1
      · exact ih h.2.2 ht

theorem Above.congr (h : Above st prev tables) (hi : ∀ t ∈ tables, st'.items t = st.items t) :
    Above st' prev tables := by
  induction tables generalizing prev with
  | nil => exact h
  | cons r rs ih =>
      have hr := hi r List.mem_cons_self
      refine ⟨h.1, by rw [hr]; exact h.2.1, ?_⟩
      rw [hr]
      exact ih h.2.2 fun t ht => hi t (List.mem_cons_of_mem r ht)

theorem Enclosing.congr (h : Enclosing st group mt lvl prev tables)
    (hi : ∀ t ∈ tables, st'.items t = st.items t) : Enclosing st' group mt lvl prev tables := by
  obtain ⟨hC, hp⟩ := enclosing_iff.mp h
  refine enclosing_iff.mpr ⟨hC.congr hi, fun t ht => ?_⟩
  rw [hi t ht]
  exact hp t ht

end Chain

/-! ## 4. Charge and credit -/

section Steps

variable {st st' : State} {pg : ProcessGroup} {mt : MigrationType} {dim nu lvl order : Nat}
  {isVirtual : Bool} {r x : Item}

/-- One table of the way up, read back: it is charged, and the walk ends there or goes on from its
    parent after taking it off its list. -/
theorem mergeGroupSparseTable_cases
    (h : mergeGroupSparseTable pg mt dim isVirtual lvl st (some r) order = some st') :
    ((sparseTableFree st r order).2 = true ∧ st' = (sparseTableFree st r order).1) ∨
    ((sparseTableFree st r order).2 = false ∧ ∃ l g st1, lvl = l + 1 ∧
      listDel (sparseTableFree st r order).1 r = some st1 ∧
      mergeGroupSparseTable pg mt dim isVirtual l (st1.countDec (.groupCell g mt 0))
        (st1.items r).prev 0 = some st') := by
  unfold mergeGroupSparseTable at h
  dsimp only at h
  split at h
  · next hfree => exact .inl ⟨hfree, (Option.some.inj h).symm⟩
  · next hfull =>
      refine .inr ⟨Bool.eq_false_iff.mpr hfull, ?_⟩
      cases lvl with
      | zero => cases h
      | succ l =>
          simp only [removeSparseTable, Option.bind_eq_bind, Option.bind_eq_some_iff] at h
          obtain ⟨st2, ⟨g, -, st1, hd, h1⟩, h⟩ := h
          obtain rfl := Option.some.inj h1
          exact ⟨l, g, st1, rfl, hd, h⟩

/-- One table of the way up: it has something free left, or it leaves its list. -/
theorem merge_step
    (h : mergeGroupSparseTable pg mt dim isVirtual lvl st (some r) order = some st') :
    (nrFreeidxs st r ≠ BitVec.ofNat 32 (2 ^ order) ∧ nrFreeidxs st r ≠ 0#32 ∧
      st' = st.setFreeidx r (nrFreeidxs st r - BitVec.ofNat 32 (2 ^ order))) ∨
    ((nrFreeidxs st r = BitVec.ofNat 32 (2 ^ order) ∨ nrFreeidxs st r = 0#32) ∧
      ∃ l st1, lvl = l + 1 ∧ (∀ j, j ≠ r → st1.items j = st.items j) ∧
        (st1.items r).onList = none ∧
        itemIsPresent (st1.items r).flags = itemIsPresent (st.items r).flags ∧
        mergeGroupSparseTable pg mt dim isVirtual l st1 (st.items r).prev 0 = some st') := by
  have hw := mergeGroupSparseTable_cases h
  unfold sparseTableFree at hw
  by_cases h0 : nrFreeidxs st r = 0#32
  · simp only [h0, if_true] at hw
    obtain ⟨hc, -⟩ | ⟨-, l, g, st1, rfl, hd, h⟩ := hw
    · cases hc
    · obtain ⟨ho, hn, hf, hp⟩ := listDel_items hd
      exact .inr ⟨.inr h0, l, st1.countDec (.groupCell g mt 0), rfl, ho, hn,
        congrArg itemIsPresent hf, hp ▸ h⟩
  · simp only [h0, if_false] at hw
    by_cases h1 : nrFreeidxs st r = BitVec.ofNat 32 (2 ^ order)
    · simp only [h1, BitVec.sub_self, bne_self_eq_false] at hw
      obtain ⟨hc, -⟩ | ⟨-, l, g, st1, rfl, hd, h⟩ := hw
      · cases hc
      · obtain ⟨ho, hn, hf, hp⟩ := listDel_items hd
        obtain ⟨-, hprev0, hpres⟩ := setFreeidx_item st r 0#32
        refine .inr ⟨.inl h1, l, st1.countDec (.groupCell g mt 0), rfl, fun j hj => ?_, hn, ?_, ?_⟩
        · exact (ho j hj).trans (setFreeidx_items st _ hj)
        · exact (congrArg itemIsPresent hf).trans hpres
        · rw [← hp.trans hprev0]
          exact h
    · have hne : nrFreeidxs st r - BitVec.ofNat 32 (2 ^ order) ≠ 0#32 := fun e =>
        h1 (BitVec.sub_eq_iff_eq_add.mp e ▸ BitVec.zero_add _)
      obtain ⟨-, h⟩ | ⟨hc, -⟩ := hw
      · exact .inl ⟨h1, h0, h⟩
      · exact absurd hc (by simpa using hne)

/-- The way up writes the tables of the chain only. -/
theorem merge_others {group : Nat → Group} (hinj : Function.Injective group) {prev : Option Item}
    {tables : List Item} (hE : Enclosing st group mt lvl prev tables)
    (h : mergeGroupSparseTable pg mt dim isVirtual lvl st prev order = some st') {i : Item}
    (hi : i ∉ tables) : st'.items i = st.items i := by
  induction tables generalizing lvl prev st order with
  | nil =>
      have hprev : prev = none := by cases lvl <;> exact hE
      subst hprev
      unfold mergeGroupSparseTable at h
      rw [← Option.some.inj h]
  | cons r rs ih =>
      have hnot := hE.not_mem hinj
      cases lvl with
      | zero => exact hE.elim
      | succ lvl =>
          obtain ⟨rfl, -, -, -, hrs⟩ := hE
          rw [List.mem_cons, not_or] at hi
          rcases merge_step h with ⟨-, -, rfl⟩ | ⟨-, l, st1, hl, ho, -, -, h⟩
          · exact setFreeidx_items st _ hi.1
          · obtain rfl := Nat.succ.inj hl
            have hrs' : Enclosing st1 group mt lvl (st.items r).prev rs :=
              hrs.congr fun t ht => ho t fun e => hnot (e ▸ ht)
            rw [ih hrs' h hi.2, ho i hi.1]

/-- One round of the free, read back. -/
theorem dequeueTables_step
    (h : dequeueTables .listFirst .given .sparseMovable nu lvl st x order = some st') :
    ∃ st1 root, FreeKeeps st st1 x (.vir nu lvl) .sparseMovable ∧ (st.items x).prev = some root ∧
      ((nrFreeidxs st1 root + BitVec.ofNat 32 (2 ^ order) ≠ 512#32 ∧
        st' = st1.setFreeidx root (nrFreeidxs st1 root + BitVec.ofNat 32 (2 ^ order))) ∨
      (nrFreeidxs st1 root + BitVec.ofNat 32 (2 ^ order) = 512#32 ∧ ∃ l st2, lvl = l + 1 ∧
        listDel (st1.setFreeidx root 512#32) root = some st2 ∧
        dequeueTables .listFirst .given .sparseMovable nu l
          (st2.countDec (.groupCell (.vir nu l) .sparseMovable 0)) root 0 = some st')) := by
  unfold dequeueTables at h
  simp only [Option.bind_eq_bind, Option.bind_eq_some_iff] at h
  obtain ⟨g, hg, ⟨st1, i⟩, hfree, root, hroot, h⟩ := h
  obtain rfl := Option.some.inj hg
  have hkeep := freeGroupMigration_keeps hfree
  rw [hkeep.tree.prev] at hroot
  refine ⟨st1, root, hkeep, hroot, ?_⟩
  have hpow : (2 : BitVec 32) ^ (maxItemRange + 1) = 512#32 := by decide
  rw [hpow] at h
  by_cases hw : nrFreeidxs st1 root + BitVec.ofNat 32 (2 ^ order) = 512#32
  · rw [if_neg (not_not.mpr hw)] at h
    cases lvl with
    | zero => cases h
    | succ l =>
        simp only [Option.bind_eq_some_iff] at h
        obtain ⟨g, hg, st2, hd, h⟩ := h
        obtain rfl := Option.some.inj hg
        rw [hw] at hd
        exact .inr ⟨hw, l, st2, rfl, hd, h⟩
  · rw [if_pos hw] at h
    exact .inl ⟨hw, (Option.some.inj h).symm⟩

/-- The round of a block whose table does not become whole. -/
theorem dequeueTables_stops (st : State) (x root : Item) (nu lvl order : Nat)
    (hbase : st.tables.phyItemStruct (getItemNode (st.items x).flags) ≤ x)
    (hprev : (st.items x).prev = some root) (hne : x ≠ root)
    (hp : itemIsPresent (st.items root).flags = true)
    (hw : nrFreeidxs st root + BitVec.ofNat 32 (2 ^ order) ≠ 512#32) :
    ∃ st1, FreeKeeps st st1 x (.vir nu lvl) .sparseMovable ∧
      dequeueTables .listFirst .given .sparseMovable nu lvl st x order =
        some (st1.setFreeidx root (nrFreeidxs st root + BitVec.ofNat 32 (2 ^ order))) := by
  obtain ⟨⟨st1, i⟩, hfree⟩ := @freeGroupMigration_returns st .sparseMovable lvl
    (.vir nu lvl) x order ⟨hbase, fun hne => absurd rfl hne⟩
  have hkeep := freeGroupMigration_keeps hfree
  have hroot : st1.items root = st.items root := hkeep.present root hne.symm hp
  have hnr : nrFreeidxs st1 root = nrFreeidxs st root := by
    unfold nrFreeidxs
    rw [hroot]
  refine ⟨st1, hkeep, ?_⟩
  unfold dequeueTables
  simp only [getVgroupLvl, ProcessGroup.node, Option.map_some, Option.bind_eq_bind,
    Option.bind_some, hfree, hkeep.tree.prev, hprev, hnr]
  exact if_pos hw

/-- The rounds further up change the `freeidx` of a table below them to 0 at most. -/
theorem dequeueTables_freeidx (tables : List Item) (hA : Above st (st.items x).prev tables)
    (hn : tables.Nodup) (hx : x ∉ tables)
    (h : dequeueTables .listFirst .given .sparseMovable nu lvl st x order = some st') {i : Item}
    (hi : i ∉ tables) :
    field .freeidx (st'.items i).flags = field .freeidx (st.items i).flags ∨
      field .freeidx (st'.items i).flags = 0 := by
  induction tables generalizing lvl st x order with
  | nil =>
      obtain ⟨st1, root, -, hroot, -⟩ := dequeueTables_step h
      rw [show (st.items x).prev = none from hA] at hroot
      cases hroot
  | cons t ts ih =>
      obtain ⟨st1, root, hkeep, hroot, hstep⟩ := dequeueTables_step h
      obtain ⟨hprev, hpres, hts⟩ := hA
      rw [hprev, Option.some.injEq] at hroot
      subst hroot
      rw [List.mem_cons, not_or] at hi hx
      rw [List.nodup_cons] at hn
      have hfirst := hkeep.tree.freeidx i
      rcases hstep with ⟨-, rfl⟩ | ⟨-, l, st2, -, hd, h⟩
      · rw [setFreeidx_items _ _ hi.1]
        exact hfirst
      · obtain ⟨ho, -, -, hp⟩ := listDel_items hd
        have hsame : ∀ j, j ≠ t → st2.items j = st1.items j := fun j hj =>
          (ho j hj).trans (setFreeidx_items _ _ hj)
        have hprev' : (st2.items t).prev = (st.items t).prev :=
          (hp.trans (setFreeidx_item st1 t _).2.1).trans (hkeep.tree.prev t)
        have hA' : Above (st2.countDec (.groupCell (.vir nu l) .sparseMovable 0))
            ((st2.countDec (.groupCell (.vir nu l) .sparseMovable 0)).items t).prev ts := by
          show Above _ (st2.items t).prev ts
          rw [hprev']
          refine hts.congr fun j hj => ?_
          show st2.items j = _
          rw [hsame j fun e => hn.1 (e ▸ hj)]
          exact hkeep.present j (fun e => hx.2 (e ▸ hj)) (hts.present hj)
        have hrest := ih hA' hn.2 hn.1 h hi.2
        rw [State.countDec_items, hsame i hi.1] at hrest
        rcases hrest with e | e
        · rw [e]
          exact hfirst
        · exact .inr e

end Steps

/-! ## 5. Undone, or not -/

section Undone

variable {st : State} {group : Nat → Group} {dim nu lvl order : Nat} {isVirtual : Bool}
  {block r1 : Item} {rest : List Item}

/-- A non-stream block of the sparse tree, taken from its list. -/
structure SparseBlock (st : State) (block : Item) (lvl order nu : Nat) : Prop where
  unlinked : (st.items block).onList = none
  lvl : getItemSection (st.items block).flags = lvl
  order : getItemOrder (st.items block).flags = order
  node : getItemNode (st.items block).flags = nu
  state : itemStates[getItemState (st.items block).flags]? = some .sparseTypes
  base : st.tables.phyItemStruct nu ≤ block

/-- The groups of the levels, distinct, and those of a process group or a physical node. -/
theorem sparseGroup_level (hg : ∀ l, sparseGroup .given dim isVirtual l = some (group l)) :
    Function.Injective group ∧ ∀ l lvl nu, l ≠ lvl → group l ≠ .vir nu lvl := by
  have hrow : (∃ n, group = fun l => .vir n l) ∨ ∃ n, group = fun l => .phy n l := by
    unfold sparseGroup at hg
    cases isVirtual with
    | true =>
        simp only [if_true, Option.bind_eq_some_iff] at hg
        obtain ⟨n, hn, -⟩ := hg 0
        refine .inl ⟨n, funext fun l => ?_⟩
        obtain ⟨n', hn', h⟩ := hg l
        obtain rfl := Option.some.inj (hn.symm.trans hn')
        exact (Option.some.inj h).symm
    | false =>
        simp only [Bool.false_eq_true, if_false, Option.map_eq_some_iff] at hg
        obtain ⟨n, hn, -⟩ := hg 0
        refine .inr ⟨n, funext fun l => ?_⟩
        obtain ⟨n', hn', h⟩ := hg l
        obtain rfl := Option.some.inj (hn.symm.trans hn')
        exact h.symm
  rcases hrow with ⟨n, rfl⟩ | ⟨n, rfl⟩
  · exact ⟨fun a b e => (Group.vir.inj e).2, fun l lvl nu hne e => hne (Group.vir.inj e).2⟩
  · exact ⟨fun a b e => (Group.phy.inj e).2, fun l lvl nu _ e => by cases e⟩

/-- The free of the block reads it as it is before the charge. -/
theorem dequeueGroupSparseIn_block {st1 : State} (hB : SparseBlock st block lvl order nu)
    (hsame : st1.items block = st.items block) (r : Reading) (pg : ProcessGroup) :
    dequeueGroupSparseIn r pg st1 block .sparseMovable =
      (pg.node nu).bind fun node => dequeueTables r pg .sparseMovable nu lvl
        (st1.raiseFree node
          (BitVec.ofInt 64 (intOf (bit (order + functionItemLvl groupRangeNumShift lvl))))) block order := by
  unfold dequeueGroupSparseIn streamState
  rw [hsame, hB.lvl, hB.order, hB.node, hB.state]
  rfl

/-- **As written the free never returns**: its first insertion does not, and with the stub the node
    is a member of NULL. -/
theorem not_tablesUndone (hB : SparseBlock st block lvl order nu) {r : Reading} {pg : ProcessGroup}
    (hinj : Function.Injective group)
    (hE : Enclosing st group .sparseMovable lvl (st.items block).prev (r1 :: rest))
    (h : r = .written ∨ pg = .null) :
    ¬ TablesUndone r pg st group dim isVirtual block lvl order (r1 :: rest) := by
  intro hU
  obtain ⟨st1, st2, h1, h2, -⟩ := hU
  have hblock : block ∉ r1 :: rest := by
    intro hb
    obtain ⟨l, -, hl, -⟩ := hE.linked hb
    rw [hB.unlinked] at hl
    cases hl
  rw [dequeueGroupSparseIn_block hB (merge_others hinj hE h1 hblock)] at h2
  cases pg with
  | null => cases h2
  | given =>
      obtain rfl : r = .written := h.resolve_right (by decide)
      simp only [ProcessGroup.node, Option.bind_some] at h2
      unfold dequeueTables at h2
      simp only [getVgroupLvl, ProcessGroup.node, Option.map_some, Option.bind_eq_bind,
        Option.bind_some, freeGroupMigration_written, Option.bind_none] at h2
      cases h2

/-- The charge of a table that keeps something free. -/
theorem merge_stops {pg : ProcessGroup} {mt : MigrationType} (h0 : nrFreeidxs st r1 ≠ 0#32)
    (h1 : nrFreeidxs st r1 ≠ BitVec.ofNat 32 (2 ^ order)) :
    mergeGroupSparseTable pg mt dim isVirtual lvl st (some r1) order =
      some (st.setFreeidx r1 (nrFreeidxs st r1 - BitVec.ofNat 32 (2 ^ order))) := by
  have hne : nrFreeidxs st r1 - BitVec.ofNat 32 (2 ^ order) ≠ 0#32 := fun e =>
    h1 (BitVec.sub_eq_iff_eq_add.mp e ▸ BitVec.zero_add _)
  unfold mergeGroupSparseTable sparseTableFree
  simp only [h0, if_false]
  exact if_pos (by simpa using hne)

/-- **A table that keeps something free and does not become whole is restored**, and nothing else of
    the chain is touched. -/
theorem tablesUndone_of (hB : SparseBlock st block lvl order nu)
    (hg : ∀ l, sparseGroup .given dim isVirtual l = some (group l))
    (hE : Enclosing st group .sparseMovable lvl (st.items block).prev (r1 :: rest))
    (h0 : nrFreeidxs st r1 ≠ 0#32) (h1 : nrFreeidxs st r1 ≠ BitVec.ofNat 32 (2 ^ order))
    (h2 : nrFreeidxs st r1 ≠ 512#32) :
    TablesUndone .listFirst .given st group dim isVirtual block lvl order (r1 :: rest) := by
  obtain ⟨hinj, hlevel⟩ := sparseGroup_level hg
  have hnot := hE.not_mem hinj
  have hblock : ∀ t ∈ r1 :: rest, t ≠ block := by
    intro t ht e
    obtain ⟨l, -, hl, -⟩ := hE.linked ht
    rw [e, hB.unlinked] at hl
    cases hl
  have hprev : (st.items block).prev = some r1 := by
    cases lvl with
    | zero => exact hE.elim
    | succ l => exact hE.1
  obtain ⟨-, -, -, hpres⟩ := hE.linked List.mem_cons_self
  -- the state between charge and free
  set st1 := st.setFreeidx r1 (nrFreeidxs st r1 - BitVec.ofNat 32 (2 ^ order)) with hst1
  set s := st1.raiseFree (.vir nu)
    (BitVec.ofInt 64 (intOf (bit (order + functionItemLvl groupRangeNumShift lvl)))) with hs
  have hsame : ∀ i, i ≠ r1 → s.items i = st.items i := fun i hi => setFreeidx_items st _ hi
  have hr1 := setFreeidx_item st r1 (nrFreeidxs st r1 - BitVec.ofNat 32 (2 ^ order))
  have hnr : nrFreeidxs s r1 + BitVec.ofNat 32 (2 ^ order) = nrFreeidxs st r1 := by
    rw [show nrFreeidxs s r1 = nrFreeidxs st r1 - BitVec.ofNat 32 (2 ^ order) from
      nrFreeidxs_setFreeidx st r1 _, BitVec.sub_add_cancel]
  have hitem : s.items block = st.items block := hsame block (hblock r1 List.mem_cons_self).symm
  obtain ⟨st2, hkeep, hrun⟩ := dequeueTables_stops s block r1 nu lvl order
    (by rw [hitem, hB.node]; exact hB.base) (by rw [hitem]; exact hprev)
    (hblock r1 List.mem_cons_self).symm (hr1.2.2.trans hpres) (by rw [hnr]; exact h2)
  rw [hnr] at hrun
  refine ⟨st1, st2.setFreeidx r1 (nrFreeidxs st r1), by rw [hprev]; exact merge_stops h0 h1, ?_,
    hE.restored (fun t ht => ?_) fun l hlt => ?_⟩
  · rw [dequeueGroupSparseIn_block hB (show st1.items block = st.items block from hitem)]
    exact hrun
  · by_cases hr : t = r1
    · subst hr
      obtain ⟨h3, -, -⟩ := setFreeidx_item st2 t (nrFreeidxs st t)
      refine ⟨?_, ?_⟩
      · rw [freeidx_setFreeidx, toNat_nrFreeidxs]
      · rw [h3, hkeep.present t (hblock t ht) (hr1.2.2.trans hpres)]
        exact hr1.1
    · have ht' : s.items t = st.items t := hsame t hr
      obtain ⟨-, -, -, hp⟩ := hE.linked ht
      rw [setFreeidx_items _ _ hr, hkeep.present t (hblock t ht) (by rw [ht']; exact hp), ht']
      exact ⟨rfl, rfl⟩
  · show st2.counts _ = _
    rw [hkeep.counts _ fun k e => hlevel l lvl nu (Nat.ne_of_lt hlt) (ListHead.groupCell.inj e).1]
    rfl

/-- A table that became full is off its list, and the free does not put it back. -/
theorem full_not_undone {st1 st2 : State} (hnot : block ≠ r1)
    (hprev : (st1.items block).prev = some r1) (hpres : itemIsPresent (st1.items r1).flags = true)
    (hoff : (st1.items r1).onList = none)
    (h : dequeueTables .listFirst .given .sparseMovable nu lvl st1 block order = some st2) :
    (st2.items r1).onList = none := by
  obtain ⟨s, root, hkeep, hroot, hstep⟩ := dequeueTables_step h
  obtain rfl : r1 = root := Option.some.inj (hprev.symm.trans hroot)
  have hs : (s.items r1).onList = none := by
    rw [hkeep.present r1 hnot.symm hpres]
    exact hoff
  rcases hstep with ⟨-, rfl⟩ | ⟨-, l, st3, -, hd, -⟩
  · exact (setFreeidx_item s r1 _).1.trans hs
  · have hnone : ((s.setFreeidx r1 512#32).items r1).onList = none :=
      (setFreeidx_item s r1 _).1.trans hs
    rw [listDel, hnone] at hd
    cases hd

/-- A table that becomes whole is freed itself, and its parent credited with it. -/
theorem whole_not_undone {st1 st2 : State} (hE : Above st1 (st1.items r1).prev rest)
    (hnd : rest.Nodup) (hnot : r1 ∉ rest) (hpos : ∀ t ∈ rest, nrFreeidxs st1 t ≠ 0#32)
    (h : dequeueTables .listFirst .given .sparseMovable nu lvl st1 r1 0 = some st2) :
    ∃ t ∈ rest, getItemFreeidx (st2.items t).flags ≠ getItemFreeidx (st1.items t).flags := by
  obtain ⟨s, r2, hkeep, hroot, hstep⟩ := dequeueTables_step h
  cases rest with
  | nil =>
      rw [show (st1.items r1).prev = none from hE] at hroot
      cases hroot
  | cons t ts =>
      obtain ⟨hprev, hpres, hts⟩ := hE
      obtain rfl : t = r2 := Option.some.inj (hprev.symm.trans hroot)
      rw [List.mem_cons, not_or] at hnot
      rw [List.nodup_cons] at hnd
      have hs : s.items t = st1.items t := hkeep.present t (Ne.symm hnot.1) hpres
      have hnr : nrFreeidxs s t = nrFreeidxs st1 t := by
        unfold nrFreeidxs
        rw [hs]
      refine ⟨t, List.mem_cons_self, fun e => ?_⟩
      rw [← toNat_nrFreeidxs, ← toNat_nrFreeidxs, BitVec.toNat_inj] at e
      rcases hstep with ⟨-, rfl⟩ | ⟨hw, l, st3, -, hd, h⟩
      · -- one unit more
        rw [nrFreeidxs_setFreeidx, hnr] at e
        have hone : BitVec.ofNat 32 (2 ^ 0) = 0#32 :=
          BitVec.add_right_inj (nrFreeidxs st1 t) |>.mp (e.trans (BitVec.add_zero _).symm)
        revert hone
        decide
      · obtain ⟨ho, -, hf, hp⟩ := listDel_items hd
        have hsame : ∀ j ∈ ts, st3.items j = st1.items j := by
          intro j hj
          have hjt : j ≠ t := fun e => hnd.1 (e ▸ hj)
          rw [ho j hjt, setFreeidx_items _ _ hjt]
          exact hkeep.present j (fun e => hnot.2 (e ▸ hj)) (hts.present hj)
        have hprev3 : (st3.items t).prev = (st1.items t).prev := by
          rw [hp, (setFreeidx_item s t _).2.1, hs]
        have hrest := dequeueTables_freeidx ts
          (by
            show Above (st3.countDec (.groupCell (.vir nu l) .sparseMovable 0)) (st3.items t).prev ts
            rw [hprev3]
            exact hts.congr hsame)
          hnd.2 hnd.1 h hnd.1
        have h512 : nrFreeidxs st3 t = 512#32 := by
          unfold nrFreeidxs
          rw [hf]
          exact nrFreeidxs_setFreeidx s t 512#32
        rcases hrest with hr | hr
        · -- whole, and so one more than before
          have hr' : nrFreeidxs st2 t = 512#32 := by
            rw [← h512]
            unfold nrFreeidxs
            exact congrArg (BitVec.ofNat 32) hr
          rw [hnr, ← e, hr'] at hw
          revert hw
          decide
        · refine hpos t List.mem_cons_self ?_
          rw [← e]
          unfold nrFreeidxs
          exact congrArg (BitVec.ofNat 32) hr

/-- What the restored tables have in common. -/
theorem TablesRestored.table {st st' : State} {mt : MigrationType} {tables : List Item} {t : Item}
    (h : TablesRestored st st' group mt lvl tables) (ht : t ∈ tables) :
    getItemFreeidx (st'.items t).flags = getItemFreeidx (st.items t).flags ∧
      (st'.items t).onList ≠ none := by
  induction tables generalizing lvl with
  | nil => cases ht
  | cons r rs ih =>
      cases lvl with
      | zero => exact h.elim
      | succ lvl =>
          obtain ⟨h1, h2, -, hrs⟩ := h
          rcases List.mem_cons.mp ht with rfl | ht
          · exact ⟨h1, by rw [h2]; exact Option.some_ne_none _⟩
          · exact ih hrs ht

/-- A table of the chain has something free. -/
theorem Enclosing.nrFreeidxs_ne {st : State} {mt : MigrationType} {prev : Option Item}
    {tables : List Item} {t : Item} (h : Enclosing st group mt lvl prev tables)
    (ht : t ∈ tables) : nrFreeidxs st t ≠ 0#32 :=
  nrFreeidxs_ne_zero ((enclosing_iff.mp h).1.linked ht).1

/-- **The exact condition, in the counter's own arithmetic.** -/
theorem tables_of_undone (hB : SparseBlock st block lvl order nu)
    (hg : ∀ l, sparseGroup .given dim isVirtual l = some (group l))
    (hE : Enclosing st group .sparseMovable lvl (st.items block).prev (r1 :: rest))
    (hU : TablesUndone .listFirst .given st group dim isVirtual block lvl order (r1 :: rest)) :
    nrFreeidxs st r1 ≠ BitVec.ofNat 32 (2 ^ order) ∧ nrFreeidxs st r1 ≠ 512#32 := by
  obtain ⟨hinj, -⟩ := sparseGroup_level hg
  have hnot := hE.not_mem hinj
  obtain ⟨st1, st2, h1, h2, hR⟩ := hU
  have hblock : block ∉ r1 :: rest := by
    intro hb
    obtain ⟨l, -, hl, -⟩ := hE.linked hb
    rw [hB.unlinked] at hl
    cases hl
  have hitem := merge_others hinj hE h1 hblock
  rw [dequeueGroupSparseIn_block hB hitem] at h2
  simp only [ProcessGroup.node, Option.bind_some] at h2
  set s := st1.raiseFree (.vir nu)
    (BitVec.ofInt 64 (intOf (bit (order + functionItemLvl groupRangeNumShift lvl)))) with hs
  have hprev : (st.items block).prev = some r1 := by
    cases lvl with
    | zero => exact hE.elim
    | succ l => exact hE.1
  have hsprev : (s.items block).prev = some r1 := (congrArg ItemStruct.prev hitem).trans hprev
  obtain ⟨-, -, -, hpres⟩ := hE.linked List.mem_cons_self
  rw [List.mem_cons, not_or] at hblock
  rw [hprev] at h1
  rcases merge_step h1 with ⟨hne, -, rfl⟩ | ⟨-, l, st', hl, ho, hoff, hp', hup⟩
  · refine ⟨hne, fun h512 => ?_⟩
    -- the credit makes the table whole
    have hr1 := setFreeidx_item st r1 (nrFreeidxs st r1 - BitVec.ofNat 32 (2 ^ order))
    obtain ⟨s1, root, hkeep, hroot, hstep⟩ := dequeueTables_step h2
    obtain rfl : r1 = root := Option.some.inj (hsprev.symm.trans hroot)
    have hsr : s1.items r1 = s.items r1 :=
      hkeep.present r1 (Ne.symm hblock.1) (hr1.2.2.trans hpres)
    have hwhole : nrFreeidxs s1 r1 + BitVec.ofNat 32 (2 ^ order) = 512#32 := by
      rw [show nrFreeidxs s1 r1 = nrFreeidxs s r1 by unfold nrFreeidxs; rw [hsr],
        show nrFreeidxs s r1 = nrFreeidxs st r1 - BitVec.ofNat 32 (2 ^ order) from
          nrFreeidxs_setFreeidx st r1 _, BitVec.sub_add_cancel]
      exact h512
    rcases hstep with ⟨hw, -⟩ | ⟨-, l, s2, rfl, hd, h2⟩
    · exact hw hwhole
    · obtain ⟨ho, -, -, hp⟩ := listDel_items hd
      have hrest : ∀ t ∈ rest, s2.items t = st.items t := by
        intro t ht
        have htr : t ≠ r1 := fun e => hnot (e ▸ ht)
        obtain ⟨-, -, -, hpt⟩ := hE.linked (List.mem_cons_of_mem r1 ht)
        have hst : s.items t = st.items t := setFreeidx_items st _ htr
        rw [ho t htr, setFreeidx_items _ _ htr,
          hkeep.present t (fun e => hblock.2 (e ▸ ht)) (by rw [hst]; exact hpt), hst]
      have hr1prev : (s2.items r1).prev = (st.items r1).prev := by
        rw [hp, (setFreeidx_item s1 r1 _).2.1, hsr]
        exact hr1.2.1
      have hnd := hE.nodup hinj
      rw [List.nodup_cons] at hnd
      obtain ⟨t, ht, hne'⟩ := whole_not_undone
        (by
          show Above (s2.countDec (.groupCell (.vir nu l) .sparseMovable 0)) (s2.items r1).prev rest
          rw [hr1prev]
          exact (hE.2.2.2.2.above).congr hrest)
        hnd.2 hnot
        (fun t ht => by
          show nrFreeidxs s2 t ≠ 0#32
          unfold nrFreeidxs
          rw [hrest t ht]
          exact hE.nrFreeidxs_ne (List.mem_cons_of_mem r1 ht))
        h2
      refine hne' ((hR.table (List.mem_cons_of_mem r1 ht)).1.trans ?_)
      exact congrArg (fun i : ItemStruct => getItemFreeidx i.flags) (hrest t ht).symm
  · -- the table is full: off its list, and the free leaves it there
    subst hl
    have hr1 : st1.items r1 = st'.items r1 :=
      merge_others hinj (hE.2.2.2.2.congr fun t ht => ho t fun e => hnot (e ▸ ht)) hup hnot
    refine absurd (full_not_undone (Ne.intro hblock.1) hsprev ?_ ?_ h2)
      (hR.table List.mem_cons_self).2
    · show itemIsPresent (st1.items r1).flags = true
      rw [hr1, hp']
      exact hpres
    · show (st1.items r1).onList = none
      rw [hr1]
      exact hoff

/-- **Free undoes allocation on the tables exactly when the block neither filled its own table nor
    makes it whole.** As written the free does not return. -/
theorem tables_undone_iff (hB : SparseBlock st block lvl order nu)
    (hg : ∀ l, sparseGroup .given dim isVirtual l = some (group l))
    (hE : Enclosing st group .sparseMovable lvl (st.items block).prev (r1 :: rest))
    (hle : 2 ^ order ≤ getItemFreeidx (st.items r1).flags) :
    (∀ r pg, r = .written ∨ pg = .null →
      ¬ TablesUndone r pg st group dim isVirtual block lvl order (r1 :: rest)) ∧
    (TablesUndone .listFirst .given st group dim isVirtual block lvl order (r1 :: rest) ↔
      getItemFreeidx (st.items r1).flags ≠ 2 ^ order ∧
        getItemFreeidx (st.items r1).flags ≠ 2 ^ (maxItemRange + 1)) := by
  refine ⟨fun r pg h => not_tablesUndone hB (sparseGroup_level hg).1 hE h, ?_⟩
  have hwhole : nrFreeidxs st r1 = 512#32 ↔
      getItemFreeidx (st.items r1).flags = 2 ^ (maxItemRange + 1) := by
    rw [← BitVec.toNat_inj, toNat_nrFreeidxs]
    rfl
  rw [ne_eq, ne_eq, ← nrFreeidxs_eq_iff hle, ← hwhole]
  exact ⟨tables_of_undone hB hg hE, fun ⟨h1, h2⟩ =>
    tablesUndone_of hB hg hE (hE.nrFreeidxs_ne List.mem_cons_self) h1 h2⟩

end Undone

/-- The table 0 with `nr` free below it, on the order-0 list of level 0, and the block 512 of level 1
    taken from the array under it. -/
def oneTable (nr : Nat) : State :=
  let st := (oneBlock (.groupCell (.vir 0 0) .sparseMovable 0) 0).modFlags 0 fun flags =>
    setItemPresent (setItemFreeidx flags nr)
  st.modItem 512 fun x =>
    { x with
      flags := setItemState (setItemSection x.flags 1) 4
      prev := some 0 }

theorem oneTable_block (nr : Nat) : SparseBlock (oneTable nr) 512 1 0 0 where
  unlinked := rfl
  lvl := show getItemSection (setItemState (setItemSection 0#64 1) 4) = 1 by decide
  order := show getItemOrder (setItemState (setItemSection 0#64 1) 4) = 0 by decide
  node := show getItemNode (setItemState (setItemSection 0#64 1) 4) = 0 by decide
  state := show itemStates[getItemState (setItemState (setItemSection 0#64 1) 4)]? =
    some .sparseTypes by decide
  base := Nat.zero_le 512

theorem oneTable_enclosing {nr : Nat} (h : 1 ≤ getItemFreeidx ((oneTable nr).items 0).flags)
    (hp : itemIsPresent ((oneTable nr).items 0).flags = true) :
    Enclosing (oneTable nr) (.vir 0) .sparseMovable 1 ((oneTable nr).items 512).prev [0] :=
  ⟨rfl, rfl, h, hp, rfl⟩

theorem sparseGroup_time (l : Nat) : sparseGroup .given dimTime true l = some (.vir 0 l) := rfl

/-- One of three is taken and given back. -/
theorem oneTable_undone :
    TablesUndone .listFirst .given (oneTable 3) (.vir 0) dimTime true 512 1 0 [0] :=
  (tables_undone_iff (oneTable_block 3) sparseGroup_time
    (oneTable_enclosing (by decide +kernel) (by decide +kernel)) (by decide +kernel)).2.mpr
      ⟨by decide +kernel, by decide +kernel⟩

/-- The last one is taken: the table leaves its list and is not put back. -/
theorem oneTable_full : SparseBlock (oneTable 1) 512 1 0 0 ∧
    Enclosing (oneTable 1) (.vir 0) .sparseMovable 1 ((oneTable 1).items 512).prev [0] ∧
    getItemFreeidx ((oneTable 1).items 0).flags = 2 ^ 0 ∧
    ∀ r pg, ¬ TablesUndone r pg (oneTable 1) (.vir 0) dimTime true 512 1 0 [0] := by
  have hE : Enclosing (oneTable 1) (.vir 0) .sparseMovable 1 ((oneTable 1).items 512).prev [0] :=
    oneTable_enclosing (by decide +kernel) (by decide +kernel)
  have hnr : getItemFreeidx ((oneTable 1).items 0).flags = 2 ^ 0 := by decide +kernel
  refine ⟨oneTable_block 1, hE, hnr, fun r pg hU => ?_⟩
  by_cases h : r = .written ∨ pg = .null
  · exact not_tablesUndone (oneTable_block 1) (sparseGroup_level sparseGroup_time).1 hE h hU
  · obtain ⟨rfl, rfl⟩ : r = .listFirst ∧ pg = .given := by
      cases r <;> cases pg <;> simp_all
    exact (tables_of_undone (oneTable_block 1) sparseGroup_time hE hU).1
      ((nrFreeidxs_eq_iff (Nat.le_of_eq hnr.symm)).mpr hnr)

end TensorAlloc
