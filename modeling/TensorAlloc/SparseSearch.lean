/-
  File:      TensorAlloc/SparseSearch.lean
  Subject:   The search of the sparse groups: `forward_remove_group_sparse`.

  * `searchLevels` -- from the level asked for up to level 0, the first lists that have a block;
  * `forwardRemoveGroupSparse` -- a block of a coarser level is not turned into one: the branch reads
    `temp` before it is set, or a member of NULL;
  * `TablesCharged` -- what the charge of the enclosing tables leaves alone: it writes their
    `freeidx` and takes the full ones off their lists.
-/
import TensorAlloc.SparseTable
import TensorAlloc.Stream

namespace TensorAlloc

/-! ## 1. The function -/

/-- The way up from `level`; the level asked for is `lvl`. -/
def searchLevels (pg : ProcessGroup) (mt : MigrationType) (dim : Nat) (isVirtual : Bool) (lvl : Nat) :
    Nat → State → Nat → Option (State × Option (Nat × Item))
  | level, st, orderIndex => do
      let group ← sparseGroup pg dim isVirtual level
      let (st, item) ← removeGroupMigration st group level orderIndex mt (level != lvl)
      match item with
      | some item => pure (st, some (level, item))
      | none =>
          match level with
          | 0 => pure (st, none)
          | level + 1 => searchLevels pg mt dim isVirtual lvl level st 0

/-- A block of the level asked for enters its table: what it reads as the parent of its item array,
    and is charged to. A word there that is no address of a descriptor faults. -/
def enterTable (itemarrayPrev : ItemarrayPrev) (pg : ProcessGroup) (st : State) (item : Item)
    (lvl order : Nat) (mt : MigrationType) (dim : Nat) (isVirtual : Bool) : Option State := do
  let prev ← itemarrayPrev st item
  mergeGroupSparseTable pg mt dim isVirtual lvl (st.modItem item fun x => { x with prev := prev }) prev
    order

/-- `forward_remove_group_sparse`. The self-call passes four arguments for five: read with those of
    the call it is made in. `fuel` bounds the self-calls. -/
def forwardRemoveGroupSparse (env : StreamEnv) :
    Nat → State → Nat → MigrationType → Nat → Nat → Bool → Option (State × Option Item)
  | 0, _, _, _, _, _, _ => none
  | fuel + 1, st, lvl, mt, order, dim, isVirtual => do
      let (st, found) ← searchLevels env.pg mt dim isVirtual lvl lvl st order
      match found with
      | some (level, item) =>
          if level = lvl then
            (enterTable env.itemarrayPrev env.pg st item lvl order mt dim isVirtual).map
              fun st => (st, some item)
          else none
      | none => do
          let group ← sparseGroup env.pg dim isVirtual 0
          -- the loop leaves with level -1: any level but 0, the node's root is not set
          match newGroupRoot env st group maxGroupLvls mt with
          | none => pure (st, none)
          | some (st, _) => forwardRemoveGroupSparse env fuel st lvl mt order dim isVirtual

section Search

variable {env : StreamEnv} {st st' : State} {pg : ProcessGroup} {mt : MigrationType}
  {dim lvl order fuel : Nat} {isVirtual : Bool} {group : Group} {item : Item}

/-- **A block on the lists of the level asked for is the one returned.** -/
theorem forwardRemoveGroupSparse_own (hg : sparseGroup env.pg dim isVirtual lvl = some group)
    (h : removeGroupMigration st group lvl order mt false = some (st', some item)) :
    forwardRemoveGroupSparse env (fuel + 1) st lvl mt order dim isVirtual =
      (enterTable env.itemarrayPrev env.pg st' item lvl order mt dim isVirtual).map
        fun st => (st, some item) := by
  have hs : searchLevels env.pg mt dim isVirtual lvl lvl st order =
      some (st', some (lvl, item)) := by
    unfold searchLevels
    rw [hg, bne_self_eq_false]
    simp only [Option.bind_eq_bind, Option.bind_some, h, Option.pure_def]
  rw [forwardRemoveGroupSparse, hs]
  exact if_pos rfl

/-- **One level of the search**: its group answers, or the search goes on below, or ends at the
    top. -/
theorem searchLevels_cases {level orderIndex : Nat} {found : Option (Nat × Item)}
    (h : searchLevels pg mt dim isVirtual lvl level st orderIndex = some (st', found)) :
    ∃ group, sparseGroup pg dim isVirtual level = some group ∧
      ((∃ item, found = some (level, item) ∧
        removeGroupMigration st group level orderIndex mt (level != lvl) = some (st', some item)) ∨
      ∃ st1, removeGroupMigration st group level orderIndex mt (level != lvl) = some (st1, none) ∧
        ((level = 0 ∧ found = none ∧ st' = st1) ∨
        ∃ l, level = l + 1 ∧ searchLevels pg mt dim isVirtual lvl l st1 0 = some (st', found))) := by
  unfold searchLevels at h
  simp only [Option.bind_eq_bind, Option.bind_eq_some_iff] at h
  obtain ⟨group, hg, ⟨st1, item⟩, hr, h⟩ := h
  refine ⟨group, hg, ?_⟩
  cases item with
  | some item =>
      cases h
      exact .inl ⟨item, rfl, hr⟩
  | none =>
      refine .inr ⟨st1, hr, ?_⟩
      cases level with
      | zero =>
          cases h
          exact .inl ⟨rfl, rfl, rfl⟩
      | succ level => exact .inr ⟨level, rfl, h⟩

theorem searchLevels_none {level orderIndex : Nat}
    (h : searchLevels pg mt dim isVirtual lvl level st orderIndex = some (st', none)) : st' = st := by
  induction level using Nat.strong_induction_on generalizing st orderIndex with
  | h level ih =>
      obtain ⟨group, -, ⟨item, hf, -⟩ | ⟨st1, hr, hbelow⟩⟩ := searchLevels_cases h
      · cases hf
      · obtain rfl := removeGroupMigration_none hr
        obtain ⟨-, -, rfl⟩ | ⟨level, rfl, hs⟩ := hbelow
        · rfl
        · exact ih level (Nat.lt_succ_self level) hs

end Search

/-! ## 2. What a charge leaves alone -/

/-- The tables above an item: its parent, the parent of that, and so on. -/
inductive IsAbove (st : State) : Option Item → Item → Prop
  | parent (t : Item) : IsAbove st (some t) t
  | further {t u : Item} (h : IsAbove st (st.items t).prev u) : IsAbove st (some t) u

theorem IsAbove.congr {st st' : State} (hp : ∀ i, (st'.items i).prev = (st.items i).prev)
    {prev : Option Item} {t : Item} (h : IsAbove st' prev t) : IsAbove st prev t := by
  induction h with
  | parent t => exact .parent t
  | further _ ih => exact .further (by rw [← hp]; exact ih)

/-- The charge of tables that are linked on lists of `on` only. -/
structure TablesCharged (on : ListHead → Prop) (st st' : State) : Prop where
  linked : st.Linked → st'.Linked
  nodes : st'.nodes = st.nodes
  tables : st'.tables = st.tables
  prev : ∀ i, (st'.items i).prev = (st.items i).prev
  marks : ∀ i f, f ≠ .freeidx → field f (st'.items i).flags = field f (st.items i).flags
  onList : ∀ i l, (st'.items i).onList = some l → (st.items i).onList = some l
  sub : ∀ h, (st'.lists h).Sublist (st.lists h)
  same : ∀ h, ¬ on h → st'.lists h = st.lists h

section Charge

variable {on : ListHead → Prop} {st st' st'' : State}

theorem TablesCharged.refl (st : State) : TablesCharged on st st :=
  ⟨id, rfl, rfl, fun _ => rfl, fun _ _ _ => rfl, fun _ _ h => h, fun _ => List.Sublist.refl _,
    fun _ _ => rfl⟩

theorem TablesCharged.trans (h : TablesCharged on st st') (h' : TablesCharged on st' st'') :
    TablesCharged on st st'' where
  linked hL := h'.linked (h.linked hL)
  nodes := h'.nodes.trans h.nodes
  tables := h'.tables.trans h.tables
  prev i := (h'.prev i).trans (h.prev i)
  marks i f hf := (h'.marks i f hf).trans (h.marks i f hf)
  onList i l hi := h.onList i l (h'.onList i l hi)
  sub l := (h'.sub l).trans (h.sub l)
  same l hl := (h'.same l hl).trans (h.same l hl)

theorem charged_setFreeidx (st : State) (item : Item) (nr : BitVec 32) :
    TablesCharged on st (st.setFreeidx item nr) where
  linked hL := hL.modFlags _ _
  nodes := rfl
  tables := rfl
  prev i := by
    unfold State.setFreeidx State.modFlags
    exact st.modItem_keeps i ItemStruct.prev rfl
  marks i f hf := by
    unfold State.setFreeidx State.modFlags
    exact st.modItem_keeps i (fun x => field f x.flags)
      ((field_withField f .freeidx _ _).trans (if_neg hf))
  onList i l hi := by
    unfold State.setFreeidx State.modFlags at hi
    rw [st.modItem_keeps i ItemStruct.onList rfl] at hi
    exact hi
  sub _ := List.Sublist.refl _
  same _ _ := rfl

theorem charged_listDel {item : Item} (hon : ∀ l, (st.items item).onList = some l → on l)
    (h : listDel st item = some st') : TablesCharged on st st' := by
  have hL : st.Linked → st'.Linked := fun hL => hL.listDel h
  obtain ⟨ho, hnone, hflags, hprev⟩ := listDel_items h
  obtain ⟨l, hl, hst⟩ := listDel_some h
  have hlists : ∀ k, st'.lists k = if k = l then (st.lists l).erase item else st.lists k := by
    intro k
    rw [hst, State.modItem_lists, State.setList_lists]
  refine ⟨hL, by rw [hst]; rfl, by rw [hst]; rfl, fun i => ?_, fun i f _ => ?_,
    fun i k hi => ?_, fun k => ?_, fun k hk => ?_⟩
  · by_cases e : i = item
    · rw [e, hprev]
    · rw [ho i e]
  · by_cases e : i = item
    · rw [e, hflags]
    · rw [ho i e]
  · by_cases e : i = item
    · rw [e, hnone] at hi
      cases hi
    · rw [ho i e] at hi
      exact hi
  · rw [hlists]
    split
    · next e => rw [e]; exact List.erase_sublist
    · exact List.Sublist.refl _
  · rw [hlists, if_neg]
    intro e
    exact hk (e ▸ hon l hl)

theorem charged_countDec (st : State) (h : ListHead) : TablesCharged on st (st.countDec h) :=
  ⟨fun hL => hL.countDec h, rfl, rfl, fun _ => rfl, fun _ _ _ => rfl, fun _ _ h => h,
    fun _ => List.Sublist.refl _, fun _ _ => rfl⟩

theorem charged_sparseTableFree (st : State) (item : Item) (order : Nat) :
    TablesCharged on st (sparseTableFree st item order).1 := by
  unfold sparseTableFree
  dsimp only
  split
  · exact .refl st
  · exact charged_setFreeidx _ _ _

/-- **The way up takes tables off their own lists only.** -/
theorem mergeGroupSparseTable_charged {pg : ProcessGroup} {mt : MigrationType} {dim lvl order : Nat}
    {isVirtual : Bool} {prev : Option Item}
    (hon : ∀ t, IsAbove st prev t → ∀ l, (st.items t).onList = some l → on l)
    (h : mergeGroupSparseTable pg mt dim isVirtual lvl st prev order = some st') :
    TablesCharged on st st' := by
  induction lvl using Nat.strong_induction_on generalizing st prev order with
  | h lvl ih =>
      cases prev with
      | none =>
          rw [mergeGroupSparseTable, Option.some.injEq] at h
          exact h ▸ .refl st
      | some r =>
          have hfree := @charged_sparseTableFree on st r order
          obtain ⟨-, rfl⟩ | ⟨-, lvl, g, st1, rfl, hd, hm⟩ := mergeGroupSparseTable_cases h
          · exact hfree
          · have hoff := charged_listDel (fun l hl => hon r (.parent r) l (hfree.onList r l hl)) hd
            have hstep := (hfree.trans hoff).trans (charged_countDec st1 (.groupCell g mt 0))
            refine hstep.trans (ih lvl (Nat.lt_succ_self lvl) (fun t ht l hl => ?_) hm)
            refine hon t (.further ?_) l (hstep.onList t l hl)
            rw [← hstep.prev]
            exact ht.congr hstep.prev

end Charge

end TensorAlloc
