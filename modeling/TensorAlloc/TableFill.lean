/-
  File:      TensorAlloc/TableFill.lean
  Subject:   How far the charge of an allocation goes up the tables: `merge_group_sparse_table` spends
             the row of their counters (`TensorAlloc/Base/Carry.lean`).

  * `merge_fills`, `merge_keeps` -- one table of the walk: used up, or where it ends;
  * `Walked` -- the walk over a `TableChain` against `Carry.spend`: what it makes of the counters, the
    lists and the rest (`merge_walks`);
  * `merge_fills_exactly` -- the tables used up, and no others, end with nothing free and unlinked;
    the next one is charged once, those above it not at all.
-/
import TensorAlloc.Base.Carry
import TensorAlloc.SparseSearch

namespace TensorAlloc

/-! ## 1. Lists and counters -/

/-- The list that `remove_sparse_table` counts a table of a level off. -/
def tableList (pg : ProcessGroup) (mt : MigrationType) (dim : Nat) (isVirtual : Bool) (lvl : Nat) :
    Option ListHead :=
  (sparseGroup pg dim isVirtual lvl).map fun group => .groupCell group mt 0

/-- The counters of the tables. -/
def freeidxs (st : State) (tables : List Item) : List Nat :=
  tables.map fun r => getItemFreeidx (st.items r).flags

theorem freeidxs_congr {st st' : State} {tables : List Item}
    (hi : ∀ t ∈ tables, st'.items t = st.items t) :
    freeidxs st' tables = freeidxs st tables := by
  refine List.map_congr_left fun t ht => ?_
  rw [hi t ht]

/-! ## 2. One table -/

/-- A table used up: nothing free, off its list, the list's count one less. -/
def State.tableFull (st : State) (r : Item) (h : ListHead) : State :=
  (((st.setFreeidx r 0#32).setList h ((st.lists h).erase r)).modItem r
    fun x => { x with onList := none }).countDec h

section Table

variable {st : State} {pg : ProcessGroup} {mt : MigrationType} {dim lvl order : Nat}
  {isVirtual : Bool} {i r : Item} {h : ListHead}

theorem tableFull_items (hi : i ≠ r) : (st.tableFull r h).items i = st.items i := by
  unfold State.tableFull
  rw [State.countDec_items, State.modItem_items, if_neg hi, State.setList_items,
    setFreeidx_items st _ hi]

theorem tableFull_item : getItemFreeidx ((st.tableFull r h).items r).flags = 0 ∧
    ((st.tableFull r h).items r).onList = none ∧
    ((st.tableFull r h).items r).prev = (st.items r).prev := by
  unfold State.tableFull
  rw [State.countDec_items, State.modItem_items, if_pos rfl, State.setList_items]
  exact ⟨freeidx_setFreeidx st r 0#32, rfl, (setFreeidx_item st r 0#32).2.1⟩

theorem tableFull_lists (h' : ListHead) : (st.tableFull r h).lists h' =
    if h' = h then (st.lists h).erase r else st.lists h' := by
  unfold State.tableFull
  rw [State.countDec_lists, State.modItem_lists, State.setList_lists]
  rfl

theorem tableFull_counts (h' : ListHead) : (st.tableFull r h).counts h' =
    if h' = h then st.counts h - 1 else st.counts h' := by
  unfold State.tableFull
  rw [State.countDec_counts]
  rfl

/-- **A table used up leaves its list, and its parent is charged one unit.** -/
theorem merge_fills (hl : tableList pg mt dim isVirtual lvl = some h)
    (ho : (st.items r).onList = some h) (hq : getItemFreeidx (st.items r).flags = 2 ^ order) :
    mergeGroupSparseTable pg mt dim isVirtual (lvl + 1) st (some r) order =
      mergeGroupSparseTable pg mt dim isVirtual lvl (st.tableFull r h) (st.items r).prev 0 := by
  have hle := Nat.le_of_eq hq.symm
  have hpos := Nat.lt_of_lt_of_le (Nat.two_pow_pos order) hle
  have hnr := (nrFreeidxs_eq_iff hle).mpr hq
  obtain ⟨group, hg, rfl⟩ := Option.map_eq_some_iff.mp hl
  have hfree : sparseTableFree st r order = (st.setFreeidx r 0#32, false) := by
    unfold sparseTableFree
    dsimp only
    rw [if_neg (nrFreeidxs_ne_zero hpos), hnr, BitVec.sub_self, bne_self_eq_false]
  have hoff := listDel_of ((setFreeidx_item st r 0#32).1.trans ho)
  have hprev := (@tableFull_item st r (.groupCell group mt 0)).2.2
  conv_lhs => unfold mergeGroupSparseTable
  simp only [hfree, Bool.false_eq_true, if_false, removeSparseTable, hg, hoff, Option.bind_eq_bind,
    Option.bind_some, Option.pure_def]
  rw [← hprev]
  rfl

/-- **A table with more keeps the rest and stays where it is**, and the walk ends. -/
theorem merge_keeps (hle : 2 ^ order ≤ getItemFreeidx (st.items r).flags)
    (hq : getItemFreeidx (st.items r).flags ≠ 2 ^ order) :
    ∃ nr, nr.toNat = getItemFreeidx (st.items r).flags - 2 ^ order ∧
      mergeGroupSparseTable pg mt dim isVirtual lvl st (some r) order = some (st.setFreeidx r nr) := by
  have hpos := Nat.lt_of_lt_of_le (Nat.two_pow_pos order) hle
  refine ⟨nrFreeidxs st r - BitVec.ofNat 32 (2 ^ order), ?_,
    merge_stops (nrFreeidxs_ne_zero hpos) fun e => hq ((nrFreeidxs_eq_iff hle).mp e)⟩
  have hble : BitVec.ofNat 32 (2 ^ order) ≤ nrFreeidxs st r := by
    rw [BitVec.le_def, toNat_charge hle, toNat_nrFreeidxs]
    exact hle
  rw [BitVec.toNat_sub_of_le hble, toNat_charge hle, toNat_nrFreeidxs]

end Table

/-! ## 3. The walk -/

/-- What a walk that charges `q` makes of a chain: its counters spent, the leading ones that reach 0
    off their lists, everything else as before. -/
structure Walked (st st' : State) (tables : List Item) (q j : Nat) : Prop where
  counters : freeidxs st' tables = Carry.spend q (freeidxs st tables)
  off : ∀ r ∈ tables.take j, (st'.items r).onList = none
  removed : ∀ r ∈ tables.take j, ∀ h, (st.items r).onList = some h →
    st'.lists h = (st.lists h).erase r ∧ st'.counts h = st.counts h - 1
  next : ∀ r ∈ (tables.drop j).head?, (st'.items r).onList = (st.items r).onList
  others : ∀ i, i ∉ tables.take (j + 1) → st'.items i = st.items i
  elsewhere : ∀ h, (∀ r ∈ tables.take j, (st.items r).onList ≠ some h) →
    st'.lists h = st.lists h ∧ st'.counts h = st.counts h

section Walk

variable {st st' : State} {pg : ProcessGroup} {mt : MigrationType} {dim lvl order q j : Nat}
  {isVirtual : Bool} {item : Option Item} {r : Item} {rs tables : List Item} {h : ListHead}

theorem walked_nil (st : State) (q : Nat) : Walked st st [] q 0 where
  counters := rfl
  off _ hr := (List.not_mem_nil hr).elim
  removed _ hr := (List.not_mem_nil hr).elim
  next _ hr := by cases hr
  others _ _ := rfl
  elsewhere _ _ := ⟨rfl, rfl⟩

/-- The walk stops at the first table. -/
theorem walked_keeps {nr : BitVec 32} (hr : r ∉ rs) (hq : getItemFreeidx (st.items r).flags ≠ q)
    (hnr : nr.toNat = getItemFreeidx (st.items r).flags - q) :
    Walked st (st.setFreeidx r nr) (r :: rs) q 0 where
  counters := by
    have hrs : freeidxs (st.setFreeidx r nr) rs = freeidxs st rs :=
      freeidxs_congr fun t ht => setFreeidx_items st nr fun e => hr (e ▸ ht)
    have hcons : freeidxs st (r :: rs) = getItemFreeidx (st.items r).flags :: freeidxs st rs := rfl
    rw [hcons, Carry.spend_of_ne hq, ← hnr, ← hrs, ← freeidx_setFreeidx st r nr]
    rfl
  off _ hr := (List.not_mem_nil hr).elim
  removed _ hr := (List.not_mem_nil hr).elim
  next t ht := by
    obtain rfl := Option.some.inj ht
    exact (setFreeidx_item st r nr).1
  others i hi := setFreeidx_items st nr fun e => hi (by rw [e]; exact List.mem_cons_self)
  elsewhere _ _ := ⟨rfl, rfl⟩

/-- **One table used up before the rest of the walk.** -/
theorem Walked.full (ho : (st.items r).onList = some h)
    (hq : getItemFreeidx (st.items r).flags = q) (hapart : ∀ t ∈ rs, (st.items t).onList ≠ some h)
    (hW : Walked (st.tableFull r h) st' rs 1 j) : Walked st st' (r :: rs) q (j + 1) := by
  have hne : ∀ t ∈ rs, t ≠ r := fun t ht e => hapart t ht (e ▸ ho)
  have hsame : ∀ t ∈ rs, (st.tableFull r h).items t = st.items t := fun t ht =>
    tableFull_items (hne t ht)
  have hr : st'.items r = (st.tableFull r h).items r :=
    hW.others r fun hr => hne r (List.mem_of_mem_take hr) rfl
  obtain ⟨hzero, hoff, -⟩ := @tableFull_item st r h
  -- the tables above are on other lists
  have hlist : ∀ t ∈ rs.take j, ∀ l, (st.items t).onList = some l → l ≠ h := by
    rintro t ht l hl rfl
    exact hapart t (List.mem_of_mem_take ht) hl
  have hh := hW.elsewhere h fun t ht => by
    rw [hsame t (List.mem_of_mem_take ht)]
    exact hapart t (List.mem_of_mem_take ht)
  refine ⟨?_, fun t ht => ?_, fun t ht l hl => ?_, fun t ht => ?_, fun i hi => ?_, fun l hl => ?_⟩
  · have hcons : freeidxs st (r :: rs) = getItemFreeidx (st.items r).flags :: freeidxs st rs := rfl
    have hcons' : freeidxs st' (r :: rs) = getItemFreeidx (st'.items r).flags :: freeidxs st' rs := rfl
    rw [hcons, hcons', hq, Carry.spend_self, hW.counters, freeidxs_congr hsame, hr, hzero]
  · rcases List.mem_cons.mp ht with rfl | ht
    · rw [hr]
      exact hoff
    · exact hW.off t ht
  · rcases List.mem_cons.mp ht with rfl | ht
    · obtain rfl := Option.some.inj (ho.symm.trans hl)
      rw [hh.1, hh.2, tableFull_lists, tableFull_counts, if_pos rfl, if_pos rfl]
      exact ⟨rfl, rfl⟩
    · obtain ⟨h1, h2⟩ := hW.removed t ht l (by rw [hsame t (List.mem_of_mem_take ht)]; exact hl)
      rw [tableFull_lists, if_neg (hlist t ht l hl)] at h1
      rw [tableFull_counts, if_neg (hlist t ht l hl)] at h2
      exact ⟨h1, h2⟩
  · rw [List.drop_succ_cons] at ht
    rw [hW.next t ht, hsame t (List.mem_of_mem_drop (List.mem_of_mem_head? ht))]
  · rw [List.take_succ_cons, List.mem_cons, not_or] at hi
    rw [hW.others i hi.2, tableFull_items hi.1]
  · have hlh : l ≠ h := fun e => hl r List.mem_cons_self (e ▸ ho)
    obtain ⟨h1, h2⟩ := hW.elsewhere l fun t ht => by
      rw [hsame t (List.mem_of_mem_take ht)]
      exact hl t (List.mem_cons_of_mem r ht)
    rw [tableFull_lists, if_neg hlh] at h1
    rw [tableFull_counts, if_neg hlh] at h2
    exact ⟨h1, h2⟩

/-- A list is that of one level. -/
theorem tableList_inj (l l' : Nat) (h : ListHead) (hl : tableList pg mt dim isVirtual l = some h)
    (hl' : tableList pg mt dim isVirtual l' = some h) : l = l' := by
  obtain ⟨group, hg, rfl⟩ := Option.map_eq_some_iff.mp hl
  obtain ⟨group', hg', e⟩ := Option.map_eq_some_iff.mp hl'
  obtain rfl := (ListHead.groupCell.inj e).1
  unfold sparseGroup at hg hg'
  cases isVirtual with
  | true =>
      obtain ⟨nu, -, hv⟩ := Option.bind_eq_some_iff.mp hg
      obtain ⟨nu', -, hv'⟩ := Option.bind_eq_some_iff.mp hg'
      obtain ⟨node, -, rfl⟩ := Option.map_eq_some_iff.mp hv
      obtain ⟨node', -, e⟩ := Option.map_eq_some_iff.mp hv'
      exact (Group.vir.inj e).2.symm
  | false =>
      obtain ⟨nu, -, rfl⟩ := Option.map_eq_some_iff.mp hg
      obtain ⟨nu', -, e⟩ := Option.map_eq_some_iff.mp hg'
      exact (Group.phy.inj e).2.symm

/-- **The walk returns, and is the charge of the counters.** -/
theorem merge_walks (hC : TableChain (tableList pg mt dim isVirtual) st lvl item tables)
    (hq : ∀ c ∈ (freeidxs st tables).head?, 2 ^ order ≤ c) :
    ∃ st', mergeGroupSparseTable pg mt dim isVirtual lvl st item order = some st' ∧
      Walked st st' tables (2 ^ order) (Carry.reach (2 ^ order) (freeidxs st tables)) := by
  induction tables generalizing lvl item st order with
  | nil =>
      have hitem : item = none := by cases lvl <;> exact hC
      subst hitem
      exact ⟨st, by unfold mergeGroupSparseTable; rfl, walked_nil st _⟩
  | cons r rs ih =>
      have hapart := (List.pairwise_cons.mp (hC.apart tableList_inj)).1
      cases lvl with
      | zero => exact hC.elim
      | succ lvl =>
          obtain ⟨rfl, hf, ⟨h, hl, ho⟩, hrs⟩ := hC
          have hle : 2 ^ order ≤ getItemFreeidx (st.items r).flags := hq _ rfl
          have hcons : freeidxs st (r :: rs) = getItemFreeidx (st.items r).flags :: freeidxs st rs := rfl
          by_cases he : getItemFreeidx (st.items r).flags = 2 ^ order
          · have hsame : ∀ t ∈ rs, (st.tableFull r h).items t = st.items t := fun t ht =>
              tableFull_items fun e => hapart t ht (by rw [e])
            have hone : ∀ c ∈ (freeidxs (st.tableFull r h) rs).head?, 2 ^ 0 ≤ c := fun c hc => by
              rw [freeidxs_congr hsame] at hc
              obtain ⟨t, ht, rfl⟩ := List.mem_map.mp (List.mem_of_mem_head? hc)
              exact (hrs.linked ht).1
            obtain ⟨st', hrun, hW⟩ := ih (hrs.congr hsame) hone
            rw [freeidxs_congr hsame] at hW
            refine ⟨st', (merge_fills hl ho he).trans hrun, ?_⟩
            rw [hcons, he, Carry.reach_self]
            exact hW.full ho he fun t ht => ho ▸ (hapart t ht).symm
          · obtain ⟨nr, hnr, hrun⟩ := merge_keeps hle he
            refine ⟨_, hrun, ?_⟩
            rw [hcons, Carry.reach_of_ne he]
            exact walked_keeps (fun hr => hapart r hr rfl) he hnr

end Walk

/-! ## 4. The tables filled -/

/-- A charge `q` of a chain whose first `j` tables reach 0: these, and no others, end with nothing free
    and off their lists; the next one is charged once and stays; those above it are as before. -/
structure TablesFilled (st st' : State) (tables : List Item) (q j : Nat) : Prop where
  used : ∀ r ∈ tables, getItemFreeidx (st'.items r).flags = 0 ↔ r ∈ tables.take j
  unlinked : ∀ r ∈ tables, (st'.items r).onList = none ↔ r ∈ tables.take j
  removed : ∀ r ∈ tables.take j, ∀ h, (st.items r).onList = some h →
    st'.lists h = (st.lists h).erase r ∧ st'.counts h = st.counts h - 1
  next : ∀ r ∈ (tables.drop j).head?, 0 < getItemFreeidx (st'.items r).flags ∧
    getItemFreeidx (st'.items r).flags + Carry.due q j = getItemFreeidx (st.items r).flags
  linked : ∀ r ∈ tables.drop j, ∀ h, (st.items r).onList = some h →
    (st'.items r).onList = some h ∧ st'.lists h = st.lists h ∧ st'.counts h = st.counts h
  above : ∀ r ∈ tables.drop (j + 1), st'.items r = st.items r
  others : ∀ i, i ∉ tables.take (j + 1) → st'.items i = st.items i
  elsewhere : ∀ h, (∀ r ∈ tables.take j, (st.items r).onList ≠ some h) →
    st'.lists h = st.lists h ∧ st'.counts h = st.counts h
  frame : TablesCharged (fun _ => True) st st'

section Filled

variable {st st' : State} {list : Nat → Option ListHead} {lvl q j : Nat} {item : Option Item}
  {tables : List Item}

/-- The counters of the tables used up, and of the others. -/
theorem Walked.split (hj : Carry.reach q (freeidxs st tables) = j) (hW : Walked st st' tables q j) :
    freeidxs st' (tables.take j) = List.replicate j 0 ∧
    freeidxs st' (tables.drop j) =
      (freeidxs st (tables.drop j)).modifyHead fun c => c - Carry.due q j := by
  have h := hW.counters
  rw [Carry.spend_eq, hj] at h
  unfold freeidxs at h ⊢
  rw [List.map_take, List.map_drop, List.map_drop, h]
  exact ⟨List.take_left' List.length_replicate, List.drop_left' List.length_replicate⟩

theorem Walked.used (hj : Carry.reach q (freeidxs st tables) = j) (hW : Walked st st' tables q j) :
    ∀ r ∈ tables.take j, getItemFreeidx (st'.items r).flags = 0 := by
  intro r hr
  have hmem : getItemFreeidx (st'.items r).flags ∈ freeidxs st' (tables.take j) :=
    List.mem_map_of_mem hr
  rw [(hW.split hj).1] at hmem
  exact List.eq_of_mem_replicate hmem

/-- The table where the charge stops. -/
theorem Walked.charged (hC : TableChain list st lvl item tables)
    (hq : ∀ c ∈ (freeidxs st tables).head?, q ≤ c)
    (hj : Carry.reach q (freeidxs st tables) = j) (hW : Walked st st' tables q j) :
    ∀ r ∈ (tables.drop j).head?, 0 < getItemFreeidx (st'.items r).flags ∧
      getItemFreeidx (st'.items r).flags + Carry.due q j = getItemFreeidx (st.items r).flags := by
  intro r hr
  obtain ⟨rs, hrs⟩ := List.head?_eq_some_iff.mp hr
  have hlt : Carry.due q j < getItemFreeidx (st.items r).flags := by
    have hdue := Carry.due_lt hq fun c hc => by
      obtain ⟨t, ht, rfl⟩ := List.mem_map.mp hc
      exact (hC.linked ht).1
    rw [hj] at hdue
    refine hdue _ ?_
    unfold freeidxs
    rw [← List.map_drop, hrs]
    rfl
  have hdrop := (hW.split hj).2
  rw [hrs] at hdrop
  have heq : getItemFreeidx (st'.items r).flags =
      getItemFreeidx (st.items r).flags - Carry.due q j := (List.cons.inj hdrop).1
  omega

theorem Walked.above (hnd : tables.Nodup) (hW : Walked st st' tables q j) :
    ∀ r ∈ tables.drop (j + 1), st'.items r = st.items r :=
  fun r hr => hW.others r fun ht => List.disjoint_take_drop hnd (Nat.le_refl _) ht hr

/-- **A table that is not used up keeps something free and stays on its list**: it is where the charge
    stops, or further up. -/
theorem Walked.kept (hC : TableChain list st lvl item tables)
    (hq : ∀ c ∈ (freeidxs st tables).head?, q ≤ c)
    (hj : Carry.reach q (freeidxs st tables) = j) (hW : Walked st st' tables q j)
    (hnd : tables.Nodup) : ∀ r ∈ tables.drop j,
      0 < getItemFreeidx (st'.items r).flags ∧ (st'.items r).onList = (st.items r).onList := by
  intro r hr
  obtain ⟨t, ts, hd⟩ := List.exists_cons_of_ne_nil (List.ne_nil_of_mem hr)
  rw [hd] at hr
  rcases List.mem_cons.mp hr with rfl | hr
  · have hhead : r ∈ (tables.drop j).head? := by rw [hd]; rfl
    exact ⟨(hW.charged hC hq hj r hhead).1, hW.next r hhead⟩
  · have hmem : r ∈ tables.drop (j + 1) := by
      rw [← List.tail_drop, hd]
      exact hr
    rw [hW.above hnd r hmem]
    exact ⟨(hC.linked (List.mem_of_mem_drop hmem)).1, rfl⟩

/-- **The walk fills the tables exactly as far as the charge goes.** -/
theorem Walked.filled (hinj : ∀ l l' h, list l = some h → list l' = some h → l = l')
    (hC : TableChain list st lvl item tables) (hq : ∀ c ∈ (freeidxs st tables).head?, q ≤ c)
    (hj : Carry.reach q (freeidxs st tables) = j) (hW : Walked st st' tables q j)
    (hframe : TablesCharged (fun _ => True) st st') : TablesFilled st st' tables q j := by
  have hapart := hC.apart hinj
  have hnd := hC.nodup hinj
  rw [← List.take_append_drop j tables, List.pairwise_append] at hapart
  have hkept := hW.kept hC hq hj hnd
  have hsplit : ∀ r ∈ tables, r ∈ tables.take j ∨ r ∈ tables.drop j := fun r hr => by
    rw [← List.mem_append, List.take_append_drop]
    exact hr
  refine ⟨fun r hr => ⟨fun e => ?_, hW.used hj r⟩, fun r hr => ⟨fun e => ?_, hW.off r⟩, hW.removed,
    hW.charged hC hq hj, fun r hr h ho => ?_, hW.above hnd, hW.others, hW.elsewhere, hframe⟩
  · refine (hsplit r hr).resolve_right fun hd => ?_
    exact absurd e (Nat.ne_of_gt (hkept r hd).1)
  · refine (hsplit r hr).resolve_right fun hd => ?_
    obtain ⟨-, l, -, h, -, ho⟩ := hC.linked hr
    rw [(hkept r hd).2, ho] at e
    cases e
  · -- its list is none of those that lost a table
    refine ⟨(hkept r hr).2.trans ho, hW.elsewhere h fun t ht e => ?_⟩
    exact hapart.2.2 t ht r hr (e.trans ho.symm)

end Filled

/-- **Filling up tables goes exactly as far as needed**: on a chain whose first table has what the
    order asks for, the walk returns, and fills the leading tables that the charge uses up. -/
theorem merge_fills_exactly {st : State} {pg : ProcessGroup} {mt : MigrationType}
    {dim level order : Nat} {isVirtual : Bool} {item : Option Item} {tables : List Item}
    (hC : TableChain (tableList pg mt dim isVirtual) st level item tables)
    (hq : ∀ r ∈ item, 2 ^ order ≤ getItemFreeidx (st.items r).flags) :
    ∃ st', mergeGroupSparseTable pg mt dim isVirtual level st item order = some st' ∧
      TablesFilled st st' tables (2 ^ order) (Carry.reach (2 ^ order) (freeidxs st tables)) := by
  have hhead : ∀ c ∈ (freeidxs st tables).head?, 2 ^ order ≤ c := by
    intro c hc
    cases tables with
    | nil => cases hc
    | cons r rs =>
        obtain rfl := Option.some.inj hc
        cases level with
        | zero => exact hC.elim
        | succ level => exact hq r hC.1
  obtain ⟨st', hrun, hW⟩ := merge_walks hC hhead
  exact ⟨st', hrun, hW.filled tableList_inj hC hhead rfl
    (mergeGroupSparseTable_charged (fun _ _ _ _ => trivial) hrun)⟩

/-- A table of a level of the memory node, with `nr` free below it. -/
def addTable (st : State) (r lvl nr : Nat) (prev : Option Item) : State :=
  let cell := ListHead.groupCell (.phy nodeLvlNum lvl) .sparseMovable 0
  ((st.pushTail cell r).countInc cell).modItem r fun x =>
    { x with
      flags := setItemFreeidx x.flags nr
      prev := prev }

/-- Three tables, of the levels 2, 1 and 0, with 4, 1 and 5 free. -/
def threeTables : State :=
  addTable (addTable (addTable zeroed 0 0 5 none) 512 1 1 (some 0)) 1024 2 4 (some 512)

/-- A block of order 2 fills the first two. -/
theorem threeTables_filled : Carry.reach (2 ^ 2) (freeidxs threeTables [1024, 512, 0]) = 2 ∧
    ∃ st', mergeGroupSparseTable getCurrentProcessGroup .sparseMovable dimMemory false 3 threeTables
        (some 1024) 2 = some st' ∧
      TablesFilled threeTables st' [1024, 512, 0] (2 ^ 2) 2 := by
  have hj : Carry.reach (2 ^ 2) (freeidxs threeTables [1024, 512, 0]) = 2 := by decide +kernel
  have hC : TableChain (tableList getCurrentProcessGroup .sparseMovable dimMemory false) threeTables 3
      (some 1024) [1024, 512, 0] :=
    ⟨rfl, by decide +kernel, ⟨_, rfl, rfl⟩, rfl, by decide +kernel, ⟨_, rfl, rfl⟩, rfl,
      by decide +kernel, ⟨_, rfl, rfl⟩, rfl⟩
  have hq : ∀ r ∈ some 1024, 2 ^ 2 ≤ getItemFreeidx (threeTables.items r).flags := fun r hr => by
    obtain rfl := Option.some.inj hr
    decide +kernel
  obtain ⟨st', hrun, hF⟩ := merge_fills_exactly hC hq
  exact ⟨hj, st', hrun, hj ▸ hF⟩

end TensorAlloc
