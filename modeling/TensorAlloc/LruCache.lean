/-
  File:      TensorAlloc/LruCache.lean
  Subject:   The LRU cache of a node over runs of LRUTYPE frees and allocations.

  * `CacheIs` -- the cache is a sequence of items, counted, linked to no other item;
  * `Vacant` -- what a miss keeps: its searches run on an empty cache only;
  * `free_evicts` -- the free that fills the cache returns;
  * `CacheRun` -- runs, with what was freed, handed out again and passed to
    `dequeue_group_migration`;
  * `lruCache_right` -- each operation is one of a bounded stack (`CacheRun.ledger`), so nothing is
    lost or doubled.

  The insertion into the cache is read with the list first.
-/
import TensorAlloc.AllocChain
import TensorAlloc.Base.BoundedStack
import TensorAlloc.Books
import TensorAlloc.Borrow

namespace TensorAlloc

/-! ## 1. The cache of a node -/

/-- The cache is the sequence `l`: counted, and no other item is linked on it. -/
structure CacheIs (nu : Nat) (l : List Item) (st : State) : Prop where
  list : st.lists (cacheCell nu) = l
  count : (st.counts (cacheCell nu)).toNat = l.length
  links : ∀ i, (st.items i).onList = some (cacheCell nu) ↔ i ∈ l

section Keeps

variable {nu : Nat} {l : List Item} {st st' : State} {h : ListHead} {i : Item}

theorem CacheIs.congr (hC : CacheIs nu l st)
    (hl : st'.lists (cacheCell nu) = st.lists (cacheCell nu))
    (hc : st'.counts (cacheCell nu) = st.counts (cacheCell nu))
    (hi : ∀ i, (st'.items i).onList = (st.items i).onList) : CacheIs nu l st' :=
  ⟨hl.trans hC.list, by rw [hc, hC.count], fun i => by rw [hi, hC.links]⟩

theorem CacheIs.nodes (hC : CacheIs nu l st) (nodes : NodeRef → NodeStruct) :
    CacheIs nu l { st with nodes := nodes } :=
  hC.congr rfl rfl fun _ => rfl

/-- Another item takes other links. -/
theorem CacheIs.modItem (hC : CacheIs nu l st) {f : ItemStruct → ItemStruct} (hi : i ∉ l)
    (hf : (f (st.items i)).onList ≠ some (cacheCell nu)) : CacheIs nu l (st.modItem i f) := by
  refine ⟨hC.list, hC.count, fun j => ?_⟩
  rw [State.modItem_items]
  split
  · next e => exact iff_of_false hf (e ▸ hi)
  · exact hC.links j

/-- A write that leaves the links alone, to any item. -/
theorem CacheIs.modKeeps (hC : CacheIs nu l st) {f : ItemStruct → ItemStruct}
    (hf : (f (st.items i)).onList = (st.items i).onList) : CacheIs nu l (st.modItem i f) :=
  hC.congr rfl rfl fun j => st.modItem_keeps j ItemStruct.onList hf

theorem CacheIs.modFlags (hC : CacheIs nu l st) (i : Item) (f : Word → Word) :
    CacheIs nu l (st.modFlags i f) :=
  hC.modKeeps rfl

theorem CacheIs.countInc (hC : CacheIs nu l st) (hne : cacheCell nu ≠ h) :
    CacheIs nu l (st.countInc h) :=
  hC.congr rfl (Function.update_of_ne hne _ _) fun _ => rfl

theorem CacheIs.countDec (hC : CacheIs nu l st) (hne : cacheCell nu ≠ h) :
    CacheIs nu l (st.countDec h) :=
  hC.congr rfl (Function.update_of_ne hne _ _) fun _ => rfl

theorem CacheIs.countSub (hC : CacheIs nu l st) (hne : cacheCell nu ≠ h) (n : Word) :
    CacheIs nu l (st.countSub h n) :=
  @CacheIs.congr nu l st (st.countSub h n) hC rfl (Function.update_of_ne hne _ _) fun _ => rfl

theorem CacheIs.setList (hC : CacheIs nu l st) (hne : cacheCell nu ≠ h) (k : List Item) :
    CacheIs nu l (st.setList h k) :=
  hC.congr (by rw [State.setList_lists, if_neg hne]) rfl fun _ => rfl

theorem CacheIs.pushHead (hC : CacheIs nu l st) (hne : cacheCell nu ≠ h) (hi : i ∉ l) :
    CacheIs nu l (st.pushHead h i) :=
  (hC.setList hne _).modItem hi fun e => hne (Option.some.inj e).symm

theorem CacheIs.pushTail (hC : CacheIs nu l st) (hne : cacheCell nu ≠ h) (hi : i ∉ l) :
    CacheIs nu l (st.pushTail h i) :=
  (hC.setList hne _).modItem hi fun e => hne (Option.some.inj e).symm

/-- An item that is not cached leaves another list. -/
theorem CacheIs.unlinked (hC : CacheIs nu l st) (hi : i ∉ l) (h : listDel st i = some st') :
    CacheIs nu l st' := by
  obtain ⟨k, ho, rfl⟩ := listDel_some h
  have hne : cacheCell nu ≠ k := fun e => hi ((hC.links i).mp (e ▸ ho))
  exact (hC.setList hne _).modItem hi fun e => by cases e

end Keeps

/-! ## 2. A miss -/

/-- An empty cache stays one: the call links and counts other lists. -/
abbrev Vacant (nu : Nat) (st : State) : Prop := CacheIs nu [] st

section Vacant

variable {nu : Nat} {st st' : State} {env : ChainEnv} {search : SparseSearch} {group : Group}
  {mt : MigrationType} {lvl order dim fuel depth : Nat} {item : Item} {found : Option Item}

theorem cacheCell_ne {g : Group} {k : Nat} : cacheCell nu ≠ .groupCell g mt k :=
  ListHead.noConfusion

theorem cacheCell_ne_slice {slice : Nat} {stat : SliceStat} : cacheCell nu ≠ sliceList slice stat := by
  cases stat <;> exact ListHead.noConfusion

theorem Vacant.split2 (hV : Vacant nu st) (group : Group) (item : Item) (size : Int) (k : Nat)
    (mt : MigrationType) (lvl : Nat) : Vacant nu (split2GroupMigration st group item size k mt lvl) :=
  ((hV.pushHead cacheCell_ne List.not_mem_nil).modFlags _ _).countInc cacheCell_ne

theorem Vacant.splitLoop (hV : Vacant nu st) (group : Group) (item : Item) (lvl order : Nat)
    (mt : MigrationType) (n : Nat) : Vacant nu (splitLoop group item lvl order mt n st) := by
  induction n generalizing st with
  | zero => exact hV
  | succ n ih => exact ih (hV.split2 ..)

theorem Vacant.split (hV : Vacant nu st) (group : Group) (item : Item) (lvl orderMin orderMax : Nat)
    (mt : MigrationType) : Vacant nu (splitGroupMigration st group item lvl orderMin orderMax mt) := by
  unfold splitGroupMigration
  exact (hV.splitLoop group item lvl orderMin mt _).modFlags item _

theorem Vacant.removed {isTable : Bool} (hV : Vacant nu st)
    (h : removeGroupMigration st group lvl order mt isTable = some (st', found)) : Vacant nu st' := by
  obtain ⟨m, -, h⟩ := Option.bind_eq_some_iff.mp h
  cases hs : searchOrders st group mt isTable (m - order) order with
  | none =>
      simp only [hs, Option.pure_def, Option.some.injEq, Prod.mk.injEq] at h
      exact h.1 ▸ hV
  | some p =>
      obtain ⟨k, i⟩ := p
      simp only [hs] at h
      split at h
      · exact (Prod.mk.inj (Option.some.inj h)).1 ▸ hV
      · obtain ⟨st1, hd, h⟩ := Option.bind_eq_some_iff.mp h
        simp only [Option.pure_def, Option.some.injEq, Prod.mk.injEq] at h
        rw [← h.1]
        exact Vacant.split ((hV.unlinked List.not_mem_nil hd).countDec cacheCell_ne) group i lvl order
          k mt

theorem Vacant.forwardRemoved (hV : Vacant nu st)
    (h : forwardRemoveGroupMigration st lvl mt order dim = some (st', found)) : Vacant nu st' := by
  rcases forwardRemove_cases h with ⟨-, rfl⟩ | ⟨cur, -, h⟩
  · exact hV
  · exact hV.removed h

theorem Vacant.setFreeidx (hV : Vacant nu st) (item : Item) (nr : BitVec 32) :
    Vacant nu (st.setFreeidx item nr) :=
  hV.modFlags item _

/-- The charge of the tables. -/
theorem Vacant.tableFree (hV : Vacant nu st) (item : Item) (order : Nat) :
    Vacant nu (sparseTableFree st item order).1 := by
  unfold sparseTableFree
  dsimp only
  split
  · exact hV
  · exact hV.setFreeidx _ _

theorem Vacant.merged {pg : ProcessGroup} {isVirtual : Bool} {prev : Option Item} (hV : Vacant nu st)
    (h : mergeGroupSparseTable pg mt dim isVirtual lvl st prev order = some st') : Vacant nu st' := by
  induction lvl using Nat.strong_induction_on generalizing st prev order with
  | h lvl ih =>
      cases prev with
      | none =>
          rw [mergeGroupSparseTable, Option.some.injEq] at h
          exact h ▸ hV
      | some r =>
          have hfree := hV.tableFree r order
          obtain ⟨-, rfl⟩ | ⟨-, lvl, g, st1, rfl, hd, hm⟩ := mergeGroupSparseTable_cases h
          · exact hfree
          · have hoff := hfree.unlinked List.not_mem_nil hd
            exact ih lvl (Nat.lt_succ_self lvl) (hoff.countDec cacheCell_ne) hm

theorem Vacant.entered {itemarrayPrev : ItemarrayPrev} {pg : ProcessGroup} {isVirtual : Bool}
    (hV : Vacant nu st)
    (h : enterTable itemarrayPrev pg st item lvl order mt dim isVirtual = some st') : Vacant nu st' := by
  obtain ⟨prev, -, h⟩ := Option.bind_eq_some_iff.mp h
  refine Vacant.merged ?_ h
  exact hV.modKeeps rfl

theorem Vacant.searched {pg : ProcessGroup} {isVirtual : Bool} {level oi : Nat}
    {found : Option (Nat × Item)} (hV : Vacant nu st)
    (h : searchLevels pg mt dim isVirtual lvl level st oi = some (st', found)) : Vacant nu st' := by
  induction level using Nat.strong_induction_on generalizing st oi with
  | h level ih =>
      obtain ⟨group, -, ⟨item, -, hr⟩ | ⟨st1, hr, ⟨-, -, rfl⟩ | ⟨level, rfl, hs⟩⟩⟩ :=
        searchLevels_cases h
      · exact hV.removed hr
      · exact hV.removed hr
      · exact ih level (Nat.lt_succ_self level) (hV.removed hr) hs

/-- A page changes its list. -/
theorem Vacant.pageMoved {c : Bool} {slice : Nat} {src dst : SliceStat} (hV : Vacant nu st)
    (h : moveWhen c st slice item src dst = some st') : Vacant nu st' := by
  unfold moveWhen at h
  split at h
  · simp only [movePage, takePage, State.setStat, Option.bind_eq_bind, Option.bind_eq_some_iff,
      Option.map_eq_some_iff] at h
    obtain ⟨st1, ⟨st2, hd, rfl⟩, h⟩ := h
    have h1 : Vacant nu (st2.countDec (sliceList slice src)) :=
      ((hV.modKeeps rfl).unlinked List.not_mem_nil hd).countDec cacheCell_ne_slice
    rw [← Option.some.inj h]
    refine (CacheIs.pushTail ?_ cacheCell_ne_slice List.not_mem_nil).countInc cacheCell_ne_slice
    split
    · exact h1.modKeeps rfl
    · exact h1
  · exact Option.some.inj h ▸ hV

theorem Vacant.slotFilled {slice : Nat} {ret : Except Int Nat} (hV : Vacant nu st)
    (h : fillSlot st slice item = some (st', ret)) : Vacant nu st' := by
  unfold fillSlot at h
  obtain ⟨bsize, -, h⟩ := Option.bind_eq_some_iff.mp h
  have hclaim : Vacant nu (claimSlot st item (fixedItemSize / bsize)).1 := by
    unfold claimSlot
    dsimp only
    split
    · exact hV.modKeeps rfl
    · exact hV
  obtain ⟨st1, h1, h⟩ := Option.bind_eq_some_iff.mp h
  obtain ⟨st2, h2, h⟩ := Option.bind_eq_some_iff.mp h
  rw [← (Prod.mk.inj (Option.some.inj h)).1]
  exact (hclaim.pageMoved h1).pageMoved h2

/-- A slot of an own page. -/
theorem Vacant.heapAllocated {calls : PageCalls} {slice : Nat} {ret : Except Int Nat}
    (hV : Vacant nu st) (hp : ¬ NoPages st slice) (h : heapAlloc calls st slice = some (st', ret)) :
    Vacant nu st' := by
  obtain ⟨item, hfill⟩ := heapAlloc_fills hp h
  exact hV.slotFilled hfill

/-- A new root from an own page. -/
theorem Vacant.rooted {calls : PageCalls} {root : Option Item} (hV : Vacant nu st)
    (hp : ¬ NoPages st (env.slice (st.tables.groupNode group)))
    (h : arrayRoot env calls st group lvl mt = some (st', root)) : Vacant nu st' := by
  unfold arrayRoot at h
  obtain ⟨⟨st1, item⟩, hslice, h⟩ := Option.bind_eq_some_iff.mp h
  unfold arraySlice at hslice
  obtain ⟨⟨st0, ret⟩, hheap, hslice⟩ := Option.bind_eq_some_iff.mp hslice
  have h0 := hV.heapAllocated hp hheap
  have h1 : Vacant nu st1 := by
    cases ret with
    | error e => exact (Prod.mk.inj (Option.some.inj hslice)).1 ▸ h0
    | ok rangeBase =>
        obtain ⟨st2, hinit, hslice⟩ := Option.bind_eq_some_iff.mp hslice
        unfold initArray at hinit
        split at hinit
        · have h2 : Vacant nu st2 := by
            rw [← Option.some.inj hinit]
            exact h0.modItem List.not_mem_nil fun e => by cases e
          split at hslice
          · exact (Prod.mk.inj (Option.some.inj hslice)).1 ▸ h2.nodes _
          · exact (Prod.mk.inj (Option.some.inj hslice)).1 ▸ h2
        · cases hinit
  cases item with
  | none => exact (Prod.mk.inj (Option.some.inj h)).1 ▸ h1
  | some item =>
      rw [← (Prod.mk.inj (Option.some.inj h)).1]
      exact (h1.pushTail cacheCell_ne List.not_mem_nil).countInc cacheCell_ne

/-- **The sparse search keeps it empty**, however deep. -/
theorem Vacant.chained {isVirtual : Bool} (hV : Vacant nu st)
    (h : allocChain env depth st lvl mt order dim isVirtual = some (st', found)) : Vacant nu st' := by
  induction depth generalizing st st' lvl mt order dim isVirtual found with
  | zero => cases h
  | succ depth ih =>
      rcases allocChain_cases h with ⟨st1, i, -, hs, henter⟩ | ⟨st1, group, hs, -, hend⟩
      · exact (hV.searched hs).entered henter
      · have h1 := hV.searched hs
        rcases hend with ⟨-, -, ⟨-, rfl⟩ | ⟨dim', hdeep⟩⟩ | ⟨hp, st2, root, hroot, hself⟩
        · exact h1
        · exact ih h1 hdeep
        · exact ih (h1.rooted hp hroot) hself

/-- Blocks taken off a list onto the chain. -/
theorem Vacant.assembled {cell : ListHead} {splitPage : Option Item} {n : Nat} (hV : Vacant nu st)
    (h : cellLoop fuel cell splitPage item n st = some st') : Vacant nu st' := by
  induction n generalizing st with
  | zero => exact Option.some.inj h ▸ hV
  | succ n ih =>
      rw [cellLoop] at h
      split at h
      · exact Option.some.inj h ▸ hV
      · next temp rest hl =>
          simp only [Option.bind_eq_bind, Option.bind_eq_some_iff] at h
          obtain ⟨st1, h1, st2, h2, h⟩ := h
          obtain ⟨st0, hd, rfl⟩ := Option.map_eq_some_iff.mp h1
          have hV0 := hV.unlinked List.not_mem_nil hd
          obtain ⟨e1, e2, e3⟩ := compoundAppend_frame h2
          have hV2 : Vacant nu st2 :=
            CacheIs.congr (hV0.modKeeps rfl) (by rw [e1]) (by rw [e2]) e3
          split at h
          · exact Option.some.inj h ▸ hV2
          · exact ih hV2 h

theorem Vacant.enqueueStepped {k : Nat} {remain : Word} {head head' : Option Item}
    {rest : Option Word} (hV : Vacant nu st)
    (h : enqueueStep fuel group mt k remain head st = some (st', head', rest)) : Vacant nu st' := by
  unfold enqueueStep at h
  dsimp only at h
  split at h
  · exact (Prod.mk.inj (Option.some.inj h)).1 ▸ hV
  · split at h
    · obtain ⟨st1, h1, h⟩ := Option.bind_eq_some_iff.mp h
      exact (Prod.mk.inj (Option.some.inj h)).1 ▸ (hV.assembled h1).countSub cacheCell_ne _
    · obtain ⟨st1, h1, h⟩ := Option.bind_eq_some_iff.mp h
      exact (Prod.mk.inj (Option.some.inj h)).1 ▸ (hV.assembled h1).countSub cacheCell_ne _

theorem Vacant.enqueueLooped {k : Nat} {remain : Word} {head head' : Option Item} (hV : Vacant nu st)
    (h : enqueueLoop fuel group mt k remain head st = some (st', head')) : Vacant nu st' := by
  induction k generalizing st remain head with
  | zero =>
      rw [enqueueLoop] at h
      obtain ⟨⟨st1, head1, rest⟩, h1, h⟩ := Option.bind_eq_some_iff.mp h
      cases rest with
      | none => exact (Prod.mk.inj (Option.some.inj h)).1 ▸ hV.enqueueStepped h1
      | some _ => cases h
  | succ k ih =>
      rw [enqueueLoop] at h
      obtain ⟨⟨st1, head1, rest⟩, h1, h⟩ := Option.bind_eq_some_iff.mp h
      cases rest with
      | none => exact (Prod.mk.inj (Option.some.inj h)).1 ▸ hV.enqueueStepped h1
      | some _ => exact ih (hV.enqueueStepped h1) h

theorem Vacant.enqueued {norder ret : Nat} {head head' : Option Item} (hV : Vacant nu st)
    (h : enqueueGroupMigration fuel st group head order norder mt = some (st', head', ret)) :
    Vacant nu st' := by
  unfold enqueueGroupMigration at h
  split at h
  · cases h
  · obtain ⟨⟨st1, head1⟩, h1, h⟩ := Option.map_eq_some_iff.mp h
    exact (Prod.mk.inj h).1 ▸ hV.enqueueLooped h1

theorem Vacant.backwardLevelled {cur n index orderIndex norder orderIndex' norder' : Nat}
    {head head' : Option Item} (hV : Vacant nu st)
    (h : backwardLevels fuel cur mt n index st head orderIndex norder =
      some (st', head', orderIndex', norder')) : Vacant nu st' := by
  induction n generalizing st index head orderIndex norder with
  | zero => exact (Prod.mk.inj (Option.some.inj h)).1 ▸ hV
  | succ n ih =>
      obtain ⟨⟨st1, head1, norder1⟩, h1, h⟩ := Option.bind_eq_some_iff.mp h
      exact ih (hV.enqueued h1) h

/-- **So does the backward search.** -/
theorem Vacant.backward (hV : Vacant nu st)
    (h : backwardRemoveGroupMigration fuel st lvl mt order dim = some (st', found)) : Vacant nu st' := by
  simp only [backwardRemoveGroupMigration, Option.bind_eq_bind, Option.bind_eq_some_iff] at h
  obtain ⟨cur, -, last, -, h⟩ := h
  split at h
  · exact (Prod.mk.inj (Option.some.inj h)).1 ▸ hV
  · simp only [Option.bind_eq_some_iff] at h
    obtain ⟨⟨st1, head, orderIndex, norder⟩, h1, ⟨st2, head2, ret⟩, h2, h⟩ := h
    exact (Prod.mk.inj (Option.some.inj h)).1 ▸ (hV.backwardLevelled h1).enqueued h2

end Vacant

/-- `dispatch_group`, its searches the code's own. A request of the cache's class reaches no other of
    `s`. -/
def lruDispatch (env : ChainEnv) (s : Searches) (depth fuel : Nat) : DispatchFn :=
  dispatchGroup { s with
    sparse := allocChain env depth
    backward := backwardRemoveGroupMigration fuel } 2

section Miss

variable {nu : Nat} {st st' : State} {env : ChainEnv} {s : Searches} {lvl order depth fuel : Nat}
  {mt : MigrationType} {para : DispatchPara} {ret : Status} {found : Option Item}

theorem Vacant.dispatched (hV : Vacant nu st) (node : NodeRef) (status : GroupStatus) (lvl order : Nat)
    (mt : MigrationType) (para : DispatchPara) (item : Item) :
    Vacant nu (finalDispatch (st.setStatus node status) node lvl mt order para item) := by
  unfold finalDispatch setGroupItemState State.setState
  exact CacheIs.modFlags ((hV.nodes _).nodes _) item _

/-- What both searches of a physical request keep, the dispatch keeps. -/
theorem Vacant.dispatchStepped {dispatch : DispatchFn} {searches : Searches} {node : NodeRef}
    (hV : Vacant nu st) (hc : cachedHead st node mt = none)
    (hforward : ∀ {s' found}, forwardSearch searches st node lvl mt order para = some (s', found) →
      Vacant nu s')
    (hbackward : ∀ {s' found}, searches.backward st lvl mt order (st.nodes node).dim =
      some (s', found) → Vacant nu s')
    (hmigrate : ∀ {s' s'' ret found}, Vacant nu s' →
      dispatchGroupMigration searches dispatch s' node order lvl mt para.isCombined =
        some (s'', ret, found) → Vacant nu s'')
    (h : dispatchStep searches dispatch st node lvl mt order para = some (st', ret, found)) :
    Vacant nu st' := by
  unfold dispatchStep at h
  simp only [hc] at h
  split at h
  · split at h
    · exact (Prod.mk.inj (Option.some.inj h)).1 ▸ hV
    · obtain ⟨⟨st1, item⟩, h1, h⟩ := Option.bind_eq_some_iff.mp h
      cases item with
      | none => exact (Prod.mk.inj (Option.some.inj h)).1 ▸ hbackward h1
      | some item => exact (Prod.mk.inj (Option.some.inj h)).1 ▸ (hbackward h1).dispatched ..
  · obtain ⟨⟨st1, item⟩, h1, h⟩ := Option.bind_eq_some_iff.mp h
    cases item with
    | some item => exact (Prod.mk.inj (Option.some.inj h)).1 ▸ (hforward h1).dispatched ..
    | none =>
        dsimp only at h
        split at h
        · exact (Prod.mk.inj (Option.some.inj h)).1 ▸ hforward h1
        · exact hmigrate (hforward h1) h

/-- **A miss leaves the cache empty.** -/
theorem Vacant.missed (hV : Vacant nu st)
    (h : lruDispatch env s depth fuel st (.phy nu) lvl .lrutype order para = some (st', ret, found)) :
    Vacant nu st' := by
  have hhead : ∀ {s' : State}, Vacant nu s' → cachedHead s' (.phy nu) .lrutype = none := fun hV => by
    unfold cachedHead
    rw [if_pos rfl, hV.list]
    rfl
  refine hV.dispatchStepped (hhead hV) (fun h1 => hV.forwardRemoved h1) (fun h1 => hV.backward h1)
    (fun hV1 hm => ?_) h
  -- the migration: one MOVABLE request, which migrates no further
  rw [migrateGroup_eq _ (.inl rfl)] at hm
  obtain ⟨⟨st2, ret2, item⟩, h2, hm⟩ := Option.bind_eq_some_iff.mp hm
  have hV2 : Vacant nu st2 := by
    refine Vacant.dispatchStepped hV1 rfl (fun {s' found'} h1 => ?_) (fun h1 => hV1.backward h1)
      (fun hV3 h3 => ?_) h2
    · have h1 : allocChain env depth _ lvl .movable order _ false = some (s', found') := h1
      exact hV1.chained h1
    · unfold dispatchGroupMigration at h3
      rw [if_pos (.inr rfl)] at h3
      exact (Prod.mk.inj (Option.some.inj h3)).1 ▸ hV3
  dsimp only at hm
  split at hm
  · exact (Prod.mk.inj (Option.some.inj hm)).1 ▸ hV2
  · obtain ⟨item, -, hm⟩ := Option.map_eq_some_iff.mp hm
    exact (Prod.mk.inj hm).1 ▸ hV2.modFlags item _

end Miss

/-! ## 3. The coldest item -/

section Evict

variable {nu : Nat} {l : List Item} {st st' : State} {group : Group} {lvl order fuel : Nat}
  {item tmp : Item}

/-- The class of the cache merges nothing. -/
theorem mergeLoop_lru {maxOrder n : Nat} {top : Bool} {v v' : MergeVars} {e : MergeExit}
    (h : mergeLoop group .lrutype maxOrder top n st v = some (st', v', e)) :
    v'.item = v.item ∧ (st' = st ∨ st' = st.modFlags v.item clearItemPresent) := by
  refine mergeLoop_rule (fun s w => s = st ∧ w = v)
    (fun s w _ => w.item = v.item ∧ (s = st ∨ s = st.modFlags v.item clearItemPresent))
    (fun hP hs => ?_) (fun hP hs => ?_) h ⟨rfl, rfl⟩
  · obtain ⟨rfl, rfl⟩ := hP
    rcases mergeStep_cases hs with ⟨-, -, -, he⟩ | ⟨-, -, -, he, -⟩ | ⟨-, -, -, he, -⟩ | ⟨-, hmt, -⟩
    · cases he
    · cases he
    · cases he
    · exact absurd rfl hmt
  · obtain ⟨rfl, rfl⟩ := hP
    rcases mergeStep_cases hs with ⟨-, rfl, rfl, -⟩ | ⟨-, rfl, rfl, -⟩ | ⟨-, -, rfl, -, rfl, -⟩ |
      ⟨-, hmt, -⟩
    · exact ⟨rfl, .inl rfl⟩
    · exact ⟨rfl, .inr rfl⟩
    · exact ⟨rfl, .inr rfl⟩
    · exact absurd rfl hmt

theorem CacheIs.inserted {mt : MigrationType} {tail : Bool} {v : MergeVars} (hC : CacheIs nu l st)
    (hi : v.item ∉ l) (h : insertFreed .listFirst group mt lvl tail st v = some st') :
    CacheIs nu l st' := by
  cases tail with
  | true =>
      rw [← Option.some.inj h]
      exact ((hC.pushTail cacheCell_ne hi).modFlags v.item _).countInc cacheCell_ne
  | false =>
      rw [← Option.some.inj h]
      exact ((hC.pushHead cacheCell_ne hi).modFlags v.item _).countInc cacheCell_ne

/-- One round of the free. -/
theorem CacheIs.passed {dim pid orderIndex : Nat} {buddy : Option (Nat × Item)} {e : PassEnd}
    (hC : CacheIs nu l st) (hi : item ∉ l)
    (h : freePass .listFirst dim pid group .lrutype lvl st item order orderIndex buddy = some (st', e)) :
    CacheIs nu l st' ∧ ∀ v, e = .promoted v → v.item = item := by
  simp only [freePass, Option.bind_eq_bind, Option.bind_eq_some_iff] at h
  obtain ⟨idx, -, maxOrder, -, top, -, ⟨st1, v, exit⟩, hm, h⟩ := h
  obtain ⟨hv, hst⟩ := mergeLoop_lru hm
  have hC1 : CacheIs nu l st1 := by
    rcases hst with rfl | rfl
    · exact hC
    · exact hC.modFlags _ _
  have hi1 : v.item ∉ l := by rw [hv]; exact hi
  cases exit with
  | direct =>
      dsimp only [leavePass] at h
      obtain ⟨st2, h2, h⟩ := Option.map_eq_some_iff.mp h
      cases h
      exact ⟨hC1.inserted hi1 h2, fun v' h' => by cases h'⟩
  | done =>
      dsimp only [leavePass] at h
      obtain ⟨tail, -, h⟩ := Option.bind_eq_some_iff.mp h
      split at h
      · cases h
        refine ⟨hC1, fun v' h' => ?_⟩
        cases h'
        exact hv
      · obtain ⟨st2, h2, h⟩ := Option.map_eq_some_iff.mp h
        cases h
        exact ⟨hC1.inserted hi1 h2, fun v' h' => by cases h'⟩

theorem CacheIs.freed {dim pid orderIndex : Nat} {buddy : Option (Nat × Item)} {found : Item}
    (hC : CacheIs nu l st) (hi : item ∉ l)
    (h : freeLoop .listFirst dim pid .lrutype lvl group st item order orderIndex buddy =
      some (st', found)) : CacheIs nu l st' := by
  induction lvl generalizing group st item order orderIndex buddy with
  | zero =>
      rw [freeLoop] at h
      split at h
      · next hp => exact (Prod.mk.inj (Option.some.inj h)).1 ▸ (hC.passed hi hp).1
      · cases h
  | succ lvl ih =>
      rw [freeLoop] at h
      split at h
      · next hp => exact (Prod.mk.inj (Option.some.inj h)).1 ▸ (hC.passed hi hp).1
      · next hp =>
          obtain ⟨hC1, hv⟩ := hC.passed hi hp
          exact ih hC1 (by rw [hv _ rfl]; exact hi) h
      · cases h

/-- **The free of an item off the cache leaves the cache alone**: it is put on a list of its class. -/
theorem CacheIs.dequeued {blocks : List Item} (hC : CacheIs nu l st) (hi : item ∉ l)
    (h : dequeueGroupMigration .listFirst .lrutype fuel st item = some (st', blocks)) :
    CacheIs nu l st' ∧ blocks = [item] := by
  cases fuel with
  | zero => cases h
  | succ fuel =>
      rw [dequeueGroupMigration_once] at h
      obtain ⟨⟨st1, i⟩, hf, h⟩ := Option.map_eq_some_iff.mp h
      cases h
      have hC0 : CacheIs nu l (compoundRemoveHead st item).1 := by
        unfold compoundRemoveHead
        split
        · exact hC
        · dsimp only
          exact hC.modKeeps rfl
      refine ⟨?_, rfl⟩
      unfold counted
      rw [if_pos (by decide)]
      exact (hC0.freed hi hf).nodes _

end Evict

/-! ## 4. Runs -/

/-- What a run did, the latest first: the items freed, those handed out while the cache had any, and
    those passed to `dequeue_group_migration`. -/
structure CacheLog where
  freed : List Item
  handed : List Item
  passed : List Item

/-- Frees of items of the node that are not in its cache, and allocations on the node. -/
inductive CacheRun (env : ChainEnv) (s : Searches) (nu : Nat) (start : State) :
    CacheLog → State → Prop
  | start : CacheRun env s nu start ⟨[], [], []⟩ start
  | free {log : CacheLog} {st st' : State} {item : Item} {blocks : List Item} (fuel : Nat)
      (isVirtual : Bool) (hrun : CacheRun env s nu start log st)
      (hnode : getItemNode (st.items item).flags = nu) (hnew : item ∉ st.lists (cacheCell nu))
      (h : findGroupReversed .listFirst fuel st .lrutype item isVirtual = some (st', blocks)) :
      CacheRun env s nu start
        { log with freed := item :: log.freed, passed := blocks.tail ++ log.passed } st'
  | alloc {log : CacheLog} {st st' : State} {ret : Status} {found : Option Item}
      (lvl order depth fuel : Nat) (para : DispatchPara) (hrun : CacheRun env s nu start log st)
      (h : lruDispatch env s depth fuel st (.phy nu) lvl .lrutype order para =
        some (st', ret, found)) :
      CacheRun env s nu start
        { log with
          handed := (if st.lists (cacheCell nu) = [] then [] else found.toList) ++ log.handed } st'

/-- What is to hold after each operation, of what was done so far and of the next operation. -/
structure CacheRight (env : ChainEnv) (s : Searches) (nu : Nat) (log : CacheLog) (st : State) :
    Prop where
  counted : (st.counts (cacheCell nu)).toNat = (st.lists (cacheCell nu)).length
  bounded : (st.lists (cacheCell nu)).length < lruCacheMaxItems
  room : ∀ fuel item, getItemNode (st.items item).flags = nu → item ∉ st.lists (cacheCell nu) →
    (st.lists (cacheCell nu)).length + 1 < lruCacheMaxItems →
      ∃ st', findGroupReversed .listFirst fuel st .lrutype item false = some (st', [item])
  accounted : log.freed.Perm (st.lists (cacheCell nu) ++ (log.handed ++ log.passed))
  hit : st.lists (cacheCell nu) ≠ [] → ∀ lvl order depth fuel para, ∃ st' item,
    lruDispatch env s depth fuel st (.phy nu) lvl .lrutype order para =
        some (st', .noError, some item) ∧
      item ∈ st.lists (cacheCell nu) ∧
      (∀ j ∈ st.lists (cacheCell nu), log.freed.idxOf item ≤ log.freed.idxOf j) ∧ st'.nodes = st.nodes
  evicted : ∀ fuel isVirtual item st' blocks, getItemNode (st.items item).flags = nu →
    item ∉ st.lists (cacheCell nu) →
    findGroupReversed .listFirst fuel st .lrutype item isVirtual = some (st', blocks) →
    ∀ j ∈ blocks.tail, (item :: st.lists (cacheCell nu)).length = lruCacheMaxItems ∧
      j ∈ item :: st.lists (cacheCell nu) ∧ ∀ k ∈ item :: st.lists (cacheCell nu),
        (item :: log.freed).idxOf k ≤ (item :: log.freed).idxOf j

section Steps

variable {env : ChainEnv} {s : Searches} {nu lvl order depth fuel : Nat} {l rest : List Item}
  {st st' : State} {item : Item} {para : DispatchPara} {isVirtual : Bool} {blocks : List Item}
  {log : CacheLog} {start : State}

/-- The item enters at the head. -/
theorem CacheIs.pushed (hC : CacheIs nu l st) (hlen : l.length < lruCacheMaxItems) :
    CacheIs nu (item :: l) ((st.pushHead (cacheCell nu) item).countInc (cacheCell nu)) := by
  refine ⟨?_, ?_, fun i => ?_⟩
  · rw [State.countInc_lists, State.pushHead_lists, if_pos rfl, hC.list]
  · have hmax : lruCacheMaxItems = 1024 := rfl
    have hcount := hC.count
    rw [State.countInc_counts, if_pos rfl, State.pushHead_counts, BitVec.toNat_add, hcount,
      List.length_cons]
    exact Nat.mod_eq_of_lt (by show l.length + 1 < 2 ^ 64; omega)
  · rw [State.countInc_items, State.pushHead_items, List.mem_cons]
    split
    · next e => exact iff_of_true rfl (.inl e)
    · next e => exact (hC.links i).trans ⟨.inr, fun h => h.resolve_left e⟩

/-- A cached item leaves the cache. -/
theorem CacheIs.taken (hC : CacheIs nu l st) (hnd : l.Nodup) (hi : item ∈ l) :
    ∃ st1, listDel st item = some st1 ∧ CacheIs nu (l.erase item) (st1.countDec (cacheCell nu)) ∧
      st1.nodes = st.nodes := by
  refine ⟨_, listDel_of ((hC.links item).mpr hi), ⟨?_, ?_, fun i => ?_⟩, rfl⟩
  · rw [State.countDec_lists, State.modItem_lists, State.setList_lists, if_pos rfl, hC.list]
  · have hpos := List.length_pos_of_mem hi
    have hcount := hC.count
    rw [State.countDec_counts, if_pos rfl, State.modItem_counts, State.setList_counts,
      List.length_erase_of_mem hi, BitVec.toNat_sub_of_le, hcount]
    · rfl
    · rw [BitVec.le_def, hcount]
      exact hpos
  · rw [State.countDec_items, State.modItem_items, hnd.mem_erase_iff]
    split
    · next e => exact iff_of_false (fun h => by cases h) fun h => h.1 e
    · next e => exact (hC.links i).trans ⟨fun h => ⟨e, h⟩, fun h => h.2⟩

/-- The branch of the cache. -/
theorem findGroupReversed_lru (fuel : Nat) (hnode : getItemNode (st.items item).flags = nu) :
    findGroupReversed .listFirst fuel st .lrutype item false =
      let st1 := (st.pushHead (cacheCell nu) item).countInc (cacheCell nu)
      if (st1.counts (cacheCell nu)).toNat < lruCacheMaxItems then some (st1, [item])
      else (st1.lists (cacheCell nu)).getLast?.bind fun last => (listDel st1 last).bind fun st2 =>
        (dequeueGroupMigration .listFirst .lrutype fuel (st2.countDec (cacheCell nu)) last).bind
          fun q => some (q.1, item :: q.2) := by
  subst hnode
  rfl

/-- With room the free returns. -/
theorem free_room (hC : CacheIs nu l st) (hroom : l.length + 1 < lruCacheMaxItems) (fuel : Nat)
    (hnode : getItemNode (st.items item).flags = nu) :
    findGroupReversed .listFirst fuel st .lrutype item false =
      some ((st.pushHead (cacheCell nu) item).countInc (cacheCell nu), [item]) := by
  rw [findGroupReversed_lru fuel hnode]
  refine if_pos ?_
  rw [(hC.pushed (Nat.lt_of_succ_lt hroom)).count]
  exact hroom

/-- **With the cache full the free returns too**, where the oldest item is a block that can be freed. -/
theorem free_evicts {last : Item} (hC : CacheIs nu l st) (hnd : l.Nodup) (hnew : item ∉ l)
    (hfull : l.length + 1 = lruCacheMaxItems) (hnode : getItemNode (st.items item).flags = nu)
    (hl : item :: l = rest ++ [last]) (hplace : BlockPlace st .lrutype last) (fuel : Nat) :
    ∃ st', findGroupReversed .listFirst (fuel + 1) st .lrutype item false =
      some (st', [item, last]) := by
  have hC1 : CacheIs nu (item :: l) ((st.pushHead (cacheCell nu) item).countInc (cacheCell nu)) :=
    hC.pushed (by omega)
  have hlast : last ∈ item :: l := hl ▸ List.mem_append_right _ List.mem_cons_self
  obtain ⟨st1, hd, -, -⟩ := hC1.taken (List.nodup_cons.mpr ⟨hnew, hnd⟩) hlast
  have hplace1 : BlockPlace (st1.countDec (cacheCell nu)) .lrutype last := by
    obtain ⟨k, -, rfl⟩ := listDel_some hd
    refine hplace.congr ?_ rfl rfl
    rw [State.countDec_items, State.modItem_keeps _ _ ItemStruct.flags rfl, State.setList_items,
      State.countInc_items, State.pushHead_items]
    split <;> simp_all
  obtain ⟨st', hq, -⟩ := dequeueGroupMigration_returns hplace1 fuel
  refine ⟨st', ?_⟩
  rw [findGroupReversed_lru (fuel + 1) hnode]
  dsimp only
  rw [if_neg (by rw [hC1.count, List.length_cons, hfull]; exact Nat.lt_irrefl _), hC1.list, hl,
    List.getLast?_concat, Option.bind_some, hd, Option.bind_some, hq]
  rfl

/-- **A free**: the item enters at the head; where that fills the cache the last one is passed on. -/
theorem free_caches (hC : CacheIs nu l st) (hnd : l.Nodup) (hlen : l.length < lruCacheMaxItems)
    (hnode : getItemNode (st.items item).flags = nu) (hnew : item ∉ l)
    (h : findGroupReversed .listFirst fuel st .lrutype item isVirtual = some (st', blocks)) :
    (l.length + 1 < lruCacheMaxItems ∧ CacheIs nu (item :: l) st' ∧ blocks = [item]) ∨
    (lruCacheMaxItems ≤ l.length + 1 ∧ ∃ rest last, item :: l = rest ++ [last] ∧
      CacheIs nu rest st' ∧ blocks = [item, last]) := by
  cases isVirtual with
  | true => cases h
  | false =>
      have hC1 : CacheIs nu (item :: l) ((st.pushHead (cacheCell nu) item).countInc (cacheCell nu)) :=
        hC.pushed hlen
      rw [findGroupReversed_lru fuel hnode] at h
      dsimp only at h
      rw [hC1.count, hC1.list] at h
      split at h
      · next hroom =>
          cases h
          exact .inl ⟨hroom, hC1, rfl⟩
      · next hfull =>
          obtain ⟨last, hlast, h⟩ := Option.bind_eq_some_iff.mp h
          obtain ⟨st2, hd, h⟩ := Option.bind_eq_some_iff.mp h
          obtain ⟨⟨st3, freed⟩, hq, h⟩ := Option.bind_eq_some_iff.mp h
          cases h
          have hsplit := List.dropLast_append_getLast? last hlast
          have hnd1 : (item :: l).Nodup := List.nodup_cons.mpr ⟨hnew, hnd⟩
          rw [← hsplit] at hC1 hnd1
          have hout : last ∉ (item :: l).dropLast := fun hm =>
            (List.nodup_append.mp hnd1).2.2 last hm last List.mem_cons_self rfl
          obtain ⟨st2', hd', hC2, -⟩ := hC1.taken hnd1 (List.mem_append_right _ List.mem_cons_self)
          rw [hd, Option.some.injEq] at hd'
          subst hd'
          rw [List.erase_append_right _ hout, List.erase_cons_head, List.append_nil] at hC2
          obtain ⟨hC3, rfl⟩ := hC2.dequeued hout hq
          exact .inr ⟨Nat.not_lt.mp hfull, _, last, hsplit.symm, hC3, rfl⟩

/-- **A hit**: the head leaves the cache. -/
theorem alloc_hits (hC : CacheIs nu (item :: rest) st) (hnd : (item :: rest).Nodup) :
    ∃ st', lruDispatch env s depth fuel st (.phy nu) lvl .lrutype order para =
      some (st', .noError, some item) ∧ CacheIs nu rest st' ∧ st'.nodes = st.nodes := by
  have hhead : cachedHead st (.phy nu) .lrutype = some item := by
    unfold cachedHead
    rw [if_pos rfl, hC.list]
    rfl
  obtain ⟨st1, hd, hC1, hnodes⟩ := hC.taken hnd List.mem_cons_self
  rw [List.erase_cons_head] at hC1
  refine ⟨st1.countDec (cacheCell nu), ?_, hC1, hnodes⟩
  unfold lruDispatch
  rw [dispatch_cached hhead, hd]
  rfl

/-- **The cache of a run is a bounded stack**: each operation is one of its steps. -/
theorem CacheRun.ledger (h0 : Vacant nu start) (hrun : CacheRun env s nu start log st) :
    CacheIs nu (st.lists (cacheCell nu)) st ∧
      Relation.ReflTransGen (BoundedStack.Step lruCacheMaxItems) .start
        ⟨log.freed, st.lists (cacheCell nu), log.handed, log.passed⟩ := by
  induction hrun with
  | start =>
      rw [h0.list]
      exact ⟨h0, .refl⟩
  | @free log st st' item blocks fuel isVirtual hrun hnode hnew h ih =>
      obtain ⟨hC, hledger⟩ := ih
      have hS := BoundedStack.sound_of_run (by decide) hledger
      rcases free_caches hC hS.nodup hS.bounded hnode hnew h with
        ⟨hroom, hC', rfl⟩ | ⟨hfull, rest, last, hl, hC', rfl⟩
      · rw [hC'.list]
        exact ⟨hC', hledger.tail (.push hnew hroom)⟩
      · rw [hC'.list]
        exact ⟨hC', hledger.tail (.drop hnew hfull hl)⟩
  | @alloc log st st' ret found lvl order depth fuel para hrun h ih =>
      obtain ⟨hC, hledger⟩ := ih
      cases hl : st.lists (cacheCell nu) with
      | nil =>
          rw [hl] at hC hledger
          have hC' := Vacant.missed hC h
          rw [if_pos rfl, hC'.list]
          exact ⟨hC', hledger⟩
      | cons item rest =>
          have hnd := (BoundedStack.sound_of_run (by decide) hledger).nodup
          rw [hl] at hC hledger hnd
          obtain ⟨st1, hhit, hC', -⟩ := alloc_hits hC hnd
          rw [hhit, Option.some.injEq, Prod.mk.injEq, Prod.mk.injEq] at h
          obtain ⟨rfl, -, rfl⟩ := h
          rw [if_neg (List.cons_ne_nil item rest), hC'.list]
          exact ⟨hC', hledger.tail (.pop rfl)⟩

end Steps

/-- **The cache neither loses nor doubles an item, and stays bounded**: in every run that starts with
    an empty cache. -/
theorem lruCache_right {env : ChainEnv} {s : Searches} {nu : Nat} {start st : State} {log : CacheLog}
    (h0 : Vacant nu start) (hrun : CacheRun env s nu start log st) : CacheRight env s nu log st := by
  obtain ⟨hC, hledger⟩ := hrun.ledger h0
  have hS := BoundedStack.sound_of_run (by decide) hledger
  have hnd := hS.nodup
  refine ⟨hC.count, hS.bounded,
    fun fuel item hnode _ hroom => ⟨_, free_room hC hroom fuel hnode⟩, hS.whole,
    fun hne lvl order depth fuel para => ?_,
    fun fuel isVirtual item st' blocks hnode hnew h j hj => ?_⟩
  · obtain ⟨item, rest, hl⟩ := List.exists_cons_of_ne_nil hne
    have hlatest := hS.head_latest hl
    have hmem : item ∈ st.lists (cacheCell nu) := hl ▸ List.mem_cons_self
    rw [hl] at hC hnd
    obtain ⟨st1, hhit, -, hnodes⟩ := alloc_hits hC hnd
    exact ⟨st1, item, hhit, hmem, hlatest, hnodes⟩
  · rcases free_caches hC hnd hS.bounded hnode hnew h with
      ⟨-, -, rfl⟩ | ⟨hfull, rest, last, hl, -, rfl⟩
    · cases hj
    · obtain rfl := List.mem_singleton.mp hj
      refine ⟨?_, hl ▸ List.mem_append_right _ List.mem_cons_self, hS.last_oldest hnew hl⟩
      have hlt := hS.bounded
      rw [List.length_cons]
      exact Nat.le_antisymm hlt hfull

theorem reverse_range_succ (n : Nat) :
    (List.range (n + 1)).reverse = n :: (List.range n).reverse := by
  rw [List.range_succ, List.reverse_append]
  rfl

/-- **A run of frees with room**, of the descriptors from 0 on. -/
theorem CacheRun.filled {env : ChainEnv} {s : Searches} {nu : Nat} {start : State}
    (h0 : Vacant nu start) (hnode : ∀ i, getItemNode (start.items i).flags = nu) (n : Nat)
    (hn : n < lruCacheMaxItems) :
    ∃ st, CacheRun env s nu start ⟨(List.range n).reverse, [], []⟩ st ∧
      CacheIs nu (List.range n).reverse st ∧ st.tables = start.tables ∧ st.nodes = start.nodes ∧
      ∀ i, (st.items i).flags = (start.items i).flags := by
  induction n with
  | zero => exact ⟨start, .start, h0, rfl, rfl, fun _ => rfl⟩
  | succ n ih =>
      obtain ⟨st, hrun, hC, ht, hns, hf⟩ := ih (Nat.lt_of_succ_lt hn)
      have hlen : (List.range n).reverse.length = n := by simp
      have hnew : n ∉ (List.range n).reverse := by simp
      have hnode' : getItemNode (st.items n).flags = nu := by rw [hf, hnode]
      have hstep := hrun.free 1 false hnode' (by rw [hC.list]; exact hnew)
        (free_room hC (by rw [hlen]; exact hn) 1 hnode')
      rw [reverse_range_succ]
      refine ⟨_, hstep, hC.pushed (by rw [hlen]; exact Nat.lt_of_succ_lt hn), ht, hns, fun i => ?_⟩
      rw [← hf, State.countInc_items, State.pushHead_items]
      split
      · next e => rw [e]
      · rfl

/-- Zeroed, with blocks of order 0 on the top level of every node. -/
def oneOrder : State :=
  { zeroed with tables := { zeroed.tables with phyGroupOrder := fun _ => 1 } }

theorem oneOrder_vacant (nu : Nat) : Vacant nu oneOrder :=
  ⟨rfl, rfl, fun _ => iff_of_false (fun h => by cases h) List.not_mem_nil⟩

/-- 1024 items freed, so that the first one is passed on, and the last one handed out again. -/
theorem lruCache_cycle :
    ∃ st, CacheRight emptySlab noSearch 0 ⟨(List.range 1024).reverse, [1023], [0]⟩ st := by
  have hnode : ∀ i, getItemNode (oneOrder.items i).flags = 0 := fun _ => by
    show getItemNode 0#64 = 0
    decide
  obtain ⟨st, hrun, hC, ht, hns, hf⟩ :=
    @CacheRun.filled emptySlab noSearch 0 oneOrder (oneOrder_vacant 0) hnode 1023 (by decide)
  have hlen : (List.range 1023).reverse.length = 1023 := by simp
  have hnew : 1023 ∉ (List.range 1023).reverse := by simp
  have hnode' : getItemNode (st.items 1023).flags = 0 := by rw [hf, hnode]
  have hplace : BlockPlace st .lrutype 0 := by
    have h0 : BlockPlace oneOrder .lrutype 0 :=
      ⟨Nat.le_refl 0, fun _ => ⟨0, rfl, by decide, by decide, by decide, by decide, by decide⟩⟩
    exact h0.congr (hf 0) hns ht
  have hnd : (List.range 1023).reverse.Nodup := List.nodup_reverse.mpr List.nodup_range
  -- the list of 1024 items ends with the first one freed
  have hl : 1023 :: (List.range 1023).reverse =
      (1023 :: ((List.range 1022).map Nat.succ).reverse) ++ [0] := by
    rw [List.range_succ_eq_map, List.reverse_cons]
    rfl
  obtain ⟨st1, hevict⟩ := free_evicts hC hnd hnew (by rw [hlen]; rfl) hnode' hl hplace 0
  have hrun1 := hrun.free 1 false hnode' (by rw [hC.list]; exact hnew) hevict
  have hC1 : CacheIs 0 (1023 :: ((List.range 1022).map Nat.succ).reverse) st1 := by
    rcases free_caches hC hnd (by rw [hlen]; decide) hnode' hnew hevict with
      ⟨hroom, -⟩ | ⟨-, rest, last, hl', hC1, -⟩
    · rw [hlen] at hroom
      exact absurd hroom (by decide)
    · rw [hl] at hl'
      rwa [(List.append_inj' hl' rfl).1]
  have hnd1 : (1023 :: ((List.range 1022).map Nat.succ).reverse).Nodup :=
    (List.nodup_append.mp (hl ▸ List.nodup_cons.mpr ⟨hnew, hnd⟩)).1
  obtain ⟨st2, hhit, -⟩ :=
    @alloc_hits emptySlab noSearch 0 3 0 0 0 _ st1 1023 (nestedPara false) hC1 hnd1
  have hrun2 := hrun1.alloc 3 0 0 0 (nestedPara false) hhit
  rw [hC1.list, if_neg (List.cons_ne_nil _ _)] at hrun2
  simp only [Option.toList_some, List.tail_cons, List.append_nil] at hrun2
  rw [reverse_range_succ 1023]
  exact ⟨st2, lruCache_right (oneOrder_vacant 0) hrun2⟩

end TensorAlloc
