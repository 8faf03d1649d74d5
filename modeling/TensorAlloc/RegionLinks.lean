/-
  File:      TensorAlloc/RegionLinks.lean
  Subject:   What an allocation and a free on a divided node leave of the blocks beside the one they are
             about: the compound links, the flags, the cache.

  * `removeGroupMigration_aside` -- a search writes no compound link;
  * `dispatch_drawn` -- a dispatch that answers: the block has the size asked for, and the class of the
    cache only where it was asked for it;
  * `dispatch_refused` -- one that does not changes nothing;
  * `free_returned` -- a free takes the links off the block it is given and off no other: what hung
    behind it still does.
-/
import TensorAlloc.Lend
import TensorAlloc.RegionRuns

namespace TensorAlloc

/-! ## 1. A search -/

/-- A block that is in no chain. -/
def Plain (st : State) (i : Item) : Prop :=
  (st.items i).compoundNode = none ∧ (st.items i).compoundHead = false

section Searches

variable {st st' st1 : State} {nu n lvl order oi : Nat} {held : List Item} {mt : MigrationType}
  {item j : Item} {group : Group}

theorem Aside.links (h : Aside st st') (j : Item) : SameLinks st st' j := ⟨h.node j, h.head j⟩

theorem SameLinks.plain (h : SameLinks st st' j) (hp : Plain st j) : Plain st' j :=
  ⟨h.1.trans hp.1, h.2.trans hp.2⟩

theorem aside_split2 (st : State) (size : Int) (k : Nat) :
    Aside st (split2GroupMigration st group item size k mt lvl) := by
  unfold split2GroupMigration
  exact (aside_pushHead _ _ _).trans ((aside_modFlags _ _ _).trans (aside_countInc _ _))

theorem aside_splitLoop (k : Nat) (st : State) :
    Aside st (splitLoop group item lvl order mt k st) := by
  induction k generalizing st with
  | zero => exact Aside.refl st
  | succ k ih =>
      rw [splitLoop]
      exact (aside_split2 st _ _).trans (ih _)

/-- **A search writes no compound link**, of the block it takes or of any other. -/
theorem removeGroupMigration_aside {isTable : Bool} {found : Option Item}
    (h : removeGroupMigration st group lvl order mt isTable = some (st', found)) : Aside st st' := by
  obtain ⟨rfl, -⟩ | ⟨m, oi, i, st1, -, -, -, hd, -, rfl⟩ := removeGroupMigration_cases h
  · exact Aside.refl _
  · have hcut := ((aside_listDel hd).trans (aside_countDec _ (.groupCell group mt oi))).trans
      (@aside_splitLoop lvl order mt i group (oi - order) _)
    unfold splitGroupMigration
    exact hcut.trans (aside_modFlags _ i _)

/-- A block drawn: no compound link is written; what was in use keeps its flags, and so does what stays
    in the cache. -/
structure Drawn (st st' : State) (nu : Nat) (held : List Item) (item : Item) : Prop where
  links : ∀ j, SameLinks st st' j
  flags : ∀ j, j ∈ held ∨ j ∈ st.lists (cacheCell nu) → j ≠ item →
    (st'.items j).flags = (st.items j).flags
  cache : ∀ j ∈ st'.lists (cacheCell nu), j ∈ st.lists (cacheCell nu) ∧ j ≠ item

/-- A removal draws a block. -/
theorem TakenOff.drawn (h : TakenOff st st' nu lvl order mt oi item) (hS : Sound st nu held n)
    (hH : HalvesClear st held lvl order mt oi item)
    (hr : removeGroupMigration st group lvl order mt false = some (st', some item)) :
    Drawn st st' nu held item := by
  refine ⟨(removeGroupMigration_aside hr).links, fun j hj _ => by rw [h.aside hS hH hj], fun j hj => ?_⟩
  refine ⟨h.lists (cacheCell nu) (fun k => by simp) ▸ hj, ?_⟩
  rintro rfl
  have ho := (h.linked.mem j _).mpr hj
  rw [h.off] at ho
  cases ho

/-- What is written to the block itself is not looked at, its links apart. -/
theorem Drawn.written (h : Drawn st st1 nu held item) {f : ItemStruct → ItemStruct}
    (hn : (f (st1.items item)).compoundNode = (st1.items item).compoundNode)
    (hh : (f (st1.items item)).compoundHead = (st1.items item).compoundHead) :
    Drawn st (st1.modItem item f) nu held item := by
  refine ⟨fun j => (h.links j).trans ⟨st1.modItem_keeps j ItemStruct.compoundNode hn,
    st1.modItem_keeps j ItemStruct.compoundHead hh⟩, fun j hj hne => ?_, h.cache⟩
  rw [State.modItem_items, if_neg hne]
  exact h.flags j hj hne

theorem Drawn.stated (h : Drawn st st1 nu held item) (state : ItemState) :
    Drawn st (st1.setState item state) nu held item :=
  h.written (f := fun x => { x with flags := setItemState x.flags state.number }) rfl rfl

theorem Drawn.congr {st0 : State} (h : Drawn st0 st' nu held item) (hi : st0.items = st.items)
    (hl : st0.lists = st.lists) : Drawn st st' nu held item := by
  obtain ⟨hlinks, hflags, hcache⟩ := h
  unfold SameLinks at hlinks
  rw [hi] at hlinks hflags
  rw [hl] at hflags hcache
  exact ⟨hlinks, hflags, hcache⟩

/-- The state of a block is no part of its size. -/
theorem blockSize_stated (st : State) (i : Item) (state : ItemState) :
    blockSize (st.setState i state) i = blockSize st i :=
  (blockSize_congr (setState_items st i state i).2.2).1

/-- A block off the cache: only its link to the list goes. -/
theorem cache_drawn (hL : st.Linked) (hi : item ∈ st.lists (cacheCell nu))
    (hd : listDel st item = some st1) (held : List Item) :
    Drawn st (st1.countDec (cacheCell nu)) nu held item ∧
      (st1.items item).flags = (st.items item).flags := by
  obtain ⟨hother, -, hflags, -⟩ := listDel_items hd
  have haside := aside_listDel hd
  rw [listDel_of ((hL.mem item _).mpr hi), Option.some.injEq] at hd
  refine ⟨⟨haside.links, fun j _ hne => congrArg ItemStruct.flags (hother j hne), fun j hj => ?_⟩, hflags⟩
  rw [State.countDec_lists, ← hd, State.modItem_lists, State.setList_lists, if_pos rfl] at hj
  obtain ⟨hne, hj⟩ := (hL.nodup (cacheCell nu)).mem_erase_iff.mp hj
  exact ⟨hj, hne⟩

/-- The block taken has the size asked for. -/
theorem TakenOff.size (h : TakenOff st st' nu lvl order mt oi item) (hlvl : lvl < groupLvlNum) :
    blockSize st' item = unitItems lvl order := by
  obtain ⟨hl, ho⟩ := h.marked hlvl
  unfold blockSize
  rw [hl, ho]

end Searches

/-! ## 2. A dispatch -/

section Dispatches

variable {st st' : State} {nu n lvl order fuel depth : Nat} {held : List Item} {mt : MigrationType}
  {item : Item} {s : Searches} {env : StreamEnv} {isCombined : Bool}

/-- From the lists of its class. -/
theorem Region.own_drawn (hR : Region st nu held n) (hlvl : lvl < groupLvlNum) (hmt : mt ≠ .movable)
    (h : forwardRemoveGroupMigration st lvl mt order (st.nodes (.phy nu)).dim =
      some (st', some item)) :
    Drawn st st' nu held item ∧ blockSize st' item = unitItems lvl order := by
  obtain ⟨oi, ⟨⟨m, hm, hlt⟩, hF⟩, -, htaken⟩ := forwardRemove_takes hR.sound hlvl h
  have hoi : oi ≤ maxItemOrder := Nat.le_of_lt_succ (Nat.lt_of_lt_of_le hlt (maxOrder_le hR.node hm))
  have hH : HalvesClear st held lvl order mt oi item :=
    hR.halvesClear hlvl hoi (searchList_mem hF.found) (.inr (if_neg hmt))
  rcases forwardRemove_cases h with ⟨he, -⟩ | ⟨cur, -, hr⟩
  · cases he
  · exact ⟨(htaken hH).drawn hR.sound hH hr, (htaken hH).size hlvl⟩

/-- From the MOVABLE lists. -/
theorem Region.movable_drawn (hR : Region st nu held n) (hlvl : lvl < groupLvlNum)
    (hM : UnitServes env.itemarrayPrev st nu lvl order)
    (h : forwardSearch (s.withSparse env (fuel + 1)) st (.phy nu) lvl .movable order
      (nestedPara isCombined) = some (st', some item)) :
    Drawn st st' nu held item ∧ blockSize st' item = unitItems lvl order := by
  obtain ⟨oi, i, st1, hOff, hH, -, hr, hsearch⟩ :=
    @Region.movable_found st nu n lvl order fuel held s env isCombined hR hlvl hM
  rw [hsearch] at h
  cases h
  have hm : marks ((st1.modItem item fun x => { x with prev := none }).items item) =
      marks (st1.items item) := st1.modItem_keeps item marks rfl
  exact ⟨(hOff.drawn hR.sound hH hr).written rfl rfl, (blockSize_congr hm).1.trans (hOff.size hlvl)⟩

/-- **What a dispatch that answers leaves.** -/
structure Dispatched (st st' : State) (nu : Nat) (held : List Item) (lvl order : Nat)
    (mt : MigrationType) (item : Item) : Prop where
  drawn : Drawn st st' nu held item
  size : blockSize st' item = unitItems lvl order ∨ mt = .lrutype ∧ item ∈ st.lists (cacheCell nu) ∧
    blockSize st' item = blockSize st item
  cached : freeClass st' item = some .lrutype → mt = .lrutype

/-- **A dispatch that answers.** -/
theorem dispatch_drawn (hR : Region st nu held n) (hA : AllocMeets env.itemarrayPrev st nu lvl order mt)
    (h : dispatchGroup (s.withSparse env (fuel + 1)) (depth + 2) st (.phy nu) lvl mt order
      (nestedPara isCombined) = some (st', .noError, some item)) :
    Dispatched st st' nu held lvl order mt item := by
  rcases dispatch_ways hR hA h with ⟨hmt, hi, st1, hd, rfl⟩ |
    ⟨st0, st1, st2, state, ⟨hstart, hitems, hlists⟩, hs, hst2, rfl, hclass⟩
  · obtain ⟨hdrawn, hflags⟩ := cache_drawn hR.linked hi hd held
    have hm : marks ((st1.countDec (cacheCell nu)).items item) = marks (st.items item) := by
      unfold marks
      rw [State.countDec_items, hflags]
    exact ⟨hdrawn, .inr ⟨hmt, hi, (blockSize_congr hm).1⟩, fun _ => hmt⟩
  · have hfound : Drawn st0 st1 nu held item ∧ blockSize st1 item = unitItems lvl order := by
      rcases hs with ⟨hm, hs⟩ | ⟨hM, hs⟩
      · exact hstart.region.own_drawn hA.level hm hs
      · exact hstart.region.movable_drawn hA.level hM hs
    have hdebit : Drawn st0 (debited st1 nu lvl order) nu held item :=
      ⟨hfound.1.links, hfound.1.flags, hfound.1.cache⟩
    have hcounted : Drawn st0 st2 nu held item ∧ blockSize st2 item = unitItems lvl order := by
      rcases hst2 with rfl | ⟨first, rfl⟩
      · exact ⟨hdebit, hfound.2⟩
      · exact ⟨hdebit.stated first, (blockSize_stated _ _ first).trans hfound.2⟩
    refine ⟨(hcounted.1.stated state).congr hitems hlists,
      .inl ((blockSize_stated _ _ state).trans hcounted.2), fun hl => hclass ?_⟩
    rw [freeClass_setState] at hl
    exact hl

/-- **A dispatch that does not answer changes nothing**: where the MOVABLE lists are asked they serve. -/
theorem dispatch_refused {ret : Status} {i : Option Item} (hR : Region st nu held n)
    (hA : AllocMeets env.itemarrayPrev st nu lvl order mt) (hret : ret ≠ .noError)
    (h : dispatchGroup (s.withSparse env (fuel + 1)) (depth + 2) st (.phy nu) lvl mt order
      (nestedPara isCombined) = some (st', ret, i)) : st' = st := by
  cases hc : cachedHead st (.phy nu) mt with
  | some head =>
      rw [dispatch_cached hc, Option.map_eq_some_iff] at h
      obtain ⟨st1, -, he⟩ := h
      cases he
      exact absurd rfl hret
  | none =>
      rw [dispatch_forward hc hR.node.mode, Option.bind_eq_some_iff] at h
      obtain ⟨⟨st1, found⟩, hs, h⟩ := h
      cases found with
      | some item =>
          cases h
          exact absurd rfl hret
      | none =>
          by_cases hm : mt = .movable
          · subst hm
            obtain ⟨_, _, _, -, -, -, -, hfound⟩ := @Region.movable_found st nu n lvl order fuel held s env
              isCombined hR hA.level (hA.migrated hc (fun ho => ho.1 rfl) (by decide))
            rw [hfound] at hs
            cases hs
          · have hsame := hs
            rw [forwardSearch, if_neg hm] at hsame
            obtain rfl := forwardRemove_none hsame
            dsimp only at h
            split at h
            · cases h
              rfl
            · by_cases hrec : mt = .reclaimable
              · rw [dispatchGroupMigration, if_pos (.inl hrec)] at h
                cases h
                rfl
              · have hmt : mt = .lrutype ∨ mt = .unmovable := by
                  cases mt <;> simp_all
                have hown : ¬ OwnServes st1 nu lvl order mt := fun ho => by
                  obtain ⟨st2, i, hr⟩ := (ownServes_iff hR.sound hA.level hm).mp ho
                  rw [hsame] at hr
                  cases hr
                obtain ⟨_, _, _, -, -, -, -, hfound⟩ := @Region.movable_found _ nu n lvl order fuel held s
                  env isCombined (hR.migrateStart mt).1.region hA.level (hA.migrated hc hown hrec)
                rw [dispatchGroupMigration_migrates hmt hR.node.mode] at h
                rw [show nestedPara (nestedPara isCombined).isCombined = nestedPara isCombined from rfl,
                  hfound] at h
                cases h
                exact absurd rfl hret

end Dispatches

/-! ## 3. A free -/

section Frees

variable {st st' : State} {nu n fuel : Nat} {held freed : List Item} {mt : MigrationType} {item : Item}

/-- A block given back: no other block's links are written, its own are gone; what stays in use keeps its
    flags, and so does what was in the cache. -/
structure Returned (st st' : State) (nu : Nat) (held : List Item) (mt : MigrationType) (item : Item) :
    Prop where
  links : ∀ j, j ≠ item → SameLinks st st' j
  plain : (compoundItem st item = false → (st.items item).compoundNode = none) → Plain st' item
  flags : ∀ j ∈ held.erase item, (st'.items j).flags = (st.items j).flags
  cache : ∀ j ∈ st'.lists (cacheCell nu), (j = item ∧ mt = .lrutype ∨ j ∈ st.lists (cacheCell nu)) ∧
    (st'.items j).flags = (st.items j).flags

/-- The head's links are taken off, and no other's. -/
theorem compoundRemoveHead_plain (st : State) (head : Item)
    (h : compoundItem st head = false → (st.items head).compoundNode = none) :
    Plain (compoundRemoveHead st head).1 head := by
  unfold compoundRemoveHead
  split
  · next hc => exact ⟨h hc, hc⟩
  · exact ⟨by rw [State.modItem_items, if_pos rfl], by rw [State.modItem_items, if_pos rfl]⟩

/-- **A block back to the lists of a class.** -/
theorem dequeue_returned (hR : Region st nu held n) (hi : item ∈ held) (hmt : mt ≠ .movable)
    (hB : BuddiesListed st nu (blockLvl st item) (blockOrder st item) mt
      (levelMaxOrder st nu (blockLvl st item)) ((blockLvl st item : Int) = st.tables.phyGroupLvl nu) item)
    (h : dequeueGroupMigration .listFirst mt fuel st item = some (st', freed)) :
    Returned st st' nu held mt item := by
  obtain ⟨st1, hback, rfl⟩ := dequeue_putsBack hR.sound hi hmt hB h
  obtain ⟨hitems, hlists, -⟩ := counted_rest mt item st st1
  have hlinks : ∀ j, SameLinks (compoundRemoveHead st item).1 (counted mt item st st1) j := by
    intro j
    cases fuel with
    | zero => cases h
    | succ fuel =>
        rw [dequeueGroupMigration_once] at h
        obtain ⟨⟨st2, i⟩, hf, he⟩ := Option.map_eq_some_iff.mp h
        have hsame := (freeGroupMigration_aside hf).links j
        have he := (Prod.mk.inj he).1
        rw [← he]
        unfold SameLinks at hsame ⊢
        rw [(counted_rest mt item st st2).1]
        exact hsame
  refine ⟨fun j hj => ?_, fun hp => (hlinks item).plain (compoundRemoveHead_plain st item hp),
    fun j hj => ?_, fun j hj => ?_⟩
  · have hsame := hlinks j
    unfold SameLinks at hsame ⊢
    rw [(compoundRemoveHead_links st item j).2.2 hj] at hsame
    exact hsame
  · rw [hitems, hback.aside hR.sound hi (.inl hj)]
  · rw [hlists, hback.lists _ fun k => by simp] at hj
    exact ⟨.inr hj, by rw [hitems, hback.aside hR.sound hi (.inr hj)]⟩

/-- Into the cache: nothing but its link to the list is written. -/
theorem cached_kept (st : State) (nu : Nat) (item j : Item) :
    SameLinks st ((st.pushHead (cacheCell nu) item).countInc (cacheCell nu)) j ∧
      (((st.pushHead (cacheCell nu) item).countInc (cacheCell nu)).items j).flags = (st.items j).flags ∧
      (j ∈ ((st.pushHead (cacheCell nu) item).countInc (cacheCell nu)).lists (cacheCell nu) →
        j = item ∨ j ∈ st.lists (cacheCell nu)) := by
  refine ⟨((aside_pushHead st _ item).trans (aside_countInc _ _)).links j,
    st.pushHead_keeps (cacheCell nu) item j ItemStruct.flags rfl, fun hj => ?_⟩
  rw [State.countInc_lists, State.pushHead_lists, if_pos rfl] at hj
  exact List.mem_cons.mp hj

/-- **A free**: into the cache, where the coldest may go to the lists for it, or to the lists. The cache
    holds single blocks. -/
theorem free_returned (hR : Region st nu held n) (hi : item ∈ held) (hM : MergesOwn st nu mt item)
    (hcache : ∀ j ∈ st.lists (cacheCell nu), Plain st j) (hlru : mt = .lrutype → Plain st item)
    (h : findGroupReversed .listFirst fuel st mt item false = some (st', freed)) :
    Returned st st' nu held mt item := by
  rcases findGroupReversed_cases (hR.own item (.inl hi)).node (hR.off item hi) h with
    ⟨hmt, hcached⟩ | ⟨hmt, hq⟩
  · have hkept := cached_kept st nu item
    have hc := hR.cached hi
    generalize (st.pushHead (cacheCell nu) item).countInc (cacheCell nu) = st0 at hkept hc hcached
    rcases hcached with rfl | ⟨tmp, st1, freed', hmem, hd, hq⟩
    · exact ⟨fun j _ => (hkept j).1, fun _ => (hkept item).1.plain (hlru hmt), fun j _ => (hkept j).2.1,
        fun j hj => ⟨((hkept j).2.2 hj).imp_left fun e => ⟨e, hmt⟩, (hkept j).2.1⟩⟩
    · -- the coldest block is one of the cache, and single
      have htmp : Plain st tmp := by
        rcases (hkept tmp).2.2 hmem with rfl | hin
        · exact hlru hmt
        · exact hcache tmp hin
      obtain ⟨hdrawn, hflags⟩ := @cache_drawn st0 st1 nu tmp hc.region.linked hmem hd (held.erase item)
      have hu := hc.region.uncached hmem hd
      have hret := dequeue_returned hu.region (List.mem_cons_self ..) (by decide)
        (fun n hn => absurd rfl (hn n (Nat.le_refl n)).type) hq
      have hto : ∀ j, SameLinks st (st1.countDec (cacheCell nu)) j := fun j =>
        (hkept j).1.trans (hdrawn.links j)
      have hflag : ∀ j, ((st1.countDec (cacheCell nu)).items j).flags = (st.items j).flags := by
        intro j
        rw [← (hkept j).2.1]
        by_cases hj : j = tmp
        · rw [hj]
          exact hflags
        · rw [State.countDec_items, (listDel_items hd).1 j hj]
      have hlinks : ∀ j, SameLinks st st' j := by
        intro j
        by_cases hj : j = tmp
        · subst hj
          have hp := hret.plain fun _ => ((hto j).plain htmp).1
          exact ⟨hp.1.trans htmp.1.symm, hp.2.trans htmp.2.symm⟩
        · exact (hto j).trans (hret.links j hj)
      refine ⟨fun j _ => hlinks j, fun _ => (hlinks item).plain (hlru hmt), fun j hj => ?_, fun j hj => ?_⟩
      · rw [← hflag j]
        exact hret.flags j (by rw [List.erase_cons_head]; exact hj)
      · obtain ⟨hin, hsame⟩ := hret.cache j hj
        refine ⟨?_, hsame.trans (hflag j)⟩
        have hin0 : j ∈ st0.lists (cacheCell nu) := by
          rcases hin with ⟨rfl, -⟩ | hin
          · exact hmem
          · exact (hdrawn.cache j hin).1
        exact ((hkept j).2.2 hin0).imp_left fun e => ⟨e, hmt⟩
  · refine dequeue_returned hR hi ?_ (hM hmt) hq
    rcases hmt with rfl | rfl <;> decide

end Frees

end TensorAlloc
